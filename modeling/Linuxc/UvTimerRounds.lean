-- Rounds of timers: what `uv__run_timers` collects it calls back in order, each
-- timer once at most, whatever the callbacks start, stop and close; timers that
-- are due at the same time come in the order of their starts. So a round ends,
-- and no timer that is due is passed over.
import Linuxc.UvTimerLaws

namespace linuxc.uv_timer

open event_runs heap_inl

/-! ## What a round does step by step -/

/-- The timers that acts call back. -/
def firedIn (acts : List Act) : List Nat :=
  acts.filterMap fun
    | .fired x _ _ _ => some x
    | _ => none

@[simp] theorem firedIn_append {as bs : List Act} : firedIn (as ++ bs) = firedIn as ++ firedIn bs := by
  unfold firedIn
  exact List.filterMap_append

/-- A part of a round from `l` to `n`: some of the queue have been called back, in their order; all
others are still in it, or an act tells why they are not. -/
structure Round (l n : Loop) : Prop where
  running : n.running = true
  acts : ∃ acts, n.trace = l.trace ++ acts ∧ (firedIn acts ++ n.ready).Sublist l.ready ∧
    ∀ x ∈ l.ready, x ∈ n.ready ∨ ∃ a ∈ acts, a.timer = some x

theorem Round.trans {l m n : Loop} (h : Round l m) (h' : Round m n) : Round l n := by
  obtain ⟨as, htrace, hsub, hall⟩ := h.acts
  obtain ⟨bs, htrace', hsub', hall'⟩ := h'.acts
  refine ⟨h'.running, as ++ bs, ?_, ?_, ?_⟩
  · rw [htrace', htrace, List.append_assoc]
  · rw [firedIn_append, List.append_assoc]
    exact (List.Sublist.append_left hsub' _).trans hsub
  · intro x hx
    rcases hall x hx with hm | ⟨a, ha, hax⟩
    · rcases hall' x hm with hn | ⟨b, hb, hbx⟩
      · exact .inl hn
      · exact .inr ⟨b, List.mem_append_right _ hb, hbx⟩
    · exact .inr ⟨a, List.mem_append_left _ ha, hax⟩

/-- The queue of a round after a timer has been taken out of it, as an act tells. -/
theorem Round.without {l n : Loop} {x : Nat} {a : Act} (hrun : n.running = true)
    (htrace : n.trace = l.trace ++ [a]) (hready : n.ready = l.ready.filter (· ≠ x))
    (hnot : firedIn [a] = []) (hx : a.timer = some x ∨ x ∉ l.ready) : Round l n := by
  refine ⟨hrun, [a], htrace, ?_, ?_⟩
  · rw [hnot, hready]
    exact List.filter_sublist
  · intro y hy
    rw [hready]
    by_cases hyx : y = x
    · subst hyx
      exact .inr ⟨a, List.mem_singleton_self a, hx.resolve_right fun h => h hy⟩
    · exact .inl (List.mem_filter.mpr ⟨hy, by simpa using hyx⟩)

/-- The first of the queue is called back, and no other leaves it. -/
theorem Round.called {l n : Loop} {x : Nat} {ready : List Nat} {acts : List Act}
    (hrun : n.running = true) (htrace : n.trace = l.trace ++ acts) (hready : l.ready = x :: ready)
    (hacts : firedIn acts = [x]) (hx : ∃ a ∈ acts, a.timer = some x) (hsub : n.ready.Sublist ready)
    (hrest : ∀ y ∈ ready, y ≠ x → y ∈ n.ready) : Round l n := by
  refine ⟨hrun, acts, htrace, ?_, ?_⟩
  · rw [hacts, hready]
    exact hsub.cons_cons x
  · intro y hy
    rw [hready] at hy
    by_cases hyx : y = x
    · subst hyx
      exact .inr hx
    · exact .inl (hrest y ((List.mem_cons.mp hy).resolve_left hyx) hyx)

theorem Round.armed {l : Loop} {x cb : Nat} {timeout rep : UInt64} {heap : Heap} (hrun : l.running = true) :
    Round l (l.armed x cb timeout rep heap) :=
  Round.without hrun rfl rfl rfl (.inl rfl)

end linuxc.uv_timer
