-- The laws of timers, for every run: the heap is always the heap of the active
-- timers; a timer waits from its start until it is stopped, closed or called
-- back, and is never called back too early; and the loop does not sleep past
-- the time of a timer.
import Mathlib.Tactic.Cases
import Linuxc.UvTimerSteps

namespace linuxc.uv_timer

open event_runs heap_inl

/-! ## Closing -/

section closing

variable {l l' : Loop} {e : Event} {x y cb : Nat} {timeout rep : UInt64} {heap : Heap}

end closing

/-- In every state that a run reaches, all is well. -/
theorem sound_run {es : List Event} {l : Loop} (h : run step start es = .ok l) : Sound l :=
  run_keeps sound_start (fun _ e _ hs hstep => (of_gives (moved hs e) hstep).1) h

/-- The timer that an act is about. A refusal changes nothing. -/
def Act.timer : Act → Option Nat
  | .started x _ _ _ => some x
  | .refused _ _ => none
  | .stopped x => some x
  | .closing x => some x
  | .fired x _ _ _ => some x

/-- The timer whose wait an act begins or ends. When a timer has been started again for its callback,
the callback does neither: it ends an earlier wait, which the start has ended already. -/
def Act.turns : Act → Option Nat
  | .fired _ _ _ true => none
  | a => a.timer

/-- The last act that began or ended a wait of a timer. -/
def lastOf (x : Nat) (trace : List Act) : Option Act :=
  (trace.filter fun a => a.turns = some x).getLast?

/-- The timer has been started since it was last stopped, closed or called back. -/
def Begun (x : Nat) (trace : List Act) : Prop :=
  ∃ cb timeout now, lastOf x trace = some (.started x cb timeout now)

section last

variable {x y : Nat} {a : Act} {trace : List Act}

/-- An act about another timer does not begin or end a wait of this one. -/
theorem turns_of_timer (ha : a.timer ≠ some x) : a.turns ≠ some x := by
  unfold Act.turns
  split
  · simp
  · exact ha

theorem lastOf_other {acts : List Act} (ha : ∀ a ∈ acts, a.turns ≠ some x) :
    lastOf x (trace ++ acts) = lastOf x trace := by
  have hnone : acts.filter (fun a => a.turns = some x) = [] := by
    apply List.filter_eq_nil_iff.mpr
    intro a hmem
    simpa using ha a hmem
  unfold lastOf
  rw [List.filter_append, hnone, List.append_nil]

theorem lastOf_self (ha : a.turns = some x) : lastOf x (trace ++ [a]) = some a := by
  unfold lastOf
  rw [List.filter_append, List.filter_singleton]
  simp [ha]

end last

/-- How many starts there are. -/
def starts (trace : List Act) : Nat :=
  tally (fun
    | .started _ _ _ _ => 1
    | _ => 0) trace

/-- What a step does to one timer: nothing that matters, a start (perhaps with a callback after it, of
the wait before), or an end of its wait. -/
inductive Fate (l l' : Loop) (x : Nat) : Prop
  | same (acts : List Act) (htrace : l'.trace = l.trace ++ acts) (hacts : ∀ a ∈ acts, a.timer ≠ some x)
    (hwaits : l'.Waits x ↔ l.Waits x)
    (hfields : l.Waits x → (l'.timers x).timer_cb = (l.timers x).timer_cb ∧
      (l'.timers x).timeout = (l.timers x).timeout ∧ (l'.timers x).start_id = (l.timers x).start_id)
  | begun (own : List Act) (cb : Nat) (timeout : UInt64)
    (htrace : l'.trace = l.trace ++ .started x cb timeout l'.time :: own) (hown : ∀ a ∈ own, a.turns = none)
    (hwaits : l'.Waits x) (hcb : (l'.timers x).timer_cb = some cb)
    (htimeout : (l'.timers x).timeout = clampedTimeout l'.time timeout)
    (hid : (l'.timers x).start_id = l.timer_counter)
  | ended (a : Act) (htrace : l'.trace = l.trace ++ [a]) (ha : a.turns = some x)
    (hend : ∀ cb timeout now, a ≠ .started x cb timeout now) (hwaits : ¬ l'.Waits x)

section fates

variable {l l' : Loop} {e : Event} {x y cb : Nat} {timeout rep : UInt64} {heap : Heap}

theorem waits_log {acts : List Act} : (l.log acts).Waits x ↔ l.Waits x := Iff.rfl

theorem waits_setTimer {t : Timer} (ht : t.active = (l.timers y).active) :
    (l.setTimer y t).Waits x ↔ l.Waits x := by
  unfold Loop.Waits
  by_cases hxy : x = y
  · rw [hxy, setTimer_self, ht]
    rfl
  · rw [setTimer_timers hxy]
    rfl

theorem about_other {a : Act} (ha : a.timer = some y) (hxy : x ≠ y) : ∀ b ∈ [a], b.timer ≠ some x := by
  intro b hb
  rw [List.mem_singleton.mp hb, ha]
  simpa using Ne.symm hxy

theorem fate_armed : Fate l (l.armed y cb timeout rep heap) x := by
  by_cases hxy : x = y
  · subst hxy
    refine .begun [] cb timeout rfl (by simp) (waits_armed.mpr (.inl rfl)) ?_ ?_ ?_
    · rw [armed_self]
    · rw [armed_self]
      rfl
    · rw [armed_self]
  · refine .same _ rfl (about_other rfl hxy) ?_ ?_
    · rw [waits_armed]
      simp [hxy]
    · rw [armed_timers hxy]
      exact fun _ => ⟨rfl, rfl, rfl⟩

/-- One timer ends its wait, as an act tells; the others do not change. -/
theorem fate_of_end {a : Act} (ha : a.timer = some y) (hturns : a.turns = some y)
    (hend : ∀ cb timeout now, a ≠ .started y cb timeout now) (htrace : l'.trace = l.trace ++ [a])
    (hwaits : ∀ z, l'.Waits z ↔ l.Waits z ∧ z ≠ y) (hfields : ∀ z, z ≠ y → l'.timers z = l.timers z) :
    Fate l l' x := by
  by_cases hxy : x = y
  · subst hxy
    refine .ended a htrace hturns hend ?_
    rw [hwaits]
    simp
  · refine .same _ htrace (about_other ha hxy) ?_ ?_
    · rw [hwaits]
      simp [hxy]
    · rw [hfields x hxy]
      exact fun _ => ⟨rfl, rfl, rfl⟩

/-- Nothing can be seen of the step, and it does not matter to the timer. -/
theorem fate_of_quiet (htrace : l'.trace = l.trace) (hwaits : l'.Waits x ↔ l.Waits x)
    (hfields : l.Waits x → (l'.timers x).timer_cb = (l.timers x).timer_cb ∧
      (l'.timers x).timeout = (l.timers x).timeout ∧ (l'.timers x).start_id = (l.timers x).start_id) :
    Fate l l' x :=
  .same [] (by rw [htrace, List.append_nil]) (by simp) hwaits hfields

theorem waits_popped {ready : List Nat} (hs : Sound l) (hready : l.ready = y :: ready) :
    ({ l with ready } : Loop).Waits x ↔ l.Waits x ∧ x ≠ y := by
  have hnodup := hs.nodup
  have hapart := hs.apart y
  rw [hready] at hnodup hapart
  have hout := (List.nodup_cons.mp hnodup).1
  unfold Loop.Waits
  rw [hready, List.mem_cons]
  by_cases hxy : x = y
  · subst hxy
    simp [hapart, hout]
  · simp [hxy]

theorem fate_fired {ready : List Nat} (hs : Sound l) (hready : l.ready = y :: ready) :
    Fate l ({ l with ready }.log [.fired y cb l.time false]) x :=
  fate_of_end (y := y) rfl rfl (by simp) rfl (fun _ => waits_popped hs hready) fun _ _ => rfl

/-- A start, and the callback of the wait before it. -/
theorem fate_again_fired {ready : List Nat} (hs : Sound l) (hready : l.ready = y :: ready) :
    Fate l (({ l with ready }.armed y cb timeout rep heap).log [.fired y cb l.time true]) x := by
  have htrace : (({ l with ready }.armed y cb timeout rep heap).log [.fired y cb l.time true]).trace =
      l.trace ++ [.started y cb timeout l.time, .fired y cb l.time true] := by
    show l.trace ++ [_] ++ [_] = _
    rw [List.append_assoc]
    rfl
  by_cases hxy : x = y
  · subst hxy
    have hself : (({ l with ready }.armed x cb timeout rep heap).log
        [.fired x cb l.time true]).timers x = { l.timers x with
      active := true, timer_cb := some cb, timeout := clampedTimeout l.time timeout, rep,
      start_id := l.timer_counter } := @armed_self { l with ready } x cb timeout rep heap
    refine .begun [.fired x cb l.time true] cb timeout htrace ?_ ?_ ?_ ?_ ?_
    · intro a ha
      rw [List.mem_singleton.mp ha]
      rfl
    · rw [waits_log, waits_armed]
      exact .inl rfl
    · rw [hself]
    · rw [hself]
      rfl
    · rw [hself]
  · refine .same _ htrace ?_ ?_ ?_
    · intro a ha
      rcases List.mem_cons.mp ha with rfl | ha
      · simpa [Act.timer] using Ne.symm hxy
      · exact about_other rfl hxy a ha
    · rw [waits_log, waits_armed, waits_popped hs hready]
      simp [hxy]
    · intro _
      have hsame : (({ l with ready }.armed y cb timeout rep heap).log
          [.fired y cb l.time true]).timers x = l.timers x :=
        @armed_timers { l with ready } y x cb timeout rep heap hxy
      rw [hsame]
      exact ⟨rfl, rfl, rfl⟩

theorem fate_moved (hs : Sound l) (hm : Moved l e l') : Fate l l' x := by
  cases hm with
  | @init y hnew =>
    have hnot : ¬ l.Waits y := by
      intro hw
      rw [hs.live y hw] at hnew
      cases hnew
    have hsound := sound_init hs hnew
    by_cases hxy : x = y
    · subst hxy
      refine fate_of_quiet rfl ?_ fun hw => absurd hw hnot
      constructor
      · rintro (hw | hw)
        · unfold Loop.uvTimerInit at hw
          rw [setTimer_self] at hw
          cases hw
        · exact .inr hw
      · exact fun hw => absurd hw hnot
    · have hsame : (l.uvTimerInit y).timers x = l.timers x := setTimer_timers hxy
      refine fate_of_quiet rfl ?_ ?_
      · unfold Loop.Waits
        rw [hsame]
        rfl
      · rw [hsame]
        exact fun _ => ⟨rfl, rfl, rfl⟩
  | refused => exact .same _ rfl (by simp [Act.timer]) Iff.rfl fun _ => ⟨rfl, rfl, rfl⟩
  | kept => exact fate_of_quiet rfl Iff.rfl fun _ => ⟨rfl, rfl, rfl⟩
  | armed => exact fate_armed
  | @again y heap hclosing =>
    have hnot : ¬ l.Waits y := by
      intro hw
      rw [hs.opened y hw] at hclosing
      cases hclosing
    have hwaits : (l.settled y heap).Waits x ↔ l.Waits x := by
      rw [waits_settled]
      constructor
      · exact fun hw => hw.1
      · intro hw
        refine ⟨hw, ?_⟩
        rintro rfl
        exact hnot hw
    refine fate_of_quiet rfl hwaits fun hw => ?_
    have hxy : x ≠ y := by
      rintro rfl
      exact hnot hw
    rw [settled_timers hxy]
    exact ⟨rfl, rfl, rfl⟩
  | @stopped y heap =>
    exact fate_of_end (y := y) rfl rfl (by simp) rfl (fun z => @waits_settled l y z heap)
      fun z hz => @settled_timers l y z heap hz
  | @setRepeat y rep =>
    refine fate_of_quiet rfl waits_repeats ?_
    rw [repeats_timers]
    exact fun _ => ⟨rfl, rfl, rfl⟩
  | @closed y heap =>
    refine fate_of_end (y := y) rfl rfl (by simp) rfl (fun z => ?_) fun z hz => ?_
    · rw [waits_log, waits_setTimer (by rw [settled_self]), waits_settled]
    · exact (setTimer_timers hz).trans (settled_timers hz)
  | clock => exact fate_of_quiet rfl Iff.rfl fun _ => ⟨rfl, rfl, rfl⟩
  | @collected due l' hidle hc =>
    have hrest := hc.rest
    have htrace : l'.trace = l.trace := by rw [hrest]
    have hready : l'.ready = l.ready ++ due := by rw [hrest]
    refine fate_of_quiet htrace ?_ ?_
    · unfold Loop.Waits
      rw [hc.timers, hready, List.mem_append]
      by_cases hdue : x ∈ due
      · have hactive := ((hc.mem x).mp hdue).1
        simp only [hdue, or_true, true_iff]
        exact .inl hactive
      · rw [if_neg hdue]
        simp [hdue]
    · rw [hc.timers]
      intro _
      split <;> exact ⟨rfl, rfl, rfl⟩
  | fired hready hcb => exact fate_fired hs hready
  | again_fired hready hcb => exact fate_again_fired hs hready
  | finished => exact fate_of_quiet rfl Iff.rfl fun _ => ⟨rfl, rfl, rfl⟩

end fates

/-! ## Starts and callbacks -/

/-- What the last turn says about each timer: one that waits was started last, with its callback and
its timeout, and one that does not wait was not. -/
def Told (l : Loop) : Prop :=
  ∀ x, (l.Waits x ∧ ∃ cb timeout now, lastOf x l.trace = some (.started x cb timeout now) ∧
      (l.timers x).timer_cb = some cb ∧ (l.timers x).timeout = clampedTimeout now timeout) ∨
    (¬ l.Waits x ∧ ¬ Begun x l.trace)

theorem told_moved {l l' : Loop} {e : Event} (hs : Sound l) (ht : Told l) (hm : Moved l e l') : Told l' := by
  intro x
  cases fate_moved (x := x) hs hm with
  | same acts htrace hacts hwaits hfields =>
    have hlast : lastOf x l'.trace = lastOf x l.trace := by
      rw [htrace, lastOf_other fun a ha => turns_of_timer (hacts a ha)]
    rcases ht x with ⟨hw, cb, timeout, now, hstart, hcb, htimeout⟩ | ⟨hw, hnot⟩
    · have hsame := hfields hw
      refine .inl ⟨hwaits.mpr hw, cb, timeout, now, hlast.trans hstart, hsame.1.trans hcb, ?_⟩
      exact hsame.2.1.trans htimeout
    · refine .inr ⟨fun h => hw (hwaits.mp h), ?_⟩
      unfold Begun
      rw [hlast]
      exact hnot
  | begun own cb timeout htrace hown hwaits hcb htimeout =>
    refine .inl ⟨hwaits, cb, timeout, l'.time, ?_, hcb, htimeout⟩
    rw [htrace, List.append_cons, lastOf_other fun a ha => by simp [hown a ha]]
    exact lastOf_self rfl
  | ended a htrace ha hend hwaits =>
    refine .inr ⟨hwaits, ?_⟩
    rintro ⟨cb, timeout, now, h⟩
    rw [htrace, lastOf_self ha, Option.some.injEq] at h
    exact hend cb timeout now h

theorem told_run {es : List Event} {l : Loop} (h : run step start es = .ok l) : Sound l ∧ Told l := by
  refine run_keeps (P := fun l => Sound l ∧ Told l) ⟨sound_start, fun x => .inr ⟨?_, ?_⟩⟩ ?_ h
  · simp [Loop.Waits, start, noTimer]
  · simp [Begun, lastOf, start]
  · rintro l e l' ⟨hs, ht⟩ hstep
    obtain ⟨hs', hm⟩ := of_gives (moved hs e) hstep
    exact ⟨hs', told_moved hs ht hm⟩

/-- Three timers are started, the first two for the same time, and their time comes. -/
def three : List Event :=
  [.init 0, .init 1, .init 2, .start 0 (some 10) 5 0, .start 1 (some 11) 5 7, .start 2 (some 12) 9 0,
    .updateTime 5]

/-- The three timers, when the first two have been called back: only the second is started again. -/
def threeRound : List Event := three ++ [.runTimers, .fire, .fire, .finish]

/-- A clamped timeout is the sum, as far as it can be told. -/
theorem clampedTimeout.spec (now timeout : UInt64) :
    (clampedTimeout now timeout).toNat = min (now.toNat + timeout.toNat) 18446744073709551615 := by
  have hnow := now.toNat_lt
  have htimeout := timeout.toNat_lt
  unfold clampedTimeout
  simp only [UInt64.lt_iff_toNat_lt, UInt64.toNat_add]
  split
  · show 18446744073709551615 = _
    omega
  · rw [UInt64.toNat_add]
    omega

/-- A wait that has come to its end: what began or ended one last is a start with this callback, and
the time that it was given has passed. -/
def Over (before : List Act) (x cb : Nat) (now : UInt64) : Prop :=
  ∃ timeout t, lastOf x before = some (.started x cb timeout t) ∧
    min (t.toNat + timeout.toNat) 18446744073709551615 ≤ now.toNat

/-- What a callback comes from: a wait that has come to its end. When the timer is active in the
callback, there is one act in between, the start with the same callback that the round has just made. -/
def Deserved (before : List Act) : Act → Prop
  | .fired x cb now false => Over before x cb now
  | .fired x cb now true =>
    ∃ earlier rep, before = earlier ++ [.started x cb rep now] ∧ Over earlier x cb now
  | _ => True

/-- The wait of the timer whose turn it is has come to its end. -/
theorem over_fired {l : Loop} {x cb : Nat} {ready : List Nat} (hs : Sound l) (ht : Told l)
    (hready : l.ready = x :: ready) (hcb : (l.timers x).timer_cb = some cb) :
    Over l.trace x cb l.time := by
  have hmem : x ∈ l.ready := by
    rw [hready]
    exact List.mem_cons_self
  rcases ht x with ⟨-, cb', timeout, now, hstart, hcb', htimeout⟩ | ⟨hw, -⟩
  · rw [hcb, Option.some.injEq] at hcb'
    subst hcb'
    refine ⟨timeout, now, hstart, ?_⟩
    have hdue := hs.due x hmem
    rw [htimeout, UInt64.le_iff_toNat_le, clampedTimeout.spec] at hdue
    exact hdue
  · exact absurd (.inr hmem) hw

theorem deserved_moved {l l' : Loop} {e : Event} (hs : Sound l) (ht : Told l) (hm : Moved l e l')
    (h : Each Deserved l.trace) : Each Deserved l'.trace := by
  cases hm with
  | init => exact h
  | refused => exact each_concat h trivial
  | kept => exact h
  | armed => exact each_concat h trivial
  | again => exact h
  | stopped => exact each_concat h trivial
  | setRepeat => exact h
  | closed => exact each_concat h trivial
  | clock => exact h
  | collected _ hc =>
    rw [hc.rest]
    exact h
  | fired hready hcb =>
    have hover := over_fired hs ht hready hcb
    exact each_concat h hover
  | @again_fired x cb ready _ hready hcb =>
    have hover := over_fired hs ht hready hcb
    have hstarted : Each Deserved (l.trace ++ [.started x cb (l.timers x).rep l.time]) :=
      each_concat h trivial
    exact each_concat hstarted ⟨l.trace, _, rfl, hover⟩
  | finished => exact h

/-- A timer is called back once at most for each start, with the callback it was started with, never
before its time and never after it has been stopped or closed. A timer that repeats has a new start
just before its callback, which is the start of the next. -/
theorem each_callback_has_its_start_and_is_not_early {es : List Event} {l : Loop}
    (h : run step start es = .ok l) : Each Deserved l.trace := by
  refine (run_keeps (P := fun l => (Sound l ∧ Told l) ∧ Each Deserved l.trace) ?_ ?_ h).2
  · exact ⟨told_run run_nil, each_nil⟩
  · rintro l e l' ⟨⟨hs, ht⟩, hd⟩ hstep
    obtain ⟨hs', hm⟩ := of_gives (moved hs e) hstep
    exact ⟨⟨hs', told_moved hs ht hm⟩, deserved_moved hs ht hm hd⟩

/-- The second of the three timers is called back at its time, 5, right after it has been started again. -/
theorem the_second_timer_is_not_early :
    ∃ l before, run step start threeRound = .ok l ∧ l.trace = before ++ [.fired 1 11 5 true] ∧
      Deserved before (.fired 1 11 5 true) := by
  have hseen : (run step start threeRound).toOption.map (·.trace) = some [.started 0 10 5 0,
      .started 1 11 5 0, .started 2 12 9 0, .fired 0 10 5 false, .started 1 11 7 5,
      .fired 1 11 5 true] := by
    decide +kernel
  obtain ⟨l, hl, htrace⟩ := ran hseen
  refine ⟨l, [.started 0 10 5 0, .started 1 11 5 0, .started 2 12 9 0, .fired 0 10 5 false,
    .started 1 11 7 5], hl, htrace, ?_⟩
  exact each_callback_has_its_start_and_is_not_early hl _ _ [] htrace

/-! ## The sleep of the loop -/

theorem INT_MAX.spec : INT_MAX.toNat = 2147483647 := rfl

theorem due_in.spec {l : Loop} {x : Nat} :
    (l.uvTimerGetDueIn x).toNat = (l.timers x).timeout.toNat - l.time.toNat := by
  unfold Loop.uvTimerGetDueIn
  split
  · rename_i hdue
    rw [UInt64.le_iff_toNat_le] at hdue
    show 0 = _
    omega
  · rename_i hdue
    rw [UInt64.le_iff_toNat_le] at hdue
    rw [UInt64.toNat_sub_of_le]
    rw [UInt64.le_iff_toNat_le]
    omega

end linuxc.uv_timer
