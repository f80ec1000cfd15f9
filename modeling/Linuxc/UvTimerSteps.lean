-- What each function of timer.c does, when all is well before: no NULL is
-- followed, the heap stays the heap of the active timers, and a round collects
-- those that are due, in order.
import Mathlib.Data.Prod.Lex
import Mathlib.Order.BooleanAlgebra.Set
import Linuxc.UvTimer
import Linuxc.UvHeapPositions

namespace linuxc.uv_timer

open event_runs heap_inl

/-! ## The order of the timers -/

/-- Timers come in the order of their timeouts, and of their starts when these are the same. -/
def Loop.key (l : Loop) (x : Nat) : ℕ ×ₗ ℕ :=
  toLex ((l.timers x).timeout.toNat, (l.timers x).start_id.toNat)

theorem key_of_timers {l l' : Loop} {x : Nat} (htimeout : (l'.timers x).timeout = (l.timers x).timeout)
    (hid : (l'.timers x).start_id = (l.timers x).start_id) : l'.key x = l.key x := by
  unfold Loop.key
  rw [htimeout, hid]

theorem timerLessThan.spec (l : Loop) : Compares l.timerLessThan l.key := by
  intro x y
  unfold Loop.timerLessThan Loop.key
  rw [Prod.Lex.toLex_lt_toLex]
  simp only [UInt64.lt_iff_toNat_lt]
  by_cases hlt : (l.timers x).timeout.toNat < (l.timers y).timeout.toNat
  · rw [if_pos hlt]
    exact ⟨fun _ => .inl hlt, fun _ => rfl⟩
  · rw [if_neg hlt]
    by_cases hgt : (l.timers y).timeout.toNat < (l.timers x).timeout.toNat
    · rw [if_pos hgt]
      constructor
      · intro h
        cases h
      · rintro (h | ⟨h, -⟩) <;> omega
    · rw [if_neg hgt, decide_eq_true_eq]
      constructor
      · intro h
        exact .inr ⟨by omega, h⟩
      · rintro (h | ⟨-, h⟩)
        · omega
        · exact h

/-! ## The invariant -/

/-- The timer waits for its time, or for its turn. -/
def Loop.Waits (l : Loop) (x : Nat) : Prop := (l.timers x).active = true ∨ x ∈ l.ready

/-- The heap holds the active timers. Those of the queue are not active, and their time has come. All
that wait are set up, are not closing and have a callback. -/
structure Sound (l : Loop) : Prop where
  holds : Holds l.key l.heap {x | (l.timers x).active = true}
  handles : l.active_handles = l.heap.nelts
  nodup : l.ready.Nodup
  apart : ∀ x ∈ l.ready, (l.timers x).active = false
  due : ∀ x ∈ l.ready, (l.timers x).timeout ≤ l.time
  idle : l.running = false → l.ready = []
  live : ∀ x, l.Waits x → (l.timers x).live = true
  opened : ∀ x, l.Waits x → (l.timers x).closing = false
  called : ∀ x, l.Waits x → (l.timers x).timer_cb ≠ none

theorem sound_log {l : Loop} {acts : List Act} (hs : Sound l) : Sound (l.log acts) := { hs with }

theorem sound_start : Sound start where
  holds := by
    have h : Holds start.key (Heap.init ⟨none, 0, fun _ => ⟨none, none, none⟩⟩) ∅ := init_holds
    have hnone : {x | (start.timers x).active = true} = (∅ : Set Nat) := by
      ext x
      simp [start, noTimer]
    rw [hnone]
    exact h
  handles := rfl
  nodup := List.nodup_nil
  apart := by simp [start]
  due := by simp [start]
  idle := fun _ => rfl
  live := by simp [Loop.Waits, start, noTimer]
  opened := by simp [Loop.Waits, start, noTimer]
  called := by simp [Loop.Waits, start, noTimer]

/-! ## Stops and starts -/

/-- The loop when a timer has been stopped. -/
def Loop.settled (l : Loop) (x : Nat) (heap : Heap) : Loop :=
  { l with
    heap
    active_handles := heap.nelts
    ready := l.ready.filter (· ≠ x)
    timers := fun y => if y = x then { l.timers x with active := false } else l.timers y }

/-- The loop when a timer has been started. -/
def Loop.armed (l : Loop) (x cb : Nat) (timeout rep : UInt64) (heap : Heap) : Loop :=
  { l with
    timer_counter := l.timer_counter + 1
    heap
    active_handles := heap.nelts
    ready := l.ready.filter (· ≠ x)
    timers := fun y =>
      if y = x then { l.timers x with
        active := true
        timer_cb := some cb
        timeout := clampedTimeout l.time timeout
        rep
        start_id := l.timer_counter }
      else l.timers y
    trace := l.trace ++ [.started x cb timeout l.time] }

section stops

variable {l : Loop} {x y cb : Nat} {timeout rep : UInt64} {heap : Heap}

theorem mem_settled : y ∈ (l.settled x heap).ready ↔ y ∈ l.ready ∧ y ≠ x := by
  unfold Loop.settled
  rw [List.mem_filter]
  simp

theorem settled_timers (hyx : y ≠ x) : (l.settled x heap).timers y = l.timers y := if_neg hyx

theorem settled_self : (l.settled x heap).timers x = { l.timers x with active := false } := if_pos rfl

theorem waits_settled : (l.settled x heap).Waits y ↔ l.Waits y ∧ y ≠ x := by
  unfold Loop.Waits
  rw [mem_settled]
  by_cases hyx : y = x
  · subst hyx
    simp [settled_self]
  · simp [settled_timers, hyx]

theorem key_settled : (l.settled x heap).key = l.key := by
  funext y
  by_cases hyx : y = x
  · subst hyx
    apply key_of_timers <;> simp [settled_self]
  · apply key_of_timers <;> simp [settled_timers, hyx]

theorem active_settled : {y | ((l.settled x heap).timers y).active = true} =
    {y | (l.timers y).active = true} \ {x} := by
  ext y
  by_cases hyx : y = x
  · subst hyx
    simp [settled_self]
  · simp [settled_timers, hyx]

theorem sound_settled (hs : Sound l) (hh : Holds l.key heap ({x | (l.timers x).active = true} \ {x})) :
    Sound (l.settled x heap) where
  holds := by
    rw [key_settled, active_settled]
    exact hh
  handles := rfl
  nodup := hs.nodup.filter _
  apart := by
    intro y hy
    obtain ⟨hmem, hyx⟩ := mem_settled.mp hy
    rw [settled_timers hyx]
    exact hs.apart y hmem
  due := by
    intro y hy
    obtain ⟨hmem, hyx⟩ := mem_settled.mp hy
    rw [settled_timers hyx]
    exact hs.due y hmem
  idle := by
    intro h
    show l.ready.filter _ = []
    rw [hs.idle h]
    rfl
  live := by
    intro y hy
    obtain ⟨hw, hyx⟩ := waits_settled.mp hy
    rw [settled_timers hyx]
    exact hs.live y hw
  opened := by
    intro y hy
    obtain ⟨hw, hyx⟩ := waits_settled.mp hy
    rw [settled_timers hyx]
    exact hs.opened y hw
  called := by
    intro y hy
    obtain ⟨hw, hyx⟩ := waits_settled.mp hy
    rw [settled_timers hyx]
    exact hs.called y hw

/-- An active timer is not in the queue. -/
theorem ready_of_active (hs : Sound l) (ha : (l.timers x).active = true) :
    l.ready.filter (· ≠ x) = l.ready := by
  apply List.filter_eq_self.mpr
  intro y hy
  have hyx : y ≠ x := by
    rintro rfl
    rw [hs.apart y hy] at ha
    cases ha
  simpa using hyx

theorem uvTimerStop.spec (hs : Sound l) (x : Nat) :
    ∃ heap, l.uvTimerStop x = .ok (l.settled x heap) ∧ Sound (l.settled x heap) ∧
      ((l.timers x).active = true → heap.nelts + 1 = l.heap.nelts) := by
  unfold Loop.uvTimerStop
  by_cases ha : (l.timers x).active = true
  · obtain ⟨heap, hremove, hh, hn⟩ := remove_spec (timerLessThan.spec l) hs.holds ha
    refine ⟨heap, ?_, sound_settled hs hh, fun _ => hn⟩
    have hready := ready_of_active hs ha
    have hcount : l.active_handles - 1 = heap.nelts := by
      rw [hs.handles]
      omega
    rw [if_pos ha, hremove]
    unfold Loop.settled
    rw [hready, ← hcount]
    rfl
  · refine ⟨l.heap, ?_, ?_, fun h => absurd h ha⟩
    · have htimers : l.timers = fun y =>
          if y = x then { l.timers x with active := false } else l.timers y := by
        funext y
        by_cases hyx : y = x
        · subst hyx
          rw [Bool.not_eq_true] at ha
          rw [if_pos rfl, ← ha]
        · rw [if_neg hyx]
      rw [if_neg ha]
      unfold Loop.settled
      rw [← htimers, ← hs.handles]
    · apply sound_settled hs
      rw [Set.sdiff_singleton_eq_self (by exact ha)]
      exact hs.holds

/-! ## Starts -/

theorem mem_armed : y ∈ (l.armed x cb timeout rep heap).ready ↔ y ∈ l.ready ∧ y ≠ x := by
  unfold Loop.armed
  rw [List.mem_filter]
  simp

theorem armed_timers (hyx : y ≠ x) : (l.armed x cb timeout rep heap).timers y = l.timers y :=
  if_neg hyx

theorem armed_self : (l.armed x cb timeout rep heap).timers x = { l.timers x with
    active := true, timer_cb := some cb, timeout := clampedTimeout l.time timeout, rep,
    start_id := l.timer_counter } := if_pos rfl

theorem waits_armed : (l.armed x cb timeout rep heap).Waits y ↔ y = x ∨ l.Waits y := by
  unfold Loop.Waits
  rw [mem_armed]
  by_cases hyx : y = x
  · subst hyx
    simp [armed_self]
  · simp [armed_timers, hyx]

theorem armed_settled {heap' : Heap} :
    (l.settled x heap').armed x cb timeout rep heap = l.armed x cb timeout rep heap := by
  unfold Loop.armed Loop.settled
  simp only [List.filter_filter, Bool.and_self, if_true]
  congr 1
  funext y
  by_cases hyx : y = x <;> simp [hyx]

theorem sound_armed (hs : Sound l) (hlive : (l.timers x).live = true)
    (hopen : (l.timers x).closing = false)
    (hh : Holds (l.armed x cb timeout rep heap).key heap (insert x {y | (l.timers y).active = true})) :
    Sound (l.armed x cb timeout rep heap) where
  holds := by
    have hset : {y | ((l.armed x cb timeout rep heap).timers y).active = true} =
        insert x {y | (l.timers y).active = true} := by
      ext y
      by_cases hyx : y = x
      · subst hyx
        simp [armed_self]
      · simp [armed_timers, hyx]
    rw [hset]
    exact hh
  handles := rfl
  nodup := hs.nodup.filter _
  apart := by
    intro y hy
    obtain ⟨hmem, hyx⟩ := mem_armed.mp hy
    rw [armed_timers hyx]
    exact hs.apart y hmem
  due := by
    intro y hy
    obtain ⟨hmem, hyx⟩ := mem_armed.mp hy
    rw [armed_timers hyx]
    exact hs.due y hmem
  idle := by
    intro h
    show l.ready.filter _ = []
    rw [hs.idle h]
    rfl
  live := by
    intro y hy
    by_cases hyx : y = x
    · rw [hyx, armed_self]
      exact hlive
    · rw [armed_timers hyx]
      exact hs.live y ((waits_armed.mp hy).resolve_left hyx)
  opened := by
    intro y hy
    by_cases hyx : y = x
    · rw [hyx, armed_self]
      exact hopen
    · rw [armed_timers hyx]
      exact hs.opened y ((waits_armed.mp hy).resolve_left hyx)
  called := by
    intro y hy
    by_cases hyx : y = x
    · rw [hyx, armed_self]
      simp
    · rw [armed_timers hyx]
      exact hs.called y ((waits_armed.mp hy).resolve_left hyx)

theorem keyed_timers (hyx : y ≠ x) : (l.keyed x cb timeout rep).timers y = l.timers y := if_neg hyx

theorem keyed_self : (l.keyed x cb timeout rep).timers x = { l.timers x with
    timer_cb := some cb, timeout := clampedTimeout l.time timeout, rep,
    start_id := l.timer_counter } := if_pos rfl

theorem key_armed {heap' : Heap} :
    (l.armed x cb timeout rep heap).key = ((l.settled x heap').keyed x cb timeout rep).key := by
  funext y
  by_cases hyx : y = x
  · subst hyx
    apply key_of_timers <;> rw [armed_self, keyed_self] <;> rfl
  · apply key_of_timers <;> rw [armed_timers hyx, keyed_timers hyx, settled_timers hyx]

/-- A timer that is set up and open can be started, whether it waits or not. -/
theorem uvTimerStart.spec (cb : Nat) (timeout rep : UInt64) (hs : Sound l) (hlive : (l.timers x).live = true)
    (hopen : (l.timers x).closing = false) :
    ∃ heap, l.uvTimerStart x (some cb) timeout rep = .ok (0, l.armed x cb timeout rep heap) ∧
      Sound (l.armed x cb timeout rep heap) := by
  obtain ⟨heap, hstop, hs', -⟩ := uvTimerStop.spec hs x
  have hholds : Holds ((l.settled x heap).keyed x cb timeout rep).key heap
      ({y | (l.timers y).active = true} \ {x}) := by
    have hh := hs'.holds
    rw [active_settled] at hh
    apply hh.of_keys
    intro y hy
    have hyx : y ≠ x := hy.2
    apply key_of_timers <;> rw [keyed_timers hyx]
  obtain ⟨heap', hinsert, hh', hn⟩ := insert_spec (timerLessThan.spec _) hholds
    (by simp : x ∉ {y | (l.timers y).active = true} \ {x})
  have hkey : (l.armed x cb timeout rep heap').key = ((l.settled x heap).keyed x cb timeout rep).key :=
    key_armed
  rw [Set.insert_sdiff_singleton, ← hkey] at hh'
  refine ⟨heap', ?_, sound_armed hs hlive hopen hh'⟩
  have htimers : (l.armed x cb timeout rep heap').timers = fun y =>
      if y = x then { ((l.settled x heap).keyed x cb timeout rep).timers x with active := true }
      else ((l.settled x heap).keyed x cb timeout rep).timers y := by
    funext y
    by_cases hyx : y = x
    · rw [hyx, armed_self, if_pos rfl, keyed_self, settled_self]
      rfl
    · rw [armed_timers hyx, if_neg hyx, keyed_timers hyx, settled_timers hyx]
  unfold Loop.uvTimerStart
  simp only [hopen, hstop, bind, Except.bind, Bool.false_eq_true, if_false]
  rw [show ((l.settled x heap).keyed x cb timeout rep).heap = heap from rfl, hinsert]
  show Except.ok (0, _) = Except.ok ((0 : Int), (_ : Loop))
  congr 2
  unfold Loop.log Loop.setTimer
  simp only
  rw [← htimers, show ((l.settled x heap).keyed x cb timeout rep).active_handles = heap.nelts from rfl, ← hn]
  rfl

/-- A timer that is closing cannot be started. -/
theorem uvTimerStart.closing {cb : Option Nat} (hclosing : (l.timers x).closing = true) :
    l.uvTimerStart x cb timeout rep = .ok (UV_EINVAL, l) := by
  cases cb with
  | none => rfl
  | some cb =>
    unfold Loop.uvTimerStart
    simp [hclosing]
    rfl

/-- What `uv_timer_again` does: it refuses, does nothing, or starts the timer once more. One that is
closing stays stopped, with no word about it. -/
theorem uvTimerAgain.spec (hs : Sound l) (hlive : (l.timers x).live = true) :
    ∃ err l', l.uvTimerAgain x = .ok (err, l') ∧ Sound l' ∧
      (err = UV_EINVAL ∧ l' = l ∧ (l.timers x).timer_cb = none ∨
        err = 0 ∧ l' = l ∧ (l.timers x).rep = 0 ∨
        err = 0 ∧ (∃ heap, l' = l.settled x heap ∧ (l.timers x).closing = true) ∨
        err = 0 ∧ ∃ cb heap, l' = l.armed x cb (l.timers x).rep (l.timers x).rep heap ∧
          (l.timers x).timer_cb = some cb) := by
  unfold Loop.uvTimerAgain
  cases hcb : (l.timers x).timer_cb with
  | none => exact ⟨_, _, rfl, hs, .inl ⟨rfl, rfl, rfl⟩⟩
  | some cb =>
    by_cases hrep : (l.timers x).rep = 0
    · exact ⟨0, l, by simp [hrep]; rfl, hs, .inr (.inl ⟨rfl, rfl, hrep⟩)⟩
    · obtain ⟨heap, hstop, hs', -⟩ := uvTimerStop.spec hs x
      have hself : (l.settled x heap).timers x = { l.timers x with active := false } := settled_self
      simp only [hrep, hstop, ne_eq, not_false_iff, if_true, reduceCtorEq, if_false, bind, Except.bind,
        hself, hcb]
      cases hclosing : (l.timers x).closing with
      | true =>
        rw [uvTimerStart.closing (by rw [hself]; exact hclosing)]
        exact ⟨_, _, rfl, hs', .inr (.inr (.inl ⟨rfl, heap, rfl, rfl⟩))⟩
      | false =>
        obtain ⟨heap', hstart, hs''⟩ := uvTimerStart.spec cb (l.timers x).rep
          (l.timers x).rep hs' (by rw [hself]; exact hlive) (by rw [hself]; exact hclosing)
        rw [armed_settled] at hstart hs''
        rw [hstart]
        exact ⟨_, _, rfl, hs'', .inr (.inr (.inr ⟨rfl, cb, heap', rfl, rfl⟩))⟩

theorem setTimer_timers {t : Timer} (hyx : y ≠ x) : (l.setTimer x t).timers y = l.timers y := if_neg hyx

theorem setTimer_self {t : Timer} : (l.setTimer x t).timers x = t := if_pos rfl

/-- A timer that does not wait may change in any way, as long as it is not active. -/
theorem sound_idle {t : Timer} (hs : Sound l) (hx : ¬ l.Waits x) (ht : t.active = false) :
    Sound (l.setTimer x t) := by
  have hmem : ∀ {y}, y ∈ l.ready → y ≠ x := by
    rintro y hy rfl
    exact hx (.inr hy)
  have hset : {y | ((l.setTimer x t).timers y).active = true} = {y | (l.timers y).active = true} := by
    ext y
    by_cases hyx : y = x
    · subst hyx
      have hnot : ¬ (l.timers y).active = true := fun h => hx (.inl h)
      simp [setTimer_self, ht, hnot]
    · simp [setTimer_timers hyx]
  have hwaits : ∀ {y}, (l.setTimer x t).Waits y → l.Waits y ∧ y ≠ x := by
    intro y hy
    have hyx : y ≠ x := by
      rintro rfl
      rcases hy with hy | hy
      · rw [setTimer_self, ht] at hy
        cases hy
      · exact hmem hy rfl
    refine ⟨?_, hyx⟩
    unfold Loop.Waits at hy ⊢
    rw [setTimer_timers hyx] at hy
    exact hy
  refine ⟨?_, hs.handles, hs.nodup, ?_, ?_, hs.idle, ?_, ?_, ?_⟩
  · rw [hset]
    apply hs.holds.of_keys
    intro y hy
    have hyx : y ≠ x := by
      rintro rfl
      exact hx (.inl hy)
    apply key_of_timers <;> rw [setTimer_timers hyx]
  · intro y hy
    rw [setTimer_timers (hmem hy)]
    exact hs.apart y hy
  · intro y hy
    rw [setTimer_timers (hmem hy)]
    exact hs.due y hy
  · intro y hy
    rw [setTimer_timers (hwaits hy).2]
    exact hs.live y (hwaits hy).1
  · intro y hy
    rw [setTimer_timers (hwaits hy).2]
    exact hs.opened y (hwaits hy).1
  · intro y hy
    rw [setTimer_timers (hwaits hy).2]
    exact hs.called y (hwaits hy).1

theorem repeats_timers : (l.uvTimerSetRepeat x rep).timers y =
    { l.timers y with rep := ((l.uvTimerSetRepeat x rep).timers y).rep } := by
  unfold Loop.uvTimerSetRepeat
  by_cases hyx : y = x
  · rw [hyx, setTimer_self]
  · rw [setTimer_timers hyx]

theorem waits_repeats : (l.uvTimerSetRepeat x rep).Waits y ↔ l.Waits y := by
  unfold Loop.Waits
  rw [repeats_timers]
  rfl

/-- The repeat of a timer does not matter. -/
theorem sound_repeats (hs : Sound l) : Sound (l.uvTimerSetRepeat x rep) := by
  have hactive : ∀ y, ((l.uvTimerSetRepeat x rep).timers y).active = (l.timers y).active := by
    intro y
    rw [repeats_timers]
  refine ⟨?_, hs.handles, hs.nodup, ?_, ?_, hs.idle, ?_, ?_, ?_⟩
  · simp only [hactive]
    apply hs.holds.of_keys
    intro y hy
    apply key_of_timers <;> rw [repeats_timers]
  · intro y hy
    rw [repeats_timers]
    exact hs.apart y hy
  · intro y hy
    rw [repeats_timers]
    exact hs.due y hy
  · intro y hy
    rw [repeats_timers]
    exact hs.live y (waits_repeats.mp hy)
  · intro y hy
    rw [repeats_timers]
    exact hs.opened y (waits_repeats.mp hy)
  · intro y hy
    rw [repeats_timers]
    exact hs.called y (waits_repeats.mp hy)

end stops

/-! ## Rounds -/

/-- What the first loop of a round does: the timers of `due`, which are all that are due, go to the
queue in their order. -/
structure Collected (l : Loop) (due : List Nat) (l' : Loop) : Prop where
  rest : l' = { l with
    heap := l'.heap
    active_handles := l'.active_handles
    timers := l'.timers
    ready := l.ready ++ due }
  timers : ∀ y, l'.timers y = if y ∈ due then { l.timers y with active := false } else l.timers y
  mem : ∀ y, y ∈ due ↔ (l.timers y).active = true ∧ (l.timers y).timeout ≤ l.time
  order : due.Pairwise fun x y => l.key x ≤ l.key y

/-- A timer that has been stopped in a round goes to the end of the queue. -/
theorem sound_queued {l : Loop} {x : Nat} (hs : Sound l) (hrun : l.running = true) (hout : x ∉ l.ready)
    (hactive : (l.timers x).active = false) (hdue : (l.timers x).timeout ≤ l.time)
    (hw : (l.timers x).live = true ∧ (l.timers x).closing = false ∧ (l.timers x).timer_cb ≠ none) :
    Sound { l with ready := l.ready ++ [x] } := by
  have hwaits : ∀ {y}, ({ l with ready := l.ready ++ [x] } : Loop).Waits y → l.Waits y ∨ y = x := by
    intro y hy
    unfold Loop.Waits at hy ⊢
    simp only [List.mem_append, List.mem_singleton] at hy
    rw [or_assoc]
    exact hy
  refine ⟨hs.holds, hs.handles, ?_, ?_, ?_, ?_, ?_, ?_, ?_⟩
  · exact List.nodup_append.mpr ⟨hs.nodup, List.nodup_singleton x, by
      intro y hy z hz
      rw [List.mem_singleton.mp hz]
      rintro rfl
      exact hout hy⟩
  · intro y hy
    rcases List.mem_append.mp hy with hy | hy
    · exact hs.apart y hy
    · rw [List.mem_singleton.mp hy]
      exact hactive
  · intro y hy
    rcases List.mem_append.mp hy with hy | hy
    · exact hs.due y hy
    · rw [List.mem_singleton.mp hy]
      exact hdue
  · intro h
    exact absurd hrun (by simp [show l.running = false from h])
  · intro y hy
    rcases hwaits hy with hy | rfl
    · exact hs.live y hy
    · exact hw.1
  · intro y hy
    rcases hwaits hy with hy | rfl
    · exact hs.opened y hy
    · exact hw.2.1
  · intro y hy
    rcases hwaits hy with hy | rfl
    · exact hs.called y hy
    · exact hw.2.2

theorem collect.spec {l : Loop} {fuel : Nat} (hs : Sound l) (hrun : l.running = true)
    (hfuel : l.heap.nelts < fuel) :
    ∃ l' due, collect fuel l = .ok l' ∧ Sound l' ∧ Collected l due l' := by
  induction fuel generalizing l with
  | zero => omega
  | succ fuel ih =>
    unfold collect
    rcases min_spec hs.holds with ⟨hmin, hempty, -⟩ | ⟨x, hx, hmin, hleast, hpos⟩
    · rw [hmin]
      refine ⟨l, [], rfl, hs, ⟨?_, ?_, ?_, List.Pairwise.nil⟩⟩
      · simp
      · simp
      · intro y
        have hy : y ∉ {x | (l.timers x).active = true} := by
          rw [hempty]
          exact Set.notMem_empty y
        simp only [List.not_mem_nil, false_iff]
        exact fun h => hy h.1
    · rw [hmin]
      simp only
      by_cases hlate : l.time < (l.timers x).timeout
      · rw [if_pos hlate]
        refine ⟨l, [], rfl, hs, ⟨?_, ?_, ?_, List.Pairwise.nil⟩⟩
        · simp
        · simp
        · intro y
          simp only [List.not_mem_nil, false_iff]
          rintro ⟨ha, hdue⟩
          have hle := hleast y ha
          unfold Loop.key at hle
          rw [Prod.Lex.toLex_le_toLex] at hle
          simp only [UInt64.lt_iff_toNat_lt, UInt64.le_iff_toNat_le] at hlate hdue
          omega
      · rw [if_neg hlate]
        obtain ⟨heap, hstop, hs', hcount⟩ := uvTimerStop.spec hs x
        simp only [hstop, bind, Except.bind]
        have hready : (l.settled x heap).ready = l.ready := ready_of_active hs hx
        have hout : x ∉ l.ready := by
          intro h
          have hx' : (l.timers x).active = true := hx
          rw [hs.apart x h] at hx'
          cases hx'
        have hm := sound_queued (x := x) hs' hrun
          (by rw [hready]; exact hout) (by rw [settled_self])
          (by rw [settled_self]; exact UInt64.not_lt.mp hlate)
          (by rw [settled_self]; exact ⟨hs.live x (.inl hx), hs.opened x (.inl hx), hs.called x (.inl hx)⟩)
        obtain ⟨l', due, hcollect, hs'', hc⟩ := ih hm hrun (by have := hcount hx; show heap.nelts < fuel; omega)
        refine ⟨l', x :: due, hcollect, hs'', ⟨?_, ?_, ?_, ?_⟩⟩
        · have hrest := hc.rest
          rw [hready] at hrest
          rw [hrest]
          simp [Loop.settled]
        · intro y
          rw [hc.timers]
          by_cases hyx : y = x
          · subst hyx
            simp [settled_self]
          · simp only [List.mem_cons, hyx, false_or]
            rw [settled_timers hyx]
        · intro y
          rw [List.mem_cons, hc.mem]
          by_cases hyx : y = x
          · subst hyx
            simp only [true_or, true_iff]
            exact ⟨hx, UInt64.not_lt.mp hlate⟩
          · rw [settled_timers hyx]
            simp only [hyx, false_or]
            rfl
        · refine List.pairwise_cons.mpr ⟨?_, ?_⟩
          · intro y hy
            have hact := ((hc.mem y).mp hy).1
            have hyx : y ≠ x := by
              rintro rfl
              rw [settled_self] at hact
              cases hact
            rw [settled_timers hyx] at hact
            exact hleast y hact
          · have horder := hc.order
            have hkey : ({ l.settled x heap with ready := (l.settled x heap).ready ++ [x] } : Loop).key =
                l.key := @key_settled l x heap
            rw [hkey] at horder
            exact horder

/-! ## The steps -/

/-- The timer that an event may start. -/
def Event.starts : Event → Option Nat
  | .start x _ _ _ => some x
  | .again x => some x
  | _ => none

/-- What a step does. -/
inductive Moved (l : Loop) : Event → Loop → Prop
  | init {x : Nat} (hnew : (l.timers x).live = false) : Moved l (.init x) (l.uvTimerInit x)
  | refused {e : Event} {x : Nat} (he : e.starts = some x) : Moved l e (l.log [.refused x UV_EINVAL])
  | kept {x : Nat} : Moved l (.again x) l
  | armed {e : Event} {x cb : Nat} {timeout rep : UInt64} {heap : Heap} (he : e.starts = some x) :
    Moved l e (l.armed x cb timeout rep heap)
  | again {x : Nat} {heap : Heap} (hclosing : (l.timers x).closing = true) :
    Moved l (.again x) (l.settled x heap)
  | stopped {x : Nat} {heap : Heap} : Moved l (.stop x) ((l.settled x heap).log [.stopped x])
  | setRepeat {x : Nat} {rep : UInt64} : Moved l (.setRepeat x rep) (l.uvTimerSetRepeat x rep)
  | closed {x : Nat} {heap : Heap} (hopen : (l.timers x).closing = false) :
    Moved l (.close x)
      (((l.settled x heap).setTimer x { (l.settled x heap).timers x with closing := true }).log [.closing x])
  | clock {now : UInt64} (hnow : l.time ≤ now) : Moved l (.updateTime now) { l with time := now }
  | collected {due : List Nat} {l' : Loop} (hidle : l.running = false)
    (hc : Collected { l with running := true } due l') : Moved l .runTimers l'
  | fired {x cb : Nat} {ready : List Nat} (hready : l.ready = x :: ready)
    (hcb : (l.timers x).timer_cb = some cb) :
    Moved l .fire ({ l with ready }.log [.fired x cb l.time false])
  | again_fired {x cb : Nat} {ready : List Nat} {heap : Heap} (hready : l.ready = x :: ready)
    (hcb : (l.timers x).timer_cb = some cb) :
    Moved l .fire (({ l with ready }.armed x cb (l.timers x).rep (l.timers x).rep heap).log
      [.fired x cb l.time true])
  | finished (hready : l.ready = []) : Moved l .finish { l with running := false }

/-- Why a step does not happen: it is not the time for it, or a handle that is closing is closed. -/
def Refuses (l : Loop) (e : Event) (r : Stop) : Prop :=
  r = .notNow ∨ r = .failed .closing ∧ ∃ x, e = .close x ∧ (l.timers x).closing = true

theorem gives_guarded {α : Type} {b : Bool} {l : Loop} {e : Event} {f : Unit → Except Stop α} {Q : α → Prop}
    (h : b = true → Gives (Refuses l e) (f ()) Q) : Gives (Refuses l e) (guarded b >>= f) Q := by
  cases b with
  | true => exact h rfl
  | false => exact .inl rfl

section moves

variable {l : Loop}

/-- The flag of closing does not matter to a stop. -/
theorem uvTimerStop_closing {x : Nat} {m : Loop} (h : l.uvTimerStop x = .ok m) :
    (l.setTimer x { l.timers x with closing := true }).uvTimerStop x =
      .ok (m.setTimer x { m.timers x with closing := true }) := by
  have hless : (l.setTimer x { l.timers x with closing := true }).timerLessThan = l.timerLessThan := by
    funext a b
    unfold Loop.timerLessThan Loop.setTimer
    by_cases hax : a = x <;> by_cases hbx : b = x <;> simp [hax, hbx]
  have hself : (l.setTimer x { l.timers x with closing := true }).timers x =
      { l.timers x with closing := true } := if_pos rfl
  unfold Loop.uvTimerStop at h ⊢
  rw [hless, hself]
  by_cases ha : (l.timers x).active = true
  · rw [if_pos ha] at h ⊢
    obtain ⟨heap, hremove, hm⟩ := bind_ok_iff.mp h
    apply bind_ok_iff.mpr
    refine ⟨heap, hremove, ?_⟩
    cases hm
    show Except.ok _ = Except.ok (_ : Loop)
    congr 1
    unfold Loop.setTimer
    simp only [if_true, Loop.mk.injEq, true_and, and_true]
    funext y
    by_cases hyx : y = x <;> simp [hyx]
  · rw [if_neg ha] at h ⊢
    cases h
    rfl

theorem uvClose.spec (hs : Sound l) (x : Nat) :
    Gives (Refuses l (.close x)) (l.uvClose x) fun l' => Sound l' ∧ Moved l (.close x) l' := by
  unfold Loop.uvClose
  cases hclosing : (l.timers x).closing with
  | true => exact .inr ⟨rfl, x, rfl, hclosing⟩
  | false =>
    obtain ⟨heap, hstop, hs', -⟩ := uvTimerStop.spec hs x
    apply gives_bind_ok (a := ()) rfl
    apply gives_bind_ok (uvTimerStop_closing hstop)
    refine gives_pure ⟨sound_log (sound_idle hs' ?_ ?_), .closed hclosing⟩
    · intro hw
      exact absurd rfl (waits_settled.mp hw).2
    · rw [settled_self]

/-- The first timer of the queue leaves it. -/
theorem sound_popped {x : Nat} {ready : List Nat} (hs : Sound l) (hready : l.ready = x :: ready) :
    Sound { l with ready } := by
  have hmem : ∀ {y}, y ∈ ready → y ∈ l.ready := by
    intro y hy
    rw [hready]
    exact List.mem_cons_of_mem _ hy
  have hwaits : ∀ {y}, ({ l with ready } : Loop).Waits y → l.Waits y := by
    intro y hy
    exact hy.imp_right hmem
  have hnodup := hs.nodup
  rw [hready] at hnodup
  refine ⟨hs.holds, hs.handles, (List.nodup_cons.mp hnodup).2, ?_, ?_, ?_, ?_, ?_, ?_⟩
  · exact fun y hy => hs.apart y (hmem hy)
  · exact fun y hy => hs.due y (hmem hy)
  · intro h
    have hidle := hs.idle h
    rw [hready] at hidle
    cases hidle
  · exact fun y hy => hs.live y (hwaits hy)
  · exact fun y hy => hs.opened y (hwaits hy)
  · exact fun y hy => hs.called y (hwaits hy)

theorem fire.spec (hs : Sound l) :
    Gives (Refuses l .fire) l.fire fun l' => Sound l' ∧ Moved l .fire l' := by
  unfold Loop.fire
  cases hready : l.ready with
  | nil => exact .inl rfl
  | cons x ready =>
    have hmem : x ∈ l.ready := by
      rw [hready]
      exact List.mem_cons_self
    have hcalled := hs.called x (.inr hmem)
    cases hcb : (l.timers x).timer_cb with
    | none => exact absurd hcb hcalled
    | some cb =>
      obtain ⟨err, l', hagain, hs', hm⟩ := uvTimerAgain.spec (x := x) (sound_popped hs hready)
        (hs.live x (.inr hmem))
      apply gives_bind_ok hagain
      rcases hm with ⟨-, -, hnone⟩ | ⟨-, rfl, -⟩ | ⟨-, heap, -, hclosing⟩ | ⟨-, cb', heap, rfl, hcb'⟩
      · exact absurd hnone hcalled
      · have hactive : (({ l with ready } : Loop).timers x).active = false := hs.apart x hmem
        apply gives_bind_ok (a := cb)
        · show orFail _ (l.timers x).timer_cb = _
          rw [hcb]
          rfl
        · rw [hactive]
          exact gives_pure ⟨sound_log hs', .fired hready hcb⟩
      · have hclosed : (l.timers x).closing = true := hclosing
        rw [hs.opened x (.inr hmem)] at hclosed
        cases hclosed
      · have hsame : (l.timers x).timer_cb = some cb' := hcb'
        rw [hcb, Option.some.injEq] at hsame
        subst hsame
        apply gives_bind_ok (a := cb)
        · simp only [armed_self]
          rfl
        · simp only [armed_self]
          exact gives_pure ⟨sound_log hs', .again_fired hready hcb⟩

theorem sound_init {x : Nat} (hs : Sound l) (hnew : (l.timers x).live = false) :
    Sound (l.uvTimerInit x) := by
  apply sound_idle hs ?_ rfl
  intro hw
  have hlive := hs.live x hw
  rw [hnew] at hlive
  cases hlive

theorem sound_clock {now : UInt64} (hs : Sound l) (hnow : l.time ≤ now) : Sound { l with time := now } :=
  { hs with due := fun y hy => UInt64.le_trans (hs.due y hy) hnow }

theorem uvTimerStart.moves {x : Nat} {e : Event} (cb : Option Nat) (timeout rep : UInt64) (hs : Sound l)
    (hlive : (l.timers x).live = true) (he : e.starts = some x) :
    ∃ err l', l.uvTimerStart x cb timeout rep = .ok (err, l') ∧ Sound (l'.answered x err) ∧
      Moved l e (l'.answered x err) := by
  have hrefused : Sound (l.answered x UV_EINVAL) ∧ Moved l e (l.answered x UV_EINVAL) :=
    ⟨sound_log hs, .refused he⟩
  cases cb with
  | none => exact ⟨_, _, rfl, hrefused⟩
  | some cb =>
    cases hclosing : (l.timers x).closing with
    | true => exact ⟨_, _, uvTimerStart.closing hclosing, hrefused⟩
    | false =>
      obtain ⟨heap, hstart, hs'⟩ := uvTimerStart.spec cb timeout rep hs hlive hclosing
      exact ⟨_, _, hstart, hs', .armed he⟩

/-- Every step from a sound loop that is taken leads to one, and does one of the moves. -/
theorem moved (hs : Sound l) (e : Event) :
    Gives (Refuses l e) (step l e) fun l' => Sound l' ∧ Moved l e l' := by
  cases e with
  | init x =>
    apply gives_guarded
    intro hnew
    rw [Bool.not_eq_true'] at hnew
    exact gives_pure ⟨sound_init hs hnew, .init hnew⟩
  | start x cb timeout rep =>
    apply gives_guarded
    intro hlive
    have he : (Event.start x cb timeout rep).starts = some x := rfl
    obtain ⟨err, l', hstart, hm⟩ := uvTimerStart.moves cb timeout rep hs hlive he
    apply gives_bind_ok hstart
    exact gives_pure hm
  | stop x =>
    apply gives_guarded
    intro hlive
    obtain ⟨heap, hstop, hs', -⟩ := uvTimerStop.spec hs x
    apply gives_bind_ok hstop
    exact gives_pure ⟨sound_log hs', .stopped⟩
  | again x =>
    apply gives_guarded
    intro hlive
    obtain ⟨err, l', hagain, hs', hm⟩ := uvTimerAgain.spec hs hlive
    apply gives_bind_ok hagain
    rcases hm with ⟨rfl, rfl, -⟩ | ⟨rfl, rfl, -⟩ | ⟨rfl, heap, rfl, hclosing⟩ | ⟨rfl, cb, heap, rfl, -⟩
    · exact gives_pure ⟨sound_log hs', .refused rfl⟩
    · exact gives_pure ⟨hs', .kept⟩
    · exact gives_pure ⟨hs', .again hclosing⟩
    · exact gives_pure ⟨hs', .armed rfl⟩
  | setRepeat x rep =>
    apply gives_guarded
    intro hlive
    exact gives_pure ⟨sound_repeats hs, .setRepeat⟩
  | close x =>
    apply gives_guarded
    intro hlive
    exact uvClose.spec hs x
  | updateTime now =>
    apply gives_guarded
    intro hnow
    rw [decide_eq_true_eq] at hnow
    exact gives_pure ⟨sound_clock hs hnow, .clock hnow⟩
  | runTimers =>
    apply gives_guarded
    intro hidle
    rw [Bool.not_eq_true'] at hidle
    have hrunning : Sound { l with running := true } := { hs with idle := fun h => by cases h }
    obtain ⟨l', due, hcollect, hs', hc⟩ := collect.spec hrunning rfl (Nat.lt_succ_self _)
    exact gives_of_ok hcollect ⟨hs', .collected hidle hc⟩
  | fire =>
    apply gives_guarded
    intro hrun
    exact fire.spec hs
  | finish =>
    apply gives_guarded
    intro hdone
    rw [decide_eq_true_eq] at hdone
    exact gives_pure ⟨{ hs with idle := fun _ => hdone.2 }, .finished hdone.2⟩

end moves

end linuxc.uv_timer
