-- The laws of uv_async_send, for every order of the steps of all threads: each
-- callback has its send, each send gets its callback, and after a close or the
-- end of the loop nothing is written any more.
import Linuxc.UvAsyncWakes

namespace linuxc.async

open event_runs slots

/-! ## Callbacks and writes -/

/-- A callback of a handle comes only while a send of it has not been answered yet: never twice for one
send, never for none. -/
theorem each_callback_answers_a_send {n : Nat} {es : List Event} {l : Loop}
    (h : run step (start n) es = .ok l) :
    Each (fun before act => ∀ x, act = .called x → rung x before = true) l.trace := by
  intro before act after hsplit x hact
  exact ((sound_run h).traced.called before act after hsplit x hact).1

/-- Two threads send while the loop looks: the first send is answered, and the second one after that. -/
def twoSends : List Event :=
  [.init 7 true, .load 0 7, .load 1 7, .enter 0, .exchange 0, .write 0, .poll, .read, .move, .visit,
    .enter 1, .exchange 1, .write 1, .leave 0, .leave 1, .visit, .poll, .read, .move, .visit, .visit]

/-- Each of the two sends has its callback. -/
theorem both_sends_are_answered :
    ∃ l, run step (start 2) twoSends = .ok l ∧
      l.trace = [.opened 7, .sent 7, .wrote 7, .called 7, .sent 7, .wrote 7, .called 7] ∧
      Each (fun before act => ∀ x, act = .called x → rung x before = true) l.trace := by
  have hseen : (run step (start 2) twoSends).toOption.map (·.trace) =
      some [.opened 7, .sent 7, .wrote 7, .called 7, .sent 7, .wrote 7, .called 7] := by decide +kernel
  obtain ⟨l, hl, htrace⟩ := ran hseen
  exact ⟨l, hl, htrace, each_callback_answers_a_send hl⟩

/-- After `uv__async_close` of a handle, and after `uv__async_stop` for all, no thread writes to the
eventfd for it and it is not called back, though sends may go on; and no step fails, so nothing is ever
written to an eventfd that is closed. -/
theorem nothing_is_written_after_the_close {n : Nat} {es : List Event} {l : Loop}
    (h : run step (start n) es = .ok l) :
    Each (fun before act => ∀ x, act = .wrote x ∨ act = .called x →
      .closed x ∉ before ∧ .stopped ∉ before) l.trace ∧
      ∀ e, step l e ≠ .error .aborted := by
  have hs := sound_run h
  refine ⟨fun before act after hsplit x hact => ?_, fun e hfail => ?_⟩
  · rcases hact with hact | hact
    · exact hs.traced.wrote before act after hsplit x hact
    · exact (hs.traced.called before act after hsplit x hact).2
  · have hreason := reason_of_gives (moved e hs) hfail
    cases hreason

/-- A thread that has read `pending` as 0 before the close goes on after it, and does not write. -/
def lateSend : List Event :=
  [.init 7 true, .load 0 7, .close 7, .spun, .enter 0, .exchange 0, .leave 0]

/-- The late send changes nothing. -/
theorem the_late_send_is_not_written :
    ∃ l, run step (start 1) lateSend = .ok l ∧ l.trace = [.opened 7, .closed 7, .sent 7] ∧
      Each (fun before act => ∀ x, act = .wrote x ∨ act = .called x →
        .closed x ∉ before ∧ .stopped ∉ before) l.trace := by
  have hseen : (run step (start 1) lateSend).toOption.map (·.trace) =
      some [.opened 7, .closed 7, .sent 7] := by decide +kernel
  obtain ⟨l, hl, htrace⟩ := ran hseen
  exact ⟨l, hl, htrace, (nothing_is_written_after_the_close hl).1⟩

/-! ## What is left to do -/

/-- What happens by itself: no thread begins to send, and the program calls nothing. -/
def Event.internal : Event → Bool
  | .load _ _ => false
  | .init _ _ => false
  | .close _ => false
  | .stop => false
  | _ => true

/-- How many handles are open. -/
def Loop.opened (l : Loop) : Nat := (l.queue ++ l.async_handles).length

/-- The steps that a thread has before it, and those that its write gives the loop when `n` handles are
open. -/
def Sender.left (n : Nat) : Sender → Nat
  | .outside => 0
  | .loaded _ => n + 11
  | .entered _ => n + 10
  | .writing _ => n + 9
  | .leaving _ => 1

/-- The steps that the loop has before it: with `n` handles open, of which `k` are in the local queue. -/
def Control.left (n k : Nat) : Control → Nat
  | .outside => 1
  | .reading => 0
  | .moving => n + 4
  | .visiting => k + 3
  | .stopping => 2 * k + 1
  | .stopped => 0

/-- What the loop has before it, and what the eventfd gives it. -/
def Loop.undone (l : Loop) : Nat :=
  (if 0 < l.fd.getD 0 then l.opened + 7 else 0) + l.control.left l.opened l.queue.length +
    l.spinning.toList.length

/-- A bound on the steps until nothing is left to do. -/
def Loop.left (l : Loop) : Nat := tally (Sender.left l.opened) l.threads + l.undone

section left

variable {l l' : Loop} {t h : Nat} {a b : Sender}

/-- A thread goes on, and gives the loop at most `c` steps more. -/
theorem left_thread {c : Nat} (ht : l.threads[t]? = some a) (hset : l'.threads = l.threads.set t b)
    (hopened : l'.opened = l.opened) (hundone : l'.undone ≤ l.undone + c)
    (hless : b.left l.opened + c < a.left l.opened) : l'.left < l.left := by
  have htally : tally (Sender.left l.opened) (l.threads.set t b) + a.left l.opened =
      tally (Sender.left l.opened) l.threads + b.left l.opened := tally_set ht
  unfold Loop.left
  rw [hopened, hset]
  omega

/-- The loop goes on. No more handles are open after it. -/
theorem left_loop (hthreads : l'.threads = l.threads) (hopened : l'.opened ≤ l.opened)
    (hless : l'.undone < l.undone) : l'.left < l.left := by
  have htally : tally (Sender.left l'.opened) l.threads ≤ tally (Sender.left l.opened) l.threads := by
    apply tally_le_tally
    intro a
    cases a <;> simp only [Sender.left] <;> omega
  unfold Loop.left
  rw [hthreads]
  omega

theorem undone_closed (hspin : l.spinning = some h) (hopened : l'.opened ≤ l.opened)
    (hqueue : l'.queue.length ≤ l.queue.length) (hfd : l'.fd = l.fd) (hcontrol : l'.control = l.control)
    (hnone : l'.spinning = none) : l'.undone < l.undone := by
  have hless : l'.control.left l'.opened l'.queue.length ≤ l.control.left l.opened l.queue.length := by
    rw [hcontrol]
    cases l.control <;> simp only [Control.left] <;> omega
  unfold Loop.undone
  rw [hfd, hspin, hnone]
  simp only [Option.toList_some, Option.toList_none, List.length_nil, List.length_singleton]
  split <;> omega

theorem left_moved {e : Event} (ha : Awake l) (he : e.internal = true) (hm : Moved l e l') :
    l'.left < l.left := by
  cases hm with
  | coalesced t h ht hphase hpending => cases he
  | loaded t h ht hphase => cases he
  | opened h async_cb hspin hcontrol hphase => cases he
  | closing h hspin hcontrol hphase => cases he
  | stopping hspin hcontrol hfd => cases he
  | entered t h ht =>
    refine left_thread (c := 0) ht rfl rfl (Nat.le_refl _) ?_
    simp only [Sender.left]
    omega
  | exchanged t h ht =>
    refine left_thread (c := 0) ht rfl rfl (Nat.le_refl _) ?_
    split <;> simp only [Sender.left] <;> omega
  | wrote t h n ht hfd hn =>
    refine left_thread (c := l.opened + 7) ht rfl rfl ?_ ?_
    · change (if 0 < n then l.opened + 7 else 0) + l.control.left l.opened l.queue.length +
        l.spinning.toList.length ≤ _
      unfold Loop.undone
      split <;> omega
    · simp only [Sender.left]
      omega
  | left t h ht =>
    refine left_thread (c := 0) ht rfl rfl (Nat.le_refl _) ?_
    simp only [Sender.left]
    omega
  | closed h hspin hbusy hcontrol =>
    have hlength : (l.queue.filter (· ≠ h) ++ l.async_handles.filter (· ≠ h)).length ≤ l.opened := by
      rw [← List.filter_append]
      exact List.length_filter_le _ _
    refine left_loop rfl hlength (undone_closed hspin hlength (List.length_filter_le _ _) rfl rfl rfl)
  | silenced h hspin hbusy hcontrol =>
    exact left_loop rfl (Nat.le_refl _) (undone_closed hspin (Nat.le_refl _) (Nat.le_refl _) rfl rfl rfl)
  | polled hspin hcontrol hfd =>
    refine left_loop rfl (Nat.le_refl _) ?_
    unfold Loop.undone
    rw [hcontrol]
    simp only [Control.left]
    exact Nat.add_lt_add_right (Nat.lt_succ_self _) _
  | read hcontrol =>
    refine left_loop rfl (Nat.le_refl _) ?_
    unfold Loop.undone
    rw [hcontrol, if_pos (ha.reading hcontrol)]
    simp only [Control.left, Loop.opened, Option.getD_some]
    rw [if_neg (Nat.lt_irrefl 0)]
    omega
  | moved hcontrol =>
    have hlength : (l.async_handles ++ []).length ≤ l.opened := by
      unfold Loop.opened
      simp
    refine left_loop rfl hlength ?_
    have hless : l.async_handles.length ≤ l.opened := by
      unfold Loop.opened
      simp
    unfold Loop.undone
    rw [hcontrol]
    simp only [Control.left, Loop.opened, List.append_nil] at hless ⊢
    split <;> omega
  | visited h queue acts hspin hcontrol hqueue hacts =>
    have hlength : (queue ++ (l.async_handles ++ [h])).length = l.opened := by
      unfold Loop.opened
      rw [hqueue]
      exact perm_rotate.length_eq
    refine left_loop rfl (Nat.le_of_eq hlength) ?_
    unfold Loop.undone
    change (if 0 < l.fd.getD 0 then (queue ++ (l.async_handles ++ [h])).length + 7 else 0) +
      l.control.left (queue ++ (l.async_handles ++ [h])).length queue.length + l.spinning.toList.length < _
    rw [hlength, hqueue, hcontrol]
    simp only [Control.left, List.length_cons]
    omega
  | ended hspin hcontrol hqueue =>
    refine left_loop rfl (Nat.le_refl _) ?_
    unfold Loop.undone
    rw [hcontrol]
    simp only [Control.left, Loop.opened]
    omega
  | silencing h queue hspin hcontrol hqueue =>
    have hlength : (queue ++ (l.async_handles ++ [h])).length = l.opened := by
      unfold Loop.opened
      rw [hqueue]
      exact perm_rotate.length_eq
    refine left_loop rfl (Nat.le_of_eq hlength) ?_
    unfold Loop.undone
    change (if 0 < l.fd.getD 0 then (queue ++ (l.async_handles ++ [h])).length + 7 else 0) +
      l.control.left (queue ++ (l.async_handles ++ [h])).length queue.length +
        (some h).toList.length < _
    rw [hlength, hqueue, hcontrol, hspin]
    simp only [Control.left, List.length_cons, Option.toList_some, Option.toList_none, List.length_nil]
    omega
  | stopped hspin hcontrol hqueue =>
    refine left_loop rfl (Nat.le_refl _) ?_
    have hnone : ({ l with fd := none, control := .stopped }.log .stopped).undone =
        l.spinning.toList.length := by
      unfold Loop.undone
      rw [if_neg (by simp [Loop.log])]
      simp [Loop.log, Control.left]
    rw [hnone]
    unfold Loop.undone
    rw [hcontrol]
    simp only [Control.left]
    omega

end left

/-! ## Nothing is forgotten -/

/-- Nothing happens by itself. -/
def Quiet (l : Loop) : Prop := Rests step Event.internal l

section quiet

variable {l : Loop} {t h : Nat} {sender : Sender}

theorem guarded_true {b : Bool} (h : b = true) : guarded b = .ok () := if_pos h

/-- In a quiet system no thread is in the critical section. -/
theorem no_sender (hs : Sound l) (hquiet : Quiet l) (ht : l.threads[t]? = some sender) :
    sender = .outside := by
  cases sender with
  | outside => rfl
  | loaded h =>
    refine absurd ?_ (hquiet (.enter t) (l.enter t h) rfl)
    simp only [step, ht]
  | entered h =>
    refine absurd ?_ (hquiet (.exchange t) (l.exchange t h) rfl)
    simp only [step, ht]
  | writing h =>
    cases hwrite : step l (.write t) with
    | ok l' => exact absurd hwrite (hquiet _ l' rfl)
    | error stop =>
      obtain rfl := reason_of_gives (moved _ hs) hwrite
      simp only [step, ht, Loop.write] at hwrite
      cases hfd : l.fd with
      | none => simp [hfd] at hwrite
      | some n => simp [hfd] at hwrite
  | leaving h =>
    refine absurd ?_ (hquiet (.leave t) (l.leave t h) rfl)
    simp only [step, ht]

theorem count_of_quiet (hs : Sound l) (hquiet : Quiet l) {f : Sender → Bool} (hf : f .outside = false) :
    l.count f = 0 := by
  unfold Loop.count
  rw [countP_eq_zero]
  intro a hmem
  obtain ⟨t, ht⟩ := List.mem_iff_getElem?.mp hmem
  rw [no_sender hs hquiet ht, hf]

/-- In a quiet system the loop is not in async.c, and its eventfd has been read. -/
theorem loop_at_rest (hs : Sound l) (hquiet : Quiet l) (hcontrol : l.control ≠ .stopped) :
    l.spinning = none ∧ l.control = .outside ∧ l.fd.getD 0 = 0 := by
  have hspin : l.spinning = none := by
    cases hspin : l.spinning with
    | none => rfl
    | some h =>
      have hbusy : (l.handles h).busy = 0 := by
        rw [hs.busy.busy h]
        exact count_of_quiet hs hquiet rfl
      refine absurd ?_ (hquiet .spun (l.spun h) rfl)
      simp only [step, hspin]
      exact bind_ok_iff.mpr ⟨(), guarded_true (decide_eq_true hbusy), rfl⟩
  have houtside : l.control = .outside := by
    cases hc : l.control with
    | outside => rfl
    | reading =>
      have hstep : step l .read = .ok { l with fd := some 0, control := .moving } :=
        bind_ok_iff.mpr ⟨(), guarded_true (decide_eq_true hc), rfl⟩
      exact absurd hstep (hquiet _ _ rfl)
    | moving =>
      have hstep : step l .move = .ok { l with
          queue := l.async_handles
          async_handles := []
          control := .visiting } :=
        bind_ok_iff.mpr ⟨(), guarded_true (decide_eq_true hc), rfl⟩
      exact absurd hstep (hquiet _ _ rfl)
    | visiting =>
      have hstep : step l .visit = .ok l.visit :=
        bind_ok_iff.mpr ⟨(), guarded_true (decide_eq_true ⟨hspin, hc⟩), rfl⟩
      exact absurd hstep (hquiet _ _ rfl)
    | stopping =>
      have hstep : step l .stopNext = .ok l.stopNext :=
        bind_ok_iff.mpr ⟨(), guarded_true (decide_eq_true ⟨hspin, hc⟩), rfl⟩
      exact absurd hstep (hquiet _ _ rfl)
    | stopped => exact absurd hc hcontrol
  refine ⟨hspin, houtside, ?_⟩
  by_contra hfd
  have hstep : step l .poll = .ok { l with control := .reading } :=
    bind_ok_iff.mpr ⟨(), guarded_true (decide_eq_true ⟨hspin, houtside, Nat.pos_of_ne_zero hfd⟩), rfl⟩
  exact hquiet _ _ rfl hstep

/-- So no open handle has a send that is not answered. -/
theorem answered_of_quiet (hs : Sound l) (hquiet : Quiet l) (hcontrol : l.control ≠ .stopped)
    (hphase : (l.handles h).phase = .opened) (hcb : (l.handles h).async_cb = true) :
    rung h l.trace = false := by
  obtain ⟨hspin, houtside, hfd⟩ := loop_at_rest hs hquiet hcontrol
  rw [← hs.traced.waits h hphase hcb (by simp [hspin]) (by simp [houtside]) hcontrol]
  by_contra hpending
  rcases hs.awake.awake (by simp [houtside]) hcontrol h hphase (by simpa using hpending)
    with hspin' | hw | hfd' | hmoving | hmem
  · rw [hspin] at hspin'
    cases hspin'
  · have hnone : l.writers h = 0 := count_of_quiet hs hquiet rfl
    omega
  · omega
  · rw [houtside] at hmoving
    cases hmoving
  · rw [hs.listed.empty (by simp [houtside]) (by simp [houtside])] at hmem
    cases hmem

end quiet

/-- Each send of an open handle is answered. From any state, when no thread begins to send and the
program calls nothing, at most `l.left` steps are taken; and when none can be taken, unless the loop has
stopped, every handle that is open and has a callback has been called back since the last send. -/
theorem every_send_is_answered {n : Nat} {es : List Event} {l : Loop}
    (h : run step (start n) es = .ok l) :
    (∀ fs l', (∀ e ∈ fs, e.internal = true) → run step l fs = .ok l' → fs.length ≤ l.left) ∧
      (Quiet l → l.control ≠ .stopped → ∀ x, (l.handles x).phase = .opened →
        (l.handles x).async_cb = true → rung x l.trace = false) := by
  have hs := sound_run h
  refine ⟨fun fs l' hinternal hrun => ?_, fun hquiet hcontrol x => answered_of_quiet hs hquiet hcontrol⟩
  have hbounded := run_bounded (P := Sound) (fun l e l' hs he hstep => ⟨(of_gives (moved e hs) hstep).1,
    left_moved hs.awake he (of_gives (moved e hs) hstep).2⟩) hs hinternal hrun
  omega

/-- When no thread is in `uv_async_send`, and the loop is not in async.c and has nothing to read, nothing
happens by itself. -/
theorem quiet_at_rest {l : Loop} (hthreads : ∀ sender ∈ l.threads, sender = Sender.outside)
    (hspin : l.spinning = none) (hcontrol : l.control = .outside) (hfd : l.fd = some 0) : Quiet l := by
  have hat : ∀ (t : Nat) sender, l.threads[t]? = some sender → sender = Sender.outside := by
    intro t sender ht
    exact hthreads sender (List.mem_of_getElem? ht)
  intro e l' he hstep
  cases e with
  | load t h => cases he
  | init h async_cb => cases he
  | close h => cases he
  | stop => cases he
  | enter t | exchange t | write t | leave t =>
    simp only [step] at hstep
    split at hstep
    · next ht => cases hat t _ ht
    · cases hstep
  | spun => simp [step, hspin] at hstep
  | poll => simp [step, hfd, guarded, bind, Except.bind] at hstep
  | read | move | visit | stopNext => simp [step, hcontrol, guarded, bind, Except.bind] at hstep

/-- When a thread has written and another has read `pending` as 0 before, at most so many steps are
left. When they have been taken, the system is quiet, and both sends have been answered. -/
theorem the_steps_after_the_first_write_are_bounded :
    ∃ l m, run step (start 2) (twoSends.take 6) = .ok l ∧ run step l (twoSends.drop 6) = .ok m ∧
      (∀ fs l', (∀ e ∈ fs, e.internal = true) → run step l fs = .ok l' → fs.length ≤ 22) ∧
      Quiet m ∧ (m.handles 7).phase = .opened ∧ rung 7 m.trace = false := by
  have hleft : (run step (start 2) (twoSends.take 6)).toOption.map (·.left) = some 22 := by
    decide +kernel
  have hrest : (run step (start 2) (twoSends.take 6 ++ twoSends.drop 6)).toOption.map (fun m =>
      (m.threads, m.spinning, m.control, m.fd, m.handles 7)) =
      some ([.outside, .outside], none, .outside, some 0, ⟨.opened, false, 0, true⟩) := by decide +kernel
  obtain ⟨m, hm, hview⟩ := ran hrest
  obtain ⟨l, hl, hlm⟩ := run_append_ok.mp hm
  obtain ⟨l', hl', hbound⟩ := ran hleft
  rw [hl, Except.ok.injEq] at hl'
  subst hl'
  simp only [Prod.mk.injEq] at hview
  obtain ⟨hthreads, hspin, hcontrol, hfd, hhandle⟩ := hview
  have hquiet : Quiet m := quiet_at_rest (by simp [hthreads]) hspin hcontrol hfd
  have hphase : (m.handles 7).phase = .opened := by rw [hhandle]
  have hanswered := (every_send_is_answered hm).2 hquiet (by simp [hcontrol]) 7 hphase (by rw [hhandle])
  refine ⟨l, m, hl, hlm, fun fs l' hinternal hrun => ?_, hquiet, hphase, hanswered⟩
  rw [← hbound]
  exact (every_send_is_answered hl).1 fs l' hinternal hrun

end linuxc.async
