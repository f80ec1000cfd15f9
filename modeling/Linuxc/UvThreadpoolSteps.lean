-- What each step of the thread pool does: who is woken, where a request is put,
-- what a worker finds when it has the mutex. The counters agree with the workers,
-- and no step fails.
import Linuxc.Slots
import Linuxc.UvThreadpool

namespace linuxc.threadpool

open event_runs slots

/-! ## The queue of the workers -/

/-- The requests of `wq`, in order. -/
def requests : List Msg → List Nat
  | [] => []
  | .work w :: wq => w :: requests wq
  | .run_slow_work_message :: wq => requests wq

section requests

variable {wq wq' : List Msg} {w v : Nat}

@[simp] theorem requests_nil : requests [] = [] := rfl

@[simp] theorem requests_work : requests (.work w :: wq) = w :: requests wq := rfl

@[simp] theorem requests_message : requests (.run_slow_work_message :: wq) = requests wq := rfl

@[simp] theorem requests_append : requests (wq ++ wq') = requests wq ++ requests wq' := by
  induction wq with
  | nil => rfl
  | cons msg wq ih => cases msg <;> simp [ih]

theorem mem_requests : w ∈ requests wq ↔ .work w ∈ wq := by
  induction wq with
  | nil => simp
  | cons msg wq ih => cases msg <;> simp [ih]

theorem requests_filter : requests (wq.filter (· ≠ .work w)) = (requests wq).filter (· ≠ w) := by
  induction wq with
  | nil => rfl
  | cons msg wq ih =>
    cases msg with
    | run_slow_work_message => simpa using ih
    | work v =>
      by_cases hvw : v = w
      · subst hvw
        simpa using ih
      · simpa [hvw] using ih

end requests

/-- The requests that wait for a worker, slow ones apart. -/
def Pool.queued (p : Pool) : List Nat := requests p.wq

/-- It has been noted that slow work is to be run. -/
def Pool.Scheduled (p : Pool) : Prop := .run_slow_work_message ∈ p.wq

/-! ## Counting workers -/

def Worker.isWaiting : Worker → Bool
  | .waiting => true
  | _ => false

/-- It counts among the `idle_threads`. -/
def Worker.isIdle : Worker → Bool
  | .waiting => true
  | .woken => true
  | _ => false

/-- It counts among the `slow_io_work_running`. -/
def Worker.holdsSlow : Worker → Bool
  | .locking is_slow_work => is_slow_work
  | .running _ is_slow_work => is_slow_work
  | _ => false

def Worker.runsSlow : Worker → Bool
  | .running _ is_slow_work => is_slow_work
  | _ => false

def Worker.runs (w : Nat) : Worker → Bool
  | .running v _ => v = w
  | _ => false

def Pool.count (p : Pool) (f : Worker → Bool) : Nat := p.workers.countP f

section count

variable {p q : Pool} {t : Nat} {a b : Worker} {f g : Worker → Bool}

/-- What is counted when worker `t` goes from `a` to `b`. -/
theorem count_set (f : Worker → Bool) (h : p.workers[t]? = some a)
    (hset : q.workers = p.workers.set t b) :
    q.count f + (f a).toNat = p.count f + (f b).toNat := by
  unfold Pool.count
  rw [hset]
  exact countP_set f h

theorem count_pos (h : p.workers[t]? = some a) (hf : f a = true) : 0 < p.count f := countP_pos h hf

theorem count_eq_zero : p.count f = 0 ↔ ∀ a ∈ p.workers, f a = false := countP_eq_zero

/-- Who is counted by `f` is counted by `g`. -/
theorem count_mono (h : ∀ a, f a = true → g a = true) : p.count f ≤ p.count g :=
  List.countP_mono_left fun a _ => h a

theorem workers_setWorker_self (h : p.workers[t]? = some a) :
    (p.setWorker t b).workers[t]? = some b := get_set_self h

theorem threshold_set (hset : q.workers = p.workers.set t b) :
    q.slowWorkThreadThreshold = p.slowWorkThreadThreshold := by
  unfold Pool.slowWorkThreadThreshold
  rw [hset, List.length_set]

end count

/-! ## Signals -/

/-- A step may come at the wrong time, but it does not fail. -/
def Refuses (stop : Stop) : Prop := stop = .notNow

theorem guarded.spec (b : Bool) : Gives Refuses (guarded b) fun _ => b = true := by
  unfold guarded
  split
  · exact gives_ok ‹_›
  · exact gives_error rfl

/-- One waiting worker is woken, if there is one. -/
inductive Nudged (p : Pool) : Pool → Prop
  | nobody (h : 0 < p.idle_threads → p.count Worker.isWaiting = 0) : Nudged p p
  | woke (t : Nat) (h : p.workers[t]? = some .waiting) : Nudged p (p.setWorker t .woken)

/-- Whether a worker is woken before or after another begins to run makes no difference. -/
theorem nudged_begin {p p' : Pool} {t w : Nat} {is_slow_work : Bool}
    (ht : p.workers[t]? = some (.locking false)) (h : Nudged p p') :
    Nudged (p.begin t w is_slow_work) (p'.begin t w is_slow_work) := by
  cases h with
  | nobody h =>
    refine .nobody fun hidle => ?_
    have hcount := count_set (q := p.begin t w is_slow_work) Worker.isWaiting ht rfl
    have hnone := h hidle
    simp only [Worker.isWaiting, Bool.toNat_false] at hcount
    omega
  | woke t' h =>
    have hne : t ≠ t' := by
      rintro rfl
      rw [ht] at h
      cases h
    have hcomm : (p.setWorker t' .woken).begin t w is_slow_work =
        (p.begin t w is_slow_work).setWorker t' .woken := by
      simp [Pool.begin, Pool.setWorker, Pool.log, List.set_comm _ _ hne]
    rw [hcomm]
    refine .woke t' ?_
    change (p.workers.set t _)[t']? = _
    rw [List.getElem?_set_ne hne]
    exact h

theorem signal.spec (p : Pool) (target : Option Nat) : Gives Refuses (p.signal target) (Nudged p) := by
  unfold Pool.signal
  cases target with
  | none =>
    refine gives_bind (guarded.spec _) fun _ hall => gives_pure (.nobody fun _ => ?_)
    rw [count_eq_zero]
    intro a ha
    have hne : a ≠ .waiting := by simpa using List.all_eq_true.mp hall a ha
    cases a <;> first | rfl | exact absurd rfl hne
  | some t =>
    refine gives_bind (guarded.spec _) fun _ ht => ?_
    exact gives_pure (.woke t (of_decide_eq_true ht))

theorem signalIfIdle.spec (p : Pool) (target : Option Nat) :
    Gives Refuses (p.signalIfIdle target) (Nudged p) := by
  unfold Pool.signalIfIdle
  split
  · exact signal.spec p target
  · rename_i hidle
    exact gives_bind (guarded.spec _) fun _ _ => gives_pure (.nobody fun h => absurd h hidle)

/-! ## What a worker finds -/

/-- How a worker leaves `wq`, when it takes nothing slow: the message stays, unless there is no
slow work. -/
structure Left (p : Pool) (wq : List Msg) : Prop where
  once : wq.count .run_slow_work_message ≤ 1
  kept : .run_slow_work_message ∈ wq → p.Scheduled
  dropped : p.Scheduled → .run_slow_work_message ∈ wq ∨ p.slow_io_pending_wq = []

/-- The pool when worker `t` has taken the slow request `w`. -/
def Pool.takenSlow (p : Pool) (t w : Nat) (wq : List Msg) (pending : List Nat) : Pool :=
  { p with
    wq
    slow_io_work_running := p.slow_io_work_running + 1
    slow_io_pending_wq := pending }.begin t w true

/-- What a worker with the mutex does: it waits, it takes a request, or it takes a slow one, and then
wakes another if there is more. -/
inductive Looked (p : Pool) (t : Nat) : Pool → Prop
  | waits (wq : List Msg) (hleft : Left p wq) (hqueued : p.queued = []) (hwq : requests wq = [])
      (hbusy : .run_slow_work_message ∈ wq → p.slowWorkThreadThreshold ≤ p.slow_io_work_running) :
      Looked p t ({ p with wq, idle_threads := p.idle_threads + 1 }.setWorker t .waiting)
  | takes (w : Nat) (wq : List Msg) (hleft : Left p wq) (hqueued : p.queued = w :: requests wq) :
      Looked p t ({ p with wq }.begin t w false)
  | slow (w : Nat) (pending : List Nat) (wq : List Msg) (p' : Pool)
      (hrun : p.slow_io_work_running < p.slowWorkThreadThreshold) (hsched : p.Scheduled)
      (hpending : p.slow_io_pending_wq = w :: pending) (hwq : requests wq = p.queued)
      (honce : wq.count .run_slow_work_message ≤ 1)
      (hmore : .run_slow_work_message ∈ wq ↔ pending ≠ [])
      (hnudged : p' = p.takenSlow t w wq pending ∧ pending = [] ∨ Nudged (p.takenSlow t w wq pending) p') :
      Looked p t p'

/-- A worker that finds the queue put in another order, or without a message that nothing is behind,
finds the same. -/
theorem looked_of_left {p p' : Pool} {t : Nat} {wq : List Msg} (hleft : Left p wq)
    (hwq : requests wq = p.queued) (h : Looked { p with wq } t p') : Looked p t p' := by
  have hback : ∀ {wq' : List Msg}, Left { p with wq } wq' → Left p wq' := by
    intro wq' h'
    refine ⟨h'.once, fun hmem => hleft.kept (h'.kept hmem), fun hsched => ?_⟩
    rcases hleft.dropped hsched with hmem | hnone
    · exact h'.dropped hmem
    · exact .inr hnone
  cases h with
  | waits wq' hleft' hqueued hwq' hbusy => exact .waits wq' (hback hleft') (hwq ▸ hqueued) hwq' hbusy
  | takes w wq' hleft' hqueued => exact .takes w wq' (hback hleft') (hwq ▸ hqueued)
  | slow w pending wq' p' hrun hsched hpending hwq' honce hmore hnudged =>
    exact .slow w pending wq' p' hrun (hleft.kept hsched) hpending (hwq'.trans hwq) honce hmore hnudged

/-- How often the loop of a worker turns at most. -/
def turns : List Msg → Nat
  | .run_slow_work_message :: _ => 2
  | _ => 1

theorem one_le_turns (wq : List Msg) : 1 ≤ turns wq := by
  unfold turns
  split <;> omega

theorem turns_eq_one {wq : List Msg} (h : .run_slow_work_message ∉ wq) : turns wq = 1 := by
  cases wq with
  | nil => rfl
  | cons msg wq =>
    cases msg with
    | work w => rfl
    | run_slow_work_message => simp at h

theorem turns_append {wq wq' : List Msg} (h : .run_slow_work_message ∉ wq) (hne : wq ≠ []) :
    turns (wq ++ wq') = 1 := by
  cases wq with
  | nil => exact absurd rfl hne
  | cons msg wq =>
    cases msg with
    | work w => rfl
    | run_slow_work_message => simp at h

theorem not_mem_of_once {wq : List Msg}
    (h : (Msg.run_slow_work_message :: wq).count .run_slow_work_message ≤ 1) :
    .run_slow_work_message ∉ wq := by
  rw [List.count_cons_self] at h
  exact List.count_eq_zero.mp (by omega)

theorem once_append {wq : List Msg} (h : .run_slow_work_message ∉ wq) :
    (wq ++ [Msg.run_slow_work_message]).count .run_slow_work_message ≤ 1 := by
  rw [List.count_append, List.count_eq_zero.mpr h]
  simp

theorem look.spec {t : Nat} {target : Option Nat} {fuel : Nat} {p : Pool}
    (ht : p.workers[t]? = some (.locking false)) (honce : p.wq.count .run_slow_work_message ≤ 1)
    (hfuel : turns p.wq ≤ fuel) : Gives Refuses (look t target fuel p) (Looked p t) := by
  induction fuel generalizing p with
  | zero =>
    have := one_le_turns p.wq
    omega
  | succ fuel ih =>
    have hsame : Left p p.wq := ⟨honce, id, .inl⟩
    unfold look
    by_cases hwaits : p.waits = true
    · rw [if_pos hwaits]
      refine gives_bind (guarded.spec _) fun _ _ => gives_pure ?_
      rcases of_decide_eq_true hwaits with hnil | ⟨honly, hbusy⟩
      · exact .waits p.wq hsame (by simp [Pool.queued, hnil]) (by simp [hnil]) (by simp [hnil])
      · exact .waits p.wq hsame (by simp [Pool.queued, honly]) (by simp [honly]) fun _ => hbusy
    · rw [if_neg hwaits]
      have hgo : ¬ (p.wq = [] ∨ p.wq = [.run_slow_work_message] ∧
          p.slowWorkThreadThreshold ≤ p.slow_io_work_running) := fun h => hwaits (decide_eq_true h)
      cases hwq : p.wq with
      | nil => exact absurd (.inl hwq) hgo
      | cons msg wq =>
        have hsched : msg = .run_slow_work_message → p.Scheduled := by
          rintro rfl
          simp [Pool.Scheduled, hwq]
        rw [hwq] at honce hfuel
        cases msg with
        | work w =>
          refine gives_bind (guarded.spec _) fun _ _ => gives_pure ?_
          refine .takes w wq ⟨?_, fun h => ?_, fun h => .inl ?_⟩ (by simp [Pool.queued, hwq])
          · simpa using honce
          · simpa [Pool.Scheduled, hwq] using h
          · simpa [Pool.Scheduled, hwq] using h
        | run_slow_work_message =>
          have hnot := not_mem_of_once honce
          have hone : 1 ≤ fuel := by
            simp only [turns] at hfuel
            omega
          simp only
          split
          · rename_i hbusy
            -- the message goes behind the other work, which is then taken
            have hne : wq ≠ [] := by
              rintro rfl
              exact hgo (.inr ⟨hwq, hbusy⟩)
            have hleft : Left p (wq ++ [.run_slow_work_message]) :=
              ⟨once_append hnot, fun _ => hsched rfl, fun _ => .inl (by simp)⟩
            refine gives_mono (ih ht hleft.once ?_) (fun _ => id) fun p' =>
              looked_of_left hleft (by simp [Pool.queued, hwq])
            rwa [turns_append hnot hne]
          · rename_i hfree
            split
            · rename_i hnone
              have hleft : Left p wq :=
                ⟨by rw [List.count_eq_zero.mpr hnot]; omega, fun h => absurd h hnot, fun _ => .inr hnone⟩
              refine gives_mono (ih ht hleft.once ?_) (fun _ => id) fun p' =>
                looked_of_left hleft (by simp [Pool.queued, hwq])
              rwa [turns_eq_one hnot]
            · rename_i w pending hpending
              by_cases hmore : pending = []
              · rw [if_neg (by simpa using hmore)]
                refine gives_bind (guarded.spec _) fun _ _ => gives_pure ?_
                refine .slow w pending wq _ (by omega) (hsched rfl) hpending (by simp [Pool.queued, hwq])
                  (by rw [List.count_eq_zero.mpr hnot]; omega) ?_ (.inl ⟨rfl, hmore⟩)
                exact ⟨fun h => absurd h hnot, fun h => absurd hmore h⟩
              · rw [if_pos hmore]
                refine gives_bind (signalIfIdle.spec _ target) fun p₁ hnudged => gives_pure ?_
                refine .slow w pending (wq ++ [.run_slow_work_message]) _ (by omega) (hsched rfl) hpending
                  (by simp [Pool.queued, hwq]) (once_append hnot) ?_ (.inr (nudged_begin ht hnudged))
                exact ⟨fun _ => hmore, fun _ => by simp⟩

/-! ## What each event does -/

/-- A worker has the mutex again. -/
inductive Turned (p : Pool) (t : Nat) : Pool → Prop
  | locked (is_slow_work : Bool) (h : p.workers[t]? = some (.locking is_slow_work)) :
      Turned p t ({ p with
        slow_io_work_running := p.slow_io_work_running - is_slow_work.toNat }.setWorker t (.locking false))
  | woken (h : p.workers[t]? = some .woken) :
      Turned p t ({ p with idle_threads := p.idle_threads - 1 }.setWorker t (.locking false))

/-- A request is put into its queue. -/
inductive Posted (p : Pool) (w : Nat) (kind : Kind) : Pool → Prop
  | work (p' : Pool) (hkind : kind ≠ .slow_io) (hnudged : Nudged { p with wq := p.wq ++ [.work w] } p') :
      Posted p w kind p'
  | behind (hkind : kind = .slow_io) (hsched : p.Scheduled) :
      Posted p w kind { p with slow_io_pending_wq := p.slow_io_pending_wq ++ [w] }
  | schedules (p' : Pool) (hkind : kind = .slow_io) (hsched : ¬ p.Scheduled)
      (hnudged : Nudged { p with
        slow_io_pending_wq := p.slow_io_pending_wq ++ [w]
        wq := p.wq ++ [.run_slow_work_message] } p') :
      Posted p w kind p'

/-- The pool with a request set up, and not yet in a queue. -/
def Pool.prepared (p : Pool) (w : Nat) (kind : Kind) : Pool :=
  (p.setWork w ⟨true, .given, false⟩).log (.submitted w kind)

/-- The pool when worker `t` has run `w`. -/
def Pool.finished (p : Pool) (t w : Nat) (is_slow_work : Bool) : Pool :=
  ({ p.setWork w { p.works w with work := .null } with
    loop_wq := p.loop_wq ++ [w]
    async := true }.setWorker t (.locking is_slow_work)).log (.ran w)

/-- The pool when `w` has been called back. -/
def Pool.calledBack (p : Pool) (w : Nat) (done_wq : List Nat) : Pool :=
  ({ p with done_wq }.setWork w { p.works w with called := true }).log
    (.done w (if (p.works w).work = WorkFn.cancelled then UV_ECANCELED else 0))

/-- All that an event can do. -/
inductive Moved (p : Pool) : Event → Pool → Prop
  | submitted (w : Nat) (kind : Kind) (target : Option Nat) (p' : Pool) (hcancelling : p.cancelling = none)
      (hnew : (p.works w).submitted = false) (h : Posted (p.prepared w kind) w kind p') :
      Moved p (.submit w kind target) p'
  | withdrew (w : Nat) (hcancelling : p.cancelling = none) (hlinked : p.linked w = true)
      (hwork : (p.works w).work ≠ .null) : Moved p (.cancel w) { p.unlink w with cancelling := some w }
  | busy (w : Nat) (hcancelling : p.cancelling = none) (hsub : (p.works w).submitted = true)
      (hcalled : (p.works w).called = false)
      (hbusy : p.linked w = true → (p.works w).work = .null) :
      Moved p (.cancel w) (p.log (.busy w UV_EBUSY))
  | cancelled (w : Nat) (hcancelling : p.cancelling = some w) : Moved p .cancelled (p.cancelled w)
  | entered (t : Nat) (target : Option Nat) (p₁ p' : Pool) (hturned : Turned p t p₁)
      (hlooked : Looked p₁ t p') : Moved p (.enter t target) p'
  | finished (t w : Nat) (is_slow_work : Bool) (h : p.workers[t]? = some (.running w is_slow_work)) :
      Moved p (.finish t) (p.finished t w is_slow_work)
  | spurious (t : Nat) (h : p.workers[t]? = some .waiting) :
      Moved p (.spurious t) (p.setWorker t .woken)
  | woke (hcontrol : p.control = .idle) (hasync : p.async = true) :
      Moved p .wake { p with async := false, control := .gathering }
  | gathered (hcontrol : p.control = .gathering) :
      Moved p .gather { p with control := .finishing, done_wq := p.loop_wq, loop_wq := [] }
  | called (w : Nat) (done_wq : List Nat) (hcontrol : p.control = .finishing)
      (hdone : p.done_wq = w :: done_wq) : Moved p .done (p.calledBack w done_wq)
  | ended (hcontrol : p.control = .finishing) (hdone : p.done_wq = []) :
      Moved p .leave { p with control := .idle }

theorem enqueue.spec (p : Pool) (msg : Msg) (target : Option Nat) :
    Gives Refuses (p.enqueue msg target) (Nudged { p with wq := p.wq ++ [msg] }) :=
  signalIfIdle.spec _ target

theorem post.spec (p : Pool) (w : Nat) (kind : Kind) (target : Option Nat) :
    Gives Refuses (p.post w kind target) (Posted p w kind) := by
  unfold Pool.post
  split
  · rename_i hkind
    simp only
    split
    · rename_i hsched
      exact gives_bind (guarded.spec _) fun _ _ => gives_pure (.behind hkind hsched)
    · rename_i hsched
      exact gives_mono (enqueue.spec _ _ target) (fun _ => id) fun p' => .schedules p' hkind hsched
  · rename_i hkind
    exact gives_mono (enqueue.spec _ _ target) (fun _ => id) fun p' => .work p' hkind

theorem enter.spec {p : Pool} (t : Nat) (target : Option Nat)
    (honce : p.wq.count .run_slow_work_message ≤ 1) :
    Gives Refuses (p.enter t target) fun p' => ∃ p₁, Turned p t p₁ ∧ Looked p₁ t p' := by
  have hfuel : turns p.wq ≤ p.wq.length + 2 := by
    unfold turns
    split <;> omega
  unfold Pool.enter
  split
  · rename_i is_slow_work ht
    refine gives_mono (look.spec ?_ ?_ ?_) (fun _ => id) fun p' hlooked => ⟨_, ?_, hlooked⟩
    · cases is_slow_work <;> exact workers_setWorker_self ht
    · cases is_slow_work <;> exact honce
    · cases is_slow_work <;> exact hfuel
    · cases is_slow_work <;> exact .locked _ ht
  · rename_i ht
    have hself := workers_setWorker_self (p := { p with idle_threads := p.idle_threads - 1 })
      (b := .locking false) ht
    exact gives_mono (look.spec hself honce hfuel) (fun _ => id) fun p' hlooked => ⟨_, .woken ht, hlooked⟩
  · exact gives_error rfl

theorem finish.spec {p : Pool} (t : Nat) (hgiven : ∀ w is_slow_work,
      p.workers[t]? = some (.running w is_slow_work) → (p.works w).work = .given) :
    Gives Refuses (p.finish t) (Moved p (.finish t)) := by
  unfold Pool.finish
  split
  · rename_i w is_slow_work ht
    have hcheck : check .work ((p.works w).work = .given) = .ok () := if_pos (by simpa using hgiven w _ ht)
    exact gives_bind_ok hcheck (gives_pure (.finished t w is_slow_work ht))
  · exact gives_error rfl

theorem step.spec {p : Pool} (e : Event) (honce : p.wq.count .run_slow_work_message ≤ 1)
    (hgiven : ∀ (t w : Nat) (is_slow_work : Bool),
      p.workers[t]? = some (.running w is_slow_work) → (p.works w).work = .given) :
    Gives Refuses (step p e) (Moved p e) := by
  cases e with
  | submit w kind target =>
    refine gives_bind (guarded.spec _) fun _ h => ?_
    obtain ⟨hcancelling, -, hnew⟩ := of_decide_eq_true h
    refine gives_mono (post.spec _ w kind target) (fun _ => id) fun p' =>
      .submitted w kind target p' hcancelling (by simpa using hnew)
  | cancel w =>
    refine gives_bind (guarded.spec _) fun _ h => gives_pure ?_
    obtain ⟨hcancelling, -, hsub, hcalled⟩ := of_decide_eq_true h
    unfold Pool.cancel
    split
    · rename_i hcancel
      exact .withdrew w hcancelling hcancel.1 hcancel.2
    · rename_i hbusy
      refine .busy w hcancelling hsub (by simpa using hcalled) fun hlinked => ?_
      by_contra hwork
      exact hbusy ⟨hlinked, hwork⟩
  | cancelled =>
    unfold step
    cases hcancelling : p.cancelling with
    | none => exact gives_error rfl
    | some w => exact gives_ok (.cancelled w hcancelling)
  | enter t target =>
    refine gives_mono (enter.spec t target honce) (fun _ => id) ?_
    rintro p' ⟨p₁, hturned, hlooked⟩
    exact .entered t target p₁ p' hturned hlooked
  | finish t => exact finish.spec t (hgiven t)
  | spurious t =>
    refine gives_bind (guarded.spec _) fun _ h => gives_pure ?_
    exact .spurious t (of_decide_eq_true h)
  | wake =>
    refine gives_bind (guarded.spec _) fun _ h => gives_pure ?_
    obtain ⟨-, hcontrol, hasync⟩ := of_decide_eq_true h
    exact .woke hcontrol hasync
  | gather =>
    refine gives_bind (guarded.spec _) fun _ h => gives_pure ?_
    exact .gathered (of_decide_eq_true h)
  | done =>
    refine gives_bind (guarded.spec _) fun _ h => ?_
    obtain ⟨-, hcontrol⟩ := of_decide_eq_true h
    unfold Pool.done
    cases hdone : p.done_wq with
    | nil => exact gives_error rfl
    | cons w done_wq => exact gives_ok (.called w done_wq hcontrol hdone)
  | leave =>
    refine gives_bind (guarded.spec _) fun _ h => gives_pure ?_
    obtain ⟨-, hcontrol, hdone⟩ := of_decide_eq_true h
    exact .ended hcontrol hdone

end linuxc.threadpool
