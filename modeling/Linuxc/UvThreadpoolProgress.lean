-- The progress of the thread pool: while work waits that could run, a worker is
-- on its way to the queue, and when nothing is left to do every request has
-- been called back.
import Linuxc.UvThreadpoolLaws

namespace linuxc.threadpool

open event_runs slots

/-! ## No signal is lost -/

/-- It is on its way to the queue. -/
def Worker.isComing : Worker → Bool
  | .locking _ => true
  | .woken => true
  | _ => false

/-- It is, from a slow request that still counts as running. -/
def Worker.returnsSlow : Worker → Bool
  | .locking is_slow_work => is_slow_work
  | _ => false

/-- How many workers could be put to work: one for each request that is not slow, and one for the
message when the slow work that runs leaves room for more. -/
def Pool.wanted (p : Pool) : Nat :=
  p.queued.length +
    if .run_slow_work_message ∈ p.wq ∧ p.count Worker.runsSlow < p.slowWorkThreadThreshold then 1 else 0

/-- While a worker waits, those that are wanted are coming, but for `k`. -/
def Awake (k : Nat) (p : Pool) : Prop :=
  0 < p.count Worker.isWaiting → p.wanted ≤ p.count Worker.isComing + k

section awake

variable {p p' q : Pool} {t w k : Nat} {a b : Worker} {is_slow_work : Bool}

theorem holdsSlow_eq : p.count Worker.holdsSlow = p.count Worker.runsSlow + p.count Worker.returnsSlow :=
  countP_add fun a => by cases a <;> simp [Worker.holdsSlow, Worker.runsSlow, Worker.returnsSlow]

theorem waiting_le (hc : Counts p) : p.count Worker.isWaiting ≤ p.idle_threads := by
  rw [hc.idle]
  refine count_mono fun a ha => ?_
  cases a <;> first | rfl | cases ha

/-- More work is wanted when more is queued, or when less slow work runs. -/
theorem wanted_le {n m : Nat} (hqueued : q.queued.length + n ≤ p.queued.length + m)
    (hsched : .run_slow_work_message ∈ q.wq → p.Scheduled)
    (hruns : p.count Worker.runsSlow ≤ q.count Worker.runsSlow)
    (hthreshold : q.slowWorkThreadThreshold = p.slowWorkThreadThreshold) :
    q.wanted + n ≤ p.wanted + m := by
  unfold Pool.wanted
  rw [hthreshold]
  split
  · rename_i h
    have h' : .run_slow_work_message ∈ p.wq ∧ p.count Worker.runsSlow < p.slowWorkThreadThreshold :=
      ⟨hsched h.1, by omega⟩
    rw [if_pos h']
    omega
  · omega

/-- A worker goes from `a` to `b`, and does not begin to wait. -/
theorem awake_set {j n m : Nat} (ha : Awake j p) (hat : p.workers[t]? = some a)
    (hset : p'.workers = p.workers.set t b) (hwaits : b.isWaiting.toNat ≤ a.isWaiting.toNat)
    (hwanted : p'.wanted + n ≤ p.wanted + m)
    (hcoming : a.isComing.toNat + m + j ≤ n + b.isComing.toNat + k) : Awake k p' := by
  intro hwaiting
  have hcountWaiting := count_set Worker.isWaiting hat hset
  have hcountComing := count_set Worker.isComing hat hset
  have := ha (by omega)
  omega

theorem wanted_set {n m : Nat} (hat : p.workers[t]? = some a) (hset : p'.workers = p.workers.set t b)
    (hqueued : p'.queued.length + n ≤ p.queued.length + m)
    (hsched : .run_slow_work_message ∈ p'.wq → p.Scheduled)
    (hruns : a.runsSlow.toNat ≤ b.runsSlow.toNat) : p'.wanted + n ≤ p.wanted + m := by
  have hcount := count_set Worker.runsSlow hat hset
  exact wanted_le hqueued hsched (by omega) (threshold_set hset)

/-- A worker that is woken is on its way. -/
theorem awake_woken (ha : Awake (k + 1) p) (h : p.workers[t]? = some .waiting) :
    Awake k (p.setWorker t .woken) := by
  refine awake_set (n := 0) (m := 0) ha h rfl (by decide) ?_ ?_
  · exact wanted_set h rfl (Nat.le_refl _) id (by decide)
  · simp only [Worker.isComing, Bool.toNat_true, Bool.toNat_false]
    omega

theorem awake_nudged (h : Nudged p p') (hc : Counts p) (ha : Awake 1 p) : Awake 0 p' := by
  cases h with
  | nobody h =>
    intro hwaiting
    have hle := waiting_le hc
    have := h (by omega)
    omega
  | woke t h => exact awake_woken ha h

theorem awake_turned (h : Turned p t p') (ha : Awake 0 p) : Awake 0 p' := by
  cases h with
  | locked is_slow_work h =>
    exact awake_set (n := 0) (m := 0) ha h rfl (Nat.le_refl _)
      (wanted_set h rfl (Nat.le_refl _) id (Nat.le_refl _)) (Nat.le_refl _)
  | woken h =>
    exact awake_set (n := 0) (m := 0) ha h rfl (Nat.le_refl _)
      (wanted_set h rfl (Nat.le_refl _) id (Nat.le_refl _)) (Nat.le_refl _)

/-- A worker waits only when no work is left for it, or the room that the message waits for is still
held by a worker that is coming. -/
theorem awake_waits {wq : List Msg} (hc : Counts p) (ht : p.workers[t]? = some (.locking false))
    (hwq : requests wq = [])
    (hbusy : .run_slow_work_message ∈ wq → p.slowWorkThreadThreshold ≤ p.slow_io_work_running) :
    Awake 0 ({ p with wq, idle_threads := p.idle_threads + 1 }.setWorker t .waiting) := by
  intro _
  have hset : ({ p with wq, idle_threads := p.idle_threads + 1 }.setWorker t .waiting).workers =
      p.workers.set t .waiting := rfl
  have hruns := count_set Worker.runsSlow ht hset
  have hreturns := count_set Worker.returnsSlow ht hset
  have hslow := hc.slow
  rw [holdsSlow_eq] at hslow
  unfold Pool.wanted
  rw [threshold_set hset]
  have hqueued : ({ p with wq, idle_threads := p.idle_threads + 1 }.setWorker t .waiting).queued = [] := hwq
  rw [hqueued]
  split
  · rename_i h
    have hle := hbusy h.1
    have hless := h.2
    simp only [Worker.runsSlow, Worker.returnsSlow, Bool.toNat_false] at hruns hreturns
    have hcoming : ({ p with wq, idle_threads := p.idle_threads + 1 }.setWorker t .waiting).count
        Worker.returnsSlow ≤
        ({ p with wq, idle_threads := p.idle_threads + 1 }.setWorker t .waiting).count Worker.isComing :=
      count_mono fun a ha => by cases a <;> first | rfl | cases ha
    simp only [List.length_nil]
    omega
  · simp

theorem awake_looked (hc : Counts p) (ht : p.workers[t]? = some (.locking false)) (h : Looked p t p')
    (ha : Awake 0 p) : Awake 0 p' := by
  cases h with
  | waits wq hleft hqueued hwq hbusy => exact awake_waits hc ht hwq hbusy
  | takes w wq hleft hqueued =>
    refine awake_set (b := .running w false) (n := 1) (m := 0) ha ht rfl (Nat.le_refl _) ?_ (Nat.le_refl _)
    refine wanted_set (b := .running w false) ht rfl ?_ hleft.kept (Nat.le_refl _)
    rw [hqueued]
    exact Nat.le_refl _
  | slow w pending wq p' hrun hsched hpending hwq honce hmore hnudged =>
    have hset : (p.takenSlow t w wq pending).workers = p.workers.set t (.running w true) := rfl
    have hroom : p.count Worker.runsSlow < p.slowWorkThreadThreshold := by
      have := hc.slow
      rw [holdsSlow_eq] at this
      omega
    have hbefore : p.wanted = p.queued.length + 1 := by
      unfold Pool.wanted
      rw [if_pos ⟨hsched, hroom⟩]
    have hqueued : (p.takenSlow t w wq pending).queued = p.queued := hwq
    rcases hnudged with ⟨rfl, hlast⟩ | hnudged
    · have hnot : .run_slow_work_message ∉ (p.takenSlow t w wq pending).wq := fun h => hmore.mp h hlast
      have hafter : (p.takenSlow t w wq pending).wanted = p.queued.length := by
        unfold Pool.wanted
        rw [if_neg fun h => hnot h.1, hqueued]
        rfl
      exact awake_set (n := 1) (m := 0) ha ht hset (by simp [Worker.isWaiting]) (by omega) (by
        simp [Worker.isComing])
    · have hafter : (p.takenSlow t w wq pending).wanted ≤ p.wanted := by
        rw [hbefore, ← hqueued]
        unfold Pool.wanted
        split <;> omega
      have htaken : Awake 1 (p.takenSlow t w wq pending) :=
        awake_set (n := 0) (m := 0) ha ht hset (by simp [Worker.isWaiting]) (by omega) (by
          simp [Worker.isComing])
      exact awake_nudged hnudged (counts_takenSlow hc ht hrun) htaken

theorem awake_same (ha : Awake k p) (hworkers : p'.workers = p.workers)
    (hwanted : p'.wanted ≤ p.wanted) : Awake k p' := by
  have hcount : ∀ f, p'.count f = p.count f := fun f => congrArg (List.countP f) hworkers
  intro hwaiting
  rw [hcount] at hwaiting ⊢
  exact Nat.le_trans hwanted (ha hwaiting)

theorem awake_posted {kind : Kind} (hc : Counts p) (h : Posted p w kind p') (ha : Awake 0 p) :
    Awake 0 p' := by
  cases h with
  | work p' hkind hnudged =>
    refine awake_nudged hnudged { hc with } fun hwaiting => ?_
    have hlength : (requests (p.wq ++ [.work w])).length + 0 ≤ p.queued.length + 1 := by
      rw [requests_append, List.length_append]
      exact Nat.le_refl _
    have hwanted := wanted_le (p := p) (q := { p with wq := p.wq ++ [.work w] }) hlength
      (by simp [Pool.Scheduled]) (Nat.le_refl _) rfl
    have := ha hwaiting
    change _ ≤ p.count Worker.isComing + 1
    omega
  | behind hkind hsched => exact awake_same ha rfl (Nat.le_refl _)
  | schedules p' hkind hsched hnudged =>
    refine awake_nudged hnudged { hc with } fun hwaiting => ?_
    have hless : Pool.wanted { p with
        slow_io_pending_wq := p.slow_io_pending_wq ++ [w]
        wq := p.wq ++ [.run_slow_work_message] } ≤ p.queued.length + 1 := by
      unfold Pool.wanted Pool.queued
      rw [requests_append, requests_message, requests_nil, List.append_nil]
      split <;> omega
    have hmore : p.queued.length ≤ p.wanted := by
      unfold Pool.wanted
      omega
    have := ha hwaiting
    change _ ≤ p.count Worker.isComing + 1
    omega

theorem awake_moved {e : Event} (hc : Counts p) (h : Moved p e p') (ha : Awake 0 p) : Awake 0 p' := by
  cases h with
  | submitted w kind target p' hcancelling hnew h =>
    exact awake_posted (p := p.prepared w kind) { hc with } h (awake_same ha rfl (Nat.le_refl _))
  | withdrew w hcancelling hlinked hwork =>
    refine awake_same ha rfl (wanted_le (n := 0) (m := 0) ?_ ?_ (Nat.le_refl _) rfl)
    · change (requests (p.wq.filter _)).length ≤ _
      rw [requests_filter]
      exact List.length_filter_le _ _
    · intro hmem
      exact (List.mem_filter.mp hmem).1
  | entered t target p₁ p' hturned hlooked =>
    exact awake_looked (counts_turned hc hturned) (turned_self hturned) hlooked (awake_turned hturned ha)
  | finished t w is_slow_work h =>
    have hset : (p.finished t w is_slow_work).workers = p.workers.set t (.locking is_slow_work) := rfl
    have hruns := count_set Worker.runsSlow h hset
    simp only [Worker.runsSlow, Bool.toNat_false] at hruns
    have hslow : is_slow_work.toNat ≤ 1 := Bool.toNat_le _
    refine awake_set (n := 0) (m := 1) ha h hset (Nat.le_refl _) ?_ (Nat.le_refl _)
    have hqueued : (p.finished t w is_slow_work).queued = p.queued := rfl
    unfold Pool.wanted
    rw [hqueued, threshold_set hset]
    have hwq : (p.finished t w is_slow_work).wq = p.wq := rfl
    rw [hwq]
    split <;> split <;> omega
  | spurious t h =>
    intro hwaiting
    exact awake_woken (k := 0) (fun hw => Nat.le_succ_of_le (ha hw)) h hwaiting
  | _ => exact awake_same ha rfl (Nat.le_refl _)

end awake

theorem awake_run {val : Option Int} {es : List Event} {p : Pool}
    (h : run step (start val) es = .ok p) : Awake 0 p := by
  have hboth : Sound p ∧ Awake 0 p := by
    refine run_keeps (P := fun p => Sound p ∧ Awake 0 p) ⟨sound_start val, fun hwaiting => ?_⟩
      (fun p e p' hp hstep => ?_) h
    · rw [count_start val rfl] at hwaiting
      exact absurd hwaiting (by decide)
    · obtain ⟨hs', hmoved⟩ := of_gives (moved e hp.1) hstep
      exact ⟨hs', awake_moved hp.1.counts hmoved hp.2⟩
  exact hboth.2

/-- No signal is lost: while a worker waits, at least as many workers are on their way to the queue as
there is work that could run, one for each request that is not slow and one for slow work when less of
it runs than may. -/
theorem no_worker_waits_while_work_is_left {val : Option Int} {es : List Event} {p : Pool}
    (h : run step (start val) es = .ok p) (hwaiting : .waiting ∈ p.workers) :
    p.queued.length + (if .run_slow_work_message ∈ p.wq ∧ p.count Worker.runsSlow < p.slowWorkThreadThreshold
      then 1 else 0) ≤ p.count Worker.isComing :=
  awake_run h (List.countP_pos_iff.mpr ⟨.waiting, hwaiting, rfl⟩)

/-- When the second worker is woken for a slow request and the first still waits, the one that is wanted
is coming. -/
theorem the_woken_worker_is_coming :
    ∃ p, run step (start (some 2)) (threeRequests.take 3) = .ok p ∧ p.workers = [.waiting, .woken] ∧
      1 ≤ p.count Worker.isComing := by
  have hseen : (run step (start (some 2)) (threeRequests.take 3)).toOption.map
      (fun p => (p.workers, p.wq)) = some ([.waiting, .woken], [.run_slow_work_message]) := by
    decide +kernel
  obtain ⟨p, hp, hview⟩ := ran hseen
  have hworkers : p.workers = [.waiting, .woken] := congrArg Prod.fst hview
  have hwq : p.wq = [.run_slow_work_message] := congrArg Prod.snd hview
  have hwanted := no_worker_waits_while_work_is_left hp (by rw [hworkers]; simp)
  have hroom : p.count Worker.runsSlow < p.slowWorkThreadThreshold := by
    unfold Pool.count Pool.slowWorkThreadThreshold
    rw [hworkers]
    decide
  rw [if_pos ⟨by rw [hwq]; simp, hroom⟩] at hwanted
  exact ⟨p, hp, hworkers, by omega⟩

/-! ## What is left to do -/

/-- What happens by itself: the program asks for nothing new, and no worker wakes without a signal. -/
def Event.internal : Event → Bool
  | .submit _ _ _ => false
  | .cancel _ => false
  | .spurious _ => false
  | _ => true

def Worker.isRunning : Worker → Bool
  | .running _ _ => true
  | _ => false

def Control.left : Control → Nat
  | .idle => 0
  | .gathering => 2
  | .finishing => 1

/-- What is left to do for the requests that wait and for the loop. -/
def Pool.undone (p : Pool) : Nat :=
  7 * (p.queued.length + p.slow_io_pending_wq.length) + 5 * p.cancelling.toList.length +
    (p.loop_wq.length + p.done_wq.length) + 3 * p.async.toNat + p.control.left

def Worker.left (a : Worker) : Nat := 6 * a.isRunning.toNat + a.isComing.toNat

/-- A bound on the steps until nothing is left to do. -/
def Pool.left (p : Pool) : Nat := p.undone + 6 * p.count Worker.isRunning + p.count Worker.isComing

section left

variable {p p' q : Pool} {t w : Nat} {a b : Worker}

theorem left_set (hat : p.workers[t]? = some a) (hset : q.workers = p.workers.set t b) :
    q.left + a.left + p.undone = p.left + b.left + q.undone := by
  have hrunning := count_set Worker.isRunning hat hset
  have hcoming := count_set Worker.isComing hat hset
  unfold Pool.left Worker.left
  omega

theorem left_same (hworkers : q.workers = p.workers) : q.left + p.undone = p.left + q.undone := by
  have hcount : ∀ f, q.count f = p.count f := fun f => congrArg (List.countP f) hworkers
  unfold Pool.left
  rw [hcount, hcount]
  omega

theorem left_nudged (h : Nudged p p') : p'.left ≤ p.left + 1 := by
  cases h with
  | nobody h => omega
  | woke t h =>
    have hleft := left_set (q := p.setWorker t .woken) h rfl
    have hsame : (p.setWorker t .woken).undone = p.undone := rfl
    simp only [Worker.left, Worker.isRunning, Worker.isComing, Bool.toNat_true, Bool.toNat_false] at hleft
    omega

theorem left_turned (h : Turned p t p') : p'.left = p.left := by
  cases h with
  | locked is_slow_work h =>
    have hleft := left_set (q := { p with slow_io_work_running :=
      p.slow_io_work_running - is_slow_work.toNat }.setWorker t (.locking false)) h rfl
    exact Nat.add_right_cancel (Nat.add_right_cancel hleft)
  | woken h =>
    have hleft := left_set (q := { p with
      idle_threads := p.idle_threads - 1 }.setWorker t (.locking false)) h rfl
    exact Nat.add_right_cancel (Nat.add_right_cancel hleft)

theorem left_looked (ht : p.workers[t]? = some (.locking false)) (h : Looked p t p') :
    p'.left < p.left := by
  cases h with
  | waits wq hleft hqueued hwq hbusy =>
    have hset := left_set (q := { p with
      wq
      idle_threads := p.idle_threads + 1 }.setWorker t .waiting) ht rfl
    have hsame : ({ p with wq, idle_threads := p.idle_threads + 1 }.setWorker t .waiting).undone =
        p.undone := by
      unfold Pool.undone
      have : ({ p with wq, idle_threads := p.idle_threads + 1 }.setWorker t .waiting).queued = p.queued :=
        hwq.trans hqueued.symm
      rw [this]
      rfl
    simp only [Worker.left, Worker.isRunning, Worker.isComing, Bool.toNat_true, Bool.toNat_false] at hset
    omega
  | takes w wq hleft hqueued =>
    have hset := left_set (q := { p with wq }.begin t w false) ht rfl
    have hless : ({ p with wq }.begin t w false).undone + 7 = p.undone := by
      have hlength : p.queued.length = ({ p with wq }.begin t w false).queued.length + 1 := by
        rw [hqueued]
        rfl
      unfold Pool.undone
      rw [hlength]
      simp only [Pool.begin, Pool.log, Pool.setWorker]
      omega
    simp only [Worker.left, Worker.isRunning, Worker.isComing, Bool.toNat_true, Bool.toNat_false] at hset
    omega
  | slow w pending wq p' hrun hsched hpending hwq honce hmore hnudged =>
    have hset := left_set (q := p.takenSlow t w wq pending) ht rfl
    have hless : (p.takenSlow t w wq pending).undone + 7 = p.undone := by
      have hqueued : (p.takenSlow t w wq pending).queued = p.queued := hwq
      unfold Pool.undone
      rw [hqueued, hpending]
      simp only [Pool.takenSlow, Pool.begin, Pool.log, Pool.setWorker, List.length_cons]
      omega
    simp only [Worker.left, Worker.isRunning, Worker.isComing, Bool.toNat_true, Bool.toNat_false] at hset
    rcases hnudged with ⟨rfl, -⟩ | hnudged
    · omega
    · have := left_nudged hnudged
      omega

theorem left_moved {e : Event} (hq : Queues p) (he : e.internal = true) (h : Moved p e p') :
    p'.left < p.left := by
  cases h with
  | submitted w kind target p' hcancelling hnew h => cases he
  | withdrew w hcancelling hlinked hwork => cases he
  | busy w hcancelling hsub hcalled hbusy => cases he
  | spurious t h => cases he
  | cancelled w hcancelling =>
    have hsame := left_same (p := p) (q := p.cancelled w) rfl
    have hless : (p.cancelled w).undone + 1 ≤ p.undone := by
      unfold Pool.undone
      rw [hcancelling]
      simp only [Pool.cancelled, Pool.log, Pool.setWork, Pool.queued, List.length_append,
        List.length_singleton, Option.toList_some, Option.toList_none, List.length_nil, Bool.toNat_true]
      omega
    omega
  | entered t target p₁ p' hturned hlooked =>
    rw [← left_turned hturned]
    exact left_looked (turned_self hturned) hlooked
  | finished t w is_slow_work h =>
    have hset := left_set (q := p.finished t w is_slow_work) h rfl
    have hmore : (p.finished t w is_slow_work).undone ≤ p.undone + 4 := by
      unfold Pool.undone
      simp only [Pool.finished, Pool.log, Pool.setWork, Pool.setWorker, Pool.queued, List.length_append,
        List.length_singleton, Bool.toNat_true]
      omega
    simp only [Worker.left, Worker.isRunning, Worker.isComing, Bool.toNat_true, Bool.toNat_false] at hset
    omega
  | woke hcontrol hasync =>
    have hsame := left_same (p := p) (q := { p with async := false, control := .gathering }) rfl
    simp only [Pool.undone, Pool.queued, hcontrol, hasync, Control.left, Bool.toNat_true,
      Bool.toNat_false] at hsame
    omega
  | gathered hcontrol =>
    have hsame := left_same (p := p) (q := { p with
      control := .finishing
      done_wq := p.loop_wq
      loop_wq := [] }) rfl
    simp only [Pool.undone, Pool.queued, hcontrol, gathering_empty hq hcontrol, Control.left,
      List.length_nil] at hsame
    omega
  | called w done_wq hcontrol hdone =>
    have hsame := left_same (p := p) (q := p.calledBack w done_wq) rfl
    have hless : (p.calledBack w done_wq).undone + 1 = p.undone := by
      unfold Pool.undone
      rw [hdone]
      simp only [Pool.calledBack, Pool.log, Pool.setWork, Pool.queued, List.length_cons]
      omega
    omega
  | ended hcontrol hdone =>
    have hsame := left_same (p := p) (q := { p with control := .idle }) rfl
    simp only [Pool.undone, Pool.queued, hcontrol, Control.left] at hsame
    omega

end left

/-! ## Nothing is forgotten -/

/-- Nothing happens by itself. -/
def Quiet (p : Pool) : Prop := Rests step Event.internal p

section quiet

variable {p : Pool} {t w : Nat} {worker : Worker} {is_slow_work : Bool}

theorem guarded_true {b : Bool} (h : b = true) : guarded b = .ok () := if_pos h

/-- A signal finds a worker, or there is none. -/
theorem signalIfIdle_ok (p : Pool) : ∃ target p', p.signalIfIdle target = .ok p' := by
  unfold Pool.signalIfIdle
  split
  · by_cases hall : p.workers.all (· ≠ .waiting) = true
    · exact ⟨none, p, bind_ok_iff.mpr ⟨(), guarded_true hall, rfl⟩⟩
    · have hwaiting : .waiting ∈ p.workers := by simpa using hall
      obtain ⟨t, ht⟩ := List.mem_iff_getElem?.mp hwaiting
      have hguard := guarded_true (decide_eq_true ht)
      exact ⟨some t, p.setWorker t .woken, bind_ok_iff.mpr ⟨(), hguard, rfl⟩⟩
  · exact ⟨none, p, rfl⟩

theorem look_ok {fuel : Nat} (honce : p.wq.count .run_slow_work_message ≤ 1) (hfuel : turns p.wq ≤ fuel) :
    ∃ target p', look t target fuel p = .ok p' := by
  induction fuel generalizing p with
  | zero =>
    have := one_le_turns p.wq
    omega
  | succ fuel ih =>
    unfold look
    by_cases hwaits : p.waits = true
    · exact ⟨none, _, if_pos hwaits⟩
    · simp only [if_neg hwaits]
      have hgo : ¬ (p.wq = [] ∨ p.wq = [.run_slow_work_message] ∧
          p.slowWorkThreadThreshold ≤ p.slow_io_work_running) := fun h => hwaits (decide_eq_true h)
      cases hwq : p.wq with
      | nil => exact absurd (.inl hwq) hgo
      | cons msg wq =>
        rw [hwq] at honce hfuel
        cases msg with
        | work w => exact ⟨none, _, rfl⟩
        | run_slow_work_message =>
          have hnot := not_mem_of_once honce
          have hone : 1 ≤ fuel := by
            simp only [turns] at hfuel
            omega
          simp only
          split
          · rename_i hbusy
            have hne : wq ≠ [] := by
              rintro rfl
              exact hgo (.inr ⟨hwq, hbusy⟩)
            refine ih (once_append hnot) ?_
            rwa [turns_append hnot hne]
          · cases hpending : p.slow_io_pending_wq with
            | nil =>
              refine ih ?_ ?_
              · change wq.count _ ≤ 1
                rw [List.count_eq_zero.mpr hnot]
                omega
              · rwa [turns_eq_one hnot]
            | cons w pending =>
              by_cases hmore : pending = []
              · subst hmore
                exact ⟨none, _, rfl⟩
              · simp only [if_pos hmore]
                obtain ⟨target, p', hp'⟩ := signalIfIdle_ok { p with
                  wq := wq ++ [.run_slow_work_message]
                  slow_io_work_running := p.slow_io_work_running + 1
                  slow_io_pending_wq := pending }
                exact ⟨target, _, bind_ok_iff.mpr ⟨p', hp', rfl⟩⟩

theorem enter_ok (hs : Sound p) (ht : p.workers[t]? = some worker) (hcoming : worker.isComing = true) :
    ∃ target p', step p (.enter t target) = .ok p' := by
  have honce := hs.queues.once
  have hfuel : turns p.wq ≤ p.wq.length + 2 := by
    unfold turns
    split <;> omega
  simp only [step, Pool.enter, ht]
  cases worker with
  | locking is_slow_work => cases is_slow_work <;> exact look_ok honce hfuel
  | woken => exact look_ok honce hfuel
  | waiting => cases hcoming
  | running w is_slow_work => cases hcoming

theorem finish_ok (hs : Sound p) (ht : p.workers[t]? = some (.running w is_slow_work)) :
    ∃ p', step p (.finish t) = .ok p' := by
  have hcheck : check .work ((p.works w).work = .given) = .ok () :=
    if_pos (by simpa using given_of_alive hs.alive ht)
  simp only [step, Pool.finish, ht]
  exact ⟨_, bind_ok_iff.mpr ⟨(), hcheck, rfl⟩⟩

/-- In a quiet pool every worker waits. -/
theorem all_wait (hs : Sound p) (hquiet : Quiet p) (ht : p.workers[t]? = some worker) :
    worker = .waiting := by
  cases worker with
  | waiting => rfl
  | locking is_slow_work =>
    obtain ⟨target, p', hstep⟩ := enter_ok hs ht rfl
    exact absurd hstep (hquiet _ _ rfl)
  | woken =>
    obtain ⟨target, p', hstep⟩ := enter_ok hs ht rfl
    exact absurd hstep (hquiet _ _ rfl)
  | running w is_slow_work =>
    obtain ⟨p', hstep⟩ := finish_ok hs ht
    exact absurd hstep (hquiet _ _ rfl)

/-- And the loop has nothing to do. -/
theorem loop_idle (hs : Sound p) (hquiet : Quiet p) :
    p.cancelling = none ∧ p.control = .idle ∧ p.loop_wq = [] ∧ p.done_wq = [] := by
  have hcancelling : p.cancelling = none := by
    cases hc : p.cancelling with
    | none => rfl
    | some w =>
      refine absurd ?_ (hquiet .cancelled (p.cancelled w) rfl)
      simp only [step, hc]
  have hcontrol : p.control = .idle := by
    cases hc : p.control with
    | idle => rfl
    | gathering =>
      have hstep : step p .gather = .ok { p with
          control := .finishing
          done_wq := p.loop_wq
          loop_wq := [] } :=
        bind_ok_iff.mpr ⟨(), guarded_true (decide_eq_true hc), rfl⟩
      exact absurd hstep (hquiet _ _ rfl)
    | finishing =>
      cases hdone : p.done_wq with
      | nil =>
        have hstep : step p .leave = .ok { p with control := .idle } :=
          bind_ok_iff.mpr ⟨(), guarded_true (decide_eq_true ⟨hcancelling, hc, hdone⟩), rfl⟩
        exact absurd hstep (hquiet _ _ rfl)
      | cons w done_wq =>
        have hstep : step p .done = .ok (p.calledBack w done_wq) := by
          refine bind_ok_iff.mpr ⟨(), guarded_true (decide_eq_true ⟨hcancelling, hc⟩), ?_⟩
          unfold Pool.done
          rw [hdone]
          rfl
        exact absurd hstep (hquiet _ _ rfl)
  refine ⟨hcancelling, hcontrol, ?_, ?_⟩
  · by_contra hne
    rcases hs.queues.sent hne with hasync | hgathering
    · have hstep : step p .wake = .ok { p with async := false, control := .gathering } :=
        bind_ok_iff.mpr ⟨(), guarded_true (decide_eq_true ⟨hcancelling, hcontrol, hasync⟩), rfl⟩
      exact absurd hstep (hquiet _ _ rfl)
    · rw [hcontrol] at hgathering
      cases hgathering
  · by_contra hne
    have := hs.queues.finishing hne
    rw [hcontrol] at this
    cases this

/-- And no work is left. -/
theorem nothing_queued (hs : Sound p) (ha : Awake 0 p) (hquiet : Quiet p) :
    p.queued = [] ∧ p.slow_io_pending_wq = [] := by
  have hwait : ∀ a ∈ p.workers, a = .waiting := by
    intro a hmem
    obtain ⟨t, ht⟩ := List.mem_iff_getElem?.mp hmem
    exact all_wait hs hquiet ht
  obtain ⟨a, hmem⟩ := List.exists_mem_of_ne_nil _ hs.counts.threads
  have hwaiting : 0 < p.count Worker.isWaiting :=
    List.countP_pos_iff.mpr ⟨a, hmem, by rw [hwait a hmem]; rfl⟩
  have hzero : ∀ f : Worker → Bool, f .waiting = false → p.count f = 0 := by
    intro f hf
    rw [count_eq_zero]
    intro a hmem
    rw [hwait a hmem, hf]
  have hwanted := ha hwaiting
  rw [hzero Worker.isComing rfl] at hwanted
  unfold Pool.wanted at hwanted
  have hthreshold : 0 < p.slowWorkThreadThreshold := by
    have := List.length_pos_of_mem hmem
    unfold Pool.slowWorkThreadThreshold
    omega
  have hnot : ¬ (.run_slow_work_message ∈ p.wq ∧
      p.count Worker.runsSlow < p.slowWorkThreadThreshold) := by
    intro h
    rw [if_pos h] at hwanted
    omega
  refine ⟨List.length_eq_zero_iff.mp (by omega), ?_⟩
  by_contra hne
  refine hnot ⟨hs.queues.scheduled hne, ?_⟩
  rw [hzero Worker.runsSlow rfl]
  exact hthreshold

/-- So in a quiet pool each request that was submitted has been called back. -/
theorem called_of_quiet (hs : Sound p) (ha : Awake 0 p) (hquiet : Quiet p) {kind : Kind}
    (hsubmitted : .submitted w kind ∈ p.trace) : ∃ err, .done w err ∈ p.trace := by
  obtain ⟨hcancelling, -, hloop, hdone⟩ := loop_idle hs hquiet
  obtain ⟨hqueued, hpending⟩ := nothing_queued hs ha hquiet
  obtain ⟨life, hlife⟩ := hs.alive w
  have hstory : p.trace.filter (Act.about w) = life.story w := congrArg View.story hlife
  have hrunning : p.count (Worker.runs w) = 0 := by
    rw [count_eq_zero]
    intro a hmem
    obtain ⟨t, ht⟩ := List.mem_iff_getElem?.mp hmem
    rw [all_wait hs hquiet ht]
    rfl
  have hview : (life.view w).queued = 0 ∧ (life.view w).pending = 0 ∧ (life.view w).running = 0 ∧
      (life.view w).handed = 0 ∧ (life.view w).cancelling = false := by
    rw [← hlife]
    refine ⟨?_, ?_, hrunning, ?_, ?_⟩
    · change p.queued.count w = 0
      simp [hqueued]
    · change p.slow_io_pending_wq.count w = 0
      simp [hpending]
    · change p.loop_wq.count w + p.done_wq.count w = 0
      simp [hloop, hdone]
    · change decide (p.cancelling = some w) = false
      simp [hcancelling]
  obtain ⟨hq, hp, hr, hh, hc⟩ := hview
  have hmem : ∀ act, act ∈ life.story w → act ∈ p.trace := by
    intro act hact
    rw [← hstory] at hact
    exact (List.mem_filter.mp hact).1
  cases life with
  | unborn =>
    have : .submitted w kind ∈ p.trace.filter (Act.about w) :=
      List.mem_filter.mpr ⟨hsubmitted, by simp [Act.about]⟩
    rw [hstory] at this
    cases this
  | posted kind =>
    cases kind with
    | cpu => cases hq
    | fast_io => cases hq
    | slow_io => cases hp
  | running kind i => cases hr
  | ran kind i j => cases hh
  | withdrawn kind k => cases hc
  | cancelled kind k => cases hh
  | done kind i j => exact ⟨0, hmem _ (by simp [Life.story])⟩
  | doneCancelled kind k => exact ⟨UV_ECANCELED, hmem _ (by simp [Life.story])⟩

end quiet

/-- Each request is called back. From any state the pool, when nothing new is asked of it, takes no more
than `p.left` steps; and when it can take none, every request that was ever submitted has been called
back. -/
theorem every_request_is_called_back {val : Option Int} {es : List Event} {p : Pool}
    (h : run step (start val) es = .ok p) :
    (∀ fs p', (∀ e ∈ fs, e.internal = true) → run step p fs = .ok p' → fs.length ≤ p.left) ∧
      (Quiet p → ∀ w kind, .submitted w kind ∈ p.trace → ∃ err, .done w err ∈ p.trace) := by
  have hs := sound_run h
  refine ⟨fun fs p' hinternal hrun => ?_, fun hquiet w kind => called_of_quiet hs (awake_run h) hquiet⟩
  have := run_bounded (P := Sound) (fun p e p' hs he hstep => ⟨(of_gives (moved e hs) hstep).1,
    left_moved hs.queues he (of_gives (moved e hs) hstep).2⟩) hs hinternal hrun
  omega

/-- When all workers wait and the loop has nothing to see, nothing happens by itself. -/
theorem quiet_at_rest {p : Pool} (hworkers : ∀ worker ∈ p.workers, worker = Worker.waiting)
    (hcancelling : p.cancelling = none) (hcontrol : p.control = .idle) (hasync : p.async = false) :
    Quiet p := by
  have hat : ∀ (t : Nat) worker, p.workers[t]? = some worker → worker = Worker.waiting := by
    intro t worker ht
    exact hworkers worker (List.mem_of_getElem? ht)
  intro e p' he hstep
  cases e with
  | submit w kind target => cases he
  | cancel w => cases he
  | spurious t => cases he
  | cancelled => simp [step, hcancelling] at hstep
  | enter t target =>
    simp only [step, Pool.enter] at hstep
    split at hstep
    · next ht => cases hat t _ ht
    · next ht => cases hat t _ ht
    · cases hstep
  | finish t =>
    simp only [step, Pool.finish] at hstep
    split at hstep
    · next ht => cases hat t _ ht
    · cases hstep
  | wake => simp [step, hasync, guarded, bind, Except.bind] at hstep
  | gather => simp [step, hcontrol, guarded, bind, Except.bind] at hstep
  | done => simp [step, hcontrol, guarded, bind, Except.bind] at hstep
  | leave => simp [step, hcontrol, guarded, bind, Except.bind] at hstep

/-- The rest of the run of the three requests: the last of them is run and called back. -/
def lastRequest : List Event :=
  [.enter 1 none, .finish 0, .enter 0 none, .wake, .gather, .done, .leave]

/-- When two of the three requests have been called back, at most seven steps are left. They are taken,
and then the pool is quiet, and the third has been called back too. -/
theorem seven_steps_are_left :
    ∃ p q, run step (start (some 2)) threeRequests = .ok p ∧ run step p lastRequest = .ok q ∧
      lastRequest.length ≤ 7 ∧ (∀ fs p', (∀ e ∈ fs, e.internal = true) → run step p fs = .ok p' →
        fs.length ≤ 7) ∧
      Quiet q ∧ .submitted 7 .cpu ∈ q.trace ∧ ∃ err, .done 7 err ∈ q.trace := by
  have hleft : (run step (start (some 2)) threeRequests).toOption.map (·.left) = some 7 := by
    decide +kernel
  have hrest : (run step (start (some 2)) (threeRequests ++ lastRequest)).toOption.map (fun q =>
      (q.workers, q.cancelling, q.control, q.async, decide (.submitted 7 .cpu ∈ q.trace))) =
      some ([.waiting, .waiting], none, .idle, false, true) := by decide +kernel
  obtain ⟨q, hq, hview⟩ := ran hrest
  obtain ⟨p, hp, hpq⟩ := run_append_ok.mp hq
  obtain ⟨p', hp', hseven⟩ := ran hleft
  rw [hp, Except.ok.injEq] at hp'
  subst hp'
  simp only [Prod.mk.injEq, decide_eq_true_eq] at hview
  obtain ⟨hworkers, hcancelling, hcontrol, hasync, hsubmitted⟩ := hview
  have hquiet : Quiet q := quiet_at_rest (by simp [hworkers]) hcancelling hcontrol hasync
  have hdone := (every_request_is_called_back hq).2 hquiet 7 .cpu hsubmitted
  refine ⟨p, q, hp, hpq, Nat.le_refl 7, fun fs p' hinternal hrun => ?_, hquiet, hsubmitted, hdone⟩
  rw [← hseven]
  exact (every_request_is_called_back hp).1 fs p' hinternal hrun

end linuxc.threadpool
