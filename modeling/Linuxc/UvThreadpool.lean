-- threadpool.c of libuv: worker threads that wait for work on one queue, and
-- the one loop that hands work in, cancels it and calls it back. What a thread
-- does while it holds a mutex is one step; the steps of all threads come in any
-- order.
import Linuxc.Runs

namespace linuxc.threadpool

open event_runs

def UV_EBUSY : Int := -16
def UV_ECANCELED : Int := -125

/-! ## The state -/

/-- What a step fails at: the loop of a worker does not end, or a worker calls a `work` that is NULL
or `uv__cancelled`, which aborts. -/
inductive Check
  | endless
  | work
  deriving DecidableEq, Repr

/-- Why a step does not happen: it is not its turn, or it fails. -/
inductive Stop
  | notNow
  | failed (c : Check)
  deriving DecidableEq, Repr

/-- A step that is not taken at the wrong time. -/
def guarded (b : Bool) : Except Stop Unit := if b then .ok () else .error .notNow

def check (c : Check) (b : Bool) : Except Stop Unit :=
  if b then .ok () else .error (.failed c)

/-- `enum uv__work_kind`. -/
inductive Kind
  | cpu
  | fast_io
  | slow_io
  deriving DecidableEq, Repr

/-- What `w->work` is: what the program handed in, `uv__cancelled`, or NULL. -/
inductive WorkFn
  | given
  | cancelled
  | null
  deriving DecidableEq, Repr

/-- `struct uv__work`, without its place in a queue, and whether its `done` has been called. -/
structure Work where
  submitted : Bool
  work : WorkFn
  called : Bool
  deriving DecidableEq, Repr

/-- What is in `wq`: a request, or the message that slow work is to be run. -/
inductive Msg
  | work (w : Nat)
  | run_slow_work_message
  deriving DecidableEq, Repr

/-- Where a worker is: it wants the mutex or has it, with a slow request behind it or not; it waits
for the condition, or has been woken and wants the mutex again; or it runs a request without the
mutex. -/
inductive Worker
  | locking (is_slow_work : Bool)
  | waiting
  | woken
  | running (w : Nat) (is_slow_work : Bool)
  deriving DecidableEq, Repr

/-- Where the loop is in `uv__work_done`: not in it, before it takes the queue, or in its loop. -/
inductive Control
  | idle
  | gathering
  | finishing
  deriving DecidableEq, Repr

/-- What can be seen of the requests. -/
inductive Act
  | submitted (w : Nat) (kind : Kind)
  | began (w : Nat) (is_slow_work : Bool)
  | ran (w : Nat)
  | cancelled (w : Nat)
  | busy (w : Nat) (err : Int)
  | done (w : Nat) (err : Int)
  deriving DecidableEq, Repr

/-- The pool and the loop. `loop_wq` and `async` are `loop->wq` and whether `loop->wq_async` has been
sent; `done_wq` is the queue of `uv__work_done`; `cancelling` is what `uv__work_cancel` has taken out
of its queue. -/
structure Pool where
  workers : List Worker
  wq : List Msg
  slow_io_pending_wq : List Nat
  idle_threads : Nat
  slow_io_work_running : Nat
  works : Nat → Work
  loop_wq : List Nat
  async : Bool
  control : Control
  done_wq : List Nat
  cancelling : Option Nat
  trace : List Act

/-- How many threads `init_threads` starts, from what `UV_THREADPOOL_SIZE` says. -/
def nthreads (val : Option Int) : Nat :=
  match val with
  | none => 4
  | some val =>
    let n := (val % 4294967296).toNat
    if n = 0 then 1 else if 1024 < n then 1024 else n

/-- After `init_threads`. -/
def start (val : Option Int) : Pool where
  workers := List.replicate (nthreads val) (.locking false)
  wq := []
  slow_io_pending_wq := []
  idle_threads := 0
  slow_io_work_running := 0
  works := fun _ => ⟨false, .null, false⟩
  loop_wq := []
  async := false
  control := .idle
  done_wq := []
  cancelling := none
  trace := []

def Pool.log (p : Pool) (act : Act) : Pool := { p with trace := p.trace ++ [act] }

def Pool.setWorker (p : Pool) (t : Nat) (worker : Worker) : Pool :=
  { p with workers := p.workers.set t worker }

def Pool.setWork (p : Pool) (w : Nat) (work : Work) : Pool :=
  { p with works := fun v => if v = w then work else p.works v }

/-- `slow_work_thread_threshold`. -/
def Pool.slowWorkThreadThreshold (p : Pool) : Nat := (p.workers.length + 1) / 2

/-! ## The workers -/

/-- `uv_cond_signal`: if workers wait, it wakes one of them. -/
def Pool.signal (p : Pool) (target : Option Nat) : Except Stop Pool :=
  match target with
  | none => do
    guarded (p.workers.all (· ≠ .waiting))
    return p
  | some t => do
    guarded (p.workers[t]? = some .waiting)
    return p.setWorker t .woken

/-- `if (idle_threads > 0) uv_cond_signal(&cond)`. -/
def Pool.signalIfIdle (p : Pool) (target : Option Nat) : Except Stop Pool :=
  if 0 < p.idle_threads then p.signal target
  else do
    guarded (target = none)
    return p

/-- Whether a worker waits: there is no work, or only slow work, and enough of it is running. -/
def Pool.waits (p : Pool) : Bool :=
  p.wq = [] ∨
    p.wq = [.run_slow_work_message] ∧ p.slowWorkThreadThreshold ≤ p.slow_io_work_running

/-- A worker begins to run a request. -/
def Pool.begin (p : Pool) (t w : Nat) (is_slow_work : Bool) : Pool :=
  (p.setWorker t (.running w is_slow_work)).log (.began w is_slow_work)

/-- The loop of `worker`, from where the mutex is locked up to where it is unlocked. -/
def look (t : Nat) (target : Option Nat) : Nat → Pool → Except Stop Pool
  | 0, _ => .error (.failed .endless)
  | fuel + 1, p =>
    if p.waits then do
      guarded (target = none)
      return { p with idle_threads := p.idle_threads + 1 }.setWorker t .waiting
    else
      match p.wq with
      | [] => .error (.failed .endless)
      | .work w :: wq => do
        guarded (target = none)
        return { p with wq }.begin t w false
      | .run_slow_work_message :: wq =>
        if p.slowWorkThreadThreshold ≤ p.slow_io_work_running then
          look t target fuel { p with wq := wq ++ [Msg.run_slow_work_message] }
        else
          match p.slow_io_pending_wq with
          | [] => look t target fuel { p with wq }
          | w :: pending => do
            let p := { p with
              wq
              slow_io_work_running := p.slow_io_work_running + 1
              slow_io_pending_wq := pending }
            if pending ≠ [] then
              let p ← { p with wq := p.wq ++ [Msg.run_slow_work_message] }.signalIfIdle target
              return p.begin t w true
            else
              guarded (target = none)
              return p.begin t w true

/-- A worker gets the mutex, after a request or a wait. -/
def Pool.enter (p : Pool) (t : Nat) (target : Option Nat) : Except Stop Pool :=
  match p.workers[t]? with
  | some (.locking is_slow_work) =>
    let p := if is_slow_work then { p with slow_io_work_running := p.slow_io_work_running - 1 } else p
    look t target (p.wq.length + 2) (p.setWorker t (.locking false))
  | some .woken =>
    let p := { p with idle_threads := p.idle_threads - 1 }
    look t target (p.wq.length + 2) (p.setWorker t (.locking false))
  | _ => .error .notNow

/-- A worker has run its request, and hands it to the loop. -/
def Pool.finish (p : Pool) (t : Nat) : Except Stop Pool :=
  match p.workers[t]? with
  | some (.running w is_slow_work) => do
    check .work ((p.works w).work = .given)
    let p := p.setWork w { p.works w with work := .null }
    return ({ p with loop_wq := p.loop_wq ++ [w], async := true }.setWorker t
      (.locking is_slow_work)).log (.ran w)
  | _ => .error .notNow

/-! ## The loop -/

/-- The end of `post`. -/
def Pool.enqueue (p : Pool) (msg : Msg) (target : Option Nat) : Except Stop Pool :=
  { p with wq := p.wq ++ [msg] }.signalIfIdle target

/-- `post`. -/
def Pool.post (p : Pool) (w : Nat) (kind : Kind) (target : Option Nat) : Except Stop Pool :=
  if kind = .slow_io then
    let p := { p with slow_io_pending_wq := p.slow_io_pending_wq ++ [w] }
    if .run_slow_work_message ∈ p.wq then do
      guarded (target = none)
      return p
    else p.enqueue .run_slow_work_message target
  else p.enqueue (.work w) target

/-- `uv__work_submit`. -/
def Pool.submit (p : Pool) (w : Nat) (kind : Kind) (target : Option Nat) : Except Stop Pool :=
  ((p.setWork w ⟨true, .given, false⟩).log (.submitted w kind)).post w kind target

/-- Whether `w->wq` is in a queue. -/
def Pool.linked (p : Pool) (w : Nat) : Bool :=
  .work w ∈ p.wq ∨ w ∈ p.slow_io_pending_wq ∨ w ∈ p.loop_wq ∨ w ∈ p.done_wq

/-- `uv__queue_remove(&w->wq)`. -/
def Pool.unlink (p : Pool) (w : Nat) : Pool :=
  { p with
    wq := p.wq.filter (· ≠ .work w)
    slow_io_pending_wq := p.slow_io_pending_wq.filter (· ≠ w)
    loop_wq := p.loop_wq.filter (· ≠ w)
    done_wq := p.done_wq.filter (· ≠ w) }

/-- `uv__work_cancel`, while it holds the mutexes. -/
def Pool.cancel (p : Pool) (w : Nat) : Pool :=
  if p.linked w ∧ (p.works w).work ≠ .null then { p.unlink w with cancelling := some w }
  else p.log (.busy w UV_EBUSY)

/-- The end of `uv__work_cancel`. -/
def Pool.cancelled (p : Pool) (w : Nat) : Pool :=
  ({ p with loop_wq := p.loop_wq ++ [w], async := true, cancelling := none }.setWork w
    { p.works w with work := .cancelled }).log (.cancelled w)

/-- One round of the loop of `uv__work_done`. -/
def Pool.done (p : Pool) : Except Stop Pool :=
  match p.done_wq with
  | [] => .error .notNow
  | w :: done_wq =>
    let err := if (p.works w).work = .cancelled then UV_ECANCELED else 0
    .ok (({ p with done_wq }.setWork w { p.works w with called := true }).log (.done w err))

/-! ## The events -/

/-- What can happen. The program submits and cancels, from outside or from a callback; a worker gets
the mutex, has run its request, or wakes up by itself; the loop finishes a cancel, sees the async
handle, takes the queue, calls a request back, or has called all. `target` is the worker that is
woken by a signal. -/
inductive Event
  | submit (w : Nat) (kind : Kind) (target : Option Nat)
  | cancel (w : Nat)
  | cancelled
  | enter (t : Nat) (target : Option Nat)
  | finish (t : Nat)
  | spurious (t : Nat)
  | wake
  | gather
  | done
  | leave
  deriving DecidableEq, Repr

/-- A request is submitted once. The program cancels it only until its `done` is called: `uv__work_cancel`
does not test for that, and in the callback of a cancelled request it would find the old links of `w->wq`
and hand the request to the loop once more. -/
def step (p : Pool) : Event → Except Stop Pool
  | .submit w kind target => do
    guarded (p.cancelling = none ∧ p.control ≠ .gathering ∧ !(p.works w).submitted)
    p.submit w kind target
  | .cancel w => do
    guarded (p.cancelling = none ∧ p.control ≠ .gathering ∧ (p.works w).submitted ∧ !(p.works w).called)
    return p.cancel w
  | .cancelled =>
    match p.cancelling with
    | none => .error .notNow
    | some w => .ok (p.cancelled w)
  | .enter t target => p.enter t target
  | .finish t => p.finish t
  | .spurious t => do
    guarded (p.workers[t]? = some .waiting)
    return p.setWorker t .woken
  | .wake => do
    guarded (p.cancelling = none ∧ p.control = .idle ∧ p.async)
    return { p with async := false, control := .gathering }
  | .gather => do
    guarded (p.control = .gathering)
    return { p with control := .finishing, done_wq := p.loop_wq, loop_wq := [] }
  | .done => do
    guarded (p.cancelling = none ∧ p.control = .finishing)
    p.done
  | .leave => do
    guarded (p.cancelling = none ∧ p.control = .finishing ∧ p.done_wq = [])
    return { p with control := .idle }

end linuxc.threadpool
