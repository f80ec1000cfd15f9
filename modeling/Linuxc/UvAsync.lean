-- async.c of libuv: other threads ring the loop through handles that the loop
-- looks at when its eventfd is readable. Each atomic operation and each system
-- call is one step; the steps of all threads come in any order.
import Linuxc.Runs

namespace linuxc.async

open event_runs

/-! ## The state -/

/-- A write to an eventfd that is closed fails, and `uv__async_send` aborts. -/
inductive Stop
  | notNow
  | aborted
  deriving DecidableEq, Repr

/-- A step that is not taken at the wrong time. -/
def guarded (b : Bool) : Except Stop Unit := if b then .ok () else .error .notNow

/-- A `uv_async_t` before `uv_async_init`, while it is open and after `uv__async_close`. -/
inductive Phase
  | unused
  | opened
  | closed
  deriving DecidableEq, Repr

/-- `uv_async_t`. `busy` is `u.fd`, and `async_cb` says whether there is one. -/
structure Handle where
  phase : Phase
  pending : Bool
  busy : Nat
  async_cb : Bool
  deriving DecidableEq, Repr

/-- Where a thread is in `uv_async_send`: not in it, after it has read `pending` as 0, after it has set
the loop to busy, before it writes to the eventfd, or before it sets the loop to not busy. -/
inductive Sender
  | outside
  | loaded (h : Nat)
  | entered (h : Nat)
  | writing (h : Nat)
  | leaving (h : Nat)
  deriving DecidableEq, Repr

/-- Where the loop is: not in async.c; in `uv__async_io` before the read, before it takes the queue, or
in its loop; in the loop of `uv__async_stop`; or after that. -/
inductive Control
  | outside
  | reading
  | moving
  | visiting
  | stopping
  | stopped
  deriving DecidableEq, Repr

/-- What can be seen: a handle is opened or closed, a send has taken effect, a write to the eventfd, a
callback, and the end. -/
inductive Act
  | opened (h : Nat)
  | sent (h : Nat)
  | wrote (h : Nat)
  | called (h : Nat)
  | closed (h : Nat)
  | stopped
  deriving DecidableEq, Repr

/-- The loop and the threads. `fd` is the counter of the eventfd; `queue` is the local queue of
`uv__async_io` and `uv__async_stop`; `spinning` is the handle in `uv__async_spin`. -/
structure Loop where
  handles : Nat → Handle
  async_handles : List Nat
  queue : List Nat
  fd : Option Nat
  threads : List Sender
  control : Control
  spinning : Option Nat
  trace : List Act

/-- A loop that no handle has been opened on, and `n` threads. -/
def start (n : Nat) : Loop where
  handles := fun _ => ⟨.unused, false, 0, false⟩
  async_handles := []
  queue := []
  fd := none
  threads := List.replicate n .outside
  control := .outside
  spinning := none
  trace := []

def Loop.log (l : Loop) (act : Act) : Loop := { l with trace := l.trace ++ [act] }

def Loop.setHandle (l : Loop) (h : Nat) (handle : Handle) : Loop :=
  { l with handles := fun h' => if h' = h then handle else l.handles h' }

def Loop.setThread (l : Loop) (t : Nat) (sender : Sender) : Loop :=
  { l with threads := l.threads.set t sender }

/-! ## `uv_async_send` -/

/-- The cheap read. -/
def Loop.load (l : Loop) (t h : Nat) : Loop :=
  if (l.handles h).pending then l.log (.sent h) else l.setThread t (.loaded h)

/-- The loop is set to busy. -/
def Loop.enter (l : Loop) (t h : Nat) : Loop :=
  (l.setHandle h { l.handles h with busy := (l.handles h).busy + 1 }).setThread t (.entered h)

/-- `atomic_exchange(pending, 1)`. -/
def Loop.exchange (l : Loop) (t h : Nat) : Loop :=
  ((l.setHandle h { l.handles h with pending := true }).setThread t
    (if (l.handles h).pending then .leaving h else .writing h)).log (.sent h)

/-- `uv__async_send`. At its largest value the counter stays as it is, with EAGAIN. -/
def Loop.write (l : Loop) (t h : Nat) : Except Stop Loop :=
  match l.fd with
  | none => .error .aborted
  | some n =>
    let n' := if n = 18446744073709551614 then n else n + 1
    .ok (({ l with fd := some n' }.setThread t (.leaving h)).log (.wrote h))

/-- The loop is set to not busy. -/
def Loop.leave (l : Loop) (t h : Nat) : Loop :=
  (l.setHandle h { l.handles h with busy := (l.handles h).busy - 1 }).setThread t .outside

/-! ## The loop -/

/-- `uv_async_init`, with `uv__async_start`. -/
def Loop.init (l : Loop) (h : Nat) (async_cb : Bool) : Loop :=
  ({ l with
    fd := some (l.fd.getD 0)
    async_handles := l.async_handles ++ [h] }.setHandle h ⟨.opened, false, 0, async_cb⟩).log (.opened h)

/-- The start of `uv__async_spin`. -/
def Loop.spin (l : Loop) (h : Nat) : Loop :=
  { l.setHandle h { l.handles h with pending := true } with spinning := some h }

/-- The end of `uv__async_spin`, and what follows it in `uv__async_close`. -/
def Loop.spun (l : Loop) (h : Nat) : Loop :=
  match l.control with
  | .stopping => { l with spinning := none }
  | _ => ({ l with
      spinning := none
      async_handles := l.async_handles.filter (· ≠ h)
      queue := l.queue.filter (· ≠ h) }.setHandle h { l.handles h with phase := .closed }).log (.closed h)

/-- One round of the loop of `uv__async_io`. -/
def Loop.visit (l : Loop) : Loop :=
  match l.queue with
  | [] => { l with control := .outside }
  | h :: queue =>
    let l' := { l with
      queue
      async_handles := l.async_handles ++ [h] }.setHandle h { l.handles h with pending := false }
    if (l.handles h).pending ∧ (l.handles h).async_cb then l'.log (.called h) else l'

/-- One round of the loop of `uv__async_stop`, or its end. -/
def Loop.stopNext (l : Loop) : Loop :=
  match l.queue with
  | [] => { l with fd := none, control := .stopped }.log .stopped
  | h :: queue => { l with queue, async_handles := l.async_handles ++ [h] }.spin h

/-! ## The events -/

/-- What can happen. A thread goes one step on in `uv_async_send`. The loop, from outside or from a
callback, opens a handle or closes one; it finds that the handle it spins on is not busy; it sees the
eventfd, reads it, takes the queue, looks at a handle; or it stops for good. -/
inductive Event
  | load (t h : Nat)
  | enter (t : Nat)
  | exchange (t : Nat)
  | write (t : Nat)
  | leave (t : Nat)
  | init (h : Nat) (async_cb : Bool)
  | close (h : Nat)
  | spun
  | poll
  | read
  | move
  | visit
  | stop
  | stopNext
  deriving DecidableEq, Repr

/-- The program may call the loop: it is not in async.c, or in a callback. -/
def Loop.free (l : Loop) : Bool :=
  l.spinning = none ∧ (l.control = .outside ∨ l.control = .visiting)

def step (l : Loop) : Event → Except Stop Loop
  | .load t h => do
    guarded (l.threads[t]? = some .outside ∧ (l.handles h).phase ≠ .unused)
    return l.load t h
  | .enter t =>
    match l.threads[t]? with
    | some (.loaded h) => .ok (l.enter t h)
    | _ => .error .notNow
  | .exchange t =>
    match l.threads[t]? with
    | some (.entered h) => .ok (l.exchange t h)
    | _ => .error .notNow
  | .write t =>
    match l.threads[t]? with
    | some (.writing h) => l.write t h
    | _ => .error .notNow
  | .leave t =>
    match l.threads[t]? with
    | some (.leaving h) => .ok (l.leave t h)
    | _ => .error .notNow
  | .init h async_cb => do
    guarded (l.free ∧ (l.handles h).phase = .unused)
    return l.init h async_cb
  | .close h => do
    guarded (l.free ∧ (l.handles h).phase = .opened)
    return l.spin h
  | .spun =>
    match l.spinning with
    | none => .error .notNow
    | some h => do
      guarded ((l.handles h).busy = 0)
      return l.spun h
  | .poll => do
    guarded (l.spinning = none ∧ l.control = .outside ∧ 0 < l.fd.getD 0)
    return { l with control := .reading }
  | .read => do
    guarded (l.control = .reading)
    return { l with fd := some 0, control := .moving }
  | .move => do
    guarded (l.control = .moving)
    return { l with queue := l.async_handles, async_handles := [], control := .visiting }
  | .visit => do
    guarded (l.spinning = none ∧ l.control = .visiting)
    return l.visit
  | .stop => do
    guarded (l.spinning = none ∧ l.control = .outside ∧ l.fd ≠ none)
    return { l with queue := l.async_handles, async_handles := [], control := .stopping }
  | .stopNext => do
    guarded (l.spinning = none ∧ l.control = .stopping)
    return l.stopNext

end linuxc.async
