-- timer.c of libuv: timers wait in the heap of the loop until their time has
-- come. A round of `uv__run_timers` first moves all that are due to a queue of
-- its own and then calls them back, one by one; a callback is a place where
-- the program may start, stop and close timers, so each has a step of its own.
import Linuxc.Runs
import Linuxc.Uv
import Linuxc.UvHeap

namespace linuxc.uv_timer

open event_runs heap_inl

def UV_EINVAL : Int := -22

def INT_MAX : UInt64 := 2147483647

/-! ## The state -/

/-- What a step fails at: `uv_close` asserts that the handle is not closing yet, the heap is broken,
the loop over the heap does not end, or a callback is NULL. -/
inductive Check
  | closing
  | heap
  | endless
  | callback
  deriving DecidableEq, Repr

/-- Why a step does not happen: it is not its turn, or it fails. -/
inductive Stop
  | notNow
  | failed (c : Check)
  deriving DecidableEq, Repr

/-- A step that is not taken at the wrong time. -/
def guarded (b : Bool) : Except Stop Unit := if b then .ok () else .error .notNow

def check (c : Check) (b : Bool) : Except Stop Unit :=
  if b then .ok () else .error (.failed c)

def orFail {α : Type} (c : Check) : Option α → Except Stop α
  | some a => .ok a
  | none => .error (.failed c)

/-- `uv_timer_t`, without its node. `live` says that `uv_timer_init` has been called, and `rep` is
`repeat`. A callback is named by a number, and NULL is `none`. -/
structure Timer where
  live : Bool
  active : Bool
  closing : Bool
  timer_cb : Option Nat
  timeout : UInt64
  rep : UInt64
  start_id : UInt64
  deriving DecidableEq, Repr

/-- What can be seen of the timers: the calls of the program that took effect or were refused, the
starts, and the callbacks. Each has the time of the loop, and a callback also whether the timer is
active in it: a timer that repeats has just been started again. -/
inductive Act
  | started (x cb : Nat) (timeout now : UInt64)
  | refused (x : Nat) (err : Int)
  | stopped (x : Nat)
  | closing (x : Nat)
  | fired (x cb : Nat) (now : UInt64) (again : Bool)
  deriving DecidableEq, Repr

/-- `uv_loop_t`, as far as timers go. `ready` is the queue of `uv__run_timers`, which is `running`. -/
structure Loop where
  time : UInt64
  timer_counter : UInt64
  active_handles : Nat
  timers : Nat → Timer
  heap : Heap
  ready : List Nat
  running : Bool
  trace : List Act

/-- Memory in which no timer has been set up. -/
def noTimer : Timer := ⟨false, false, false, none, 0, 0, 0⟩

/-- `uv_loop_init`. -/
def start : Loop where
  time := 0
  timer_counter := 0
  active_handles := 0
  timers := fun _ => noTimer
  heap := Heap.init ⟨none, 0, fun _ => ⟨none, none, none⟩⟩
  ready := []
  running := false
  trace := []

def Loop.setTimer (l : Loop) (x : Nat) (t : Timer) : Loop :=
  { l with timers := fun y => if y = x then t else l.timers y }

def Loop.log (l : Loop) (acts : List Act) : Loop := { l with trace := l.trace ++ acts }

/-! ## The functions -/

/-- `timer_less_than`. -/
def Loop.timerLessThan (l : Loop) (a b : Nat) : Bool :=
  if (l.timers a).timeout < (l.timers b).timeout then true
  else if (l.timers b).timeout < (l.timers a).timeout then false
  else (l.timers a).start_id < (l.timers b).start_id

/-- `uv_timer_init`. -/
def Loop.uvTimerInit (l : Loop) (x : Nat) : Loop :=
  l.setTimer x { l.timers x with
    live := true, active := false, closing := false, timer_cb := none, timeout := 0, rep := 0 }

/-- `uv_timer_stop`. -/
def Loop.uvTimerStop (l : Loop) (x : Nat) : Except Stop Loop :=
  if (l.timers x).active then do
    let heap ← orFail .heap (l.heap.remove l.timerLessThan (some x))
    return { l with heap, active_handles := l.active_handles - 1 }.setTimer x
      { l.timers x with active := false }
  else .ok { l with ready := l.ready.filter (· ≠ x) }

/-- When a timer that is started now is due, where a sum that does not fit is clamped. -/
def clampedTimeout (now timeout : UInt64) : UInt64 :=
  if now + timeout < timeout then 18446744073709551615 else now + timeout

/-- The fields that `uv_timer_start` fills in before the timer is put into the heap. -/
def Loop.keyed (l : Loop) (x cb : Nat) (timeout rep : UInt64) : Loop :=
  { l with timer_counter := l.timer_counter + 1 }.setTimer x { l.timers x with
    timer_cb := some cb
    timeout := clampedTimeout l.time timeout
    rep
    start_id := l.timer_counter }

/-- `uv_timer_start`, with the code that it returns. -/
def Loop.uvTimerStart (l : Loop) (x : Nat) (cb : Option Nat) (timeout rep : UInt64) :
    Except Stop (Int × Loop) :=
  match cb with
  | none => .ok (UV_EINVAL, l)
  | some cb => do
    if (l.timers x).closing then return (UV_EINVAL, l)
    let l ← l.uvTimerStop x
    let l := l.keyed x cb timeout rep
    let heap ← orFail .heap (l.heap.insert l.timerLessThan x)
    let l := { l with heap, active_handles := l.active_handles + 1 }.setTimer x
      { l.timers x with active := true }
    return (0, l.log [.started x cb timeout l.time])

/-- `uv_timer_again`, with the code that it returns: the one of `uv_timer_start` is lost. -/
def Loop.uvTimerAgain (l : Loop) (x : Nat) : Except Stop (Int × Loop) := do
  if (l.timers x).timer_cb = none then return (UV_EINVAL, l)
  if (l.timers x).rep ≠ 0 then
    let l ← l.uvTimerStop x
    let (_, l) ← l.uvTimerStart x (l.timers x).timer_cb (l.timers x).rep (l.timers x).rep
    return (0, l)
  else return (0, l)

/-- `uv_timer_set_repeat`. -/
def Loop.uvTimerSetRepeat (l : Loop) (x : Nat) (rep : UInt64) : Loop :=
  l.setTimer x { l.timers x with rep }

/-- `uv_timer_get_due_in`. -/
def Loop.uvTimerGetDueIn (l : Loop) (x : Nat) : UInt64 :=
  if (l.timers x).timeout ≤ l.time then 0 else (l.timers x).timeout - l.time

/-- `uv_close` of a timer, with `uv__timer_close`. -/
def Loop.uvClose (l : Loop) (x : Nat) : Except Stop Loop := do
  check .closing !(l.timers x).closing
  let l := l.setTimer x { l.timers x with closing := true }
  let l ← l.uvTimerStop x
  return l.log [.closing x]

/-- The first loop of `uv__run_timers`. -/
def collect : Nat → Loop → Except Stop Loop
  | 0, _ => .error (.failed .endless)
  | fuel + 1, l =>
    match l.heap.min with
    | none => .ok l
    | some x =>
      if l.time < (l.timers x).timeout then .ok l
      else do
        let l ← l.uvTimerStop x
        collect fuel { l with ready := l.ready ++ [x] }

/-- A turn of the second loop of `uv__run_timers`, up to the callback: a timer that repeats is
started again before it. -/
def Loop.fire (l : Loop) : Except Stop Loop :=
  match l.ready with
  | [] => .error .notNow
  | x :: ready => do
    let (_, l) ← { l with ready }.uvTimerAgain x
    let cb ← orFail .callback (l.timers x).timer_cb
    return l.log [.fired x cb l.time (l.timers x).active]

/-! ## The events -/

/-- What can happen. The program calls the functions of timers, from outside or from a callback;
the loop reads the clock, runs the timers, calls the next one back, or is done with the round. -/
inductive Event
  | init (x : Nat)
  | start (x : Nat) (cb : Option Nat) (timeout rep : UInt64)
  | stop (x : Nat)
  | again (x : Nat)
  | setRepeat (x : Nat) (rep : UInt64)
  | close (x : Nat)
  | updateTime (now : UInt64)
  | runTimers
  | fire
  | finish
  deriving DecidableEq, Repr

/-- The program sees the code that a function returns. -/
def Loop.answered (l : Loop) (x : Nat) (err : Int) : Loop :=
  if err = 0 then l else l.log [.refused x err]

/-- A timer is set up once, and not used before that. The clock does not go back. -/
def step (l : Loop) : Event → Except Stop Loop
  | .init x => do
    guarded !(l.timers x).live
    return l.uvTimerInit x
  | .start x cb timeout rep => do
    guarded (l.timers x).live
    let (err, l) ← l.uvTimerStart x cb timeout rep
    return l.answered x err
  | .stop x => do
    guarded (l.timers x).live
    let l ← l.uvTimerStop x
    return l.log [.stopped x]
  | .again x => do
    guarded (l.timers x).live
    let (err, l) ← l.uvTimerAgain x
    return l.answered x err
  | .setRepeat x rep => do
    guarded (l.timers x).live
    return l.uvTimerSetRepeat x rep
  | .close x => do
    guarded (l.timers x).live
    l.uvClose x
  | .updateTime now => do
    guarded (l.time ≤ now)
    return { l with time := now }
  | .runTimers => do
    guarded !l.running
    collect (l.heap.nelts + 1) { l with running := true }
  | .fire => do
    guarded l.running
    l.fire
  | .finish => do
    guarded (l.running ∧ l.ready = [])
    return { l with running := false }

end linuxc.uv_timer
