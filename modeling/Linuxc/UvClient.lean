-- libuv-client.c: it connects, sends 100 KiB of 'C', and sends them again a
-- second after each write has completed. The state between two callbacks, and the
-- callbacks as the source has them.
import Linuxc.UvRules

namespace linuxc.libuv_client

open event_runs block_heap libuv

/-! ## The state -/

def BUFFER_SIZE : Nat := 1024 * 100

/-- `'C'`. -/
def fillByte : UInt8 := 67

def INT_MAX : Nat := 2147483647

/-- A line that the client prints. -/
inductive Line
  | connectionError (status : Int)
  | connected
  | received (timestamp : String) (nread : Int)
  | readError (err : Int)
  | writeError (status : Int)
  | sent (timestamp : String) (size k : Nat)
  deriving DecidableEq, Repr

def Line.text (uv_strerror uv_err_name : Int → String) : Line → String
  | .connectionError status => "Connection error " ++ uv_strerror status ++ "\n"
  | .connected => "Connected to server\n"
  | .received timestamp nread =>
    "[" ++ timestamp ++ "]Client received: " ++ toString nread ++ "\n"
  | .readError err => "Read error " ++ uv_err_name err ++ "\n"
  | .writeError status => "Write error " ++ uv_strerror status ++ "\n"
  | .sent timestamp size k =>
    "[" ++ timestamp ++ "]Sent " ++ toString size ++ " bytes of data (send #" ++ toString k ++ ")\n"

/-- What the client does that can be seen from outside: a line, and the calls into libuv. -/
inductive Act
  | print (line : Line)
  | uvWrite (req base : Nat) (accepted : Bool)
  | uvClose
  | timerStart (t : Nat)
  | timerClose (t : Nat)
  deriving DecidableEq, Repr

/-- The client between two callbacks: the heap, the handle `client`, `send_count`, the timers
that have not fired and those that are being closed, and what it did so far. -/
structure State where
  heap : Memory
  client : Stream
  sendCount : Nat
  armed : List Nat
  closing : List Nat
  trace : List Act

/-- After `main` has asked for the connection. -/
def start : State := ⟨Heap.empty, ⟨.connecting, false, []⟩, 0, [], [], []⟩

def State.log (s : State) (acts : List Act) : State := { s with trace := s.trace ++ acts }

/-- `n + 1` as an `int`. -/
def intSucc (n : Nat) : Except Stop Nat :=
  if n < INT_MAX then .ok (n + 1) else .error (.fault .intOverflow)

/-! ## The callbacks -/

/-- `uv_close(client, NULL)`. -/
def State.uvClose (s : State) : Except Stop State := do
  let client ← s.client.close
  return { s with client }.log [.uvClose]

/-- `uv_close(handle, free)` of a timer. -/
def State.closeTimer (s : State) (t : Nat) : Except Stop State :=
  match s.heap.get t with
  | some .timer =>
    if t ∈ s.closing then .error (.fault .doubleClose)
    else .ok ({ s with closing := s.closing ++ [t] }.log [.timerClose t])
  | _ => .error (.fault .badAccess)

def onRead (s : State) (timestamp : String) (args : ReadArgs) : Except Stop State := do
  let s ←
    if 0 < args.nread then pure (s.log [.print (.received timestamp args.nread)])
    else if args.nread < 0 then
      (if args.nread ≠ UV_EOF then s.log [.print (.readError args.nread)] else s).uvClose
    else pure s
  let heap ← free s.heap args.base
  return { s with heap }

/-- `NUM_SENDS` is not looked at: the test that would stop the chain is commented out. -/
def onWrite (s : State) (req : Nat) (status : Int) : Except Stop State := do
  let s := if status ≠ 0 then s.log [.print (.writeError status)] else s
  let heap ← freeWriteReq s.heap req
  let sendCount ← intSucc s.sendCount
  let timer := heap.alloc .timer
  return { s with heap := timer.2, sendCount, armed := s.armed ++ [timer.1] }.log
    [.timerStart timer.1]

/-- The result of `uv_write` is not looked at. -/
def sendData (s : State) (timestamp : String) (accepts : Bool) (handle : Option Nat) :
    Except Stop State := do
  let (wr, buf, heap) ← mallocWriteReq s.heap BUFFER_SIZE
  let heap ← memset heap buf.base fillByte BUFFER_SIZE
  let w := s.client.write accepts wr buf
  let k ← intSucc s.sendCount
  let s := { s with heap, client := w.2 }.log
    [.uvWrite wr buf.base w.1, .print (.sent timestamp BUFFER_SIZE k)]
  match handle with
  | some t => s.closeTimer t
  | none => return s

def onConnect (s : State) (timestamp : String) (accepts : Bool) (status : Int) :
    Except Stop State :=
  if status < 0 then return s.log [.print (.connectionError status)]
  else sendData ({ s with client := { s.client with reading := true } }.log [.print .connected])
    timestamp accepts none

/-! ## The events -/

/-- What libuv delivers: the result of the connect, the callback of a write, the expiry of a
timer, the end of the close of a timer, what a read found, bytes going to the kernel, and the end
of the close of the client handle. `timestamp` is what `get_timestamp` finds, and `accepts` what
an open handle answers to `uv_write`. -/
inductive Event
  | connected (status : Int) (timestamp : String) (accepts : Bool)
  | wrote (req : Nat) (status : Int)
  | timer (t : Nat) (timestamp : String) (accepts : Bool)
  | timerClosed (t : Nat)
  | read (timestamp : String) (out : Readout)
  | transmit (n : Nat)
  | clientClosed
  deriving DecidableEq, Repr

def step (s : State) : Event → Except Stop State
  | .connected status timestamp accepts =>
    if s.client.phase = .connecting then
      onConnect { s with client := { s.client with
        phase := if status < 0 then .failed else .connected } } timestamp accepts status
    else .error .notNow
  | .wrote req status => do
    let client ← s.client.complete req status
    onWrite { s with client } req status
  | .timer t timestamp accepts =>
    if t ∈ s.armed then sendData { s with armed := s.armed.erase t } timestamp accepts (some t)
    else .error .notNow
  | .timerClosed t =>
    if t ∈ s.closing then do
      let heap ← free s.heap (some t)
      return { s with heap, closing := s.closing.erase t }
    else .error .notNow
  | .read timestamp out => do
    let (args, heap) ← s.client.read s.heap out
    onRead { s with heap } timestamp args
  | .transmit n => do
    let (_, client) ← s.client.transmit s.heap n
    return { s with client }
  | .clientClosed => do
    let client ← s.client.finishClose
    return { s with client }

end linuxc.libuv_client
