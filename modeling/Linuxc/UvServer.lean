-- libuv-server.c: for what a client sends it replies with as many 'S'. The
-- state of the server between two callbacks, with any number of connections,
-- and the callbacks as the source has them.
import Linuxc.UvRules
import Mathlib.Data.List.AList

namespace linuxc.libuv_server

open event_runs block_heap libuv

/-! ## The state -/

/-- `'S'`. -/
def fillByte : UInt8 := 83

/-- A line that the server prints. -/
inductive Line
  | newConnectionError (status : Int)
  | received (timestamp : String) (nread : Int)
  | sent (timestamp : String) (nread : Int)
  | readError (err : Int)
  | writeError (status : Int)
  deriving DecidableEq, Repr

def Line.text (uv_strerror uv_err_name : Int → String) : Line → String
  | .newConnectionError status => "New connection error " ++ uv_strerror status ++ "\n"
  | .received timestamp nread =>
    "[" ++ timestamp ++ "]Server received " ++ toString nread ++ " bytes\n"
  | .sent timestamp nread => "[" ++ timestamp ++ "]Server send " ++ toString nread ++ " bytes\n"
  | .readError err => "Read error " ++ uv_err_name err ++ "\n"
  | .writeError status => "Write error " ++ uv_strerror status ++ "\n"

/-- What the server does that can be seen from outside, with the connection that it is about. A
connection that fails has none. -/
inductive Act (κ : Type)
  | print (k : Option κ) (line : Line)
  | uvWrite (k : κ) (req base len : Nat) (accepted : Bool)
  | uvClose (k : κ)
  deriving DecidableEq, Repr

/-- A connection: the block of its `uv_tcp_t`, and its stream. -/
structure Conn where
  handle : Nat
  stream : Stream
  deriving DecidableEq, Repr

/-- The server between two callbacks. Its connections are known by keys of any type. -/
structure State (κ : Type) where
  heap : Memory
  conns : AList fun _ : κ => Conn
  trace : List (Act κ)

variable {κ : Type} [DecidableEq κ]

/-- After `main` has begun to listen. -/
def start (κ : Type) : State κ := ⟨Heap.empty, ∅, []⟩

def State.log (s : State κ) (acts : List (Act κ)) : State κ := { s with trace := s.trace ++ acts }

def State.setConn (s : State κ) (k : κ) (conn : Conn) : State κ :=
  { s with conns := s.conns.insert k conn }

/-- The connection of an event. libuv uses its `uv_tcp_t`, so that has to be there. -/
def State.getConn (s : State κ) (k : κ) : Except Stop Conn :=
  match s.conns.lookup k with
  | none => .error .notNow
  | some conn =>
    match s.heap.get conn.handle with
    | some .tcp => .ok conn
    | _ => .error (.fault .badAccess)

/-- `uv_close(client, NULL)`. -/
def State.uvClose (s : State κ) (k : κ) (conn : Conn) : Except Stop (State κ) := do
  let stream ← conn.stream.close
  return (s.setConn k { conn with stream }).log [.uvClose k]

/-! ## The callbacks -/

def echoWrite (s : State κ) (k : κ) (req : Nat) (status : Int) : Except Stop (State κ) := do
  let s := if status ≠ 0 then s.log [.print k (.writeError status)] else s
  let heap ← freeWriteReq s.heap req
  return { s with heap }

/-- What was read is copied into the reply and then written over. The result of `uv_write` is not
looked at. -/
def echoRead (s : State κ) (k : κ) (conn : Conn) (timestamp : String) (accepts : Bool)
    (args : ReadArgs) : Except Stop (State κ) := do
  let s ←
    if 0 < args.nread then do
      let s := s.log [.print k (.received timestamp args.nread)]
      let n := args.nread.toNat
      let (req, buf, heap) ← mallocWriteReq s.heap n
      let src ← orFault .badAccess args.base
      let heap ← memcpy heap buf.base src n
      let heap ← memset heap buf.base fillByte n
      let w := conn.stream.write accepts req buf
      pure (({ s with heap }.setConn k { conn with stream := w.2 }).log
        [.uvWrite k req buf.base buf.len w.1, .print k (.sent timestamp args.nread)])
    else if args.nread < 0 then
      (if args.nread ≠ UV_EOF then s.log [.print k (.readError args.nread)] else s).uvClose k conn
    else pure s
  let heap ← free s.heap args.base
  return { s with heap }

def onNewConnection (s : State κ) (status : Int) (k : κ) (accepted : Bool) :
    Except Stop (State κ) :=
  if status < 0 then return s.log [.print none (.newConnectionError status)]
  else
    let client := s.heap.alloc .tcp
    let s := { s with heap := client.2 }
    if accepted then return s.setConn k ⟨client.1, ⟨.connected, true, []⟩⟩
    else s.uvClose k ⟨client.1, ⟨.connecting, false, []⟩⟩

/-! ## The events -/

/-- What libuv delivers: a connection, which `uv_accept` takes or not; what a read on a connection
found; the callback of a write; bytes going to the kernel; and the end of the close of a
connection, which calls nothing back. -/
inductive Event (κ : Type)
  | connection (status : Int) (k : κ) (accepted : Bool)
  | read (k : κ) (timestamp : String) (accepts : Bool) (out : Readout)
  | wrote (k : κ) (req : Nat) (status : Int)
  | transmit (k : κ) (n : Nat)
  | closed (k : κ)
  deriving DecidableEq, Repr

/-- A new connection has a key of its own. -/
def step (s : State κ) : Event κ → Except Stop (State κ)
  | .connection status k accepted =>
    if 0 ≤ status ∧ (s.conns.lookup k).isSome then .error .notNow
    else onNewConnection s status k accepted
  | .read k timestamp accepts out => do
    let conn ← s.getConn k
    let (args, heap) ← conn.stream.read s.heap out
    echoRead { s with heap } k conn timestamp accepts args
  | .wrote k req status => do
    let conn ← s.getConn k
    let stream ← conn.stream.complete req status
    echoWrite (s.setConn k { conn with stream }) k req status
  | .transmit k n => do
    let conn ← s.getConn k
    let (_, stream) ← conn.stream.transmit s.heap n
    return s.setConn k { conn with stream }
  | .closed k => do
    let conn ← s.getConn k
    let stream ← conn.stream.finishClose
    return s.setConn k { conn with stream }

end linuxc.libuv_server
