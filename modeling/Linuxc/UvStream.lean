-- stream.c of libuv, as far as the demo programs get with a TCP handle: the
-- two queues of writes, the loops that write and read until the kernel has no
-- more, and the close. A callback is a place where the program may call in
-- again, so each runs in a step of its own.
import Linuxc.Runs
import Linuxc.Uv

namespace linuxc.uv_stream

open event_runs

def UV_EBADF : Int := -9
def UV_EPIPE : Int := -32
def UV_ENOBUFS : Int := -105
def UV_EINPROGRESS : Int := -115
def UV_ECANCELED : Int := -125

/-- `uv__getiovmax`. -/
def IOV_MAX : Nat := 1024

/-! ## The state -/

/-- The assertions of the source, and the end of the array of buffers. -/
inductive Check
  | nbufs
  | closing
  | fd
  | activeReqs
  | writeQueueSize
  | reqSize
  | writeQueueEmpty
  | drained
  | inactive
  | bounds
  deriving DecidableEq, Repr

/-- Why a step does not happen: it is not its turn, or an assertion fails. -/
inductive Stop
  | notNow
  | failed (c : Check)
  deriving DecidableEq, Repr

def check (c : Check) (b : Bool) : Except Stop Unit :=
  if b then .ok () else .error (.failed c)

/-- A step that is not taken at the wrong time. -/
def guarded (b : Bool) : Except Stop Unit := if b then .ok () else .error .notNow

def orFail {α : Type} (c : Check) : Option α → Except Stop α
  | some a => .ok a
  | none => .error (.failed c)

/-- `uv_write_t`. `bufs` are the buffers as they were handed in, `rest` what is left of them from
`write_index` on. `hasBufs` says that `req->bufs` is not NULL. -/
structure WriteReq where
  id : Nat
  bufs : List libuv.UvBuf
  rest : List libuv.UvBuf
  error : Int
  hasBufs : Bool
  deriving DecidableEq, Repr

/-- `uv__count_bufs`. -/
def countBufs : List libuv.UvBuf → Nat
  | [] => 0
  | b :: bs => b.len + countBufs bs

/-- Where the bytes of some buffers are. -/
def addresses : List libuv.UvBuf → List Nat
  | [] => []
  | b :: bs => List.range' b.base b.len ++ addresses bs

/-- What `poll` reports of the descriptor. -/
structure PollEvents where
  pollin : Bool
  pollout : Bool
  pollerr : Bool
  pollhup : Bool
  deriving DecidableEq, Repr

/-- What follows after the write callbacks. -/
inductive After
  | io
  | connect
  | destroy
  deriving DecidableEq, Repr

/-- Where libuv is in the code of this handle: nowhere, or at a place where a callback has been
called. `reading` is the head of the loop of `uv__read`, with the rounds that are left;
`calling` is the loop of `uv__write_callbacks`, with its own queue. -/
inductive Control
  | idle
  | connected (error : Int)
  | reading (count : Nat) (ev : PollEvents)
  | readFailed (ev : PollEvents)
  | read (ev : PollEvents)
  | writing (ev : PollEvents)
  | calling (pq : List WriteReq) (after : After)
  deriving DecidableEq, Repr

def Control.pq : Control → List WriteReq
  | .calling pq _ => pq
  | _ => []

/-- What can be seen from outside: what the calls of the program gave, the bytes that the kernel
took, and the callbacks. -/
inductive Act
  | opened
  | accepted (id : Nat) (bufs : List libuv.UvBuf)
  | refused (id : Nat) (err : Int)
  | closing
  | handed (bytes : List Nat)
  | writeCb (id : Nat) (status : Int)
  | connectCb (status : Int)
  | shutdownCb (status : Int)
  | readCb (nread : Int)
  | closeCb
  deriving DecidableEq, Repr

/-- `uv_stream_t`: its descriptor and its requests, its flags, what its watcher waits for, its
queues, and its share of the active requests of the loop. -/
structure Stream where
  fd : Bool
  connectReq : Bool
  shutdownReq : Bool
  delayedError : Int
  readable : Bool
  writable : Bool
  reading : Bool
  readEof : Bool
  readPartial : Bool
  shut : Bool
  closing : Bool
  closed : Bool
  pollin : Bool
  pollout : Bool
  pending : Bool
  writeQueueSize : Nat
  writeQueue : List WriteReq
  writeCompletedQueue : List WriteReq
  activeReqs : Nat
  control : Control
  trace : List Act

/-- `uv__stream_init`. -/
def start : Stream where
  fd := false
  connectReq := false
  shutdownReq := false
  delayedError := 0
  readable := false
  writable := false
  reading := false
  readEof := false
  readPartial := false
  shut := false
  closing := false
  closed := false
  pollin := false
  pollout := false
  pending := false
  writeQueueSize := 0
  writeQueue := []
  writeCompletedQueue := []
  activeReqs := 0
  control := .idle
  trace := []

def Stream.log (s : Stream) (acts : List Act) : Stream := { s with trace := s.trace ++ acts }

def Stream.goto (s : Stream) (control : Control) : Stream := { s with control }

/-- `uv__req_unregister`. -/
def Stream.unregister (s : Stream) : Except Stop Stream := do
  check .activeReqs (0 < s.activeReqs)
  return { s with activeReqs := s.activeReqs - 1 }

/-! ## Writes -/

/-- What the kernel says to a `write`. -/
inductive Answer
  | wrote (n : Nat)
  | again
  | error (err : Int)
  deriving DecidableEq, Repr

/-- The loop of `uv__write_req_update`, over the buffers from `write_index` on. It runs once at
least; only when a buffer is used up is there more of `n` for the next. -/
def update : Nat → List libuv.UvBuf → Option (List libuv.UvBuf)
  | _, [] => none
  | n, b :: bs =>
    let len := if n < b.len then n else b.len
    let rest := if b.len - len = 0 then bs else ⟨b.base + len, b.len - len⟩ :: bs
    if 0 < n - len then update (n - len) bs else some rest

/-- `uv__write_req_finish`, when `queue` is what is behind `req` in the queue. -/
def Stream.finish (s : Stream) (req : WriteReq) (queue : List WriteReq) : Stream :=
  { s with
    writeQueue := queue
    writeCompletedQueue := s.writeCompletedQueue ++
      [if req.error = 0 then { req with hasBufs := false } else req]
    pending := true }

/-- The loop of `uv__write`, with the answers that the kernel will give. A descriptor of these
programs never blocks. -/
def writeLoop : Nat → Stream → List Answer → Except Stop (Stream × List Answer)
  | count, s, answers =>
    match s.writeQueue, answers with
    | [], _ => .ok (s, answers)
    | _ :: _, [] => .error .notNow
    | req :: queue, .wrote n :: answers => do
      guarded (n ≤ countBufs (req.rest.take IOV_MAX))
      check .writeQueueSize (n ≤ s.writeQueueSize)
      let rest ← orFail .bounds (update n req.rest)
      let s := { s with writeQueueSize := s.writeQueueSize - n }.log
        [.handed ((addresses req.rest).take n)]
      if rest = [] then
        let s := s.finish { req with rest } queue
        match count with
        | 0 => return (s, answers)
        | count + 1 => writeLoop count s answers
      else return ({ s with writeQueue := { req with rest } :: queue, pollout := true }, answers)
    | _ :: _, .again :: answers => .ok ({ s with pollout := true }, answers)
    | req :: queue, .error err :: answers => do
      guarded (err < 0)
      return ({ s.finish { req with error := err } queue with pollout := false }, answers)

/-- `uv__write`. All the answers have to be used. -/
def Stream.write (s : Stream) (answers : List Answer) : Except Stop Stream := do
  check .fd s.fd
  let (s, left) ← writeLoop 32 s answers
  guarded (left = [])
  return s

/-- The new request of `uv_write2` is registered and put at the end of the queue. -/
def Stream.enqueue (s : Stream) (req : WriteReq) : Stream :=
  { s with
    activeReqs := s.activeReqs + 1
    writeQueueSize := s.writeQueueSize + countBufs req.bufs
    writeQueue := s.writeQueue ++ [req] }.log [.accepted req.id req.bufs]

/-- `uv_write`. -/
def Stream.uvWrite (s : Stream) (id : Nat) (bufs : List libuv.UvBuf) (answers : List Answer) :
    Except Stop Stream := do
  check .nbufs (bufs ≠ [])
  let err := if s.fd then (if s.writable then 0 else UV_EPIPE) else UV_EBADF
  if err < 0 then
    guarded (answers = [])
    return s.log [.refused id err]
  else
    let emptyQueue := s.writeQueueSize = 0
    let s := s.enqueue ⟨id, bufs, bufs, 0, true⟩
    if s.connectReq then
      guarded (answers = [])
      return s
    else if emptyQueue then s.write answers
    else
      guarded (answers = [])
      return { s with pollout := true }

/-- `uv__stream_flush_write_queue`. -/
def Stream.flush (s : Stream) (error : Int) : Stream :=
  { s with
    writeQueue := []
    writeCompletedQueue := s.writeCompletedQueue ++ s.writeQueue.map fun req => { req with error } }

/-- Where `uv__write_callbacks` begins. -/
def Stream.callbacks (s : Stream) (after : After) : Stream :=
  { s with writeCompletedQueue := [] }.goto (.calling s.writeCompletedQueue after)

/-- One round of the loop of `uv__write_callbacks`: the request is touched up and called back. -/
def Stream.callback (s : Stream) (req : WriteReq) (pq : List WriteReq) (after : After) :
    Except Stop Stream := do
  let s ← s.unregister
  let size := if req.hasBufs then countBufs req.rest else 0
  check .reqSize (size ≤ s.writeQueueSize)
  return ({ s with writeQueueSize := s.writeQueueSize - size }.log
    [.writeCb req.id req.error]).goto (.calling pq after)

/-- `uv__drain`, with what `shutdown` will say. -/
def Stream.drain (s : Stream) (soError : Int) : Except Stop Stream := do
  check .writeQueueEmpty (s.writeQueue = [])
  let s := if s.closing then s else { s with pollout := false }
  if s.shutdownReq ∧ (s.closing ∨ ¬ s.shut) then
    let s ← { s with shutdownReq := false }.unregister
    let err := if s.closing then UV_ECANCELED else soError
    return { s with shut := s.shut ∨ err = 0 }.log [.shutdownCb err]
  else return s

/-! ## Reads -/

/-- What a round of `uv__read` meets: `alloc_cb` gives nothing, or the kernel gives some bytes for a
buffer of `len`, nothing yet, the end or an error. `alloc_cb` only gives a buffer: it is not one of the
places where the program calls in again, so the test of the loop, the buffer and the read are one step. -/
inductive ReadAnswer
  | noBuffer
  | bytes (n len : Nat)
  | again
  | eof
  | error (err : Int)
  deriving DecidableEq, Repr

/-- `uv__stream_eof`. -/
def Stream.eof (s : Stream) : Stream :=
  { s with readEof := true, reading := false, pollin := false }.log [.readCb libuv.UV_EOF]

/-- A round of `uv__read` up to its callback. The flag of a partial read is set before the callback
here, which does not look at it. -/
def Stream.readRound (s : Stream) (count : Nat) (ev : PollEvents) :
    ReadAnswer → Except Stop Stream
  | .noBuffer => return (s.log [.readCb UV_ENOBUFS]).goto (.read ev)
  | .bytes n len => do
    guarded (0 < n ∧ n ≤ len)
    check .fd s.fd
    if n < len then
      return ({ s with readPartial := true }.log [.readCb n]).goto (.read ev)
    else return (s.log [.readCb n]).goto (.reading count ev)
  | .again => do
    check .fd s.fd
    return ({ s with pollin := true }.log [.readCb 0]).goto (.read ev)
  | .eof => do
    check .fd s.fd
    return s.eof.goto (.read ev)
  | .error err => do
    guarded (err < 0)
    check .fd s.fd
    return ({ s with readable := false, writable := false }.log [.readCb err]).goto (.readFailed ev)

/-! ## The handle -/

/-- `uv__stream_connect`, up to the callback. -/
def Stream.connect (s : Stream) (soError : Int) : Except Stop Stream := do
  let error := if s.delayedError ≠ 0 then s.delayedError else soError
  if error = UV_EINPROGRESS then return { s with delayedError := 0 }
  else
    let s ← { s with connectReq := false, delayedError := 0 }.unregister
    let s := if error < 0 ∨ s.writeQueue = [] then { s with pollout := false } else s
    return (s.log [.connectCb error]).goto (.connected error)

/-- `uv__stream_io`, up to the first callback. -/
def Stream.io (s : Stream) (ev : PollEvents) (soError : Int) : Except Stop Stream := do
  check .closing !s.closing
  if s.connectReq then s.connect soError
  else
    check .fd s.fd
    if ev.pollin ∨ ev.pollerr ∨ ev.pollhup then
      return { s with readPartial := false }.goto (.reading 32 ev)
    else return s.goto (.read ev)

/-- From `uv__read` to the writes: a hang-up is reported as an end of the stream when a read was
partial. -/
def Stream.afterRead (s : Stream) (ev : PollEvents) : Stream :=
  if !s.fd then s.goto .idle
  else if ev.pollhup ∧ s.reading ∧ s.readPartial ∧ ¬ s.readEof then s.eof.goto (.writing ev)
  else s.goto (.writing ev)

/-- The writes of `uv__stream_io`. -/
def Stream.ioWrite (s : Stream) (ev : PollEvents) (answers : List Answer) : Except Stop Stream := do
  if s.fd ∧ (ev.pollout ∨ ev.pollerr ∨ ev.pollhup) then
    let s ← s.write answers
    return s.callbacks .io
  else
    guarded (answers = [])
    return s.goto .idle

/-- `uv_close` and `uv__stream_close`. -/
def Stream.uvClose (s : Stream) : Except Stop Stream := do
  check .closing !s.closing
  return { s with
    closing := true
    fd := false
    readable := false
    writable := false
    reading := false
    pollin := false
    pollout := false
    pending := false }.log [.closing]

/-- `uv_shutdown`, when it is not refused. -/
def Stream.uvShutdown (s : Stream) : Except Stop Stream := do
  guarded (s.writable ∧ !s.shut ∧ !s.shutdownReq ∧ !s.closing)
  check .fd s.fd
  return { s with
    shutdownReq := true
    activeReqs := s.activeReqs + 1
    writable := false
    pending := s.pending ∨ s.writeQueue = [] }

/-- The end of a connect that `uv_close` came before, in `uv__stream_destroy`. -/
def Stream.cancelConnect (s : Stream) : Except Stop Stream := do
  if s.connectReq then
    let s ← s.unregister
    return { s with connectReq := false }.log [.connectCb UV_ECANCELED]
  else return s

/-- `uv__finish_close` and `uv__stream_destroy`, up to the write callbacks. -/
def Stream.destroy (s : Stream) : Except Stop Stream := do
  check .inactive (!s.pollin ∧ !s.pollout)
  let s ← { s with closed := true }.cancelConnect
  return (s.flush UV_ECANCELED).callbacks .destroy

/-- What follows when the last write callback has returned. -/
def Stream.afterCallbacks (s : Stream) (soError : Int) : After → Except Stop Stream
  | .io => do
    if s.writeQueue = [] then
      let s ← s.drain soError
      return s.goto .idle
    else return s.goto .idle
  | .connect => return s.goto .idle
  | .destroy => do
    let s ← s.drain soError
    check .drained (s.writeQueueSize = 0)
    return (s.log [.closeCb]).goto .idle

/-! ## The events -/

/-- What can happen. The program calls `uv_tcp_connect`, `uv_accept` (which opens the handle),
`uv_write`, `uv_read_start`, `uv_read_stop`, `uv_shutdown` and `uv_close`, from outside or from a
callback. The loop finds the descriptor ready, runs what is pending and finishes the close. And
libuv goes on where it is: with a read, with the next callback, or with what follows. -/
inductive Event
  | uvConnect (delayedError : Int)
  | uvOpen
  | uvWrite (id : Nat) (bufs : List libuv.UvBuf) (answers : List Answer)
  | uvReadStart
  | uvReadStop
  | uvShutdown
  | uvClose
  | poll (ev : PollEvents) (soError : Int)
  | runPending (soError : Int)
  | finishClose
  | readOne (answer : ReadAnswer)
  | callback
  | resume (answers : List Answer) (soError : Int)
  deriving DecidableEq, Repr

/-- Libuv goes on after a callback. -/
def Stream.resume (s : Stream) (answers : List Answer) (soError : Int) : Except Stop Stream :=
  match s.control with
  | .idle => .error .notNow
  | .connected error => do
    guarded (answers = [])
    return if s.fd ∧ error < 0 then (s.flush UV_ECANCELED).callbacks .connect else s.goto .idle
  | .reading count ev => do
    guarded (answers = [] ∧ (s.reading = false ∨ count = 0))
    return s.goto (.read ev)
  | .readFailed ev => do
    guarded (answers = [])
    return (if s.reading then { s with reading := false, pollin := false } else s).goto (.read ev)
  | .read ev => do
    guarded (answers = [])
    return s.afterRead ev
  | .writing ev => s.ioWrite ev answers
  | .calling [] after => do
    guarded (answers = [])
    s.afterCallbacks soError after
  | .calling (_ :: _) _ => .error .notNow

/-- The program connects or opens the handle only while it has no descriptor and is not closing. The
source takes this for granted: `uv__tcp_connect` tests for a connect in progress only, and `uv_accept`
and `uv__stream_open` do not test whether the handle is closing. -/
def step (s : Stream) : Event → Except Stop Stream
  | .uvConnect delayedError => do
    guarded (!s.fd ∧ !s.closing ∧ !s.connectReq ∧ delayedError ≤ 0)
    return { s with
      fd := true
      readable := true
      writable := true
      connectReq := true
      delayedError
      activeReqs := s.activeReqs + 1
      pollout := true
      pending := s.pending ∨ delayedError ≠ 0 }
  | .uvOpen => do
    guarded (!s.fd ∧ !s.closing ∧ !s.connectReq)
    return { s with fd := true, readable := true, writable := true }.log [.opened]
  | .uvWrite id bufs answers => s.uvWrite id bufs answers
  | .uvReadStart => do
    guarded (!s.closing ∧ !s.reading ∧ s.readable)
    check .fd s.fd
    return { s with reading := true, readEof := false, pollin := true }
  | .uvReadStop =>
    return if s.reading then { s with reading := false, pollin := false } else s
  | .uvShutdown => s.uvShutdown
  | .uvClose => s.uvClose
  | .poll ev soError => do
    guarded (s.control = .idle ∧ (s.pollin ∨ s.pollout) ∧ (ev.pollin → s.pollin) ∧
      (ev.pollout → s.pollout) ∧ soError ≤ 0)
    s.io ev soError
  | .runPending soError => do
    guarded (s.control = .idle ∧ s.pending ∧ soError ≤ 0)
    { s with pending := false }.io ⟨false, true, false, false⟩ soError
  | .finishClose => do
    guarded (s.control = .idle ∧ s.closing ∧ !s.closed)
    s.destroy
  | .readOne answer =>
    match s.control with
    | .reading (count + 1) ev => do
      guarded s.reading
      s.readRound count ev answer
    | _ => .error .notNow
  | .callback =>
    match s.control with
    | .calling (req :: pq) after => s.callback req pq after
    | _ => .error .notNow
  | .resume answers soError => do
    guarded (soError ≤ 0)
    s.resume answers soError

end linuxc.uv_stream
