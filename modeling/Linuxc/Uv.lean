-- What the two demo programs rely on in libuv and in the C library: blocks of
-- memory with the bytes written into them, the queue of writes of a TCP
-- handle, the close of a handle, and what a read hands to the read callback.
-- A program that breaks a rule of theirs stops with a fault.
import Linuxc.BlockHeap
import Linuxc.Runs

namespace linuxc.libuv

open event_runs block_heap

/-- What goes wrong in a program: a `free` or an access of a block that is not there, an access
past the bytes of a block, a second `uv_close` of a handle, and an overflow of an `int`. -/
inductive Fault
  | badFree
  | badAccess
  | outOfBounds
  | doubleClose
  | intOverflow
  deriving DecidableEq, Repr

/-- Why an event does not happen: libuv does not deliver it now, or the program goes wrong. -/
inductive Stop
  | notNow
  | fault (f : Fault)
  deriving DecidableEq, Repr

def orFault {α : Type} (f : Fault) : Option α → Except Stop α
  | some a => .ok a
  | none => .error (.fault f)

/-! ## Memory -/

/-- A block of `size` bytes, of which the first have been written. -/
structure Block where
  size : Nat
  written : List UInt8
  fits : written.length ≤ size

def Block.fresh (size : Nat) : Block := ⟨size, [], Nat.zero_le size⟩

/-- `memset` of the first `n` bytes. -/
def Block.memset (b : Block) (c : UInt8) (n : Nat) : Option Block :=
  if h : n ≤ b.size then some {
    size := b.size
    written := List.replicate n c ++ b.written.drop n
    fits := by
      have := b.fits
      simp only [List.length_append, List.length_replicate, List.length_drop]
      omega }
  else none

/-- The bytes are stored from the start of the block on. -/
def Block.store (b : Block) (bytes : List UInt8) : Option Block :=
  if h : bytes.length ≤ b.size then some {
    size := b.size
    written := bytes ++ b.written.drop bytes.length
    fits := by
      have := b.fits
      simp only [List.length_append, List.length_drop]
      omega }
  else none

/-- `n` bytes from `off` on. Bytes that were never written cannot be read. -/
def Block.load (b : Block) (off n : Nat) : Option (List UInt8) :=
  if off + n ≤ b.written.length then some ((b.written.drop off).take n) else none

/-- `uv_buf_t`. -/
structure UvBuf where
  base : Nat
  len : Nat
  deriving DecidableEq, Repr

/-- What a block of the heap is used for. The `buf` of a `write_req_t` is unset at first. -/
inductive Cell
  | tcp
  | timer
  | writeReq (buf : Option UvBuf)
  | bytes (b : Block)

abbrev Memory := Heap Cell

def getBytes (m : Memory) (p : Nat) : Except Stop Block :=
  match m.get p with
  | some (.bytes b) => .ok b
  | _ => .error (.fault .badAccess)

def getReq (m : Memory) (p : Nat) : Except Stop UvBuf :=
  match m.get p with
  | some (.writeReq (some buf)) => .ok buf
  | _ => .error (.fault .badAccess)

def setReq (m : Memory) (p : Nat) (buf : UvBuf) : Except Stop Memory :=
  match m.get p with
  | some (.writeReq _) => orFault .badAccess (m.put p (.writeReq (some buf)))
  | _ => .error (.fault .badAccess)

def memset (m : Memory) (p : Nat) (c : UInt8) (n : Nat) : Except Stop Memory := do
  let b ← getBytes m p
  let b ← orFault .outOfBounds (b.memset c n)
  orFault .badAccess (m.put p (.bytes b))

def store (m : Memory) (p : Nat) (bytes : List UInt8) : Except Stop Memory := do
  let b ← getBytes m p
  let b ← orFault .outOfBounds (b.store bytes)
  orFault .badAccess (m.put p (.bytes b))

def memcpy (m : Memory) (dst src n : Nat) : Except Stop Memory := do
  let b ← getBytes m src
  let bytes ← orFault .outOfBounds (b.load 0 n)
  store m dst bytes

/-- `free` takes a null pointer too. -/
def free (m : Memory) : Option Nat → Except Stop Memory
  | none => .ok m
  | some p => orFault .badFree (m.free p)

/-! ## What both programs do -/

/-- `free_write_req`. -/
def freeWriteReq (m : Memory) (req : Nat) : Except Stop Memory := do
  let buf ← getReq m req
  let m ← free m (some buf.base)
  free m (some req)

/-- Where `send_data` and the reply of `echo_read` begin: a `write_req_t`, and a buffer of `n` bytes
that it points to. -/
def mallocWriteReq (m : Memory) (n : Nat) : Except Stop (Nat × UvBuf × Memory) := do
  let wr := m.alloc (.writeReq none)
  let bytes := wr.2.alloc (.bytes (.fresh n))
  let buf := ⟨bytes.1, n⟩
  let m ← setReq bytes.2 wr.1 buf
  return (wr.1, buf, m)

/-- `alloc_buffer`. -/
def allocBuffer (m : Memory) (suggested_size : Nat) : UvBuf × Memory :=
  let bytes := m.alloc (.bytes (.fresh suggested_size))
  (⟨bytes.1, suggested_size⟩, bytes.2)

/-! ## A handle -/

/-- A handle that is not open yet is `connecting`, or `failed` when it cannot be. -/
inductive Phase
  | connecting
  | failed
  | connected
  | closing
  | closed
  deriving DecidableEq, Repr

/-- A write that libuv has accepted and not completed: the request, its buffer, and how many of
its bytes are behind it. -/
structure Request where
  req : Nat
  base : Nat
  len : Nat
  sent : Nat
  deriving DecidableEq, Repr

/-- The stream of a `uv_tcp_t`, with the writes in the order they were queued. -/
structure Stream where
  phase : Phase
  reading : Bool
  queue : List Request
  deriving DecidableEq, Repr

def Stream.isOpen (s : Stream) : Bool := s.phase ≠ .closing ∧ s.phase ≠ .closed

/-- `uv_write`. A closed handle refuses every write; an open one may refuse, too. -/
def Stream.write (s : Stream) (accepts : Bool) (req : Nat) (buf : UvBuf) : Bool × Stream :=
  if accepts && s.isOpen then
    (true, { s with queue := s.queue ++ [⟨req, buf.base, buf.len, 0⟩] })
  else (false, s)

/-- `uv_close` asserts that the handle is not closing. No read callback comes after it. -/
def Stream.close (s : Stream) : Except Stop Stream :=
  if s.phase = .closing ∨ s.phase = .closed then .error (.fault .doubleClose)
  else .ok { s with phase := .closing, reading := false }

/-- `uv__finish_close`: the writes of the handle have got their callbacks before. -/
def Stream.finishClose (s : Stream) : Except Stop Stream :=
  if s.phase = .closing ∧ s.queue = [] then .ok { s with phase := .closed } else .error .notNow

/-- A write leaves the queue when its callback is due. Status 0 says that all of it was sent. -/
def Stream.complete (s : Stream) (req : Nat) (status : Int) : Except Stop Stream :=
  match s.queue.find? (·.req = req) with
  | none => .error .notNow
  | some q =>
    if status = 0 ∧ q.sent < q.len then .error .notNow
    else .ok { s with queue := s.queue.eraseP (·.req = req) }

/-- The first write that is not all sent has `n` more bytes behind it. -/
def advance (n : Nat) : List Request → List Request
  | [] => []
  | q :: qs => if q.sent < q.len then { q with sent := q.sent + n } :: qs else q :: advance n qs

/-- `uv__write` hands the next `n` bytes to the kernel: those of the first write that is not all
sent, read from its buffer now. -/
def Stream.transmit (s : Stream) (m : Memory) (n : Nat) : Except Stop (List UInt8 × Stream) :=
  match s.queue.find? (fun q => q.sent < q.len) with
  | none => .error .notNow
  | some q =>
    if s.phase = .connected ∧ 0 < n ∧ q.sent + n ≤ q.len then do
      let b ← getBytes m q.base
      let bytes ← orFault .outOfBounds (b.load q.sent n)
      return (bytes, { s with queue := advance n s.queue })
    else .error .notNow

/-! ## Reads -/

def UV_EOF : Int := -4095

/-- The size that `uv__read` suggests to `alloc_buffer`. -/
def SUGGESTED_SIZE : Nat := 64 * 1024

/-- What `read` finds: bytes, nothing yet, the end of the stream or an error; or a hang-up that
libuv sees without a read, and reports as an end of the stream with a null buffer. -/
inductive Readout
  | data (bytes : List UInt8)
  | again
  | fail (err : Int)
  | hangup
  deriving DecidableEq, Repr

/-- The `nread` that the read callback gets. -/
def Readout.nread : Readout → Int
  | .data bytes => bytes.length
  | .again => 0
  | .fail err => err
  | .hangup => UV_EOF

/-- The bytes that are read. -/
def Readout.bytes : Readout → List UInt8
  | .data bytes => bytes
  | _ => []

/-- What the read callback gets: `nread`, and the buffer unless it is null. -/
structure ReadArgs where
  nread : Int
  base : Option Nat

/-- `uv__read`: a buffer is allocated and handed on with what was read into it. -/
def Stream.read (s : Stream) (m : Memory) (out : Readout) : Except Stop (ReadArgs × Memory) :=
  if s.phase = .connected ∧ s.reading then
    let buf := allocBuffer m SUGGESTED_SIZE
    match out with
    | .data bytes =>
      if 0 < bytes.length ∧ bytes.length ≤ buf.1.len then do
        let m' ← store buf.2 buf.1.base bytes
        return (⟨out.nread, some buf.1.base⟩, m')
      else .error .notNow
    | .again => return (⟨out.nread, some buf.1.base⟩, buf.2)
    | .fail err => if err < 0 then return (⟨out.nread, some buf.1.base⟩, buf.2) else .error .notNow
    | .hangup => return (⟨out.nread, none⟩, m)
  else .error .notNow

end linuxc.libuv
