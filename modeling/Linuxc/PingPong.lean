-- The pipe ping-pong of fork.c. The parent writes one byte to `fd` and reads
-- one from `p`, the child reads from `fd` and writes to `p`, and each does so
-- `N` times (10000 in the source). The code ignores what `read` and `write`
-- return, so a read that fails passes like one that got its byte.
import Linuxc.Runs

namespace linuxc.fork

open event_runs

/-! ## The pipes -/

/-- The two pipes that `main` makes: `fd` for the bytes to the child, `p` for the bytes back. -/
inductive Pipe
  | fd
  | p
  deriving DecidableEq, Repr

/-- Why a process cannot take the step that the schedule asks for. -/
inductive Blocked
  | exited
  | empty
  | full
  | noError
  deriving DecidableEq, Repr

/-- The bytes in a pipe, oldest first. A pipe never holds more than its capacity. -/
structure Buffer (cap : Nat) where
  bytes : List Char
  fits : bytes.length ≤ cap

def Buffer.empty (cap : Nat) : Buffer cap := ⟨[], Nat.zero_le cap⟩

/-- `write` of one byte: it blocks while the pipe is full. -/
def Buffer.write {cap : Nat} (b : Buffer cap) (c : Char) : Except Blocked (Buffer cap) :=
  if h : b.bytes.length < cap then .ok ⟨b.bytes ++ [c], by simpa using Nat.succ_le_of_lt h⟩ else .error .full

/-- `read` of one byte: it blocks while the pipe is empty. Both processes keep both ends of both
pipes open, so there is no end of file. -/
def Buffer.read {cap : Nat} : Buffer cap → Except Blocked (Char × Buffer cap)
  | ⟨[], _⟩ => .error .empty
  | ⟨c :: rest, h⟩ => .ok (c, ⟨rest, Nat.le_of_succ_le (by simpa using h)⟩)

/-! ## The two loops -/

inductive Proc
  | parent
  | child
  deriving DecidableEq, Repr

inductive Op
  | write (q : Pipe)
  | read (q : Pipe)
  deriving DecidableEq, Repr

/-- The first and the second statement of the loop body of each process. -/
def body : Proc → Op × Op
  | .parent => (.write .fd, .read .p)
  | .child => (.read .fd, .write .p)

/-- Where a process stands: the loop counter, and whether the first statement of the body is
behind it. -/
structure Loop where
  i : Nat
  second : Bool
  deriving DecidableEq, Repr

/-- The statement that comes next. -/
def Loop.op (who : Proc) (l : Loop) : Op := if l.second then (body who).2 else (body who).1

/-- Past the second statement the counter goes up, as `i++` does. -/
def Loop.next (l : Loop) : Loop := if l.second then ⟨l.i + 1, false⟩ else ⟨l.i, true⟩

/-- The rounds begun: how often the first statement is behind the process. -/
def Loop.begun (l : Loop) : Nat := if l.second then l.i + 1 else l.i

/-- `char send = 's'`. -/
def send : Char := 's'

/-- Both processes after the fork. `done` lists the pipe operations that transferred their
byte, oldest first. -/
structure State (cap : Nat) where
  fd : Buffer cap
  p : Buffer cap
  parent : Loop
  child : Loop
  done : List (Proc × Op)

def start (cap : Nat) : State cap := ⟨Buffer.empty cap, Buffer.empty cap, ⟨0, false⟩, ⟨0, false⟩, []⟩

variable {cap : Nat}

def State.pipe (s : State cap) : Pipe → Buffer cap
  | .fd => s.fd
  | .p => s.p

def State.setPipe (s : State cap) : Pipe → Buffer cap → State cap
  | .fd, b => { s with fd := b }
  | .p, b => { s with p := b }

def State.loop (s : State cap) : Proc → Loop
  | .parent => s.parent
  | .child => s.child

/-- The process goes past its statement. -/
def State.pass (s : State cap) : Proc → State cap
  | .parent => { s with parent := s.parent.next }
  | .child => { s with child := s.child.next }

def State.log (s : State cap) (who : Proc) (op : Op) : State cap :=
  { s with done := s.done ++ [(who, op)] }

/-- The process that runs next, and whether its read returns early with an error. -/
structure Turn where
  who : Proc
  fails : Bool
  deriving DecidableEq, Repr

/-- One statement of one process. A process past its last round has left the loop. -/
def step (N : Nat) (s : State cap) (t : Turn) : Except Blocked (State cap) :=
  if (s.loop t.who).i < N then
    match (s.loop t.who).op t.who, t.fails with
    | .write q, false => do
      let b ← (s.pipe q).write send
      return ((s.setPipe q b).log t.who (.write q)).pass t.who
    | .write _, true => .error .noError
    | .read q, false => do
      let (_, b) ← (s.pipe q).read
      return ((s.setPipe q b).log t.who (.read q)).pass t.who
    | .read _, true => return s.pass t.who
  else .error .exited

/-! ## What one statement does -/

theorem write_ok {b b' : Buffer cap} {c : Char} :
    b.write c = .ok b' ↔ b.bytes.length < cap ∧ b'.bytes = b.bytes ++ [c] := by
  obtain ⟨bytes, hb⟩ := b
  obtain ⟨bytes', hb'⟩ := b'
  unfold Buffer.write
  split
  · rename_i hlt
    simp [hlt, eq_comm]
  · rename_i hlt
    simp [hlt]

theorem read_ok {b b' : Buffer cap} {c : Char} :
    b.read = .ok (c, b') ↔ b.bytes = c :: b'.bytes := by
  obtain ⟨_ | ⟨d, rest⟩, hb⟩ := b
  · simp [Buffer.read]
  · obtain ⟨bytes', hb'⟩ := b'
    simp [Buffer.read]

/-- The six ways to pass a statement: the two writes, the two reads that got their byte, and the
two reads that failed. -/
inductive Moved (N : Nat) (s : State cap) : Turn → State cap → Prop
  | parentWrites (b : Buffer cap) (hi : s.parent.i < N) (hs : s.parent.second = false)
      (hb : s.fd.write send = .ok b) :
      Moved N s ⟨.parent, false⟩ { s with
        fd := b, parent := ⟨s.parent.i, true⟩, done := s.done ++ [(.parent, .write .fd)] }
  | parentReads (c : Char) (b : Buffer cap) (hi : s.parent.i < N) (hs : s.parent.second = true)
      (hb : s.p.read = .ok (c, b)) :
      Moved N s ⟨.parent, false⟩ { s with
        p := b, parent := ⟨s.parent.i + 1, false⟩, done := s.done ++ [(.parent, .read .p)] }
  | parentReadFails (hi : s.parent.i < N) (hs : s.parent.second = true) :
      Moved N s ⟨.parent, true⟩ { s with parent := ⟨s.parent.i + 1, false⟩ }
  | childReads (c : Char) (b : Buffer cap) (hi : s.child.i < N) (hs : s.child.second = false)
      (hb : s.fd.read = .ok (c, b)) :
      Moved N s ⟨.child, false⟩ { s with
        fd := b, child := ⟨s.child.i, true⟩, done := s.done ++ [(.child, .read .fd)] }
  | childReadFails (hi : s.child.i < N) (hs : s.child.second = false) :
      Moved N s ⟨.child, true⟩ { s with child := ⟨s.child.i, true⟩ }
  | childWrites (b : Buffer cap) (hi : s.child.i < N) (hs : s.child.second = true)
      (hb : s.p.write send = .ok b) :
      Moved N s ⟨.child, false⟩ { s with
        p := b, child := ⟨s.child.i + 1, false⟩, done := s.done ++ [(.child, .write .p)] }

theorem moved_of_step {N : Nat} {s s' : State cap} {t : Turn} (h : step N s t = .ok s') :
    Moved N s t s' := by
  obtain ⟨who, fails⟩ := t
  obtain ⟨fd, p, ⟨i, second⟩, ⟨j, second'⟩, done⟩ := s
  unfold step at h
  split at h
  · rename_i hi
    -- the statement that comes next is fixed by the process and its half of the body
    cases who <;> cases fails <;> cases second <;> cases second' <;>
      simp only [State.loop, Loop.op, body, State.pipe, State.setPipe, State.log, State.pass,
        Loop.next, if_true, if_false, Bool.false_eq_true, bind_ok_iff, pure, Except.pure,
        Except.ok.injEq, reduceCtorEq, Prod.exists] at h hi
    all_goals first
      | (obtain ⟨b, hb, rfl⟩ := h; first | exact .parentWrites b hi rfl hb | exact .childWrites b hi rfl hb)
      | (obtain ⟨c, b, hb, rfl⟩ := h; first | exact .parentReads c b hi rfl hb | exact .childReads c b hi rfl hb)
      | (subst h; first | exact .parentReadFails hi rfl | exact .childReadFails hi rfl)
  · cases h

theorem step_of_moved {N : Nat} {s s' : State cap} {t : Turn} (h : Moved N s t s') :
    step N s t = .ok s' := by
  cases h <;>
    simp [step, State.loop, Loop.op, body, State.pipe, State.setPipe, State.log, State.pass,
      Loop.next, bind, Except.bind, pure, Except.pure, *]

end linuxc.fork
