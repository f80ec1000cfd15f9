-- The ping-pong of fork.c cannot deadlock, although it ignores what `read`
-- returns. Failed reads let the two processes drift apart by any number of
-- rounds, and the bytes that nobody took stay in the pipes: `Balance` weighs
-- the bytes in the pipes against the rounds of both sides.
import Linuxc.PingPong

namespace linuxc.fork

open event_runs

variable {cap : Nat}

/-! ## The balance of bytes and rounds -/

/-- A pipe got one byte for each round that its writer has behind it, and lost at most one for
each read that its reader has behind it. -/
structure Balance (N : Nat) (s : State cap) : Prop where
  fd_low : s.parent.begun ≤ s.fd.bytes.length + s.child.begun
  fd_high : s.fd.bytes.length ≤ s.parent.begun
  p_low : s.child.i ≤ s.p.bytes.length + s.parent.i
  p_high : s.p.bytes.length ≤ s.child.i
  parent_rounds : s.parent.begun ≤ N
  child_rounds : s.child.begun ≤ N

theorem balance_start (N : Nat) : Balance N (start cap) := by
  constructor <;> simp [start, Buffer.empty, Loop.begun]

theorem begun_first {l : Loop} (h : l.second = false) : l.begun = l.i := by simp [Loop.begun, h]

theorem begun_second {l : Loop} (h : l.second = true) : l.begun = l.i + 1 := by
  simp [Loop.begun, h]

/-- One statement of either process keeps the balance. -/
theorem balance_step {N : Nat} (s : State cap) (t : Turn) (s' : State cap) (hb : Balance N s)
    (h : step N s t = .ok s') : Balance N s' := by
  obtain ⟨b1, b2, b3, b4, b5, b6⟩ := hb
  cases moved_of_step h with
  | parentWrites b hi hs hw =>
    have hlen := congrArg List.length (write_ok.mp hw).2
    rw [begun_first hs] at *
    constructor <;> simp [begun_second] at * <;> omega
  | parentReads c b hi hs hr =>
    have hlen := congrArg List.length (read_ok.mp hr)
    rw [begun_second hs] at *
    constructor <;> simp [begun_first] at * <;> omega
  | parentReadFails hi hs =>
    rw [begun_second hs] at *
    constructor <;> simp [begun_first] at * <;> omega
  | childReads c b hi hs hr =>
    have hlen := congrArg List.length (read_ok.mp hr)
    rw [begun_first hs] at *
    constructor <;> simp [begun_second] at * <;> omega
  | childReadFails hi hs =>
    rw [begun_first hs] at *
    constructor <;> simp [begun_second] at * <;> omega
  | childWrites b hi hs hw =>
    have hlen := congrArg List.length (write_ok.mp hw).2
    rw [begun_second hs] at *
    constructor <;> simp [begun_first] at * <;> omega

theorem balance_run {N : Nat} {s : State cap} {ts : List Turn}
    (h : run (step N) (start cap) ts = .ok s) : Balance N s :=
  run_keeps (balance_start N) balance_step h

/-! ## Some process can always go on -/

/-- Both processes have left their loops. -/
def Finished (N : Nat) (s : State cap) : Prop :=
  s.parent = ⟨N, false⟩ ∧ s.child = ⟨N, false⟩

/-- While a process is in its loop, one of the two can go on without a failed read. When the
parent waits for a byte in `p`, every byte the child wrote is taken, so the child is no further
than the parent, and then the byte of this round is still in `fd` or the child has it. -/
theorem balance_moves {N : Nat} {s : State cap} (hcap : N ≤ cap) (hb : Balance N s)
    (hf : ¬ Finished N s) : ∃ who s', step N s ⟨who, false⟩ = .ok s' := by
  obtain ⟨b1, b2, b3, b4, b5, b6⟩ := hb
  obtain ⟨fd, p, ⟨i, second⟩, ⟨j, second'⟩, done⟩ := s
  have hwrite : ∀ b : Buffer cap, b.bytes.length < cap → ∃ b', b.write send = .ok b' :=
    fun b h => ⟨⟨b.bytes ++ [send], by simpa using Nat.succ_le_of_lt h⟩, write_ok.mpr ⟨h, rfl⟩⟩
  have hread : ∀ b : Buffer cap, 0 < b.bytes.length → ∃ c b', b.read = .ok (c, b') := by
    rintro ⟨_ | ⟨c, rest⟩, hfit⟩ h
    · simp at h
    · exact ⟨c, _, rfl⟩
  by_cases hi : i < N
  · cases second with
    | false =>
      rw [begun_first rfl] at b1 b2 b5
      obtain ⟨b, hw⟩ := hwrite fd (by simp only at b2; omega)
      exact ⟨.parent, _, step_of_moved (.parentWrites b hi rfl hw)⟩
    | true =>
      rw [begun_second rfl] at b1 b2 b5
      by_cases hp : 0 < p.bytes.length
      · obtain ⟨c, b, hr⟩ := hread p hp
        exact ⟨.parent, _, step_of_moved (.parentReads c b hi rfl hr)⟩
      · cases second' with
        | false =>
          rw [begun_first rfl] at b1 b6
          simp only at b1 b3
          obtain ⟨c, b, hr⟩ := hread fd (by omega)
          exact ⟨.child, _, step_of_moved (.childReads c b (by simp only; omega) rfl hr)⟩
        | true =>
          rw [begun_second rfl] at b1 b6
          simp only at b3 b4 b6
          obtain ⟨b, hw⟩ := hwrite p (by omega)
          exact ⟨.child, _, step_of_moved (.childWrites b (by simp only; omega) rfl hw)⟩
  · cases second with
    | true =>
      rw [begun_second rfl] at b5
      simp only at b5
      omega
    | false =>
      rw [begun_first rfl] at b1 b2 b5
      have hiN : i = N := by simp only at b5; omega
      subst hiN
      cases second' with
      | false =>
        rw [begun_first rfl] at b1 b6
        have hj : j ≠ i := fun he => hf ⟨rfl, by rw [he]⟩
        simp only at b1 b6
        obtain ⟨c, b, hr⟩ := hread fd (by omega)
        exact ⟨.child, _, step_of_moved (.childReads c b (by simp only; omega) rfl hr)⟩
      | true =>
        rw [begun_second rfl] at b1 b6
        simp only at b4 b6
        obtain ⟨b, hw⟩ := hwrite p (by omega)
        exact ⟨.child, _, step_of_moved (.childWrites b (by simp only; omega) rfl hw)⟩

/-! ## Every run is short -/

/-- The statements that one loop still has to pass: two for each round. -/
def Loop.stepsLeft (N : Nat) (l : Loop) : Nat := 2 * N - (l.i + l.begun)

def stepsLeft (N : Nat) (s : State cap) : Nat := s.parent.stepsLeft N + s.child.stepsLeft N

theorem loop_stepsLeft {N : Nat} {l : Loop} (l' : Loop) (hi : l.i < N)
    (h : l'.i + l'.begun = l.i + l.begun + 1) : l'.stepsLeft N + 1 = l.stepsLeft N := by
  unfold Loop.stepsLeft
  rcases hs : l.second with _ | _
  · rw [begun_first hs] at *
    omega
  · rw [begun_second hs] at *
    omega

/-- Each statement passed is one of the statements left. -/
theorem stepsLeft_step {N : Nat} (s : State cap) (t : Turn) (s' : State cap)
    (h : step N s t = .ok s') : stepsLeft N s' + 1 = stepsLeft N s := by
  unfold stepsLeft
  cases moved_of_step h with
  | parentWrites b hi hs hw =>
    have := loop_stepsLeft ⟨s.parent.i, true⟩ hi (by simp [Loop.begun, hs]; omega)
    simp only at *
    omega
  | parentReads c b hi hs hr | parentReadFails hi hs =>
    have := loop_stepsLeft ⟨s.parent.i + 1, false⟩ hi (by simp [Loop.begun, hs]; omega)
    simp only at *
    omega
  | childReads c b hi hs hr | childReadFails hi hs =>
    have := loop_stepsLeft ⟨s.child.i, true⟩ hi (by simp [Loop.begun, hs]; omega)
    simp only at *
    omega
  | childWrites b hi hs hw =>
    have := loop_stepsLeft ⟨s.child.i + 1, false⟩ hi (by simp [Loop.begun, hs]; omega)
    simp only at *
    omega

theorem stepsLeft_start (N : Nat) : stepsLeft N (start cap) = 4 * N := by
  simp only [stepsLeft, Loop.stepsLeft, start, Loop.begun]
  simp
  omega

/-! ## The law -/

/-- For every number of rounds, every schedule and every pattern of failed reads: while a process
is in its loop, one of the two can take a step that is no failed read; a run has at most `4 * N`
steps; and a run that cannot go on has both loops at their end, after exactly `4 * N` steps. -/
theorem the_ping_pong_cannot_deadlock (N : Nat) (hcap : N ≤ cap) (ts : List Turn) (s : State cap)
    (h : run (step N) (start cap) ts = .ok s) :
    (¬ Finished N s → ∃ who s', step N s ⟨who, false⟩ = .ok s') ∧
      ts.length ≤ 4 * N ∧
      (Stuck (step N) s → Finished N s ∧ ts.length = 4 * N) := by
  have hb := balance_run h
  have hlen := run_length stepsLeft_step h
  rw [stepsLeft_start] at hlen
  refine ⟨balance_moves hcap hb, by omega, fun hstuck => ?_⟩
  have hfin : Finished N s := by
    by_contra hf
    obtain ⟨who, s', hs⟩ := balance_moves hcap hb hf
    exact hstuck _ s' hs
  refine ⟨hfin, ?_⟩
  have hleft : stepsLeft N s = 0 := by
    simp only [stepsLeft, Loop.stepsLeft, hfin.1, hfin.2, Loop.begun]
    simp
    omega
  omega

/-- One round in which the read of the child fails: the byte stays in `fd`. -/
def driftedRound : State 1 where
  fd := ⟨[send], Nat.le_refl 1⟩
  p := Buffer.empty 1
  parent := ⟨1, false⟩
  child := ⟨1, false⟩
  done := [(.parent, .write .fd), (.child, .write .p), (.parent, .read .p)]

/-- The turns of that round. -/
def driftedTurns : List Turn := [⟨.child, true⟩, ⟨.parent, false⟩, ⟨.child, false⟩, ⟨.parent, false⟩]

/-- The run has all its four steps, none is left, and both loops are at their end. -/
theorem the_ping_pong_ends_after_a_failed_read :
    ∃ s, run (step 1) (start 1) driftedTurns = .ok s ∧ Stuck (step 1) s ∧ Finished 1 s ∧
      driftedTurns.length = 4 * 1 := by
  have hrun : run (step 1) (start 1) driftedTurns = .ok driftedRound := rfl
  have hstuck : Stuck (step 1) driftedRound := by
    rintro ⟨who, fails⟩ s' h
    cases who <;> cases h
  obtain ⟨-, -, hend⟩ := the_ping_pong_cannot_deadlock 1 (by decide) driftedTurns driftedRound hrun
  exact ⟨driftedRound, hrun, hstuck, hend hstuck⟩

end linuxc.fork
