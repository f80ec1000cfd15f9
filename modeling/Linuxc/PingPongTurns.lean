-- The ping-pong of fork.c takes turns. When no read fails, the one byte that
-- is under way says which of the two processes can move, so every run is a
-- prefix of one and the same sequence of pipe operations.
import Linuxc.PingPong

namespace linuxc.fork

open event_runs

variable {cap : Nat}

/-! ## The sequence of turns -/

/-- One round: the byte goes to the child and comes back. -/
def lap : List (Proc × Op) :=
  [(.parent, .write .fd), (.child, .read .fd), (.child, .write .p), (.parent, .read .p)]

/-- `N` rounds. -/
def laps (N : Nat) : List (Proc × Op) := (List.replicate N lap).flatten

theorem laps_succ (N : Nat) : laps (N + 1) = lap ++ laps N := by
  simp [laps, List.replicate_succ]

theorem laps_length (N : Nat) : (laps N).length = 4 * N := by
  induction N with
  | zero => rfl
  | succ N ih => rw [laps_succ, List.length_append, ih]; simp [lap]; omega

/-- The operation at each place of the sequence is the one of its round. -/
theorem laps_get (N q r : Nat) (hr : r < 4) (hq : q < N) : (laps N)[4 * q + r]? = lap[r]? := by
  induction N generalizing q with
  | zero => omega
  | succ N ih =>
    rw [laps_succ]
    rcases q with _ | q
    · rw [List.getElem?_append_left (by simp [lap]; omega)]
      simp
    · rw [List.getElem?_append_right (by simp [lap]; omega)]
      have hplace : 4 * (q + 1) + r - lap.length = 4 * q + r := by simp [lap]; omega
      rw [hplace, ih q (by omega)]

theorem laps_take_succ {N q r : Nat} {x : Proc × Op} (hr : r < 4) (hq : q < N)
    (hx : lap[r]? = some x) : (laps N).take (4 * q + r + 1) = (laps N).take (4 * q + r) ++ [x] := by
  rw [List.take_add_one, laps_get N q r hr hq, hx]
  rfl

theorem laps_count (N : Nat) (x : Proc × Op) (hx : lap.count x = 1) : (laps N).count x = N := by
  induction N with
  | zero => rfl
  | succ N ih => rw [laps_succ, List.count_append, ih, hx]; omega

/-! ## Where the byte is -/

/-- The state after `q` whole rounds and `r` operations of the next one. -/
inductive AtTurn (N : Nat) (s : State cap) (q : Nat) : Nat → Prop
  | atParent (hp : s.parent = ⟨q, false⟩) (hc : s.child = ⟨q, false⟩)
      (hfd : s.fd.bytes = []) (hback : s.p.bytes = [])
      (hdone : s.done = (laps N).take (4 * q)) (hq : q ≤ N) : AtTurn N s q 0
  | inFd (hp : s.parent = ⟨q, true⟩) (hc : s.child = ⟨q, false⟩)
      (hfd : s.fd.bytes = [send]) (hback : s.p.bytes = [])
      (hdone : s.done = (laps N).take (4 * q + 1)) (hq : q < N) : AtTurn N s q 1
  | atChild (hp : s.parent = ⟨q, true⟩) (hc : s.child = ⟨q, true⟩)
      (hfd : s.fd.bytes = []) (hback : s.p.bytes = [])
      (hdone : s.done = (laps N).take (4 * q + 2)) (hq : q < N) : AtTurn N s q 2
  | inP (hp : s.parent = ⟨q, true⟩) (hc : s.child = ⟨q + 1, false⟩)
      (hfd : s.fd.bytes = []) (hback : s.p.bytes = [send])
      (hdone : s.done = (laps N).take (4 * q + 3)) (hq : q < N) : AtTurn N s q 3

theorem atTurn_start (N : Nat) : AtTurn N (start cap) 0 0 :=
  .atParent rfl rfl rfl rfl rfl (Nat.zero_le N)

theorem empty_read {b b' : Buffer cap} {c : Char} (hb : b.bytes = []) : b.read ≠ .ok (c, b') := by
  rw [Ne, read_ok, hb]
  exact (List.cons_ne_nil _ _).symm

theorem single_read {b b' : Buffer cap} {c : Char} (hb : b.bytes = [send])
    (h : b.read = .ok (c, b')) : b'.bytes = [] := by
  rw [read_ok, hb] at h
  exact (List.cons.inj h).2.symm

theorem empty_write {b b' : Buffer cap} (hb : b.bytes = []) (h : b.write send = .ok b') :
    b'.bytes = [send] := by
  rw [(write_ok.mp h).2, hb]
  rfl

/-- In every state of a turn only the process that the byte is with can move, and it moves the
byte on. -/
theorem atTurn_step {N q r : Nat} {s s' : State cap} {t : Turn} (hs : AtTurn N s q r)
    (ht : t.fails = false) (h : step N s t = .ok s') :
    ∃ q' r', AtTurn N s' q' r' := by
  cases hs with
  | atParent hp hc hfd hback hdone hq =>
    cases moved_of_step h with
    | parentWrites b hi hsec hw =>
      have hq' : q < N := by simpa [hp] using hi
      refine ⟨q, 1, .inFd (by rw [hp]) hc (empty_write hfd hw) hback ?_ hq'⟩
      exact hdone ▸ (laps_take_succ (r := 0) (by omega) hq' rfl).symm
    | parentReads c b hi hsec hr => rw [hp] at hsec; cases hsec
    | childReads c b hi hsec hr => exact absurd hr (empty_read hfd)
    | childWrites b hi hsec hw => rw [hc] at hsec; cases hsec
    | parentReadFails | childReadFails => cases ht
  | inFd hp hc hfd hback hdone hq =>
    cases moved_of_step h with
    | parentWrites b hi hsec hw => rw [hp] at hsec; cases hsec
    | parentReads c b hi hsec hr => exact absurd hr (empty_read hback)
    | childReads c b hi hsec hr =>
      refine ⟨q, 2, .atChild hp (by rw [hc]) (single_read hfd hr) hback ?_ hq⟩
      exact hdone ▸ (laps_take_succ (r := 1) (by omega) hq rfl).symm
    | childWrites b hi hsec hw => rw [hc] at hsec; cases hsec
    | parentReadFails | childReadFails => cases ht
  | atChild hp hc hfd hback hdone hq =>
    cases moved_of_step h with
    | parentWrites b hi hsec hw => rw [hp] at hsec; cases hsec
    | parentReads c b hi hsec hr => exact absurd hr (empty_read hback)
    | childReads c b hi hsec hr => rw [hc] at hsec; cases hsec
    | childWrites b hi hsec hw =>
      refine ⟨q, 3, .inP hp (by rw [hc]) hfd (empty_write hback hw) ?_ hq⟩
      exact hdone ▸ (laps_take_succ (r := 2) (by omega) hq rfl).symm
    | parentReadFails | childReadFails => cases ht
  | inP hp hc hfd hback hdone hq =>
    cases moved_of_step h with
    | parentWrites b hi hsec hw => rw [hp] at hsec; cases hsec
    | parentReads c b hi hsec hr =>
      refine ⟨q + 1, 0, .atParent (by rw [hp]) hc hfd (single_read hback hr) ?_ hq⟩
      exact hdone ▸ (laps_take_succ (r := 3) (by omega) hq rfl).symm
    | childReads c b hi hsec hr => exact absurd hr (empty_read hfd)
    | childWrites b hi hsec hw => rw [hc] at hsec; cases hsec
    | parentReadFails | childReadFails => cases ht

theorem atTurn_run {N : Nat} {s : State cap} {ts : List Turn} (hts : ∀ t ∈ ts, t.fails = false)
    (h : run (step N) (start cap) ts = .ok s) : ∃ q r, AtTurn N s q r := by
  refine run_invariant (P := fun ts s => (∀ t ∈ ts, t.fails = false) → ∃ q r, AtTurn N s q r)
    (fun _ => ⟨0, 0, atTurn_start N⟩) ?_ h hts
  intro ts s t s' ih hstep hall
  obtain ⟨q, r, hs⟩ := ih fun u hu => hall u (List.mem_append_left _ hu)
  exact atTurn_step hs (hall t (by simp)) hstep

/-! ## The laws -/

/-- The operations of the child in the first `N` rounds: it reads and writes once in each. -/
theorem laps_child (N : Nat) :
    (laps N).count (.child, .read .fd) = N ∧ (laps N).count (.child, .write .p) = N :=
  ⟨laps_count N _ rfl, laps_count N _ rfl⟩

theorem take_prefix_of_atTurn {N q r : Nat} {s : State cap} (hs : AtTurn N s q r) :
    s.done <+: laps N := by
  cases hs with
  | atParent _ _ _ _ hdone | inFd _ _ _ _ hdone | atChild _ _ _ _ hdone | inP _ _ _ _ hdone =>
    rw [hdone]
    exact List.take_prefix _ _

/-- For every number of rounds, every capacity and every schedule in which no read fails: the
operations done are a prefix of the `N` rounds; the two pipes hold one byte at most between
them; the two loop counters differ by one at most; and when the parent has left its last read
behind, the child has read `N` times and written `N` times and both pipes are empty. -/
theorem the_ping_pong_takes_turns (N : Nat) (ts : List Turn) (s : State cap)
    (hts : ∀ t ∈ ts, t.fails = false) (h : run (step N) (start cap) ts = .ok s) :
    s.done <+: laps N ∧
      s.fd.bytes.length + s.p.bytes.length ≤ 1 ∧
      s.parent.i ≤ s.child.i + 1 ∧ s.child.i ≤ s.parent.i + 1 ∧
      (s.parent.i = N →
        s.done.count (.child, .read .fd) = N ∧ s.done.count (.child, .write .p) = N ∧
          s.fd.bytes = [] ∧ s.p.bytes = []) := by
  obtain ⟨q, r, hs⟩ := atTurn_run hts h
  refine ⟨take_prefix_of_atTurn hs, ?_⟩
  cases hs with
  | atParent hp hc hfd hback hdone hq =>
    simp only [hp, hc, hfd, hback]
    refine ⟨by simp, by omega, by omega, ?_⟩
    rintro rfl
    rw [hdone, List.take_of_length_le (Nat.le_of_eq (laps_length q))]
    exact ⟨(laps_child q).1, (laps_child q).2, trivial, trivial⟩
  | inFd hp hc hfd hback hdone hq | atChild hp hc hfd hback hdone hq
  | inP hp hc hfd hback hdone hq =>
    simp only [hp, hc, hfd, hback]
    exact ⟨by simp, by omega, by omega, fun he => absurd he (by omega)⟩

/-- The state after the one round of a run with `N = 1`, in pipes of one byte. -/
def oneRound : State 1 where
  fd := Buffer.empty 1
  p := Buffer.empty 1
  parent := ⟨1, false⟩
  child := ⟨1, false⟩
  done := lap

/-- The turns of that run. -/
def oneTurns : List Turn := [⟨.parent, false⟩, ⟨.child, false⟩, ⟨.child, false⟩, ⟨.parent, false⟩]

theorem the_ping_pong_takes_its_turns_in_one_round :
    ∃ s, run (step 1) (start 1) oneTurns = .ok s ∧ s.done <+: laps 1 ∧
      s.fd.bytes.length + s.p.bytes.length ≤ 1 ∧
      s.parent.i ≤ s.child.i + 1 ∧ s.child.i ≤ s.parent.i + 1 ∧
      s.done.count (.child, .read .fd) = 1 ∧ s.done.count (.child, .write .p) = 1 ∧
      s.fd.bytes = [] ∧ s.p.bytes = [] := by
  have hrun : run (step 1) (start 1) oneTurns = .ok oneRound := rfl
  obtain ⟨hdone, hpipes, hparent, hchild, hend⟩ :=
    the_ping_pong_takes_turns 1 oneTurns oneRound (by decide) hrun
  exact ⟨oneRound, hrun, hdone, hpipes, hparent, hchild, hend rfl⟩

end linuxc.fork
