-- The books of a way that bytes, or anything else that can be counted, travel:
-- they are written into a queue, go from the queue onto a wire, and are read
-- from the wire. Nothing is made up on the way, and on a clean way nothing is
-- lost.

namespace legs

/-- How many were written, are in the queue, are on the wire, and were read. -/
structure Leg where
  written : Nat
  queued : Nat
  wire : Nat
  read : Nat
  deriving DecidableEq, Repr

/-- What can happen to a leg. A writer writes and hands over to the wire, a reader reads, and the
wire loses something. On a clean leg nothing is lost in either queue. -/
inductive Leg.Step (clean : Prop) : Leg → Leg → Prop
  | stays (l : Leg) : Step clean l l
  | writes (l : Leg) (written queued n : Nat)
      (hle : queued + n + l.written ≤ l.queued + written)
      (heq : clean → queued + n + l.written = l.queued + written) :
      Step clean l ⟨written, queued, l.wire + n, l.read⟩
  | reads (l : Leg) (wire n : Nat) (hn : l.wire = n + wire) :
      Step clean l ⟨l.written, l.queued, wire, l.read + n⟩
  | loses (l : Leg) (wire : Nat) (hle : wire ≤ l.wire) (hlost : ¬ clean) :
      Step clean l ⟨l.written, l.queued, wire, l.read⟩

/-- What was read, is on the wire or is in the queue was written, and on a clean leg that is
everything that was written. -/
structure Leg.Balanced (clean : Prop) (l : Leg) : Prop where
  le : l.read + l.wire + l.queued ≤ l.written
  eq : clean → l.read + l.wire + l.queued = l.written

variable {clean clean' : Prop} {l l' m : Leg}

/-- A leg that was not clean does not become clean again. -/
theorem Leg.Balanced.step (hb : l.Balanced clean) (hclean : clean' → clean)
    (h : Leg.Step clean' l l') : l'.Balanced clean' := by
  have hle := hb.le
  cases h with
  | stays => exact ⟨hle, fun hc => hb.eq (hclean hc)⟩
  | writes written queued n hwrite heq =>
    refine ⟨by simp only; omega, fun hc => ?_⟩
    have := hb.eq (hclean hc)
    have := heq hc
    simp only
    omega
  | reads wire n hn =>
    refine ⟨by simp only; omega, fun hc => ?_⟩
    have := hb.eq (hclean hc)
    simp only
    omega
  | loses wire hwire hlost => exact ⟨by simp only; omega, fun hc => absurd hc hlost⟩

/-- Two legs in a row: what is read at the end of the first is written into the second. -/
theorem Leg.Balanced.join (hl : l.Balanced clean) (hm : m.Balanced clean)
    (hjoin : m.written = l.read) :
    m.read ≤ l.read ∧ l.read ≤ l.written ∧
      (clean → l.written = m.read + (l.queued + l.wire + (m.queued + m.wire))) := by
  have h1 := hl.le
  have h2 := hm.le
  refine ⟨by omega, by omega, fun hc => ?_⟩
  have h3 := hl.eq hc
  have h4 := hm.eq hc
  omega

end legs
