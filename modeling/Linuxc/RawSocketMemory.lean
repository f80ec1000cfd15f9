-- What raw_socket2.c prints for a datagram and what it leaves of the earlier
-- ones. The lines of a datagram come from its own bytes exactly when it is
-- long enough for the fields that its own header makes the loop read.
import Linuxc.RawSocket

namespace linuxc.raw_socket2

open struct_layout

variable (e : Endian)

/-! ## The last lines of a run -/

/-- A datagram that `recv` returns whole, with at least one byte. -/
def Fits (d : List UInt8) : Prop := 1 ≤ d.length ∧ d.length ≤ BUF_SIZE

instance (d : List UInt8) : Decidable (Fits d) := inferInstanceAs (Decidable (_ ∧ _))

/-- The buffer after a sequence of datagrams. -/
def bufAfter (buf : Buf) (ds : List (List UInt8)) : Buf := ds.foldl (fun b d => (recv b d).2) buf

/-- The lines that the loop prints for `d` when it captures `ds` and then `d`. -/
def linesFor (buf : Buf) (ds : List (List UInt8)) (d : List UInt8) : Option (List Line) :=
  (captureLoop e buf ((ds ++ [d]).map .datagram)).getLast?

theorem captureLoop_datagrams (buf : Buf) (ds : List (List UInt8)) (hds : ∀ d ∈ ds, Fits d)
    (d : List UInt8) (hd : Fits d) :
    captureLoop e buf ((ds ++ [d]).map .datagram) =
      captureLoop e buf (ds.map .datagram) ++ [dissect e (recv (bufAfter buf ds) d).2.bytes] := by
  have hstep : ∀ (b : Buf) (x : List UInt8) (rest : List Recv), Fits x →
      captureLoop e b (.datagram x :: rest) =
        dissect e (recv b x).2.bytes :: captureLoop e (recv b x).2 rest := by
    intro b x rest hx
    have hn : (recv b x).1 ≠ 0 := by
      have := hx.1
      simp only [recv, BUF_SIZE]
      omega
    simp only [captureLoop, if_neg hn]
  induction ds generalizing buf with
  | nil => simpa [captureLoop, bufAfter] using hstep buf d [] hd
  | cons x xs ih =>
    have hx := hds x List.mem_cons_self
    simp only [List.cons_append, List.map_cons]
    rw [hstep buf x _ hx, hstep buf x _ hx, ih _ fun y hy => hds y (List.mem_cons_of_mem _ hy)]
    rfl

/-- The lines for the last datagram are those of the buffer that `recv` leaves. -/
theorem linesFor_eq (buf : Buf) (ds : List (List UInt8)) (hds : ∀ d ∈ ds, Fits d)
    (d : List UInt8) (hd : Fits d) :
    linesFor e buf ds d = some (dissect e (recv (bufAfter buf ds) d).2.bytes) := by
  rw [linesFor, captureLoop_datagrams e buf ds hds d hd, List.getLast?_concat]

/-! ## The bytes that the lines need -/

/-- The datagram holds every byte that its own protocol and header length make the loop read. -/
def Covers (d : List UInt8) : Prop :=
  20 ≤ d.length ∧
    (proto d = IPPROTO_TCP ∨ proto d = IPPROTO_UDP → iplen d + 4 ≤ d.length) ∧
    (proto d = IPPROTO_ICMP → iplen d + 2 ≤ d.length)

instance (d : List UInt8) : Decidable (Covers d) := inferInstanceAs (Decidable (_ ∧ _ ∧ _))

/-- A datagram that covers its fields prints the same from any buffer. -/
theorem dissect_covered (buf : Buf) {d : List UInt8} (hd : Fits d) (hc : Covers d) :
    dissect e (recv buf d).2.bytes = dissect e d := by
  obtain ⟨hip, hports, hicmp⟩ := hc
  have hat : ∀ i < d.length, byteAt d i = byteAt (recv buf d).2.bytes i := fun i hi =>
    (recv_byteAt hi (by have := hd.2; omega)).symm
  refine (dissect_congr e (fun i hi => hat i (by omega)) ?_ ?_).symm
  · intro hp i hi
    exact hat _ (by have := hports hp; omega)
  · intro hp i hi
    exact hat _ (by have := hicmp hp; omega)

theorem dissect_inj {mem mem' : List UInt8} (h : dissect e mem = dissect e mem') :
    analyseIP mem 0 = analyseIP mem' 0 ∧ dispatch e mem = dispatch e mem' := by
  unfold dissect at h
  rw [List.append_assoc, List.append_assoc] at h
  obtain ⟨haddr, hrest⟩ := List.append_inj h rfl
  exact ⟨haddr, List.append_cancel_right hrest⟩

/-- A byte that reads the same over a buffer of zeros and one of ones is a byte of the datagram. -/
theorem mem_of_same_byte {d : List UInt8} (hd : Fits d) {i : Nat} (hi : i < BUF_SIZE)
    (h : byteAt (recv (Buf.fill 0) d).2.bytes i = byteAt (recv (Buf.fill 1) d).2.bytes i) :
    i < d.length := by
  by_contra hlt
  rw [recv_byteAt_past (by omega) hd.2, recv_byteAt_past (by omega) hd.2] at h
  simp only [Buf.fill] at h
  rw [byteAt_replicate 0 hi, byteAt_replicate 1 hi] at h
  exact absurd h (by decide)

theorem last_byte_of_be16 {mem mem' : List UInt8} {off : Nat} (h : be16 mem off = be16 mem' off) :
    byteAt mem (off + 1) = byteAt mem' (off + 1) := by
  have hn := congrArg UInt16.toNat h
  rw [be16_toNat, be16_toNat] at hn
  have := (byteAt mem (off + 1)).toNat_lt
  have := (byteAt mem' (off + 1)).toNat_lt
  apply UInt8.toNat_inj.mp
  omega

/-- A datagram whose lines are the same over a buffer of zeros and over one of ones covers its
fields: the last byte of the last field printed is one of its own. -/
theorem covers_of_same {d : List UInt8} (hd : Fits d)
    (h : dissect e (recv (Buf.fill 0) d).2.bytes = dissect e (recv (Buf.fill 1) d).2.bytes) :
    Covers d := by
  obtain ⟨haddr, hdisp⟩ := dissect_inj e h
  have hip : 20 ≤ d.length := by
    have h19 : 19 < d.length := by
      refine mem_of_same_byte hd (by decide) ?_
      simp only [analyseIP, offset_sourceIP, offset_destIP, List.cons.injEq, Line.destIP.injEq] at haddr
      exact haddr.2.1.2.2.2
    omega
  have hat : ∀ (b : UInt8) (i : Nat), i < 20 → byteAt (recv (Buf.fill b) d).2.bytes i = byteAt d i :=
    fun b i hi => recv_byteAt (by omega) (by have := hd.2; omega)
  have hproto : ∀ b, proto (recv (Buf.fill b) d).2.bytes = proto d := fun b =>
    proto_congr (hat b 9 (by omega))
  have hlen : ∀ b, iplen (recv (Buf.fill b) d).2.bytes = iplen d := fun b =>
    iplen_congr (hat b 0 (by omega))
  have hroom : iplen d + 4 ≤ BUF_SIZE := by
    have := iplen_le d
    simp only [BUF_SIZE]
    omega
  unfold dispatch at hdisp
  rw [hproto, hproto, hlen, hlen] at hdisp
  refine ⟨hip, ?_, ?_⟩
  · intro hp
    have hport : be16 (recv (Buf.fill 0) d).2.bytes (iplen d + 2) =
        be16 (recv (Buf.fill 1) d).2.bytes (iplen d + 2) := by
      rcases hp with hp | hp
      · rw [if_pos hp, if_pos hp, analyseTCP_eq, analyseTCP_eq] at hdisp
        simp only [List.cons.injEq, Line.destPort.injEq] at hdisp
        exact hdisp.2.2.1
      · have hne : proto d ≠ IPPROTO_TCP := by rw [hp]; decide
        rw [if_neg hne, if_neg hne, if_pos hp, if_pos hp, analyseUDP_eq, analyseUDP_eq] at hdisp
        simp only [List.cons.injEq, Line.destPort.injEq] at hdisp
        exact hdisp.2.2.1
    have := mem_of_same_byte hd (by omega) (last_byte_of_be16 hport)
    omega
  · intro hp
    have h6 : proto d ≠ IPPROTO_TCP := by rw [hp]; decide
    have h17 : proto d ≠ IPPROTO_UDP := by rw [hp]; decide
    rw [if_neg h6, if_neg h6, if_neg h17, if_neg h17, if_pos hp, if_pos hp, analyseICMP_eq,
      analyseICMP_eq] at hdisp
    simp only [List.cons.injEq, Line.subCode.injEq] at hdisp
    have := mem_of_same_byte hd (by omega) hdisp.2.2.1
    omega

/-! ## The law -/

/-- The lines for a datagram are the same in every two runs that end with it, whatever was
captured before and whatever the buffer held at the start, if and only if the datagram covers
the fields that its own header makes the loop read. -/
theorem the_lines_come_from_the_datagram_iff_it_covers_them (d : List UInt8) (hd : Fits d) :
    (∀ (buf buf' : Buf) (ds ds' : List (List UInt8)), (∀ x ∈ ds, Fits x) → (∀ x ∈ ds', Fits x) →
      linesFor e buf ds d = linesFor e buf' ds' d) ↔ Covers d := by
  constructor
  · intro h
    have hsame := h (Buf.fill 0) (Buf.fill 1) [] [] (by simp) (by simp)
    rw [linesFor_eq e _ _ (by simp) d hd, linesFor_eq e _ _ (by simp) d hd] at hsame
    exact covers_of_same e hd (Option.some.inj hsame)
  · intro hc buf buf' ds ds' hds hds'
    rw [linesFor_eq e _ _ hds d hd, linesFor_eq e _ _ hds' d hd, dissect_covered e _ hd hc,
      dissect_covered e _ hd hc]

/-- A TCP datagram with one word of options and, after them, the two ports and nothing else. -/
def portsOnly : List UInt8 :=
  [0x46, 0, 0, 28, 0, 1, 0, 0, 64, 6, 0, 0, 10, 0, 0, 1, 10, 0, 0, 2, 1, 1, 1, 1, 0, 80, 0x12, 0x34]

/-- It covers its ports, so the lines for it are the same in every two runs that end with it. -/
theorem the_lines_of_a_header_with_ports_come_from_it :
    Covers portsOnly ∧
      ∀ (buf buf' : Buf) (ds ds' : List (List UInt8)), (∀ x ∈ ds, Fits x) → (∀ x ∈ ds', Fits x) →
        linesFor .little buf ds portsOnly = linesFor .little buf' ds' portsOnly := by
  have hcovers : Covers portsOnly := by decide
  exact ⟨hcovers,
    (the_lines_come_from_the_datagram_iff_it_covers_them .little portsOnly (by decide)).mpr hcovers⟩

/-- A header with no options and no payload, of protocol 0. -/
def bareHeader : List UInt8 :=
  [0x45, 0, 0, 20, 0, 0, 0, 0, 64, 0, 0, 0, 10, 0, 0, 1, 10, 0, 0, 2]

/-- A datagram of one byte prints the addresses of the datagram before it. -/
theorem a_short_datagram_prints_the_addresses_before_it :
    Fits [0x45] ∧ Fits bareHeader ∧
      linesFor .little (Buf.fill 0) [bareHeader] [0x45] =
        some [.sourceIP 10 0 0 1, .destIP 10 0 0 2, .otherProtocol, .blank] ∧
      linesFor .little (Buf.fill 0) [] [0x45] =
        some [.sourceIP 0 0 0 0, .destIP 0 0 0 0, .otherProtocol, .blank] ∧
      ¬ ∀ (e : Endian) (d : List UInt8) (buf buf' : Buf) (ds ds' : List (List UInt8)),
        Fits d → (∀ x ∈ ds, Fits x) → (∀ x ∈ ds', Fits x) →
          linesFor e buf ds d = linesFor e buf' ds' d := by
  have h1 : linesFor .little (Buf.fill 0) [bareHeader] [0x45] =
      some [.sourceIP 10 0 0 1, .destIP 10 0 0 2, .otherProtocol, .blank] := by decide
  have h2 : linesFor .little (Buf.fill 0) [] [0x45] =
      some [.sourceIP 0 0 0 0, .destIP 0 0 0 0, .otherProtocol, .blank] := by decide
  refine ⟨by decide, by decide, h1, h2, fun h => ?_⟩
  have hsame := h .little [0x45] (Buf.fill 0) (Buf.fill 0) [bareHeader] [] (by decide) (by decide)
    (by simp)
  rw [h1, h2] at hsame
  exact absurd hsame (by decide)

end linuxc.raw_socket2
