-- The IPv4 format and what raw_socket2.c reads back from it: the addresses
-- always, the ports or the ICMP type and code of a first fragment, and the
-- same fields from the payload of a later fragment that has the bytes, since
-- nothing in the loop looks at the fragment offset.
import Linuxc.RawSocket

namespace linuxc.raw_socket2

open struct_layout

/-! ## Well-formed datagrams -/

def version (d : List UInt8) : Nat := (byteAt d 0).toNat / 16

/-- The header length in 32-bit words. -/
def ihl (d : List UInt8) : Nat := (byteAt d 0).toNat % 16

/-- The low 13 bits of the flags field, in units of 8 bytes. -/
def fragOffset (d : List UInt8) : Nat := (be16 d 6).toNat % 8192

/-- The size of the fixed header of the transport protocols that the loop knows. -/
def transportSize (p : UInt8) : Nat :=
  if p = IPPROTO_TCP then 20 else if p = IPPROTO_UDP ∨ p = IPPROTO_ICMP then 8 else 0

/-- An IPv4 datagram with its whole header, and with the whole fixed transport header when it is
a first fragment of TCP, UDP or ICMP. -/
structure WellFormed (d : List UInt8) : Prop where
  version_four : version d = 4
  ihl_low : 5 ≤ ihl d
  header : 4 * ihl d ≤ d.length
  transport : fragOffset d = 0 → 4 * ihl d + transportSize (proto d) ≤ d.length

theorem iplen_eq (d : List UInt8) : iplen d = 4 * ihl d := by
  have h : byteAt d (offsetOf IP_HEADER .h_verlen) &&& 0x0f = .ofNat (ihl d) := by
    rw [← UInt8.toNat_inj, UInt8.toNat_and, offset_h_verlen, UInt8.toNat_ofNat']
    simp only [ihl]
    have h15 : (byteAt d 0).toNat &&& 15 = (byteAt d 0).toNat % 16 :=
      Nat.and_two_pow_sub_one_eq_mod _ 4
    have hlit : (0x0f : UInt8).toNat = 15 := rfl
    rw [hlit, h15]
    omega
  unfold iplen
  rw [h, UInt8.toNat_ofNat']
  unfold ihl
  omega

/-! ## The lines of the fields -/

def Line.isAddress : Line → Bool
  | .sourceIP .. | .destIP .. => true
  | _ => false

/-- A line that shows a port, a type or a code. -/
def Line.isField : Line → Bool
  | .sourcePort _ | .destPort _ | .icmpType _ | .subCode _ => true
  | _ => false

/-- The two addresses of a datagram, as the loop should print them. -/
def addressLines (d : List UInt8) : List Line :=
  [.sourceIP (byteAt d 12) (byteAt d 13) (byteAt d 14) (byteAt d 15),
   .destIP (byteAt d 16) (byteAt d 17) (byteAt d 18) (byteAt d 19)]

/-- The fields of a transport header of protocol `p` that starts at `off`. -/
def fieldLines (p : UInt8) (mem : List UInt8) (off : Nat) : List Line :=
  if p = IPPROTO_TCP ∨ p = IPPROTO_UDP then [.sourcePort (be16 mem off), .destPort (be16 mem (off + 2))]
  else if p = IPPROTO_ICMP then [.icmpType (byteAt mem off), .subCode (byteAt mem (off + 1))]
  else []

variable (e : Endian)

theorem analyseIP_eq (mem : List UInt8) : analyseIP mem 0 = addressLines mem := by
  simp [analyseIP, addressLines]

theorem dispatch_fields (mem : List UInt8) :
    (dispatch e mem).filter Line.isField = fieldLines (proto mem) mem (iplen mem) ∧
      (dispatch e mem).filter Line.isAddress = [] := by
  unfold dispatch fieldLines
  by_cases h6 : proto mem = IPPROTO_TCP
  · rw [if_pos h6, if_pos (Or.inl h6), analyseTCP_eq]
    exact ⟨rfl, rfl⟩
  · by_cases h17 : proto mem = IPPROTO_UDP
    · rw [if_neg h6, if_pos h17, if_pos (Or.inr h17), analyseUDP_eq]
      exact ⟨rfl, rfl⟩
    · rw [if_neg h6, if_neg h17, if_neg (not_or.mpr ⟨h6, h17⟩)]
      by_cases h1 : proto mem = IPPROTO_ICMP
      · rw [if_pos h1, if_pos h1, analyseICMP_eq]
        exact ⟨rfl, rfl⟩
      · rw [if_neg h1, if_neg h1]
        split <;> exact ⟨rfl, rfl⟩

/-- Whatever the buffer holds, the loop prints the two addresses, and the fields of the transport
header that would start after the options. -/
theorem dissect_fields (mem : List UInt8) :
    (dissect e mem).filter Line.isAddress = addressLines mem ∧
      (dissect e mem).filter Line.isField = fieldLines (proto mem) mem (iplen mem) := by
  obtain ⟨hfield, haddr⟩ := dispatch_fields e mem
  unfold dissect
  rw [List.filter_append, List.filter_append, List.filter_append, List.filter_append, hfield, haddr,
    analyseIP_eq]
  exact ⟨rfl, by simp [addressLines, Line.isField]⟩

/-! ## The law -/

/-- What the dissector of a datagram should print: its addresses, and the fields of its transport
header when it carries one. -/
def Undone (lines : List Line) (d : List UInt8) : Prop :=
  lines.filter Line.isAddress = addressLines d ∧
    lines.filter Line.isField =
      if fragOffset d = 0 then fieldLines (proto d) d (4 * ihl d) else []

/-- How many bytes of a transport header the lines show. -/
def shownSize (p : UInt8) : Nat :=
  if p = IPPROTO_TCP ∨ p = IPPROTO_UDP then 4 else if p = IPPROTO_ICMP then 2 else 0

theorem shownSize_ports {p : UInt8} (h : p = IPPROTO_TCP ∨ p = IPPROTO_UDP) : shownSize p = 4 :=
  if_pos h

theorem shownSize_icmp : shownSize IPPROTO_ICMP = 2 := by decide

theorem shownSize_other {p : UInt8} (hports : ¬ (p = IPPROTO_TCP ∨ p = IPPROTO_UDP))
    (hicmp : p ≠ IPPROTO_ICMP) : shownSize p = 0 := by
  unfold shownSize
  rw [if_neg hports, if_neg hicmp]

theorem shownSize_le (p : UInt8) : shownSize p ≤ 4 := by
  unfold shownSize
  split
  · omega
  · split <;> omega

theorem shownSize_le_transportSize (p : UInt8) : shownSize p ≤ transportSize p := by
  unfold shownSize transportSize
  by_cases htcp : p = IPPROTO_TCP
  · rw [if_pos (Or.inl htcp), if_pos htcp]
    omega
  · rw [if_neg htcp]
    by_cases hudp : p = IPPROTO_UDP
    · rw [if_pos (Or.inr hudp), if_pos (Or.inl hudp)]
      omega
    · rw [if_neg (not_or.mpr ⟨htcp, hudp⟩)]
      split
      · rename_i hicmp
        rw [if_pos (Or.inr hicmp)]
        omega
      · omega

theorem fieldLines_congr {p : UInt8} {mem mem' : List UInt8} {off off' : Nat}
    (h : ∀ i < shownSize p, byteAt mem (off + i) = byteAt mem' (off' + i)) :
    fieldLines p mem off = fieldLines p mem' off' := by
  unfold fieldLines
  split
  · rename_i hp
    rw [shownSize_ports hp] at h
    obtain ⟨h1, h2⟩ := ports_congr h
    rw [h1, h2]
  · split
    · rename_i hp
      rw [hp, shownSize_icmp] at h
      have h0 := h 0 (by omega)
      have h1 := h 1 (by omega)
      simp only [Nat.add_zero] at h0
      rw [h0, h1]
    · rfl

/-- The header of a well-formed datagram stands in the buffer, whatever the buffer held. -/
theorem recv_header (buf : Buf) {d : List UInt8} (h : WellFormed d) :
    proto (recv buf d).2.bytes = proto d ∧ iplen (recv buf d).2.bytes = 4 * ihl d ∧
      addressLines (recv buf d).2.bytes = addressLines d := by
  have hlen : 20 ≤ d.length := by
    have := h.ihl_low
    have := h.header
    omega
  have hat : ∀ i < 20, byteAt (recv buf d).2.bytes i = byteAt d i := fun i hi =>
    recv_byteAt (by omega) (by simp only [BUF_SIZE]; omega)
  refine ⟨proto_congr (hat 9 (by omega)), ?_, by simp [addressLines, hat]⟩
  rw [iplen_congr (hat 0 (by omega)), iplen_eq]

/-- So do the bytes after the options that are shown, when the datagram has them. -/
theorem recv_transport (buf : Buf) {d : List UInt8}
    (hroom : 4 * ihl d + shownSize (proto d) ≤ d.length) :
    fieldLines (proto d) (recv buf d).2.bytes (4 * ihl d) = fieldLines (proto d) d (4 * ihl d) := by
  have hihl : ihl d < 16 := Nat.mod_lt _ (by omega)
  have hsize := shownSize_le (proto d)
  exact fieldLines_congr fun i hi => recv_byteAt (by omega) (by simp only [BUF_SIZE]; omega)

theorem WellFormed.shown {d : List UInt8} (h : WellFormed d) (hfirst : fragOffset d = 0) :
    4 * ihl d + shownSize (proto d) ≤ d.length := by
  have hroom := h.transport hfirst
  have hle := shownSize_le_transportSize (proto d)
  omega

/-- The lines of a well-formed datagram, from the bytes that stand in the buffer. -/
theorem dissect_received (buf : Buf) {d : List UInt8} (h : WellFormed d) :
    (dissect e (recv buf d).2.bytes).filter Line.isAddress = addressLines d ∧
      (dissect e (recv buf d).2.bytes).filter Line.isField =
        fieldLines (proto d) (recv buf d).2.bytes (4 * ihl d) := by
  obtain ⟨hproto, hiplen, haddr⟩ := recv_header buf h
  obtain ⟨hlines, hfields⟩ := dissect_fields e (recv buf d).2.bytes
  rw [hproto, hiplen] at hfields
  exact ⟨hlines.trans haddr, hfields⟩

/-- The lines of a well-formed datagram that has the bytes that are shown. -/
theorem dissect_shown (buf : Buf) {d : List UInt8} (h : WellFormed d)
    (hroom : 4 * ihl d + shownSize (proto d) ≤ d.length) :
    (dissect e (recv buf d).2.bytes).filter Line.isField = fieldLines (proto d) d (4 * ihl d) :=
  (dissect_received e buf h).2.trans (recv_transport buf hroom)

/-- For every well-formed datagram and whatever the buffer held: the addresses are those of the
header; of a first fragment, the fields are those of the transport header after the options; of
a later fragment, which has none, the loop prints the first bytes after the options as if they
were one, and nothing for a protocol that it does not know. -/
theorem the_dissector_undoes_the_encoding_of_first_fragments (buf : Buf) (d : List UInt8)
    (h : WellFormed d) :
    let lines := dissect e (recv buf d).2.bytes
    let off := 4 * ihl d
    lines.filter Line.isAddress = addressLines d ∧
      (fragOffset d = 0 → lines.filter Line.isField = fieldLines (proto d) d off) ∧
      (fragOffset d ≠ 0 →
        (proto d = IPPROTO_TCP ∨ proto d = IPPROTO_UDP → off + 4 ≤ d.length →
          lines.filter Line.isField = [.sourcePort (be16 d off), .destPort (be16 d (off + 2))]) ∧
        (proto d = IPPROTO_ICMP → off + 2 ≤ d.length →
          lines.filter Line.isField = [.icmpType (byteAt d off), .subCode (byteAt d (off + 1))]) ∧
        (¬ (proto d = IPPROTO_TCP ∨ proto d = IPPROTO_UDP) → proto d ≠ IPPROTO_ICMP →
          lines.filter Line.isField = [])) := by
  refine ⟨(dissect_received e buf h).1, fun hfirst => dissect_shown e buf h (h.shown hfirst),
    fun hlater => ⟨fun hports hroom => ?_, fun hicmp hroom => ?_, fun hports hicmp => ?_⟩⟩
  · rw [dissect_shown e buf h (by rw [shownSize_ports hports]; exact hroom), fieldLines, if_pos hports]
  · rw [dissect_shown e buf h (by rw [hicmp, shownSize_icmp]; exact hroom), fieldLines, hicmp]
    rfl
  · rw [dissect_shown e buf h (by rw [shownSize_other hports hicmp]; exact h.header), fieldLines,
      if_neg hports, if_neg hicmp]

/-- A UDP datagram from port 53 to port 4660 of ten payload bytes, with one word of options. -/
def dnsAnswer : List UInt8 :=
  [0x46, 0, 0, 34, 0, 1, 0, 0, 64, 17, 0, 0, 10, 0, 0, 1, 10, 0, 0, 2, 1, 1, 1, 1,
   0, 53, 0x12, 0x34, 0, 10, 0, 0, 104, 105]

theorem dnsAnswer_wellFormed : WellFormed dnsAnswer := by
  constructor <;> decide

/-- A later fragment of a UDP datagram, with the payload bytes `abcd`. -/
def laterFragment : List UInt8 :=
  [0x45, 0, 0, 24, 0, 1, 0, 185, 64, 17, 0, 0, 10, 0, 0, 1, 10, 0, 0, 2, 97, 98, 99, 100]

theorem laterFragment_wellFormed : WellFormed laterFragment := by
  constructor <;> decide

/-- The ports of the first are read from behind its options, and those of the second from its payload. -/
theorem the_dissector_undoes_a_dns_answer :
    (dissect .little (recv (Buf.fill 0) dnsAnswer).2.bytes).filter Line.isAddress =
        addressLines dnsAnswer ∧
      (dissect .little (recv (Buf.fill 0) dnsAnswer).2.bytes).filter Line.isField =
        [.sourcePort 53, .destPort 4660] ∧
      (dissect .little (recv (Buf.fill 0) laterFragment).2.bytes).filter Line.isField =
        [.sourcePort 0x6162, .destPort 0x6364] := by
  obtain ⟨haddr, hfirst, -⟩ := the_dissector_undoes_the_encoding_of_first_fragments .little
    (Buf.fill 0) dnsAnswer dnsAnswer_wellFormed
  obtain ⟨-, -, hlater⟩ := the_dissector_undoes_the_encoding_of_first_fragments .little
    (Buf.fill 0) laterFragment laterFragment_wellFormed
  refine ⟨haddr, (hfirst (by decide)).trans (by decide), ?_⟩
  exact ((hlater (by decide)).1 (by decide) (by decide)).trans (by decide)

/-- The loop prints the payload of a later fragment as ports. -/
theorem a_later_fragment_prints_payload_as_ports :
    WellFormed laterFragment ∧ fragOffset laterFragment = 185 ∧
      (dissect .little
        (recv (Buf.fill 0) laterFragment).2.bytes).filter
          Line.isField = [.sourcePort 0x6162, .destPort 0x6364] ∧
      ¬ ∀ (e : Endian) (buf : Buf) (d : List UInt8), WellFormed d →
        Undone (dissect e (recv buf d).2.bytes) d := by
  have hports : (dissect .little
      (recv (Buf.fill 0) laterFragment).2.bytes).filter
        Line.isField = [.sourcePort 0x6162, .destPort 0x6364] := by decide
  refine ⟨laterFragment_wellFormed, by decide, hports, fun h => ?_⟩
  have hnone := (h .little (Buf.fill 0) laterFragment laterFragment_wellFormed).2
  rw [hports, if_neg (by decide)] at hnone
  cases hnone

/-! ## The encoding -/

/-- An IPv4 address, first byte first. -/
structure Addr where
  a : UInt8
  b : UInt8
  c : UInt8
  d : UInt8
  deriving DecidableEq, Repr

def Addr.bytes (x : Addr) : List UInt8 := [x.a, x.b, x.c, x.d]

/-- The content of an IPv4 datagram. The options are whole words, ten at most. -/
structure Datagram where
  tos : UInt8
  totalLen : UInt16
  ident : UInt16
  flagsAndOffset : UInt16
  ttl : UInt8
  proto : UInt8
  checksum : UInt16
  src : Addr
  dst : Addr
  options : List UInt8
  payload : List UInt8
  words : options.length % 4 = 0
  room : options.length ≤ 40

/-- The first byte: version 4 and the header length. -/
def Datagram.verlen (p : Datagram) : UInt8 := .ofNat (64 + (5 + p.options.length / 4))

def Datagram.header (p : Datagram) : List UInt8 :=
  [p.verlen, p.tos] ++ bytes16 p.totalLen ++ bytes16 p.ident ++ bytes16 p.flagsAndOffset ++
    [p.ttl, p.proto] ++ bytes16 p.checksum ++ p.src.bytes ++ p.dst.bytes

def Datagram.encode (p : Datagram) : List UInt8 := p.header ++ p.options ++ p.payload

/-- A first fragment carries its whole fixed transport header. -/
def Datagram.Whole (p : Datagram) : Prop :=
  p.flagsAndOffset.toNat % 8192 = 0 → transportSize p.proto ≤ p.payload.length

theorem encode_ihl (p : Datagram) : version p.encode = 4 ∧ 4 * ihl p.encode = 20 + p.options.length := by
  have hroom := p.room
  have hwords := p.words
  have hverlen : (byteAt p.encode 0).toNat = 64 + (5 + p.options.length / 4) := by
    have hfirst : byteAt p.encode 0 = p.verlen := rfl
    rw [hfirst, Datagram.verlen, UInt8.toNat_ofNat']
    omega
  unfold version ihl
  rw [hverlen]
  omega

theorem encode_fragOffset (p : Datagram) : fragOffset p.encode = p.flagsAndOffset.toNat % 8192 := by
  have h : be16 p.encode 6 = p.flagsAndOffset :=
    (be16_congr rfl rfl).trans (be16_bytes16 p.flagsAndOffset [])
  rw [fragOffset, h]

theorem encode_length (p : Datagram) :
    p.encode.length = 20 + p.options.length + p.payload.length := by
  simp [Datagram.encode, Datagram.header, bytes16, Addr.bytes]
  omega

theorem encode_payload (p : Datagram) (i : Nat) :
    byteAt p.encode (4 * ihl p.encode + i) = byteAt p.payload i := by
  have hlen : (p.header ++ p.options).length = 20 + p.options.length := by
    simp [Datagram.header, bytes16, Addr.bytes]
    omega
  rw [(encode_ihl p).2, Datagram.encode, byteAt_append_right _ (by omega), hlen]
  congr 1
  omega

theorem encode_wellFormed {p : Datagram} (h : p.Whole) : WellFormed p.encode where
  version_four := (encode_ihl p).1
  ihl_low := by
    have := (encode_ihl p).2
    omega
  header := by
    rw [(encode_ihl p).2, encode_length]
    omega
  transport := by
    rw [encode_fragOffset, (encode_ihl p).2, encode_length]
    intro hfirst
    have hproto : proto p.encode = p.proto := by simp only [proto, offset_proto]; rfl
    have := h hfirst
    rw [hproto]
    omega

/-- The dissector prints the addresses of every datagram that is encoded, and the fields at the
start of the payload when it is a first fragment. -/
theorem the_dissector_reads_back_the_datagram (buf : Buf) {p : Datagram} (h : p.Whole) :
    let lines := dissect e (recv buf p.encode).2.bytes
    lines.filter Line.isAddress =
        [.sourceIP p.src.a p.src.b p.src.c p.src.d, .destIP p.dst.a p.dst.b p.dst.c p.dst.d] ∧
      (p.flagsAndOffset.toNat % 8192 = 0 →
        lines.filter Line.isField = fieldLines p.proto p.payload 0) := by
  have hwf := encode_wellFormed h
  obtain ⟨haddr, hfields⟩ := dissect_received e buf hwf
  refine ⟨haddr, fun hfirst => ?_⟩
  rw [← encode_fragOffset] at hfirst
  rw [hfields, recv_transport buf (hwf.shown hfirst)]
  have hproto : proto p.encode = p.proto := by simp only [proto, offset_proto]; rfl
  rw [hproto]
  refine fieldLines_congr fun i _ => ?_
  rw [encode_payload, Nat.zero_add]

/-- The content of a well-formed datagram. -/
def decode (d : List UInt8) (h : WellFormed d) : Datagram where
  tos := byteAt d 1
  totalLen := be16 d 2
  ident := be16 d 4
  flagsAndOffset := be16 d 6
  ttl := byteAt d 8
  proto := byteAt d 9
  checksum := be16 d 10
  src := ⟨byteAt d 12, byteAt d 13, byteAt d 14, byteAt d 15⟩
  dst := ⟨byteAt d 16, byteAt d 17, byteAt d 18, byteAt d 19⟩
  options := (d.drop 20).take (4 * ihl d - 20)
  payload := d.drop (4 * ihl d)
  words := by
    have := h.ihl_low
    have := h.header
    rw [List.length_take, List.length_drop]
    omega
  room := by
    have : ihl d < 16 := Nat.mod_lt _ (by omega)
    rw [List.length_take, List.length_drop]
    omega

/-- Every well-formed datagram is the encoding of its content, so the two say the same about
what a datagram is. -/
theorem encode_decode (d : List UInt8) (h : WellFormed d) : (decode d h).encode = d := by
  have hlow := h.ihl_low
  have hroom := h.header
  have hver : (byteAt d 0).toNat = 16 * version d + ihl d := by
    simp only [version, ihl]
    omega
  have hverlen : (decode d h).verlen = byteAt d 0 := by
    have hopt : (decode d h).options.length = 4 * ihl d - 20 := by
      simp only [decode, List.length_take, List.length_drop]
      omega
    rw [← UInt8.toNat_inj, Datagram.verlen, UInt8.toNat_ofNat', hopt]
    have := (byteAt d 0).toNat_lt
    have := h.version_four
    omega
  have hheader : (decode d h).header = d.take 20 := by
    rw [take_eq_map_byteAt (by omega), Datagram.header, hverlen]
    simp only [decode, bytes16_be16]
    rfl
  rw [Datagram.encode, hheader]
  have hopts : (decode d h).options = (d.drop 20).take (4 * ihl d - 20) := rfl
  have hpay : (decode d h).payload = (d.drop 20).drop (4 * ihl d - 20) := by
    rw [List.drop_drop]
    simp only [decode]
    congr 1
    omega
  rw [hopts, hpay, List.append_assoc, List.take_append_drop, List.take_append_drop]

end linuxc.raw_socket2
