-- The packet dump of raw_socket2.c. `recv` stores each datagram at the start
-- of one buffer that is never cleared, and the analyse functions print header
-- fields from it. No length is compared with the offsets that are read.
import Linuxc.StructLayout

namespace linuxc.raw_socket2

open struct_layout

/-! ## The headers -/

inductive IpField
  | h_verlen | tos | total_len | ident | frag_and_flags | ttl | proto | checksum | sourceIP | destIP
  deriving DecidableEq

def IP_HEADER : Layout IpField :=
  [(.h_verlen, .uchar), (.tos, .uchar), (.total_len, .ushort), (.ident, .ushort),
   (.frag_and_flags, .ushort), (.ttl, .uchar), (.proto, .uchar), (.checksum, .ushort),
   (.sourceIP, .uint), (.destIP, .uint)]

inductive UdpField
  | uh_sport | uh_dport | uh_len | uh_sum
  deriving DecidableEq

/-- The source gives the length and the checksum 32 bits each. Nothing reads them. -/
def UDP_HEADER : Layout UdpField :=
  [(.uh_sport, .ushort), (.uh_dport, .ushort), (.uh_len, .uint), (.uh_sum, .uint)]

inductive TcpField
  | th_sport | th_dport | th_seq | th_ack | th_lenres | th_flag | th_win | th_sum | th_urp
  deriving DecidableEq

def TCP_HEADER : Layout TcpField :=
  [(.th_sport, .ushort), (.th_dport, .ushort), (.th_seq, .uint), (.th_ack, .uint),
   (.th_lenres, .uchar), (.th_flag, .uchar), (.th_win, .ushort), (.th_sum, .ushort),
   (.th_urp, .ushort)]

inductive IcmpField
  | icmp_type | icmp_code | icmp_cksum | icmp_id | icmp_seq | icmp_timestamp
  deriving DecidableEq

def ICMP_HEADER : Layout IcmpField :=
  [(.icmp_type, .uchar), (.icmp_code, .uchar), (.icmp_cksum, .ushort), (.icmp_id, .ushort),
   (.icmp_seq, .ushort), (.icmp_timestamp, .ushort)]

def IPPROTO_ICMP : UInt8 := 1
def IPPROTO_IGMP : UInt8 := 2
def IPPROTO_TCP : UInt8 := 6
def IPPROTO_UDP : UInt8 := 17

/-! ## The buffer -/

def BUF_SIZE : Nat := 10240

/-- `char buf[10240]` of `main`. -/
structure Buf where
  bytes : List UInt8
  size : bytes.length = BUF_SIZE

/-- A buffer of one byte all over. -/
def Buf.fill (b : UInt8) : Buf := ⟨List.replicate BUF_SIZE b, List.length_replicate⟩

/-- `recv` stores the datagram at the start of the buffer, up to the size of the buffer, and
leaves the rest as it was. It returns how many bytes it stored. -/
def recv (buf : Buf) (d : List UInt8) : Nat × Buf :=
  (min d.length BUF_SIZE,
    { bytes := d.take BUF_SIZE ++ buf.bytes.drop d.length
      size := by simp only [List.length_append, List.length_take, List.length_drop, buf.size]; omega })

/-! ## The lines -/

/-- What one `printf` prints. -/
inductive Line
  | sourceIP (a b c d : UInt8)
  | destIP (a b c d : UInt8)
  | tcp
  | udp
  | icmp
  | sourcePort (port : UInt16)
  | destPort (port : UInt16)
  | icmpType (t : UInt8)
  | subCode (c : UInt8)
  | igmp
  | otherProtocol
  | blank
  | recvError
  | socketError
  deriving DecidableEq, Repr

/-- The four numbers of an address as `%u.%u.%u.%u` prints them. -/
def dotted (a b c d : UInt8) : String :=
  toString a.toNat ++ "." ++ toString b.toNat ++ "." ++ toString c.toNat ++ "." ++ toString d.toNat

def Line.text : Line → String
  | .sourceIP a b c d => "Source IP\t: " ++ dotted a b c d ++ "\n"
  | .destIP a b c d => "Destination IP\t: " ++ dotted a b c d ++ "\n"
  | .tcp => "TCP -----\n"
  | .udp => "UDP -----\n"
  | .icmp => "ICMP -----\n"
  | .sourcePort p => "Source port: " ++ toString p.toNat ++ "\n"
  | .destPort p => "Dest port: " ++ toString p.toNat ++ "\n"
  | .icmpType t => "type: " ++ toString t.toNat ++ "\n"
  | .subCode c => "sub code: " ++ toString c.toNat ++ "\n"
  | .igmp => "IGMP----\n"
  | .otherProtocol => "other protocol!\n"
  | .blank => "\n\n"
  | .recvError => "recv error!\n"
  | .socketError => "socket error!\n"

/-! ## The functions -/

/-- The addresses are printed byte by byte, in the order of memory. -/
def analyseIP (mem : List UInt8) (ip : Nat) : List Line :=
  let p := ip + offsetOf IP_HEADER .sourceIP
  let q := ip + offsetOf IP_HEADER .destIP
  [.sourceIP (byteAt mem p) (byteAt mem (p + 1)) (byteAt mem (p + 2)) (byteAt mem (p + 3)),
   .destIP (byteAt mem q) (byteAt mem (q + 1)) (byteAt mem (q + 2)) (byteAt mem (q + 3))]

variable (e : Endian)

def analyseTCP (mem : List UInt8) (tcp : Nat) : List Line :=
  [.tcp, .sourcePort (ntohs e (load16 e mem (tcp + offsetOf TCP_HEADER .th_sport))),
   .destPort (ntohs e (load16 e mem (tcp + offsetOf TCP_HEADER .th_dport)))]

def analyseUDP (mem : List UInt8) (udp : Nat) : List Line :=
  [.udp, .sourcePort (ntohs e (load16 e mem (udp + offsetOf UDP_HEADER .uh_sport))),
   .destPort (ntohs e (load16 e mem (udp + offsetOf UDP_HEADER .uh_dport)))]

def analyseICMP (mem : List UInt8) (icmp : Nat) : List Line :=
  [.icmp, .icmpType (byteAt mem (icmp + offsetOf ICMP_HEADER .icmp_type)),
   .subCode (byteAt mem (icmp + offsetOf ICMP_HEADER .icmp_code))]

/-- `(ip->h_verlen&0x0f)*4`. -/
def iplen (mem : List UInt8) : Nat := (byteAt mem (offsetOf IP_HEADER .h_verlen) &&& 0x0f).toNat * 4

def proto (mem : List UInt8) : UInt8 := byteAt mem (offsetOf IP_HEADER .proto)

/-- The dispatch on the protocol byte in the loop of `main`. -/
def dispatch (mem : List UInt8) : List Line :=
  if proto mem = IPPROTO_TCP then analyseTCP e mem (iplen mem)
  else if proto mem = IPPROTO_UDP then analyseUDP e mem (iplen mem)
  else if proto mem = IPPROTO_ICMP then analyseICMP mem (iplen mem)
  else if proto mem = IPPROTO_IGMP then [.igmp]
  else [.otherProtocol]

/-- What one turn of the loop prints for the datagram in the buffer. -/
def dissect (mem : List UInt8) : List Line := analyseIP mem 0 ++ dispatch e mem ++ [.blank]

/-- One result of `recv`: -1, or a datagram. An empty one makes `recv` return 0. -/
inductive Recv
  | failed
  | datagram (d : List UInt8)
  deriving DecidableEq, Repr

/-- The `while` loop, with the lines of each turn that printed some. An error ends the loop, and
a result of 0 is passed over. -/
def captureLoop : Buf → List Recv → List (List Line)
  | _, [] => []
  | _, .failed :: _ => [[.recvError]]
  | buf, .datagram d :: rest =>
    let (n, buf') := recv buf d
    if n = 0 then captureLoop buf' rest
    else dissect e buf'.bytes :: captureLoop buf' rest

/-- `main`: the lines and the exit code. `sock` says whether the socket opened. -/
def main (sock : Bool) (buf : Buf) (rs : List Recv) : List (List Line) × Int :=
  if sock then (captureLoop e buf rs, 0) else ([[.socketError]], 1)

/-! ## Where the functions read -/

@[simp] theorem offset_sourceIP : offsetOf IP_HEADER .sourceIP = 12 := by decide

@[simp] theorem offset_destIP : offsetOf IP_HEADER .destIP = 16 := by decide

@[simp] theorem offset_proto : offsetOf IP_HEADER .proto = 9 := by decide

@[simp] theorem offset_h_verlen : offsetOf IP_HEADER .h_verlen = 0 := by decide

@[simp] theorem offset_th : offsetOf TCP_HEADER .th_sport = 0 ∧ offsetOf TCP_HEADER .th_dport = 2 := by
  decide

@[simp] theorem offset_uh : offsetOf UDP_HEADER .uh_sport = 0 ∧ offsetOf UDP_HEADER .uh_dport = 2 := by
  decide

@[simp] theorem offset_icmp :
    offsetOf ICMP_HEADER .icmp_type = 0 ∧ offsetOf ICMP_HEADER .icmp_code = 1 := by decide

/-- The header length is 60 at most, so every offset that the loop reads is in the buffer. -/
theorem iplen_le (mem : List UInt8) : iplen mem ≤ 60 := by
  unfold iplen
  have h : (byteAt mem (offsetOf IP_HEADER .h_verlen) &&& 0x0f).toNat ≤ 15 := by
    rw [UInt8.toNat_and]
    exact Nat.and_le_right
  omega

theorem recv_bytes (buf : Buf) (d : List UInt8) :
    (recv buf d).2.bytes = d.take BUF_SIZE ++ buf.bytes.drop d.length := rfl

/-- A byte of the datagram stands in the buffer where it stands in the datagram. -/
theorem recv_byteAt {buf : Buf} {d : List UInt8} {i : Nat} (h : i < d.length) (hi : i < BUF_SIZE) :
    byteAt (recv buf d).2.bytes i = byteAt d i := by
  rw [recv_bytes, byteAt_append_left _ (by rw [List.length_take]; omega), byteAt_take hi]

/-- A byte past the datagram is the one that was there before. -/
theorem recv_byteAt_past {buf : Buf} {d : List UInt8} {i : Nat} (h : d.length ≤ i)
    (hd : d.length ≤ BUF_SIZE) : byteAt (recv buf d).2.bytes i = byteAt buf.bytes i := by
  rw [recv_bytes, List.take_of_length_le hd, byteAt_append_right _ h, byteAt_drop]
  congr 1
  omega

theorem analyseIP_congr {mem mem' : List UInt8} (hip : ∀ i < 20, byteAt mem i = byteAt mem' i) :
    analyseIP mem 0 = analyseIP mem' 0 := by
  simp [analyseIP, hip]

/-- Where `analyseTCP` and `analyseUDP` read the two ports of their header. -/
theorem ports_congr {mem mem' : List UInt8} {off off' : Nat}
    (h : ∀ i < 4, byteAt mem (off + i) = byteAt mem' (off' + i)) :
    be16 mem off = be16 mem' off' ∧ be16 mem (off + 2) = be16 mem' (off' + 2) :=
  ⟨be16_congr (h 0 (by omega)) (h 1 (by omega)), be16_congr (h 2 (by omega)) (h 3 (by omega))⟩

theorem analyseTCP_eq (mem : List UInt8) (off : Nat) :
    analyseTCP e mem off = [.tcp, .sourcePort (be16 mem off), .destPort (be16 mem (off + 2))] := by
  simp only [analyseTCP, ntohs_load16, offset_th, Nat.add_zero]

theorem analyseUDP_eq (mem : List UInt8) (off : Nat) :
    analyseUDP e mem off = [.udp, .sourcePort (be16 mem off), .destPort (be16 mem (off + 2))] := by
  simp only [analyseUDP, ntohs_load16, offset_uh, Nat.add_zero]

theorem analyseICMP_eq (mem : List UInt8) (off : Nat) :
    analyseICMP mem off = [.icmp, .icmpType (byteAt mem off), .subCode (byteAt mem (off + 1))] := by
  simp only [analyseICMP, offset_icmp, Nat.add_zero]

theorem proto_congr {mem mem' : List UInt8} (h : byteAt mem 9 = byteAt mem' 9) :
    proto mem = proto mem' := by
  simp only [proto, offset_proto, h]

theorem iplen_congr {mem mem' : List UInt8} (h : byteAt mem 0 = byteAt mem' 0) :
    iplen mem = iplen mem' := by
  simp only [iplen, offset_h_verlen, h]

/-- The loop prints the same for two buffers that agree on the bytes that it reads. -/
theorem dissect_congr {mem mem' : List UInt8} (hip : ∀ i < 20, byteAt mem i = byteAt mem' i)
    (hports : proto mem = IPPROTO_TCP ∨ proto mem = IPPROTO_UDP →
      ∀ i < 4, byteAt mem (iplen mem + i) = byteAt mem' (iplen mem + i))
    (hicmp : proto mem = IPPROTO_ICMP →
      ∀ i < 2, byteAt mem (iplen mem + i) = byteAt mem' (iplen mem + i)) :
    dissect e mem = dissect e mem' := by
  have hdispatch : dispatch e mem = dispatch e mem' := by
    unfold dispatch
    rw [← proto_congr (hip 9 (by omega)), ← iplen_congr (hip 0 (by omega))]
    split
    · rename_i h
      obtain ⟨h1, h2⟩ := ports_congr (hports (Or.inl h))
      rw [analyseTCP_eq, analyseTCP_eq, h1, h2]
    · split
      · rename_i h
        obtain ⟨h1, h2⟩ := ports_congr (hports (Or.inr h))
        rw [analyseUDP_eq, analyseUDP_eq, h1, h2]
      · split
        · rename_i h
          have h0 := hicmp h 0 (by omega)
          have h1 := hicmp h 1 (by omega)
          rw [analyseICMP_eq, analyseICMP_eq, ← h1, ← Nat.add_zero (iplen mem), h0]
        · rfl
  unfold dissect
  rw [hdispatch, analyseIP_congr hip]

end linuxc.raw_socket2
