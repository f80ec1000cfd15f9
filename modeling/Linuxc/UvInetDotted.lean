-- The dotted form of IPv4 addresses: `inet_pton4` takes a text apart exactly as
-- `inet_ntop4` puts it together, so each address has one text and every other
-- text is refused.
import Linuxc.Numerals
import Linuxc.UvInet

namespace linuxc.inet

open event_runs numerals

/-! ## Bytes and tables -/

theorem digits_eq : digits = table 10 := by decide

theorem In4Addr.bytes_eq (a : In4Addr) : ∃ b₀ b₁ b₂ b₃, a.bytes = [b₀, b₁, b₂, b₃] := by
  obtain ⟨bytes, size⟩ := a
  match bytes, size with
  | [b₀, b₁, b₂, b₃], _ => exact ⟨b₀, b₁, b₂, b₃, rfl⟩

theorem In4Addr.ext_bytes {a a' : In4Addr} (h : a.bytes = a'.bytes) : a = a' := by
  cases a
  cases a'
  cases h
  rfl

theorem memcpy4_bytes (a : In4Addr) : memcpy4 a.bytes = .ok a := by
  simp [memcpy4, a.size]

theorem fmtU_length (b : UInt8) : (fmtU b.toNat).length ≤ 3 :=
  (Nat.length_toDigits_le_iff (by omega) (by omega)).mpr (by have := b.toNat_lt; omega)

theorem fmt_length (a : In4Addr) : 0 < (fmt a.bytes).length ∧ (fmt a.bytes).length ≤ 15 := by
  obtain ⟨b₀, b₁, b₂, b₃, h⟩ := a.bytes_eq
  have h₀ := fmtU_length b₀
  have h₁ := fmtU_length b₁
  have h₂ := fmtU_length b₂
  have h₃ := fmtU_length b₃
  rw [h]
  simp only [fmt, List.getD_cons_zero, List.getD_cons_succ, List.length_append, List.length_cons]
  omega

/-- The buffer is never too small for the text, only `size` is. -/
theorem inetNtop4.spec (a : In4Addr) (size : Nat) :
    inetNtop4 a size = if (fmt a.bytes).length < size then .ok (fmt a.bytes) else .error .ENOSPC := by
  obtain ⟨hpos, hlen⟩ := fmt_length a
  unfold inetNtop4 snprintf uvStrscpy UV__INET_ADDRSTRLEN
  by_cases h : (fmt a.bytes).length < size
  · rw [if_pos h, if_neg (by omega), List.take_take, List.take_of_length_le (by omega)]
  · rw [if_neg h, if_pos (by omega)]

/-! ## What is read was written -/

/-- The text that the octets so far stand for. -/
def Octets.said (o : Octets) : List Char :=
  o.tmp.flatMap (fun b => fmtU b.toNat ++ ['.']) ++ if o.saw_digit then fmtU o.tp.toNat else []

/-- What holds after a text has been read. -/
structure Octets.Reads (text : List Char) (o : Octets) : Prop where
  said : text = o.said
  count : o.octets = o.tmp.length + o.saw_digit.toNat
  room : o.tmp.length ≤ 3
  fresh : o.saw_digit = false → o.tp = 0

theorem reads_start : Octets.start.Reads [] where
  said := by simp [Octets.said, Octets.start]
  count := rfl
  room := by simp [Octets.start]
  fresh := fun _ => rfl

variable {o : Octets} {text : List Char}

/-- One more digit of an octet. -/
theorem reads_digit {d : Nat} (h : o.Reads text) (hd : d < 10) (hsaw : o.saw_digit = true)
    (htp : o.tp ≠ 0) (hfit : o.tp.toNat * 10 + d ≤ 255) :
    Octets.Reads (text ++ [d.digitChar]) { o with tp := .ofNat (o.tp.toNat * 10 + d) } := by
  have hpos : 0 < o.tp.toNat := Nat.pos_of_ne_zero fun h0 => htp (UInt8.toNat_inj.mp h0)
  have hval : (UInt8.ofNat (o.tp.toNat * 10 + d)).toNat = o.tp.toNat * 10 + d :=
    UInt8.toNat_ofNat_of_lt' (by simpa [UInt8.size] using Nat.lt_succ_of_le hfit)
  refine { h with said := ?_, fresh := fun hno => ?_ }
  · have hsaid := h.said
    simp only [Octets.said, hsaw, if_true] at hsaid
    simp only [Octets.said, hsaw, if_true, hval, hsaid, List.append_assoc, fmtU,
      toDigits_snoc (by omega : 1 < 10) hpos hd]
  · simp [hsaw] at hno

/-- The first digit of an octet. -/
theorem reads_first {d : Nat} (h : o.Reads text) (hd : d < 10) (hsaw : o.saw_digit = false) :
    Octets.Reads (text ++ [d.digitChar])
      { o with tp := .ofNat (o.tp.toNat * 10 + d), octets := o.octets + 1, saw_digit := true } := by
  have hval : (UInt8.ofNat d).toNat = d := UInt8.toNat_ofNat_of_lt' (by simp [UInt8.size]; omega)
  have hcount := h.count
  have hsaid := h.said
  simp only [hsaw, Bool.toNat_false, Nat.add_zero] at hcount
  simp only [Octets.said, hsaw, Bool.false_eq_true, if_false, List.append_nil] at hsaid
  refine ⟨?_, by simp [hcount], h.room, fun hno => by simp at hno⟩
  simp [Octets.said, hsaid, h.fresh hsaw, hval, fmtU, Nat.toDigits_of_lt_base hd]

/-- The dot after an octet. -/
theorem reads_dot (h : o.Reads text) (hsaw : o.saw_digit = true) (hoctets : o.octets ≠ 4) :
    Octets.Reads (text ++ ['.']) { o with tmp := o.tmp ++ [o.tp], tp := 0, saw_digit := false } := by
  have hcount := h.count
  have hsaid := h.said
  have hroom := h.room
  simp only [hsaw, Bool.toNat_true] at hcount
  simp only [Octets.said, hsaw, if_true] at hsaid
  refine ⟨?_, ?_, ?_, fun _ => rfl⟩
  · simp [Octets.said, hsaid]
  · simpa using hcount
  · simp only [List.length_append, List.length_singleton]
    omega

theorem Octets.next.spec {ch : Char} (h : o.Reads text) :
    Gives (· = .EINVAL) (o.next ch) (Octets.Reads (text ++ [ch])) := by
  unfold Octets.next strchr
  rw [digits_eq]
  split
  · next d hfound =>
    obtain ⟨hd, rfl⟩ := digit_of_found hfound
    dsimp only
    split
    · exact gives_error rfl
    · next hzero =>
      split
      · exact gives_error rfl
      · next hfit =>
        split
        · next hsaw =>
          exact gives_ok (reads_digit h hd hsaw (fun htp => hzero ⟨hsaw, htp⟩) (by omega))
        · next hsaw =>
          split
          · exact gives_error rfl
          · exact gives_ok (reads_first h hd (by simpa using hsaw))
  · split
    · next hdot =>
      obtain ⟨rfl, hsaw⟩ := hdot
      split
      · exact gives_error rfl
      · next hoctets => exact gives_ok (reads_dot h hsaw hoctets)
    · exact gives_error rfl

/-- Every text that is not the text of an address is refused with EINVAL. -/
theorem inetPton4.spec (s : List Char) :
    Gives (· = .EINVAL) (inetPton4 s) fun a => fmt a.bytes = s := by
  unfold inetPton4
  have hrun := run_gives (R := fun _ r => r = Err.EINVAL) (P := fun text o => Octets.Reads text o)
    reads_start (fun _ _ _ hr => hr) (fun _ o e ho => Octets.next.spec ho) s
  refine gives_bind hrun ?_
  rintro ⟨tmp, tp, saw_digit, octets⟩ ⟨hsaid, hcount, hroom, -⟩
  dsimp only at hcount hroom ⊢
  split
  · exact gives_error rfl
  · next hoctets =>
    have hsaw : saw_digit = true := by
      cases saw_digit with
      | true => rfl
      | false => simp only [Bool.toNat_false] at hcount; omega
    subst hsaw
    simp only [Bool.toNat_true] at hcount
    match tmp, (by omega : tmp.length = 3) with
    | [b₀, b₁, b₂], _ =>
      refine gives_of_ok (memcpy4_bytes ⟨[b₀, b₁, b₂, tp], rfl⟩) ?_
      simp [hsaid, Octets.said, fmt]

/-! ## What is written is read -/

/-- An octet is read from its digits. -/
theorem reads_octet (b : UInt8) (hsaw : o.saw_digit = false) (htp : o.tp = 0)
    (hoctets : o.octets < 4) :
    run Octets.next o (fmtU b.toNat) =
      .ok { o with tp := b, octets := o.octets + 1, saw_digit := true } := by
  have hgoal : b.toNat < 256 → run Octets.next o (fmtU b.toNat) =
      .ok { o with tp := .ofNat b.toNat, octets := o.octets + 1, saw_digit := true } := by
    refine digits_induction (P := fun n text => n < 256 → run Octets.next o text =
      .ok { o with tp := .ofNat n, octets := o.octets + 1, saw_digit := true }) (by omega) ?_ ?_ b.toNat
    · intro d hd _
      rw [run_singleton]
      simp only [Octets.next, strchr, digits_eq, found_digit (by omega : 10 ≤ 16) hd, hsaw, htp]
      simp only [Bool.false_eq_true, false_and, if_false, UInt8.toNat_zero, Nat.zero_mul, Nat.zero_add]
      rw [if_neg (by omega), if_neg (by omega)]
    · intro n d hn hd ih hlt
      have hval : (UInt8.ofNat n).toNat = n := UInt8.toNat_ofNat_of_lt' (by simp [UInt8.size]; omega)
      have hne : UInt8.ofNat n ≠ 0 := by
        intro h0
        rw [h0] at hval
        simp at hval
        omega
      rw [run_of_append (ih (by omega)), run_singleton]
      simp only [Octets.next, strchr, digits_eq, found_digit (by omega : 10 ≤ 16) hd, hval]
      simp [hne]
      omega
  rw [hgoal b.toNat_lt, UInt8.ofNat_toNat]

/-- An octet and the dot after it. -/
theorem reads_octet_dot (tmp : List UInt8) (octets : Nat) (b : UInt8) (rest : List Char)
    (hoctets : octets < 3) :
    run Octets.next ⟨tmp, 0, false, octets⟩ (fmtU b.toNat ++ '.' :: rest) =
      run Octets.next ⟨tmp ++ [b], 0, false, octets + 1⟩ rest := by
  rw [run_of_append (reads_octet b rfl rfl (by simp; omega)), run_cons]
  have hnone : strchr digits '.' = none := by decide
  have hne : octets + 1 ≠ 4 := by omega
  simp [Octets.next, hnone, hne, bind, Except.bind]

theorem inetPton4_fmt (a : In4Addr) : inetPton4 (fmt a.bytes) = .ok a := by
  obtain ⟨b₀, b₁, b₂, b₃, h⟩ := a.bytes_eq
  have hrun : run Octets.next Octets.start (fmt a.bytes) = .ok ⟨[b₀, b₁, b₂], b₃, true, 4⟩ := by
    rw [h]
    simp only [fmt, List.getD_cons_zero, List.getD_cons_succ, List.append_assoc, List.cons_append]
    unfold Octets.start
    rw [reads_octet_dot [] 0 b₀ _ (by omega), reads_octet_dot _ 1 b₁ _ (by omega),
      reads_octet_dot _ 2 b₂ _ (by omega), reads_octet b₃ rfl rfl (by simp)]
    rfl
  have hcopy : memcpy4 ([b₀, b₁, b₂] ++ [b₃]) = .ok a := by
    rw [← memcpy4_bytes a, h]
    rfl
  unfold inetPton4
  rw [hrun]
  exact hcopy

/-- A text is read exactly when it is the text of the address. -/
theorem inetPton4_ok_iff {s : List Char} {a : In4Addr} : inetPton4 s = .ok a ↔ fmt a.bytes = s := by
  constructor
  · intro h
    have hsaid := inetPton4.spec s
    rw [h] at hsaid
    exact hsaid
  · rintro rfl
    exact inetPton4_fmt a

theorem inetNtop4_whole (a : In4Addr) : inetNtop4 a UV__INET_ADDRSTRLEN = .ok (fmt a.bytes) := by
  have hlen := (fmt_length a).2
  rw [inetNtop4.spec]
  apply if_pos
  unfold UV__INET_ADDRSTRLEN
  omega

/-- What `uv_ip4_addr` accepts, `uv_ip4_name` gives back. -/
theorem uv_ip4_name_of_addr {ip : List Char} {port : Int} {addr : Sockaddr}
    (h : uvIp4Addr ip port = .ok addr) :
    uvIpName addr UV__INET_ADDRSTRLEN = .ok ip ∧ addr.sin_port = htons port := by
  unfold uvIp4Addr uvInetPton at h
  cases hread : inetPton4 ip with
  | error r =>
    simp only [hread] at h
    cases h
  | ok a =>
    simp only [hread] at h
    cases h
    refine ⟨?_, rfl⟩
    show inetNtop4 a UV__INET_ADDRSTRLEN = _
    rw [inetNtop4_whole, inetPton4_ok_iff.mp hread]

/-- `inet_pton4` accepts exactly what `inet_ntop4` writes, byte for byte: no octet has a leading zero or
is greater than 255, and there are four of them. Everything else is EINVAL, and what has been
written fits in UV__INET_ADDRSTRLEN. -/
theorem each_ipv4_address_has_one_text (s : List Char) :
    (∀ a, inetPton4 s = .ok a ↔ inetNtop4 a UV__INET_ADDRSTRLEN = .ok s) ∧
      ∀ r, inetPton4 s = .error r → r = .EINVAL := by
  constructor
  · intro a
    rw [inetPton4_ok_iff, inetNtop4_whole, Except.ok.injEq]
  · intro r h
    have hreason := inetPton4.spec s
    rw [h] at hreason
    exact hreason

end linuxc.inet
