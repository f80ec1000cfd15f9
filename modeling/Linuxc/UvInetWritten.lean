-- The text that `inet_ntop6` writes: the loop that formats the words around the
-- run of zeros, in a buffer that is always large enough, and the way back
-- through `inet_pton6`.
import Linuxc.UvInetGrammar
import Linuxc.UvInetScan

namespace linuxc.inet

open event_runs numerals

variable {words : List Nat} {best : Zeros} {b k : Nat}

/-! ## Words -/

theorem word_eq (hi lo : UInt8) : 0 ||| hi.toNat <<< 8 ||| lo.toNat = hi.toNat * 256 + lo.toNat := by
  rw [Nat.zero_or, ← Nat.shiftLeft_add_eq_or_of_lt lo.toNat_lt, Nat.shiftLeft_eq]

theorem wordBytes_word (hi lo : UInt8) : wordBytes (hi.toNat * 256 + lo.toNat) = [hi, lo] := by
  have := lo.toNat_lt
  have hdiv : (hi.toNat * 256 + lo.toNat) / 256 = hi.toNat := by omega
  have hlow : UInt8.ofNat (hi.toNat * 256 + lo.toNat) = lo := by
    rw [← UInt8.toNat_inj, UInt8.toNat_ofNat']
    omega
  unfold wordBytes
  rw [hdiv, hlow, UInt8.ofNat_toNat]

/-- The words hold the bytes. -/
theorem words.spec (n : Nat) (bytes : List UInt8) (h : bytes.length = 2 * n) :
    (inet.words bytes).length = n ∧ (inet.words bytes).flatMap wordBytes = bytes ∧
      ∀ w ∈ inet.words bytes, w < 65536 := by
  induction n generalizing bytes with
  | zero =>
    rw [List.length_eq_zero_iff.mp h]
    simp [inet.words]
  | succ n ih =>
    match bytes, h with
    | hi :: lo :: rest, h =>
      obtain ⟨hlen, hbytes, hlt⟩ := ih rest (by simp at h; omega)
      have hhi := hi.toNat_lt
      have hlo := lo.toNat_lt
      rw [inet.words, word_eq]
      refine ⟨by simp [hlen], by simp [wordBytes_word, hbytes], fun w hw => ?_⟩
      rcases List.mem_cons.mp hw with rfl | hw
      · omega
      · exact hlt w hw

theorem fmtX_length {w : Nat} (h : w < 65536) : (fmtX w).length ≤ 4 :=
  (Nat.length_toDigits_le_iff (by omega) (by omega)).mpr (by simpa using h)

theorem isGroup_fmtX {w : Nat} (h : w < 65536) : IsGroup (fmtX w) where
  nonempty := Nat.toDigits_ne_nil
  short := fmtX_length h
  hex := by
    refine forall_toDigits (by omega) ?_ w
    intro d hd
    rw [xdigit_digitChar hd]
    rfl

theorem value_fmtX (w : Nat) : value xvalue 16 (fmtX w) = w := by
  refine value_toDigits (by omega) ?_ w
  intro d hd
  simp [xvalue, xdigit_digitChar hd]

/-! ## Rows of words -/

/-- Each word after a colon. -/
def colonWords (words : List Nat) : List Char := words.flatMap fun w => ':' :: fmtX w

/-- The words with a colon between each two. -/
def rowText : List Nat → List Char
  | [] => []
  | w :: words => fmtX w ++ colonWords words

theorem colonWords_cons (w : Nat) (words : List Nat) :
    colonWords (w :: words) = ':' :: rowText (w :: words) := by
  simp [colonWords, rowText]

theorem row_rowText {dots : Bool} {w : Nat} (hlt : ∀ v ∈ w :: words, v < 65536) :
    Row dots (rowText (w :: words)) ((w :: words).flatMap wordBytes) := by
  induction words generalizing w with
  | nil =>
    have hrow : Row dots (fmtX w) _ := .group (isGroup_fmtX (hlt w List.mem_cons_self))
    rw [value_fmtX] at hrow
    simpa [rowText, colonWords] using hrow
  | cons v words ih =>
    have hrest := ih fun u hu => hlt u (List.mem_cons_of_mem _ hu)
    have hrow := Row.cons (isGroup_fmtX (hlt w List.mem_cons_self)) hrest
    rw [value_fmtX] at hrow
    rw [rowText, colonWords_cons, List.flatMap_cons]
    exact hrow

theorem maybeRow_rowText {dots : Bool} (hlt : ∀ v ∈ words, v < 65536) :
    MaybeRow dots (rowText words) (words.flatMap wordBytes) := by
  cases words with
  | nil => exact .none
  | cons w words => exact .row (row_rowText hlt)

theorem colonWords_length (hlt : ∀ v ∈ words, v < 65536) :
    (colonWords words).length ≤ 5 * words.length := by
  induction words with
  | nil => simp [colonWords]
  | cons w words ih =>
    have hw := fmtX_length (hlt w List.mem_cons_self)
    have hrest := ih fun u hu => hlt u (List.mem_cons_of_mem _ hu)
    rw [colonWords, List.flatMap_cons, List.length_append, List.length_cons, List.length_cons]
    rw [colonWords] at hrest
    omega

theorem rowText_length (hlt : ∀ v ∈ words, v < 65536) :
    (rowText words).length ≤ 5 * words.length - 1 := by
  cases words with
  | nil => simp [rowText]
  | cons w words =>
    have h := colonWords_length hlt
    rw [colonWords_cons, List.length_cons] at h
    omega

theorem flatMap_wordBytes_length (words : List Nat) :
    (words.flatMap wordBytes).length = 2 * words.length := by
  induction words with
  | nil => rfl
  | cons w words ih =>
    rw [List.flatMap_cons, List.length_append, wordBytes_length, ih, List.length_cons]
    omega

theorem flatMap_wordBytes_zeros (k : Nat) :
    (List.replicate k 0).flatMap wordBytes = List.replicate (2 * k) 0 := by
  induction k with
  | zero => rfl
  | succ k ih =>
    rw [List.replicate_succ, List.flatMap_cons, ih, Nat.mul_succ, List.replicate_succ,
      List.replicate_succ]
    rfl

/-! ## The loop that formats -/

theorem put_ok {tmp : List Char} {ch : Char} (h : tmp.length < 46) : put tmp ch = .ok (tmp ++ [ch]) := by
  unfold put UV__INET6_ADDRSTRLEN
  rw [if_pos h]

theorem putX_ok {tmp : List Char} {w : Nat} (hw : w < 65536) (h : tmp.length + 4 < 46) :
    putX tmp w = .ok (tmp ++ fmtX w) := by
  have := fmtX_length hw
  unfold putX UV__INET6_ADDRSTRLEN
  rw [if_pos (by omega)]

variable {src : In6Addr} {tmp : List Char} {i : Nat}

/-- Word `i` is in the run. -/
def Zeros.covers (best : Zeros) (i : Nat) : Prop :=
  best.base ≠ -1 ∧ best.base ≤ i ∧ i < best.base + best.len

theorem format_covered {w : Nat} {rest : List Nat} (h : best.covers i) :
    format src best tmp i (w :: rest) =
      (if i = best.base then put tmp ':' else .ok tmp) >>= fun tmp =>
        format src best tmp (i + 1) rest := by
  unfold Zeros.covers at h
  rw [format, if_pos h]
  split <;> rfl

theorem format_out {w : Nat} {rest : List Nat} (h : ¬ best.covers i) :
    format src best tmp i (w :: rest) =
      (if i ≠ 0 then put tmp ':' else .ok tmp) >>= fun tmp =>
        if encapsulated best (inet.words src.bytes) i then
          inetNtop4 src.tail (UV__INET6_ADDRSTRLEN - tmp.length) >>= fun text => .ok (tmp ++ text)
        else putX tmp w >>= fun tmp => format src best tmp (i + 1) rest := by
  unfold Zeros.covers at h
  rw [format, if_neg h]
  by_cases hi : i ≠ 0
  · rw [if_pos hi, if_pos hi]
  · rw [if_neg hi, if_neg hi]

/-- The run is one colon. -/
theorem format_zeros (k : Nat) (rest : List Nat) (hin : ∀ j, i ≤ j → j < i + k → best.covers j)
    (hi : best.base < i) :
    format src best tmp i (List.replicate k 0 ++ rest) = format src best tmp (i + k) rest := by
  induction k generalizing i with
  | zero => rfl
  | succ k ih =>
    rw [List.replicate_succ, List.cons_append, format_covered (hin i (by omega) (by omega)),
      if_neg (by omega)]
    have hrest := ih (fun j hj hk => hin j (by omega) (by omega)) (by omega : best.base < (i + 1 : Nat))
    rw [Nat.add_assoc, Nat.add_comm 1] at hrest
    exact hrest

theorem format_run (k : Nat) (rest : List Nat) (hin : ∀ j, i ≤ j → j < i + (k + 1) → best.covers j)
    (hi : best.base = i) (hroom : tmp.length < 46) :
    format src best tmp i (List.replicate (k + 1) 0 ++ rest) =
      format src best (tmp ++ [':']) (i + (k + 1)) rest := by
  rw [List.replicate_succ, List.cons_append, format_covered (hin i (by omega) (by omega)),
    if_pos hi.symm, put_ok hroom]
  have hrest : format src best (tmp ++ [':']) (i + 1) (List.replicate k 0 ++ rest) =
      format src best (tmp ++ [':']) (i + 1 + k) rest :=
    format_zeros k rest (fun j hj hk => hin j (by omega) (by omega)) (by omega)
  rw [Nat.add_assoc, Nat.add_comm 1] at hrest
  exact hrest

/-- A word after a colon. -/
theorem format_word {w : Nat} {rest : List Nat} (hw : w < 65536) (hi : i ≠ 0) (hout : ¬ best.covers i)
    (henc : encapsulated best (inet.words src.bytes) i = false) (hroom : tmp.length + 5 < 46) :
    format src best tmp i (w :: rest) = format src best (tmp ++ ':' :: fmtX w) (i + 1) rest := by
  have hx : putX (tmp ++ [':']) w = .ok (tmp ++ [':'] ++ fmtX w) :=
    putX_ok hw (by rw [List.length_append, List.length_singleton]; omega)
  rw [format_out hout, if_pos hi, put_ok (by omega), henc]
  show (putX (tmp ++ [':']) w >>= fun tmp => format src best tmp (i + 1) rest) = _
  rw [hx, List.append_assoc]
  rfl

theorem format_first {w : Nat} {rest : List Nat} (hw : w < 65536) (hout : ¬ best.covers 0) :
    format src best [] 0 (w :: rest) = format src best (fmtX w) 1 rest := by
  have hx : putX [] w = .ok (fmtX w) := putX_ok hw (by simp)
  have henc : encapsulated best (inet.words src.bytes) 0 = false := by simp [encapsulated]
  rw [format_out hout, if_neg (by simp), henc]
  show (putX [] w >>= fun tmp => format src best tmp 1 rest) = _
  rw [hx]
  rfl

/-- Words outside of the run; at most five characters each keep within the buffer. -/
theorem format_words (seg rest : List Nat) (hlt : ∀ w ∈ seg, w < 65536) (hi : i ≠ 0)
    (hout : ∀ j, i ≤ j → j < i + seg.length →
      ¬ best.covers j ∧ encapsulated best (inet.words src.bytes) j = false)
    (hsize : i + seg.length ≤ 8) (hroom : tmp.length + 1 ≤ 5 * i) :
    format src best tmp i (seg ++ rest) =
      format src best (tmp ++ colonWords seg) (i + seg.length) rest := by
  induction seg generalizing i tmp with
  | nil => simp [colonWords]
  | cons w seg ih =>
    rw [List.length_cons] at hsize hout ⊢
    have hw := hlt w List.mem_cons_self
    have hhere := hout i (by omega) (by omega)
    have hx := fmtX_length hw
    rw [List.cons_append, format_word hw hi hhere.1 hhere.2 (by omega),
      ih (fun v hv => hlt v (List.mem_cons_of_mem _ hv)) (by omega)
        (fun j hj hk => hout j (by omega) (by omega)) (by omega)
        (by rw [List.length_append, List.length_cons]; omega)]
    rw [colonWords, colonWords, List.flatMap_cons, Nat.add_assoc, Nat.add_comm 1, List.append_assoc]

/-- The words up to the run. -/
theorem format_row (seg rest : List Nat) (hlt : ∀ w ∈ seg, w < 65536)
    (hout : ∀ j, j < seg.length → ¬ best.covers j ∧ encapsulated best (inet.words src.bytes) j = false)
    (hsize : seg.length ≤ 8) :
    format src best [] 0 (seg ++ rest) = format src best (rowText seg) seg.length rest := by
  cases seg with
  | nil => rfl
  | cons w seg =>
    rw [List.length_cons] at hsize hout ⊢
    have hw := hlt w List.mem_cons_self
    have hx := fmtX_length hw
    rw [List.cons_append, format_first hw (hout 0 (by omega)).1,
      format_words seg rest (fun v hv => hlt v (List.mem_cons_of_mem _ hv)) (by omega)
        (fun j hj hk => hout j (by omega)) (by omega) (by omega), rowText, Nat.add_comm 1]

/-- The dotted tail. -/
theorem format_tail {w : Nat} {rest : List Nat} (hout : ¬ best.covers 6)
    (henc : encapsulated best (inet.words src.bytes) 6 = true) (hroom : tmp.length ≤ 29) :
    format src best tmp 6 (w :: rest) = .ok (tmp ++ ':' :: fmt src.tail.bytes) := by
  have hlen := (fmt_length src.tail).2
  have htext : inetNtop4 src.tail (UV__INET6_ADDRSTRLEN - (tmp ++ [':']).length) =
      .ok (fmt src.tail.bytes) := by
    rw [inetNtop4.spec, if_pos]
    unfold UV__INET6_ADDRSTRLEN
    rw [List.length_append, List.length_singleton]
    omega
  rw [format_out hout, if_pos (by omega), put_ok (by omega), henc]
  show (inetNtop4 src.tail (UV__INET6_ADDRSTRLEN - (tmp ++ [':']).length) >>= fun text =>
    .ok (tmp ++ [':'] ++ text)) = _
  rw [htext]
  show Except.ok (tmp ++ [':'] ++ fmt src.tail.bytes) = _
  rw [List.append_assoc]
  rfl

/-! ## The text -/

/-- The words are `pre`, then `k` zeros, two or more, then `post`, and the zeros are the first of the
longest runs. -/
structure IsGap (words pre : List Nat) (k : Nat) (post : List Nat) : Prop where
  words_eq : words = pre ++ List.replicate k 0 ++ post
  long : 2 ≤ k
  longest : ∀ b l, IsRun words b l → l ≤ k
  first : ∀ b, IsRun words b k → pre.length ≤ b

/-- After the zeros an IPv4 address follows: at once, or after a word of ones. -/
def Embeds (pre : List Nat) (k : Nat) (post : List Nat) : Prop :=
  pre = [] ∧ (k = 6 ∨ k = 5 ∧ post.head? = some 0xffff)

/-- The text of an address: all its words, or the words around the gap, with the last two in dotted
form when they are an IPv4 address. -/
inductive Written (a : In6Addr) : List Char → Prop
  | plain (hall : ∀ b k, IsRun (inet.words a.bytes) b k → k < 2) :
      Written a (rowText (inet.words a.bytes))
  | gap {pre post : List Nat} {k : Nat} (h : IsGap (inet.words a.bytes) pre k post)
      (hno : ¬ Embeds pre k post) : Written a (rowText pre ++ ':' :: ':' :: rowText post)
  | embedded {mid : List Nat} {k w v : Nat} (h : IsGap (inet.words a.bytes) [] k (mid ++ [w, v]))
      (hmid : k = 6 ∧ mid = [] ∨ k = 5 ∧ mid = [0xffff]) :
      Written a (':' :: colonWords mid ++ ':' :: fmt a.tail.bytes)

theorem words_of_run (h : IsRun words b k) :
    words = words.take b ++ List.replicate k 0 ++ words.drop (b + k) := by
  have hle := isRun_le h
  have hmid : (words.drop b).take k = List.replicate k 0 := by
    refine List.ext_getElem? fun j => ?_
    by_cases hj : j < k
    · rw [List.getElem?_take_of_lt hj, List.getElem?_drop, h.2 (b + j) (by omega) (by omega)]
      simp [hj]
    · rw [List.getElem?_eq_none (by rw [List.length_take]; omega),
        List.getElem?_eq_none (by rw [List.length_replicate]; omega)]
  rw [← hmid, ← List.drop_drop, List.append_assoc, List.take_append_drop, List.take_append_drop]

/-- The words of an address: eight, below 2^16, and its bytes. -/
theorem In6Addr.words_spec (a : In6Addr) :
    (inet.words a.bytes).length = 8 ∧ (inet.words a.bytes).flatMap wordBytes = a.bytes ∧
      ∀ w ∈ inet.words a.bytes, w < 65536 :=
  words.spec 8 a.bytes a.size

section gap

variable {a : In6Addr} {pre post : List Nat} {l : Nat}

theorem gap_size (h : IsGap (inet.words a.bytes) pre l post) : pre.length + l + post.length = 8 := by
  have hlen := a.words_spec.1
  rw [h.words_eq, List.length_append, List.length_append, List.length_replicate] at hlen
  exact hlen

theorem gap_lt (h : IsGap (inet.words a.bytes) pre l post) :
    (∀ w ∈ pre, w < 65536) ∧ ∀ w ∈ post, w < 65536 := by
  have hlt := a.words_spec.2.2
  rw [h.words_eq] at hlt
  exact ⟨fun w hw => hlt w (by simp [hw]), fun w hw => hlt w (by simp [hw])⟩

theorem gap_bytes (h : IsGap (inet.words a.bytes) pre l post) :
    a.bytes = pre.flatMap wordBytes ++ List.replicate (2 * l) 0 ++ post.flatMap wordBytes := by
  have hbytes := a.words_spec.2.1
  rw [h.words_eq, List.flatMap_append, List.flatMap_append, flatMap_wordBytes_zeros] at hbytes
  exact hbytes.symm

/-! ## What is written stands for the address -/

/-- A text around a `::`, whatever text the row after it has. -/
theorem stands_gap (h : IsGap (inet.words a.bytes) pre l post) {q : List Char}
    (hq : MaybeRow true q (post.flatMap wordBytes)) :
    Stands (rowText pre ++ ':' :: ':' :: q) a.bytes := by
  have hsize := gap_size h
  have hlong := h.long
  have hp : MaybeRow false (rowText pre) (pre.flatMap wordBytes) := maybeRow_rowText (gap_lt h).1
  have hb := flatMap_wordBytes_length pre
  have hc := flatMap_wordBytes_length post
  have hstands := Stands.gap hp hq (by omega)
  have hzeros : 16 - (pre.flatMap wordBytes).length - (post.flatMap wordBytes).length = 2 * l := by omega
  rw [hzeros, ← gap_bytes h] at hstands
  exact hstands

/-- The last two words are the last four bytes. -/
theorem tail_bytes (front : List Nat) {w v : Nat} (h : inet.words a.bytes = front ++ [w, v])
    (hfront : front.length = 6) : a.tail.bytes = [w, v].flatMap wordBytes := by
  have hbytes := a.words_spec.2.1
  rw [h, List.flatMap_append] at hbytes
  have hlen := flatMap_wordBytes_length front
  show a.bytes.drop 12 = _
  rw [← hbytes, List.drop_left' (by omega)]

theorem stands_of_written {text : List Char} (h : Written a text) : Stands text a.bytes := by
  obtain ⟨hlen, hbytes, hlt⟩ := a.words_spec
  cases h with
  | plain _ =>
    cases hwords : inet.words a.bytes with
    | nil => simp [hwords] at hlen
    | cons w rest =>
      rw [hwords] at hbytes hlt
      have hrow : Row true (rowText (w :: rest)) _ := row_rowText hlt
      rw [hbytes] at hrow
      exact .whole hrow a.size
  | gap hgap _ => exact stands_gap hgap (maybeRow_rowText (gap_lt hgap).2)
  | @embedded mid k w v hgap hmid =>
    have hrow : Row true (fmt a.tail.bytes) a.tail.bytes := .dotted a.tail rfl
    have hsize := gap_size hgap
    have htail : a.tail.bytes = [w, v].flatMap wordBytes := by
      refine tail_bytes (List.replicate k 0 ++ mid) ?_ ?_
      · rw [hgap.words_eq]
        simp
      · rcases hmid with ⟨rfl, rfl⟩ | ⟨rfl, rfl⟩ <;> rfl
    have hq : MaybeRow true ((colonWords mid ++ ':' :: fmt a.tail.bytes).tail)
        ((mid ++ [w, v]).flatMap wordBytes) := by
      rw [List.flatMap_append, ← htail]
      rcases hmid with ⟨rfl, rfl⟩ | ⟨rfl, rfl⟩
      · exact .row hrow
      · have hcons := Row.cons (isGroup_fmtX (by omega : 0xffff < 65536)) hrow
        rw [value_fmtX] at hcons
        refine .row ?_
        simpa [colonWords] using hcons
    have hstands := stands_gap hgap hq
    rcases hmid with ⟨rfl, rfl⟩ | ⟨rfl, rfl⟩
    · exact hstands
    · exact hstands

/-! ## The function -/

theorem written_length {text : List Char} (h : Written a text) : text.length ≤ 39 := by
  obtain ⟨hlen, _, hlt⟩ := a.words_spec
  cases h with
  | plain _ =>
    have := rowText_length hlt
    omega
  | gap hgap _ =>
    have hsize := gap_size hgap
    have hlong := hgap.long
    have hpre := rowText_length (gap_lt hgap).1
    have hpost := rowText_length (gap_lt hgap).2
    rw [List.length_append, List.length_cons, List.length_cons]
    omega
  | @embedded mid k w v hgap hmid =>
    have htail := (fmt_length a.tail).2
    have hshort : mid.length ≤ 1 := by
      rcases hmid with ⟨-, rfl⟩ | ⟨-, rfl⟩ <;> simp
    have hcolon : (colonWords mid).length ≤ 5 * mid.length :=
      colonWords_length fun w hw => (gap_lt hgap).2 w (List.mem_append_left _ hw)
    rw [List.cons_append, List.length_cons, List.length_append, List.length_cons]
    omega

/-- What follows the loop that formats. -/
theorem inetNtop6_of_format {tmp text : List Char}
    (hformat : format a (bestRun (inet.words a.bytes)) [] 0 (inet.words a.bytes) = .ok tmp)
    (hend : (if (bestRun (inet.words a.bytes)).base ≠ -1 ∧
        (bestRun (inet.words a.bytes)).base + (bestRun (inet.words a.bytes)).len = 8
      then put tmp ':' else .ok tmp) = .ok text) (hlen : text.length ≤ 39) (size : Nat) :
    inetNtop6 a size = if text.length < size then .ok text else .error .ENOSPC := by
  have hrest : (if ¬ text.length < UV__INET6_ADDRSTRLEN then .error .outside
      else if text.length + 1 > size then .error .ENOSPC else .ok (uvStrscpy text size)) =
      if text.length < size then Except.ok text else .error Err.ENOSPC := by
    unfold UV__INET6_ADDRSTRLEN uvStrscpy
    rw [if_neg (by omega)]
    by_cases h : text.length < size
    · rw [if_neg (by omega), if_pos h, List.take_of_length_le (by omega)]
    · rw [if_pos (by omega), if_neg h]
  unfold inetNtop6
  simp only [hformat]
  by_cases hc : (bestRun (inet.words a.bytes)).base ≠ -1 ∧
      (bestRun (inet.words a.bytes)).base + (bestRun (inet.words a.bytes)).len = 8
  · rw [if_pos hc] at hend
    refine (if_pos hc).trans ?_
    rw [hend]
    exact hrest
  · rw [if_neg hc] at hend
    refine (if_neg hc).trans ?_
    rw [hend]
    exact hrest

/-- What `bestRun` finds. -/
theorem found (a : In6Addr) :
    ((bestRun (inet.words a.bytes)).base = -1 ∧ ∀ b k, IsRun (inet.words a.bytes) b k → k < 2) ∨
      ∃ pre k post, IsGap (inet.words a.bytes) pre k post ∧
        bestRun (inet.words a.bytes) = ⟨pre.length, k⟩ := by
  cases bestRun.spec (inet.words a.bytes) with
  | none hr hall => exact .inl ⟨hr, hall⟩
  | some b hr hlen hrun hall =>
    have hle := isRun_le hrun
    have hpre : ((inet.words a.bytes).take b).length = b := by
      rw [List.length_take]
      omega
    refine .inr ⟨_, _, _, ⟨words_of_run hrun, hlen, fun c l hl => (hall c l hl).1, fun c hc => ?_⟩, ?_⟩
    · rw [hpre]
      exact (hall c _ hc).2 rfl
    · rw [hpre, ← hr]

theorem covers_iff {n : Nat} (j : Nat) : Zeros.covers ⟨(n : Int), l⟩ j ↔ n ≤ j ∧ j < n + l := by
  unfold Zeros.covers
  simp only
  omega

/-- Only an embedded address is written in dotted form. -/
theorem not_encapsulated (h : IsGap (inet.words a.bytes) pre l post) (hno : ¬ Embeds pre l post)
    {j : Nat} (hout : ¬ Zeros.covers ⟨(pre.length : Int), l⟩ j) :
    encapsulated ⟨pre.length, l⟩ (inet.words a.bytes) j = false := by
  rw [Bool.eq_false_iff]
  intro henc
  unfold encapsulated at henc
  simp only [Bool.and_eq_true, Bool.or_eq_true, decide_eq_true_eq] at henc
  obtain ⟨⟨rfl, hbase⟩, hlen⟩ := henc
  have hpre : pre = [] := List.length_eq_zero_iff.mp (by omega)
  subst hpre
  rw [covers_iff] at hout
  simp only [List.length_nil] at hout
  rcases hlen with (hsix | hseven) | hfive
  · exact hno ⟨rfl, .inl hsix⟩
  · omega
  · obtain ⟨rfl, hones⟩ := hfive
    have hsize := gap_size h
    rw [h.words_eq] at hones
    cases post with
    | nil => simp at hsize
    | cons v post => exact hno ⟨rfl, .inr ⟨rfl, by simpa using hones⟩⟩

theorem format_plain (hbase : best.base = -1) :
    format a best [] 0 (inet.words a.bytes) = .ok (rowText (inet.words a.bytes)) := by
  obtain ⟨hlen, -, hlt⟩ := a.words_spec
  have hrow : format a best [] 0 (inet.words a.bytes ++ []) =
      format a best (rowText (inet.words a.bytes)) (inet.words a.bytes).length [] :=
    format_row _ [] hlt (fun j _ => ⟨fun hin => hin.1 hbase, by simp [encapsulated, hbase]⟩) (by omega)
  rw [List.append_nil] at hrow
  rw [hrow]
  rfl

/-- The words up to the run and the colon of the run. -/
theorem format_to_run (h : IsGap (inet.words a.bytes) pre l post) (rest : List Nat) :
    format a ⟨pre.length, l⟩ [] 0 (pre ++ List.replicate l 0 ++ rest) =
      format a ⟨pre.length, l⟩ (rowText pre ++ [':']) (pre.length + l) rest := by
  have hsize := gap_size h
  have hlong := h.long
  have hlt := (gap_lt h).1
  have hshort := rowText_length hlt
  obtain ⟨k, rfl⟩ : ∃ k, l = k + 1 := ⟨l - 1, by omega⟩
  rw [List.append_assoc, format_row pre _ hlt ?_ (by omega),
    format_run k rest (fun j hj hk => (covers_iff j).mpr ⟨hj, hk⟩) rfl (by omega)]
  intro j hj
  refine ⟨fun hin => by have := ((covers_iff j).mp hin).1; omega, ?_⟩
  have hne : pre ≠ [] := by
    rintro rfl
    simp at hj
  simp [encapsulated, hne]

theorem format_gap (h : IsGap (inet.words a.bytes) pre l post) (hno : ¬ Embeds pre l post) :
    format a ⟨pre.length, l⟩ [] 0 (inet.words a.bytes) =
      .ok (rowText pre ++ ':' :: colonWords post) := by
  have hsize := gap_size h
  have hlong := h.long
  have hshort := rowText_length (gap_lt h).1
  have hout : ∀ j, pre.length + l ≤ j → j < pre.length + l + post.length →
      ¬ Zeros.covers ⟨(pre.length : Int), l⟩ j ∧
        encapsulated ⟨pre.length, l⟩ (inet.words a.bytes) j = false := by
    intro j hj _
    have hno' : ¬ Zeros.covers ⟨(pre.length : Int), l⟩ j := fun hin => by
      have := ((covers_iff j).mp hin).2
      omega
    exact ⟨hno', not_encapsulated h hno hno'⟩
  have hroom : (rowText pre ++ [':']).length + 1 ≤ 5 * (pre.length + l) := by
    rw [List.length_append, List.length_singleton]
    omega
  have hpost := format_words post [] (gap_lt h).2 (by omega) hout (by omega) hroom
  rw [List.append_nil, List.append_assoc] at hpost
  conv => lhs; arg 5; rw [h.words_eq]
  rw [format_to_run h, hpost]
  rfl

theorem format_embedded {mid : List Nat} {w v : Nat}
    (h : IsGap (inet.words a.bytes) [] l (mid ++ [w, v]))
    (hmid : l = 6 ∧ mid = [] ∨ l = 5 ∧ mid = [0xffff]) :
    format a ⟨([] : List Nat).length, l⟩ [] 0 (inet.words a.bytes) =
      .ok (':' :: colonWords mid ++ ':' :: fmt a.tail.bytes) := by
  have hmidlt : ∀ u ∈ mid, u < 65536 := fun u hu => (gap_lt h).2 u (List.mem_append_left _ hu)
  have hcolon := colonWords_length hmidlt
  have hlong := h.long
  have hsix : l + mid.length = 6 := by
    rcases hmid with ⟨rfl, rfl⟩ | ⟨rfl, rfl⟩ <;> rfl
  have hafter : ∀ j, l ≤ j → ¬ Zeros.covers ⟨(([] : List Nat).length : Int), l⟩ j := fun j hj hin => by
    have := ((covers_iff j).mp hin).2
    simp only [List.length_nil] at this
    omega
  have henc : encapsulated ⟨([] : List Nat).length, l⟩ (inet.words a.bytes) 6 = true := by
    rw [h.words_eq]
    rcases hmid with ⟨rfl, rfl⟩ | ⟨rfl, rfl⟩ <;> simp [encapsulated]
  have hwords : format a ⟨([] : List Nat).length, l⟩ [':'] l (mid ++ [w, v]) =
      format a ⟨([] : List Nat).length, l⟩ ([':'] ++ colonWords mid) (l + mid.length) [w, v] := by
    refine format_words mid [w, v] hmidlt (by omega) (fun j hj hk => ⟨hafter j hj, ?_⟩) (by omega)
      (by rw [List.length_singleton]; omega)
    have hne : j ≠ 6 := by omega
    simp [encapsulated, hne]
  have htail : format a ⟨([] : List Nat).length, l⟩ ([':'] ++ colonWords mid) 6 [w, v] =
      .ok ([':'] ++ colonWords mid ++ ':' :: fmt a.tail.bytes) :=
    format_tail (hafter 6 (by omega)) henc (by rw [List.length_append, List.length_singleton]; omega)
  have hrun := format_to_run h (mid ++ [w, v])
  rw [← h.words_eq] at hrun
  rw [hrun]
  simp only [rowText, List.nil_append, List.length_nil, Nat.zero_add] at hwords ⊢
  rw [hwords, hsix]
  exact htail

/-- The words after the zeros, when an IPv4 address follows. -/
theorem embeds_words (h : Embeds pre l post) (hsize : pre.length + l + post.length = 8) :
    ∃ mid w v, post = mid ++ [w, v] ∧ (l = 6 ∧ mid = [] ∨ l = 5 ∧ mid = [0xffff]) := by
  obtain ⟨rfl, rfl | ⟨rfl, hones⟩⟩ := h
  · have htwo : post.length = 2 := by
      rw [List.length_nil] at hsize
      omega
    match post, htwo with
    | [w, v], _ => exact ⟨[], w, v, rfl, .inl ⟨rfl, rfl⟩⟩
  · have hthree : post.length = 3 := by
      rw [List.length_nil] at hsize
      omega
    match post, hthree, hones with
    | [u, w, v], _, hones =>
      obtain rfl : u = 0xffff := by simpa using hones
      exact ⟨[0xffff], w, v, rfl, .inr ⟨rfl, rfl⟩⟩

/-- `inet_ntop6` writes the text with the first of the longest gaps, and never less than all of it: the
buffer is always large enough, and the error depends on `size` alone. -/
theorem inetNtop6.spec (a : In6Addr) :
    ∃ text, Written a text ∧
      ∀ size, inetNtop6 a size = if text.length < size then .ok text else .error .ENOSPC := by
  rcases found a with ⟨hbase, hall⟩ | ⟨pre, k, post, hgap, hbest⟩
  · have hwritten := Written.plain hall
    refine ⟨_, hwritten, inetNtop6_of_format (format_plain hbase) ?_ (written_length hwritten)⟩
    rw [if_neg (fun hend => hend.1 hbase)]
  · have hsize := gap_size hgap
    have hlong := hgap.long
    -- A run of seven words covers word 6, so only six or five zeros come before a dotted tail.
    by_cases hemb : Embeds pre k post
    · obtain ⟨mid, w, v, rfl, hmid⟩ := embeds_words hemb hsize
      obtain rfl := hemb.1
      have hwritten := Written.embedded hgap hmid
      have hformat := format_embedded hgap hmid
      rw [← hbest] at hformat
      refine ⟨_, hwritten, inetNtop6_of_format hformat ?_ (written_length hwritten)⟩
      rw [hbest, if_neg]
      rcases hmid with ⟨rfl, -⟩ | ⟨rfl, -⟩ <;> simp
    · have hwritten := Written.gap hgap hemb
      have hformat := format_gap hgap hemb
      have hshort := rowText_length (gap_lt hgap).1
      rw [← hbest] at hformat
      refine ⟨_, hwritten, inetNtop6_of_format hformat ?_ (written_length hwritten)⟩
      rw [hbest]
      cases post with
      | nil =>
        rw [List.length_nil] at hsize
        rw [if_pos (by simp only; omega), put_ok (by simp [colonWords]; omega)]
        simp [colonWords, rowText]
      | cons w post =>
        rw [List.length_cons] at hsize
        rw [if_neg (by simp only; omega), colonWords_cons]

end gap

/-! ## The way back -/

/-- No text of an address has a zone in it. -/
theorem percent_not_mem_row {dots : Bool} {text : List Char} {bytes : List UInt8}
    (h : Row dots text bytes) : '%' ∉ text := by
  have hgroup : ∀ {group : List Char}, IsGroup group → '%' ∉ group := by
    intro group h hmem
    have hsome := h.hex '%' hmem
    have hnone : xdigit '%' = none := by decide
    rw [hnone] at hsome
    cases hsome
  induction h with
  | group h => exact hgroup h
  | dotted a _ =>
    have hu : ∀ b : UInt8, '%' ∉ fmtU b.toNat := fun b => hgroup (isGroup_of_fmtU b)
    simp [fmt, hu]
  | cons h row ih =>
    intro hmem
    rcases List.mem_append.mp hmem with hmem | hmem
    · exact hgroup h hmem
    · rcases List.mem_cons.mp hmem with hmem | hmem
      · cases hmem
      · exact ih hmem

theorem percent_not_mem {text : List Char} {bytes : List UInt8} (h : Stands text bytes) :
    '%' ∉ text := by
  have hmaybe : ∀ {dots : Bool} {p : List Char} {b : List UInt8}, MaybeRow dots p b → '%' ∉ p := by
    intro dots p b h
    cases h with
    | none => simp
    | row h => exact percent_not_mem_row h
  cases h with
  | whole h _ => exact percent_not_mem_row h
  | gap hp hq _ => simp [hmaybe hp, hmaybe hq]

theorem strchr_none {text : List Char} {ch : Char} (h : ch ∉ text) : strchr text ch = none :=
  List.idxOf?_eq_none_iff.mpr h

theorem strchr_append {text rest : List Char} {ch : Char} (h : ch ∉ text) :
    strchr (text ++ ch :: rest) ch = some text.length := by
  refine List.idxOf?_eq_some_iff.mpr ⟨by simp, by simp, ?_⟩
  intro j hj
  rw [List.getElem_append_left hj]
  rintro rfl
  exact h (List.getElem_mem hj)

/-- A zone is not looked at by `uv_inet_pton`. -/
theorem uvInetPton_zone {text : List Char} (zone : List Char) (h : '%' ∉ text)
    (hlen : text.length ≤ 45) :
    uvInetPton .AF_INET6 (text ++ '%' :: zone) = uvInetPton .AF_INET6 text := by
  unfold uvInetPton UV__INET6_ADDRSTRLEN
  simp only [strchr_append h, strchr_none h]
  rw [if_neg (by omega), List.take_left' rfl]

theorem uvInetPton_of_stands {text : List Char} {a : In6Addr} (h : Stands text a.bytes) :
    uvInetPton .AF_INET6 text = .ok (.in6 a) := by
  unfold uvInetPton
  simp only [strchr_none (percent_not_mem h), inetPton6_stands h]
  rfl

/-- A text that fits in the copy of `uv_ip6_addr` is read with its zone. -/
theorem uvIp6Addr_zone {text : List Char} {a : In6Addr} (h : Stands text a.bytes)
    (hlen : text.length ≤ 39) (if_nametoindex : List Char → Nat) (zone : List Char) (port : Int) :
    uvIp6Addr if_nametoindex (text ++ '%' :: zone) port =
      .ok ⟨htons port, .in6 a, if_nametoindex zone⟩ := by
  have hdrop : (text ++ '%' :: zone).drop (text.length + 1) = zone := by
    rw [List.append_cons, List.drop_left' (by simp)]
  unfold uvIp6Addr
  simp only [strchr_append (percent_not_mem h)]
  rw [if_neg (by omega), List.take_left' rfl, uvInetPton_of_stands h, hdrop]
  rfl

/-- A longer address is cut before its last characters are read. -/
example : uvIp6Addr (fun _ => 2) "0000:0000:0000:0000:0000:ffff:1.22.33.44%lo".toList 0 =
    .ok ⟨[0, 0], .in6 ⟨[0, 0, 0, 0, 0, 0, 0, 0, 0, 0, 255, 255, 1, 22, 33, 4], rfl⟩, 2⟩ := by decide

/-- The text of each address: at most 39 characters, so that UV__INET6_ADDRSTRLEN is always enough, all
words in hex but for the first of the longest runs of zeros and an embedded IPv4 address. No write is
outside of the buffer. -/
theorem each_ipv6_address_has_its_text (a : In6Addr) :
    ∃ text, Written a text ∧ text.length ≤ 39 ∧
      ∀ size, inetNtop6 a size = if text.length < size then .ok text else .error .ENOSPC := by
  obtain ⟨text, hwritten, hsize⟩ := inetNtop6.spec a
  exact ⟨text, hwritten, written_length hwritten, hsize⟩

/-- What is written is read back as the same address, by `uv_inet_pton` with or without a zone, and by
`uv_ip6_addr`, whose copy of 39 characters is never too short for what `inet_ntop6` writes. -/
theorem each_ipv6_address_is_read_back (a : In6Addr) :
    ∃ text, uvInetNtop (.in6 a) UV__INET6_ADDRSTRLEN = .ok text ∧
      uvInetPton .AF_INET6 text = .ok (.in6 a) ∧
      (∀ zone, uvInetPton .AF_INET6 (text ++ '%' :: zone) = .ok (.in6 a)) ∧
      ∀ if_nametoindex zone port, uvIp6Addr if_nametoindex (text ++ '%' :: zone) port =
        .ok ⟨htons port, .in6 a, if_nametoindex zone⟩ := by
  obtain ⟨text, hwritten, hsize⟩ := inetNtop6.spec a
  have hlen := written_length hwritten
  have hstands := stands_of_written hwritten
  have hread := uvInetPton_of_stands hstands
  refine ⟨text, ?_, hread, fun zone => ?_, fun if_nametoindex zone port => ?_⟩
  · show inetNtop6 a UV__INET6_ADDRSTRLEN = _
    unfold UV__INET6_ADDRSTRLEN
    rw [hsize, if_pos (by omega)]
  · rw [uvInetPton_zone zone (percent_not_mem hstands) (by omega), hread]
  · exact uvIp6Addr_zone hstands hlen if_nametoindex zone port

end linuxc.inet
