-- The texts of IPv6 addresses as a grammar, and `inet_pton6` against it: the
-- scan with its pending group, the place of `::` and the dotted tail reads
-- exactly the texts of the grammar, each as the address that it stands for.
import Linuxc.UvInetDotted

namespace linuxc.inet

open event_runs numerals

/-! ## The grammar -/

/-- The value of a hex digit of either case. -/
def xvalue (c : Char) : Nat := (xdigit c).getD 0

/-- One to four hex digits. -/
structure IsGroup (group : List Char) : Prop where
  nonempty : group ≠ []
  short : group.length ≤ 4
  hex : ∀ c ∈ group, (xdigit c).isSome

/-- The two bytes of a word. -/
def wordBytes (n : Nat) : List UInt8 := [.ofNat (n / 256), .ofNat n]

/-- Groups with a colon between each two, and their bytes. The last may be a dotted address when `dots`
says so. -/
inductive Row (dots : Bool) : List Char → List UInt8 → Prop
  | group {group : List Char} (h : IsGroup group) : Row dots group (wordBytes (value xvalue 16 group))
  | dotted (a : In4Addr) (h : dots = true) : Row dots (fmt a.bytes) a.bytes
  | cons {group text : List Char} {bytes : List UInt8} (h : IsGroup group) (row : Row dots text bytes) :
      Row dots (group ++ ':' :: text) (wordBytes (value xvalue 16 group) ++ bytes)

/-- A row, or nothing. -/
inductive MaybeRow (dots : Bool) : List Char → List UInt8 → Prop
  | none : MaybeRow dots [] []
  | row {text : List Char} {bytes : List UInt8} (h : Row dots text bytes) : MaybeRow dots text bytes

/-- The texts of an address: all its bytes in a row, or two rows around a `::` that stands for as many
zeros as are missing. -/
inductive Stands : List Char → List UInt8 → Prop
  | whole {text : List Char} {bytes : List UInt8} (h : Row true text bytes) (size : bytes.length = 16) :
      Stands text bytes
  | gap {p q : List Char} {b c : List UInt8} (hp : MaybeRow false p b) (hq : MaybeRow true q c)
      (size : b.length + c.length < 16) :
      Stands (p ++ ':' :: ':' :: q) (b ++ List.replicate (16 - b.length - c.length) 0 ++ c)

/-! ## Hex digits -/

theorem xdigitsL_eq : xdigitsL = table 16 := by decide

theorem xdigit_lt {c : Char} {d : Nat} (h : xdigit c = some d) : d < 16 := by
  unfold xdigit strchr at h
  split at h
  · next e he =>
    obtain ⟨hlt, -⟩ := List.idxOf?_eq_some_iff.mp he
    cases h
    exact hlt
  · obtain ⟨hlt, -⟩ := List.idxOf?_eq_some_iff.mp h
    exact hlt

theorem xdigit_digitChar {d : Nat} (hd : d < 16) : xdigit d.digitChar = some d := by
  unfold xdigit strchr
  rw [xdigitsL_eq, found_digit (by omega) hd]

theorem xdigit_colon : xdigit ':' = none := by decide

theorem xdigit_dot : xdigit '.' = none := by decide

/-- `val <<= 4; val |= d;` -/
theorem shift_or {n d : Nat} (hd : d < 16) : n <<< 4 ||| d = n * 16 + d := by
  rw [← Nat.shiftLeft_add_eq_or_of_lt (by simpa using hd), Nat.shiftLeft_eq]

theorem low_byte (x : UInt8) : x &&& 0xff = x := by
  rw [← UInt8.toNat_inj, UInt8.toNat_and]
  have hmask : (0xff : UInt8).toNat = 255 := rfl
  have hmod : x.toNat &&& 255 = x.toNat % 256 := Nat.and_two_pow_sub_one_eq_mod _ 8
  have := x.toNat_lt
  rw [hmask, hmod]
  omega

theorem wordBytes_length (n : Nat) : (wordBytes n).length = 2 := rfl

variable {dots : Bool} {group text : List Char} {bytes : List UInt8} {g m : Groups}

theorem Groups.push_eq (g : Groups) :
    g.push = if g.tmp.length + 2 > 16 then .error .EINVAL
      else .ok { g with tmp := g.tmp ++ wordBytes g.val } := by
  unfold Groups.push wordBytes
  rw [low_byte, low_byte, Nat.shiftRight_eq_div_pow]

/-! ## What the rows look like -/

theorem isGroup_of_fmtU (b : UInt8) : IsGroup (fmtU b.toNat) where
  nonempty := Nat.toDigits_ne_nil
  short := by
    have := fmtU_length b
    omega
  hex := by
    refine forall_toDigits (by omega) ?_ b.toNat
    intro d hd
    rw [xdigit_digitChar (by omega)]
    rfl

theorem fmt_eq (a : In4Addr) : ∃ b rest, fmt a.bytes = fmtU (b : UInt8).toNat ++ '.' :: rest := by
  exact ⟨a.bytes.getD 0 0, _, by simp only [fmt, List.append_assoc, List.cons_append]; rfl⟩

/-- A row begins with a hex digit. -/
theorem row_head (h : Row dots text bytes) : ∃ c rest, text = c :: rest ∧ (xdigit c).isSome := by
  have hgroup : ∀ {group : List Char}, IsGroup group →
      ∃ c rest, group = c :: rest ∧ (xdigit c).isSome := by
    intro group h
    obtain ⟨c, rest, rfl⟩ := List.exists_cons_of_ne_nil h.nonempty
    exact ⟨c, rest, rfl, h.hex c List.mem_cons_self⟩
  cases h with
  | group h => exact hgroup h
  | dotted a _ =>
    obtain ⟨b, rest, heq⟩ := fmt_eq a
    obtain ⟨c, more, hc, hx⟩ := hgroup (isGroup_of_fmtU b)
    exact ⟨c, more ++ '.' :: rest, by rw [heq, hc]; rfl, hx⟩
  | cons h _ =>
    obtain ⟨c, more, hc, hx⟩ := hgroup h
    exact ⟨c, _, by rw [hc]; rfl, hx⟩

theorem row_ne_nil (h : Row dots text bytes) : text ≠ [] := by
  obtain ⟨c, rest, rfl, -⟩ := row_head h
  simp

theorem row_not_colon {rest : List Char} (h : Row dots (':' :: rest) bytes) : False := by
  obtain ⟨c, more, hc, hx⟩ := row_head h
  cases hc
  simp [xdigit_colon] at hx

theorem maybeRow_of_ne_nil (h : MaybeRow dots text bytes) (hne : text ≠ []) : Row dots text bytes := by
  cases h with
  | none => exact absurd rfl hne
  | row h => exact h

/-! ## The turns of the loop -/

/-- `if (seen_xdigits)` after the loop. -/
def Groups.flush (g : Groups) : Except Err Groups :=
  if g.seen_xdigits ≠ 0 then g.push else .ok g

theorem loop_digit {c : Char} {d : Nat} {src : List Char} (h : xdigit c = some d)
    (hseen : g.seen_xdigits < 4) :
    g.loop (c :: src) =
      Groups.loop { g with val := g.val * 16 + d, seen_xdigits := g.seen_xdigits + 1 } src := by
  rw [Groups.loop]
  simp only [h]
  rw [if_neg (by omega), shift_or (xdigit_lt h)]

/-- The colon after a group. -/
theorem loop_colon {tmp : List UInt8} {colonp : Option Nat} {curtok src : List Char} {seen val : Nat}
    (hseen : seen ≠ 0) (hsrc : src ≠ []) (hroom : tmp.length + 2 ≤ 16) :
    (⟨tmp, colonp, curtok, seen, val⟩ : Groups).loop (':' :: src) =
      Groups.loop ⟨tmp ++ wordBytes val, colonp, src, 0, 0⟩ src := by
  rw [Groups.loop]
  simp only [xdigit_colon, if_true]
  rw [if_neg hseen, if_neg hsrc, Groups.push_eq, if_neg (by simp; omega)]
  rfl

/-- The second colon of `::`. -/
theorem loop_gap {src : List Char} (hseen : g.seen_xdigits = 0) (hcolonp : g.colonp = none) :
    g.loop (':' :: src) = Groups.loop { g with curtok := src, colonp := some g.tmp.length } src := by
  rw [Groups.loop]
  simp only [xdigit_colon, if_true]
  rw [if_pos hseen, hcolonp]
  rfl

theorem loop_dot {src : List Char} {a : In4Addr} (hroom : g.tmp.length + 4 ≤ 16)
    (h : fmt a.bytes = g.curtok) :
    g.loop ('.' :: src) = .ok { g with tmp := g.tmp ++ a.bytes, seen_xdigits := 0 } := by
  rw [Groups.loop]
  simp only [xdigit_dot, inetPton4_ok_iff.mpr h]
  rw [if_neg (by decide), if_pos (by simpa using hroom)]

theorem loop_hex (group rest : List Char) (g : Groups) (hhex : ∀ c ∈ group, (xdigit c).isSome)
    (hshort : g.seen_xdigits + group.length ≤ 4) :
    g.loop (group ++ rest) =
      Groups.loop { g with
        val := group.foldl (fun n c => n * 16 + xvalue c) g.val
        seen_xdigits := g.seen_xdigits + group.length } rest := by
  induction group generalizing g with
  | nil => rfl
  | cons c group ih =>
    obtain ⟨d, hd⟩ := Option.isSome_iff_exists.mp (hhex c List.mem_cons_self)
    have hvalue : xvalue c = d := by simp [xvalue, hd]
    rw [List.length_cons] at hshort
    rw [List.cons_append, loop_digit hd (by omega),
      ih _ (fun c hc => hhex c (List.mem_cons_of_mem _ hc)) (by simp only; omega)]
    simp only [List.foldl_cons, List.length_cons, hvalue]
    rw [Nat.add_assoc, Nat.add_comm 1]

/-- A whole group. -/
theorem loop_group (h : IsGroup group) (tmp : List UInt8) (colonp : Option Nat)
    (curtok rest : List Char) :
    (⟨tmp, colonp, curtok, 0, 0⟩ : Groups).loop (group ++ rest) =
      Groups.loop ⟨tmp, colonp, curtok, group.length, value xvalue 16 group⟩ rest := by
  have h4 := h.short
  rw [loop_hex group rest _ h.hex (by simp only; omega)]
  simp [value]

/-! ## Every text of the grammar is read -/

theorem group_seen (h : IsGroup group) : group.length ≠ 0 := by
  simpa using h.nonempty

/-- A row is read up to the end. -/
theorem row_read (h : Row dots text bytes) (tmp : List UInt8) (colonp : Option Nat)
    (hroom : tmp.length + bytes.length ≤ 16) :
    ∃ g, ((⟨tmp, colonp, text, 0, 0⟩ : Groups).loop text >>= Groups.flush) = .ok g ∧
      g.tmp = tmp ++ bytes ∧ g.colonp = colonp := by
  induction h generalizing tmp with
  | @group group h =>
    rw [wordBytes_length] at hroom
    have hloop := loop_group h tmp colonp group []
    rw [List.append_nil] at hloop
    rw [hloop]
    refine ⟨⟨tmp ++ wordBytes (value xvalue 16 group), colonp, group, group.length,
      value xvalue 16 group⟩, ?_, rfl, rfl⟩
    show Groups.flush _ = _
    unfold Groups.flush
    rw [if_pos (group_seen h), Groups.push_eq, if_neg (by simp only; omega)]
  | dotted a _ =>
    obtain ⟨b, rest, heq⟩ := fmt_eq a
    rw [a.size] at hroom
    have hloop := loop_group (isGroup_of_fmtU b) tmp colonp (fmt a.bytes) ('.' :: rest)
    rw [← heq] at hloop
    rw [hloop, loop_dot (by simpa using hroom) rfl]
    exact ⟨_, rfl, rfl, rfl⟩
  | @cons group text bytes h row ih =>
    rw [List.length_append, wordBytes_length] at hroom
    rw [loop_group h, loop_colon (group_seen h) (row_ne_nil row) (by omega)]
    obtain ⟨g, hg, htmp, hcolonp⟩ := ih (tmp ++ wordBytes (value xvalue 16 group))
      (by rw [List.length_append, wordBytes_length]; omega)
    exact ⟨g, hg, by rw [htmp, List.append_assoc], hcolonp⟩

theorem maybeRow_read (h : MaybeRow dots text bytes) (tmp : List UInt8) (colonp : Option Nat)
    (hroom : tmp.length + bytes.length ≤ 16) :
    ∃ g, ((⟨tmp, colonp, text, 0, 0⟩ : Groups).loop text >>= Groups.flush) = .ok g ∧
      g.tmp = tmp ++ bytes ∧ g.colonp = colonp := by
  cases h with
  | none => exact ⟨_, rfl, by simp, rfl⟩
  | row h => exact row_read h tmp colonp hroom

/-- The row before a `::` is read up to it. -/
theorem row_read_to_gap (h : Row false text bytes) (tmp : List UInt8) (q curtok : List Char)
    (hroom : tmp.length + bytes.length ≤ 16) :
    (⟨tmp, none, curtok, 0, 0⟩ : Groups).loop (text ++ ':' :: ':' :: q) =
      Groups.loop ⟨tmp ++ bytes, some (tmp.length + bytes.length), q, 0, 0⟩ q := by
  induction h generalizing tmp curtok with
  | @group group h =>
    rw [wordBytes_length] at hroom
    rw [loop_group h, loop_colon (group_seen h) (by simp) (by omega), loop_gap rfl rfl]
    simp only [List.length_append]
  | dotted a h => cases h
  | @cons group text bytes h row ih =>
    rw [List.length_append, wordBytes_length] at hroom
    rw [List.append_assoc, List.cons_append, loop_group h,
      loop_colon (group_seen h) (by simp) (by omega),
      ih _ _ (by rw [List.length_append, wordBytes_length]; omega)]
    simp only [List.append_assoc, List.length_append, Nat.add_assoc]

/-! ## Every text that is read is of the grammar -/

/-- What has become of `tmp` and `colonp` when `text` has been read to its end: a row, a `::` at once, or
a row up to a `::`. -/
inductive Outcome (tmp : List UInt8) (colonp : Option Nat) (text : List Char) (m : Groups) : Prop
  | row {b : List UInt8} (hrow : MaybeRow true text b) (htmp : m.tmp = tmp ++ b)
      (hcolonp : m.colonp = colonp)
  | gapHere {q : List Char} {c : List UInt8} (hnone : colonp = none) (htext : text = ':' :: q)
      (hq : MaybeRow true q c) (htmp : m.tmp = tmp ++ c) (hcolonp : m.colonp = some tmp.length)
  | gapLater {p q : List Char} {b c : List UInt8} (hnone : colonp = none)
      (htext : text = p ++ ':' :: ':' :: q) (hp : Row false p b) (hq : MaybeRow true q c)
      (htmp : m.tmp = tmp ++ b ++ c) (hcolonp : m.colonp = some (tmp.length + b.length))

/-- The digits of the group that the loop is in; the token began with them. -/
structure Pending (g : Groups) (group src : List Char) : Prop where
  token : g.curtok = group ++ src
  hex : ∀ c ∈ group, (xdigit c).isSome
  seen : g.seen_xdigits = group.length
  short : group.length ≤ 4
  val : g.val = value xvalue 16 group

theorem pending_fresh (tmp : List UInt8) (colonp : Option Nat) (src : List Char) :
    Pending ⟨tmp, colonp, src, 0, 0⟩ [] src := ⟨rfl, by simp, rfl, by simp, rfl⟩

theorem isGroup_of_pending {src : List Char} (h : Pending g group src) (hseen : g.seen_xdigits ≠ 0) :
    IsGroup group where
  nonempty := by
    rintro rfl
    exact hseen h.seen
  short := h.short
  hex := h.hex

theorem nil_of_pending {src : List Char} (h : Pending g group src) (hseen : g.seen_xdigits = 0) :
    group = [] := List.length_eq_zero_iff.mp (h.seen ▸ hseen)

/-- One more digit of the group. -/
theorem pending_digit {c : Char} {d : Nat} {src : List Char} (h : Pending g group (c :: src))
    (hd : xdigit c = some d) (hseen : ¬ g.seen_xdigits + 1 > 4) :
    Pending { g with val := g.val <<< 4 ||| d, seen_xdigits := g.seen_xdigits + 1 }
      (group ++ [c]) src where
  token := by simp [h.token]
  hex := by
    intro e he
    rcases List.mem_append.mp he with he | he
    · exact h.hex e he
    · rw [List.mem_singleton.mp he, hd]
      rfl
  seen := by simp [h.seen]
  short := by
    rw [h.seen] at hseen
    simp only [List.length_append, List.length_singleton]
    omega
  val := by
    rw [value_snoc, ← h.val]
    simp only [xvalue, hd, Option.getD_some]
    exact shift_or (xdigit_lt hd)

/-- The end of the text. -/
theorem flush.spec (h : Pending g group []) (hroom : g.tmp.length ≤ 16) :
    Gives (· = .EINVAL) g.flush fun m => Outcome g.tmp g.colonp group m ∧ m.tmp.length ≤ 16 := by
  unfold Groups.flush
  split
  · next hseen =>
    rw [Groups.push_eq]
    split
    · exact gives_error rfl
    · next hfit =>
      refine gives_ok ⟨.row (.row (.group (isGroup_of_pending h hseen))) ?_ rfl, ?_⟩
      · rw [h.val]
      · simp only [List.length_append, wordBytes_length]
        omega
  · next hseen =>
    rw [nil_of_pending h (by simpa using hseen)]
    exact gives_ok ⟨.row .none (by simp) rfl, hroom⟩

/-- What follows a `::` at once. -/
theorem outcome_gap {q : List Char} (h : Outcome g.tmp (some g.tmp.length) q m)
    (hnone : g.colonp = none) : Outcome g.tmp g.colonp (':' :: q) m := by
  cases h with
  | row hrow htmp hcolonp => exact .gapHere hnone rfl hrow htmp hcolonp
  | gapHere h => cases h
  | gapLater h => cases h

/-- What follows a group and its colon. -/
theorem outcome_group {src : List Char} (hgroup : IsGroup group) (hsrc : src ≠ [])
    (h : Outcome (g.tmp ++ wordBytes (value xvalue 16 group)) g.colonp src m) :
    Outcome g.tmp g.colonp (group ++ ':' :: src) m := by
  cases h with
  | row hrow htmp hcolonp =>
    exact .row (.row (.cons hgroup (maybeRow_of_ne_nil hrow hsrc))) (by rw [htmp, List.append_assoc])
      hcolonp
  | gapHere hnone htext hq htmp hcolonp =>
    refine .gapLater hnone (by rw [htext]) (.group hgroup) hq htmp ?_
    rw [hcolonp, List.length_append]
  | gapLater hnone htext hp hq htmp hcolonp =>
    refine .gapLater hnone ?_ (.cons hgroup hp) hq ?_ ?_
    · rw [htext, List.append_assoc, List.cons_append]
    · rw [htmp]
      simp only [List.append_assoc]
    · rw [hcolonp]
      simp only [List.length_append, Nat.add_assoc]

/-- The loop from within a group on; the induction is on the text that is left. -/
theorem loop.spec (src : List Char) (h : Pending g group src) (hroom : g.tmp.length ≤ 16) :
    Gives (· = .EINVAL) (g.loop src >>= Groups.flush) fun m =>
      Outcome g.tmp g.colonp (group ++ src) m ∧ m.tmp.length ≤ 16 := by
  induction src generalizing g group with
  | nil =>
    rw [List.append_nil]
    exact flush.spec h hroom
  | cons ch src ih =>
    rw [Groups.loop]
    cases hx : xdigit ch with
    | some d =>
      dsimp only
      split
      · exact (rfl : Err.EINVAL = Err.EINVAL)
      · next hseen =>
        have hrest := ih (pending_digit h hx hseen) hroom
        rw [List.append_assoc] at hrest
        exact hrest
    | none =>
      dsimp only
      split
      · next hcolon =>
        subst hcolon
        split
        · next hseen =>
          obtain rfl := nil_of_pending h hseen
          split
          · exact (rfl : Err.EINVAL = Err.EINVAL)
          · next hnone =>
            -- With `colonp` set the rest cannot have a second `::`.
            have hfresh : Pending { g with curtok := src, colonp := some g.tmp.length } [] src :=
              ⟨rfl, by simp, hseen, by simp, h.val⟩
            have hrest := ih hfresh hroom
            exact gives_mono hrest (fun _ hr => hr) fun m hm =>
              ⟨outcome_gap hm.1 (by simpa using hnone), hm.2⟩
        · next hseen =>
          split
          · exact (rfl : Err.EINVAL = Err.EINVAL)
          · next hsrc =>
            -- The group goes to `tmp`, and the rest begins a new one.
            rw [Groups.push_eq]
            split
            · exact (rfl : Err.EINVAL = Err.EINVAL)
            · next hfit =>
              have hfits : (g.tmp ++ wordBytes g.val).length ≤ 16 := by
                rw [List.length_append, wordBytes_length]
                simpa using hfit
              have hrest := ih (pending_fresh (g.tmp ++ wordBytes g.val) g.colonp src) hfits
              refine gives_mono hrest (fun _ hr => hr) fun m hm => ⟨?_, hm.2⟩
              have hm1 := hm.1
              rw [h.val, List.nil_append] at hm1
              exact outcome_group (isGroup_of_pending h hseen) hsrc hm1
      · split
        · next hdot =>
          -- The digits before the dot were pending as hex; the whole token is read again.
          obtain ⟨rfl, hfit⟩ := hdot
          split
          · next a ha =>
            rw [inetPton4_ok_iff, h.token] at ha
            refine ⟨.row (.row ?_) rfl rfl, ?_⟩
            · rw [← ha]
              exact .dotted a rfl
            · show (g.tmp ++ a.bytes).length ≤ 16
              rw [List.length_append, a.size]
              exact hfit
          · exact (rfl : Err.EINVAL = Err.EINVAL)
        · exact (rfl : Err.EINVAL = Err.EINVAL)

/-! ## The shift -/

/-- A byte moves over the zeros after it. -/
theorem set_over_zeros (p rest : List UInt8) (x : UInt8) (z : Nat) :
    ((p ++ x :: (List.replicate z 0 ++ 0 :: rest)).set (p.length + (z + 1)) x).set p.length 0 =
      p ++ List.replicate (z + 1) 0 ++ x :: rest := by
  have hlast : (List.replicate z 0 ++ 0 :: rest).set z x = List.replicate z 0 ++ x :: rest := by
    rw [List.set_append_right _ _ (by simp)]
    simp
  rw [List.set_append_right _ _ (by omega), Nat.add_sub_cancel_left, List.set_cons_succ, hlast,
    List.set_append_right _ _ (by omega), Nat.sub_self, List.set_cons_zero]
  simp [List.replicate_succ]

/-- A turn whose two places are in the buffer. -/
theorem shiftOne_ok {colonp n i : Nat} {tmp : List UInt8} (hpos : 0 < i) (hi : i ≤ n)
    (hsize : tmp.length = 16) (hn : colonp + n ≤ 16) :
    shiftOne colonp n tmp i =
      .ok ((tmp.set (16 - i) (tmp.getD (colonp + n - i) 0)).set (colonp + n - i) 0) := by
  unfold shiftOne
  apply if_pos
  omega

/-- After `i` turns the last `i` bytes are at the end, and no turn was outside of the buffer. -/
theorem shift_turns (p q : List UInt8) (z i : Nat) (hi : i ≤ q.length)
    (hsize : p.length + q.length + (z + 1) = 16) :
    (List.range' 1 i).foldlM (shiftOne p.length q.length) (p ++ q ++ List.replicate (z + 1) 0) =
      .ok (p ++ q.take (q.length - i) ++ List.replicate (z + 1) 0 ++ q.drop (q.length - i)) := by
  induction i with
  | zero =>
    simp
    rfl
  | succ i ih =>
    obtain ⟨k, hk⟩ : ∃ k, q.length = k + (i + 1) := ⟨q.length - (i + 1), by omega⟩
    have hlt : k < q.length := by omega
    have hbefore : q.length - i = k + 1 := by omega
    have hafter : q.length - (i + 1) = k := by omega
    have hlen : (p ++ q.take k).length = p.length + k := by simp; omega
    have hbuf : p ++ q.take (k + 1) ++ List.replicate (z + 1) 0 ++ q.drop (k + 1) =
        (p ++ q.take k) ++ q[k] :: (List.replicate z 0 ++ 0 :: q.drop (k + 1)) := by
      rw [List.take_succ_eq_append_getElem hlt, List.replicate_succ']
      simp only [List.append_assoc, List.cons_append, List.nil_append]
    have hfull : ((p ++ q.take k) ++ q[k] :: (List.replicate z 0 ++ 0 :: q.drop (k + 1))).length
        = 16 := by
      simp
      omega
    have hget : ((p ++ q.take k) ++ q[k] :: (List.replicate z 0 ++ 0 :: q.drop (k + 1))).getD
        (p.length + k) 0 = q[k] := by
      rw [← hlen]
      simp [List.getD]
    have hfrom : p.length + q.length - (1 + i) = p.length + k := by omega
    have hdest : 16 - (1 + i) = (p ++ q.take k).length + (z + 1) := by omega
    rw [List.range'_1_concat, List.foldlM_append, ih (by omega), hbefore, hafter]
    show shiftOne p.length q.length _ (1 + i) >>= pure = _
    rw [bind_pure, hbuf, shiftOne_ok (by omega) (by omega) hfull (by omega), hfrom, hget, hdest, ← hlen,
      set_over_zeros, List.drop_eq_getElem_cons hlt]

/-- The shift puts the missing zeros between the bytes before `colonp` and those after it. -/
theorem shift.spec (p q : List UInt8) (hsize : p.length + q.length < 16) :
    shift p.length q.length (p ++ q ++ List.replicate (16 - (p ++ q).length) 0) =
      .ok (p ++ List.replicate (16 - p.length - q.length) 0 ++ q) := by
  obtain ⟨z, hz⟩ : ∃ z, p.length + q.length + (z + 1) = 16 := ⟨16 - p.length - q.length - 1, by omega⟩
  have hzeros : 16 - (p ++ q).length = z + 1 := by rw [List.length_append]; omega
  have hgap : 16 - p.length - q.length = z + 1 := by omega
  unfold shift
  rw [hzeros, hgap, shift_turns p q z q.length (by omega) hz]
  simp

/-! ## The function -/

theorem In6Addr.ext_bytes {a a' : In6Addr} (h : a.bytes = a'.bytes) : a = a' := by
  cases a
  cases a'
  cases h
  rfl

theorem memcpy16_bytes {tmp : List UInt8} (h : tmp.length = 16) : memcpy16 tmp = .ok ⟨tmp, h⟩ := by
  simp [memcpy16, h]

/-- What follows the loop and the flush. -/
def Groups.close (g : Groups) : Except Err In6Addr :=
  match g.colonp with
  | some colonp =>
    if g.tmp.length = 16 then .error .EINVAL
    else
      let n := g.tmp.length - colonp
      shift colonp n (g.tmp ++ List.replicate (16 - g.tmp.length) 0) >>= memcpy16
  | none => if g.tmp.length ≠ 16 then .error .EINVAL else memcpy16 g.tmp

theorem finish_eq (g : Groups) : g.finish = g.flush >>= Groups.close := by
  unfold Groups.finish Groups.flush
  by_cases h : g.seen_xdigits ≠ 0
  · rw [if_pos h, if_pos h]
    rfl
  · rw [if_neg h, if_neg h]
    rfl

theorem inetPton6From_eq (src : List Char) :
    inetPton6From src =
      ((⟨[], none, src, 0, 0⟩ : Groups).loop src >>= Groups.flush) >>= Groups.close := by
  unfold inetPton6From
  simp only [finish_eq, bind_assoc]

theorem close_row (hcolonp : m.colonp = none) :
    m.close = if m.tmp.length ≠ 16 then .error .EINVAL else memcpy16 m.tmp := by
  unfold Groups.close
  rw [hcolonp]

theorem close_gap {p q : List UInt8} (htmp : m.tmp = p ++ q) (hcolonp : m.colonp = some p.length)
    (hsize : p.length + q.length ≤ 16) :
    m.close = if p.length + q.length = 16 then .error .EINVAL
      else memcpy16 (p ++ List.replicate (16 - p.length - q.length) 0 ++ q) := by
  unfold Groups.close
  rw [hcolonp, htmp]
  simp only
  split
  · next h => rw [if_pos (by simpa using h)]
  · next h =>
    rw [List.length_append] at h
    have hn : (p ++ q).length - p.length = q.length := by simp
    rw [if_neg h, hn, shift.spec p q (by omega)]
    rfl

theorem gap_length {p q : List UInt8} (h : p.length + q.length < 16) :
    (p ++ List.replicate (16 - p.length - q.length) 0 ++ q).length = 16 := by
  simp only [List.length_append, List.length_replicate]
  omega

/-- A `::` between `p` and `q`. -/
theorem gives_gap {s p q : List Char} {b c : List UInt8} (hs : s = p ++ ':' :: ':' :: q)
    (hp : MaybeRow false p b) (hq : MaybeRow true q c) (htmp : m.tmp = b ++ c)
    (hcolonp : m.colonp = some b.length) (hroom : m.tmp.length ≤ 16) :
    Gives (· = .EINVAL) m.close fun a => Stands s a.bytes := by
  rw [htmp, List.length_append] at hroom
  rw [close_gap htmp hcolonp hroom]
  split
  · exact gives_error rfl
  · next hsize =>
    have hlt : b.length + c.length < 16 := by omega
    rw [memcpy16_bytes (gap_length hlt), hs]
    exact gives_ok (.gap hp hq hlt)

/-- What the code makes of a text `s`, of which the loop read `text`: without the first colon of a
leading `::`. -/
theorem close.spec {s : List Char} (h : Outcome [] none text m) (hroom : m.tmp.length ≤ 16)
    (hs : s = if text.head? = some ':' then ':' :: text else text) :
    Gives (· = .EINVAL) m.close fun a => Stands s a.bytes := by
  cases h with
  | row hrow htmp hcolonp =>
    rw [close_row hcolonp]
    split
    · exact gives_error rfl
    · next hsize =>
      rw [Decidable.not_not] at hsize
      rw [memcpy16_bytes hsize]
      refine gives_ok ?_
      rw [List.nil_append] at htmp
      cases hrow with
      | none => simp [htmp] at hsize
      | row hrow =>
        obtain ⟨c, rest, rfl, hc⟩ := row_head hrow
        have hne : c ≠ ':' := by
          rintro rfl
          exact row_not_colon hrow
        rw [hs, List.head?_cons, if_neg (by simpa using hne)]
        show Stands _ m.tmp
        rw [htmp] at hsize ⊢
        exact .whole hrow hsize
  | gapHere _ htext hq htmp hcolonp =>
    refine gives_gap (p := []) (b := []) ?_ .none hq htmp hcolonp hroom
    rw [hs, htext]
    rfl
  | gapLater _ htext hp hq htmp hcolonp =>
    refine gives_gap ?_ (.row hp) hq (by rw [htmp]; rfl) (by rw [hcolonp]; simp) hroom
    obtain ⟨c, rest, rfl, hc⟩ := row_head hp
    have hne : c ≠ ':' := by
      rintro rfl
      exact row_not_colon hp
    rw [hs, htext, List.cons_append, List.head?_cons, if_neg (by simpa using hne)]

theorem inetPton6From.spec {s src : List Char}
    (hs : s = if src.head? = some ':' then ':' :: src else src) :
    Gives (· = .EINVAL) (inetPton6From src) fun a => Stands s a.bytes := by
  rw [inetPton6From_eq]
  refine gives_bind (loop.spec src (pending_fresh [] none src) (by simp)) fun m hm => ?_
  exact close.spec hm.1 hm.2 hs

theorem inetPton6_of_head {s : List Char} (h : s.head? ≠ some ':') :
    inetPton6 s = inetPton6From s := by
  unfold inetPton6
  split
  · simp at h
  · rfl

/-- What is read as an address is a text of it, and everything else is EINVAL. -/
theorem inetPton6.spec (s : List Char) :
    Gives (· = .EINVAL) (inetPton6 s) fun a => Stands s a.bytes := by
  by_cases hhead : s.head? = some ':'
  · obtain ⟨src, rfl⟩ : ∃ src, s = ':' :: src := by
      cases s with
      | nil => simp at hhead
      | cons c src => exact ⟨src, by simpa using hhead⟩
    cases src with
    | nil => exact (rfl : Err.EINVAL = Err.EINVAL)
    | cons c rest =>
      by_cases hc : c = ':'
      · subst hc
        have hs : ':' :: ':' :: rest =
            if (':' :: rest).head? = some ':' then ':' :: ':' :: rest else ':' :: rest := rfl
        exact inetPton6From.spec hs
      · have hrefused : inetPton6 (':' :: c :: rest) = .error .EINVAL := by
          simp [inetPton6, hc]
        rw [hrefused]
        exact gives_error rfl
  · rw [inetPton6_of_head hhead]
    exact inetPton6From.spec (by rw [if_neg hhead])

theorem head_of_row (h : Row dots text bytes) (rest : List Char) : (text ++ rest).head? ≠ some ':' := by
  obtain ⟨c, more, rfl, hc⟩ := row_head h
  intro heq
  have hcolon : c = ':' := by simpa using heq
  rw [hcolon, xdigit_colon] at hc
  simp at hc

/-- Every text of an address is read as the address. -/
theorem inetPton6_stands {s : List Char} {a : In6Addr} (h : Stands s a.bytes) :
    inetPton6 s = .ok a := by
  obtain ⟨bytes, size⟩ := a
  cases h with
  | whole hrow _ =>
    have hhead := head_of_row hrow []
    rw [List.append_nil] at hhead
    obtain ⟨g, hg, htmp, hcolonp⟩ := row_read hrow [] none (by simp at size ⊢; omega)
    rw [inetPton6_of_head hhead, inetPton6From_eq, hg]
    show g.close = _
    rw [List.nil_append] at htmp
    rw [close_row hcolonp, htmp, if_neg (by simpa using size), memcpy16_bytes size]
  | @gap p q b c hp hq hlt =>
    obtain ⟨g, hg, htmp, hcolonp⟩ := maybeRow_read hq b (some b.length) (by omega)
    have hloop : inetPton6 (p ++ ':' :: ':' :: q) =
        ((⟨b, some b.length, q, 0, 0⟩ : Groups).loop q >>= Groups.flush) >>= Groups.close := by
      cases hp with
      | none =>
        show inetPton6From (':' :: q) = _
        rw [inetPton6From_eq, loop_gap rfl rfl]
      | row hp =>
        rw [inetPton6_of_head (head_of_row hp _), inetPton6From_eq,
          row_read_to_gap hp [] q _ (by simp; omega)]
        simp
    rw [hloop, hg]
    show g.close = _
    rw [close_gap htmp hcolonp (by omega), if_neg (by omega), memcpy16_bytes (gap_length hlt)]
    rfl

/-- `inet_pton6` accepts exactly the texts of the grammar, each as the one address that it stands for:
rows of one to four hex digits of either case, at most one `::`, and that for two bytes or more, and a
dotted tail. Everything else is EINVAL, and nothing outside of the 16 bytes is touched. -/
theorem ipv6_texts_are_read_by_the_grammar (s : List Char) :
    (∀ a, inetPton6 s = .ok a ↔ Stands s a.bytes) ∧ ∀ r, inetPton6 s = .error r → r = .EINVAL := by
  have hspec := inetPton6.spec s
  refine ⟨fun a => ⟨fun h => ?_, inetPton6_stands⟩, fun r h => ?_⟩
  · rw [h] at hspec
    exact hspec
  · rw [h] at hspec
    exact hspec

example : (["::", "fe80::", "fe80:0:0:0:2acf:daff:1.2.3.4", ":::1", "abcde::1", "fe80:0:0:2acf:daff:1.2.3.4.5"].map
    fun s => (inetPton6 s.toList).toOption.isSome) = [true, true, true, false, false, false] := by decide

end linuxc.inet
