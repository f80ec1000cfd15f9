-- C structs over raw bytes: where the fields of a struct stand, and how a
-- 16-bit field in network byte order reads on a host of either byte order.
import Mathlib.Data.List.Basic

namespace struct_layout

/-! ## The offsets of the fields -/

/-- The scalar types of the fields. -/
inductive CType
  | uchar
  | ushort
  | uint
  deriving DecidableEq, Repr

/-- The size of a scalar, which is also its alignment. -/
def CType.size : CType → Nat
  | .uchar => 1
  | .ushort => 2
  | .uint => 4

/-- The first offset from `off` on that is a multiple of `a`. -/
def alignUp (off a : Nat) : Nat := (off + a - 1) / a * a

/-- A struct: its fields in order, named by `F`. -/
abbrev Layout (F : Type) := List (F × CType)

variable {F : Type} [DecidableEq F]

/-- The offset of field `f` in the rest of a struct that starts at `off`. -/
def offsetFrom (f : F) : Nat → Layout F → Option Nat
  | _, [] => none
  | off, (g, t) :: rest =>
    if g = f then some (alignUp off t.size) else offsetFrom f (alignUp off t.size + t.size) rest

/-- The offset of a field, 0 for a field that the struct does not have. -/
def offsetOf (l : Layout F) (f : F) : Nat := (offsetFrom f 0 l).getD 0

/-! ## Bytes and byte order -/

/-- The byte at an offset, 0 past the end. -/
def byteAt (bytes : List UInt8) (i : Nat) : UInt8 := bytes[i]?.getD 0

theorem byteAt_append_left {bytes : List UInt8} (rest : List UInt8) {i : Nat}
    (h : i < bytes.length) : byteAt (bytes ++ rest) i = byteAt bytes i := by
  unfold byteAt
  rw [List.getElem?_append_left h]

theorem byteAt_append_right {bytes : List UInt8} (rest : List UInt8) {i : Nat}
    (h : bytes.length ≤ i) : byteAt (bytes ++ rest) i = byteAt rest (i - bytes.length) := by
  unfold byteAt
  rw [List.getElem?_append_right h]

theorem byteAt_take {bytes : List UInt8} {n i : Nat} (h : i < n) :
    byteAt (bytes.take n) i = byteAt bytes i := by
  unfold byteAt
  rw [List.getElem?_take_of_lt h]

theorem byteAt_drop (bytes : List UInt8) (n i : Nat) :
    byteAt (bytes.drop n) i = byteAt bytes (n + i) := by
  unfold byteAt
  rw [List.getElem?_drop]

/-- The first `n` bytes, read one by one. -/
theorem take_eq_map_byteAt {bytes : List UInt8} {n : Nat} (h : n ≤ bytes.length) :
    bytes.take n = (List.range n).map (byteAt bytes) := by
  apply List.ext_getElem?
  intro i
  by_cases hi : i < n
  · have hlt : i < bytes.length := by omega
    simp [byteAt, hi, hlt]
  · rw [List.getElem?_eq_none (by rw [List.length_take]; omega), List.getElem?_eq_none (by simpa using hi)]

theorem byteAt_replicate {n i : Nat} (b : UInt8) (h : i < n) :
    byteAt (List.replicate n b) i = b := by
  unfold byteAt
  simp [h]

/-- The byte order of the host. -/
inductive Endian
  | little
  | big
  deriving DecidableEq, Repr

/-- A load of an `unsigned short` from memory. -/
def load16 (e : Endian) (bytes : List UInt8) (off : Nat) : UInt16 :=
  let x := (byteAt bytes off).toNat
  let y := (byteAt bytes (off + 1)).toNat
  match e with
  | .little => .ofNat (x + 256 * y)
  | .big => .ofNat (256 * x + y)

/-- The conversion from network to host order: a swap of the two bytes on a little-endian host. -/
def ntohs (e : Endian) (x : UInt16) : UInt16 :=
  match e with
  | .little => .ofNat (x.toNat % 256 * 256 + x.toNat / 256)
  | .big => x

/-- The 16-bit number that stands at an offset in network byte order. -/
def be16 (bytes : List UInt8) (off : Nat) : UInt16 :=
  .ofNat (256 * (byteAt bytes off).toNat + (byteAt bytes (off + 1)).toNat)

/-- On either host, a converted load gives the number in network byte order. -/
theorem ntohs_load16 (e : Endian) (bytes : List UInt8) (off : Nat) :
    ntohs e (load16 e bytes off) = be16 bytes off := by
  have hx := (byteAt bytes off).toNat_lt
  have hy := (byteAt bytes (off + 1)).toNat_lt
  cases e with
  | little =>
    simp only [ntohs, load16, be16, UInt16.toNat_ofNat']
    congr 1
    omega
  | big => rfl

theorem be16_toNat (bytes : List UInt8) (off : Nat) :
    (be16 bytes off).toNat = 256 * (byteAt bytes off).toNat + (byteAt bytes (off + 1)).toNat := by
  have hx := (byteAt bytes off).toNat_lt
  have hy := (byteAt bytes (off + 1)).toNat_lt
  simp only [be16, UInt16.toNat_ofNat']
  omega

/-- A 16-bit field reads the same in two memories that agree on its two bytes. -/
theorem be16_congr {bytes bytes' : List UInt8} {off off' : Nat}
    (h0 : byteAt bytes off = byteAt bytes' off')
    (h1 : byteAt bytes (off + 1) = byteAt bytes' (off' + 1)) :
    be16 bytes off = be16 bytes' off' := by
  rw [be16, be16, h0, h1]

/-- The two bytes of a number in network byte order. -/
def bytes16 (x : UInt16) : List UInt8 := [.ofNat (x.toNat / 256), .ofNat (x.toNat % 256)]

theorem be16_bytes16 (x : UInt16) (rest : List UInt8) : be16 (bytes16 x ++ rest) 0 = x := by
  have hx := x.toNat_lt
  rw [← UInt16.toNat_inj, be16_toNat]
  simp only [bytes16, byteAt, List.cons_append, List.nil_append, List.getElem?_cons_zero,
    List.getElem?_cons_succ, Option.getD_some, UInt8.toNat_ofNat', Nat.zero_add]
  omega

theorem bytes16_be16 (bytes : List UInt8) (off : Nat) :
    bytes16 (be16 bytes off) = [byteAt bytes off, byteAt bytes (off + 1)] := by
  have hx := (byteAt bytes off).toNat_lt
  have hy := (byteAt bytes (off + 1)).toNat_lt
  have h0 : (be16 bytes off).toNat / 256 = (byteAt bytes off).toNat := by rw [be16_toNat]; omega
  have h1 : (be16 bytes off).toNat % 256 = (byteAt bytes (off + 1)).toNat := by rw [be16_toNat]; omega
  rw [bytes16, h0, h1, UInt8.ofNat_toNat, UInt8.ofNat_toNat]

end struct_layout
