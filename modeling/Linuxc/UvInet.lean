-- inet.c of libuv: IPv4 and IPv6 addresses are read from text and written as
-- text. A text is the characters before the NUL. Around it, the functions of
-- uv-common.c that programs call.
import Linuxc.Runs

namespace linuxc.inet

open event_runs

/-! ## Addresses and errors -/

/-- The codes that the functions return, and an access outside of a buffer, which has no code. -/
inductive Err
  | EAFNOSUPPORT
  | EINVAL
  | ENOSPC
  | outside
  deriving DecidableEq, Repr

/-- `struct in_addr`, in network order. -/
structure In4Addr where
  bytes : List UInt8
  size : bytes.length = 4
  deriving DecidableEq

/-- `struct in6_addr`, in network order. -/
structure In6Addr where
  bytes : List UInt8
  size : bytes.length = 16
  deriving DecidableEq

/-- `memcpy(dst, tmp, sizeof(struct in_addr))`. -/
def memcpy4 (tmp : List UInt8) : Except Err In4Addr :=
  if h : tmp.length = 4 then .ok ⟨tmp, h⟩ else .error .outside

/-- `memcpy(dst, tmp, sizeof tmp)` of 16 bytes. -/
def memcpy16 (tmp : List UInt8) : Except Err In6Addr :=
  if h : tmp.length = 16 then .ok ⟨tmp, h⟩ else .error .outside

def UV__INET_ADDRSTRLEN : Nat := 16

def UV__INET6_ADDRSTRLEN : Nat := 46

/-! ## `inet_ntop4` -/

/-- What `%u` and `%x` write. -/
def fmtU (n : Nat) : List Char := Nat.toDigits 10 n

def fmtX (n : Nat) : List Char := Nat.toDigits 16 n

/-- What `snprintf` into `n` bytes leaves there; it returns the length of the whole text. -/
def snprintf (text : List Char) (n : Nat) : List Char := text.take (n - 1)

/-- What `uv__strscpy` leaves in `n` bytes. -/
def uvStrscpy (s : List Char) (n : Nat) : List Char := s.take (n - 1)

/-- The text of `"%u.%u.%u.%u"`. -/
def fmt (src : List UInt8) : List Char :=
  fmtU (src.getD 0 0).toNat ++ '.' :: fmtU (src.getD 1 0).toNat ++ '.' :: fmtU (src.getD 2 0).toNat ++
    '.' :: fmtU (src.getD 3 0).toNat

def inetNtop4 (src : In4Addr) (size : Nat) : Except Err (List Char) :=
  let tmp := snprintf (fmt src.bytes) UV__INET_ADDRSTRLEN
  let l := (fmt src.bytes).length
  if l = 0 ∨ size ≤ l then .error .ENOSPC else .ok (uvStrscpy tmp size)

/-! ## `inet_ntop6` -/

/-- The bytes as words: `words[i / 2] |= src[i] << ((1 - (i % 2)) << 3)`, from zeros. -/
def words : List UInt8 → List Nat
  | hi :: lo :: src => (0 ||| hi.toNat <<< 8 ||| lo.toNat) :: words src
  | _ => []

/-- `best` and `cur`; the base is -1 for no run. -/
structure Zeros where
  base : Int
  len : Nat
  deriving DecidableEq, Repr

/-- `if (best.base == -1 || cur.len > best.len) best = cur;` -/
def Zeros.orLonger (best cur : Zeros) : Zeros :=
  if best.base = -1 ∨ cur.len > best.len then cur else best

/-- The loop over the words from `i` on: `best` and `cur` after it. -/
def scan (best cur : Zeros) (i : Nat) : List Nat → Zeros × Zeros
  | [] => (best, cur)
  | word :: words =>
    if word = 0 then
      scan best (if cur.base = -1 then ⟨i, 1⟩ else { cur with len := cur.len + 1 }) (i + 1) words
    else if cur.base ≠ -1 then
      scan (best.orLonger cur) { cur with base := -1 } (i + 1) words
    else
      scan best cur (i + 1) words

/-- The run of zero words that `::` stands for. -/
def bestRun (words : List Nat) : Zeros :=
  let (best, cur) := scan ⟨-1, 0⟩ ⟨-1, 0⟩ 0 words
  let best := if cur.base ≠ -1 then best.orLonger cur else best
  if best.base ≠ -1 ∧ best.len < 2 then { best with base := -1 } else best

/-- `*tp++ = ch;` -/
def put (tmp : List Char) (ch : Char) : Except Err (List Char) :=
  if tmp.length < UV__INET6_ADDRSTRLEN then .ok (tmp ++ [ch]) else .error .outside

/-- `tp += snprintf(tp, sizeof tmp - (tp - tmp), "%x", word);`. A text that is cut would take `tp` past
its end. -/
def putX (tmp : List Char) (word : Nat) : Except Err (List Char) :=
  if tmp.length + (fmtX word).length < UV__INET6_ADDRSTRLEN then .ok (tmp ++ fmtX word)
  else .error .outside

/-- Whether word 6 is the first of an encapsulated IPv4 address. -/
def encapsulated (best : Zeros) (words : List Nat) (i : Nat) : Bool :=
  i = 6 && best.base = 0 && (best.len = 6 || (best.len = 7 && words.getD 7 0 ≠ 0x0001) ||
    (best.len = 5 && words.getD 5 0 = 0xffff))

/-- The last four bytes, `src+12`. -/
def In6Addr.tail (src : In6Addr) : In4Addr :=
  ⟨src.bytes.drop 12, by simp [src.size]⟩

/-- The loop that formats the words from `i` on. -/
def format (src : In6Addr) (best : Zeros) (tmp : List Char) (i : Nat) :
    List Nat → Except Err (List Char)
  | [] => .ok tmp
  | word :: rest =>
    if best.base ≠ -1 ∧ best.base ≤ i ∧ i < best.base + best.len then do
      let tmp ← if i = best.base then put tmp ':' else .ok tmp
      format src best tmp (i + 1) rest
    else do
      let tmp ← if i ≠ 0 then put tmp ':' else .ok tmp
      if encapsulated best (words src.bytes) i then
        let text ← inetNtop4 src.tail (UV__INET6_ADDRSTRLEN - tmp.length)
        .ok (tmp ++ text)
      else
        let tmp ← putX tmp word
        format src best tmp (i + 1) rest

def inetNtop6 (src : In6Addr) (size : Nat) : Except Err (List Char) := do
  let best := bestRun (words src.bytes)
  let tmp ← format src best [] 0 (words src.bytes)
  let tmp ← if best.base ≠ -1 ∧ best.base + best.len = 8 then put tmp ':' else .ok tmp
  -- The NUL counts.
  if ¬ tmp.length < UV__INET6_ADDRSTRLEN then .error .outside
  else if tmp.length + 1 > size then .error .ENOSPC
  else .ok (uvStrscpy tmp size)

/-! ## `inet_pton4` -/

/-- The place of a character in a table of digits. -/
def strchr (digits : List Char) (ch : Char) : Option Nat := digits.idxOf? ch

def digits : List Char := "0123456789".toList

/-- The locals of `inet_pton4`: the bytes before `tp`, and `*tp`. -/
structure Octets where
  tmp : List UInt8
  tp : UInt8
  saw_digit : Bool
  octets : Nat
  deriving DecidableEq, Repr

def Octets.start : Octets := ⟨[], 0, false, 0⟩

/-- One turn of the loop. -/
def Octets.next (o : Octets) (ch : Char) : Except Err Octets :=
  match strchr digits ch with
  | some d =>
    let nw := o.tp.toNat * 10 + d
    if o.saw_digit ∧ o.tp = 0 then .error .EINVAL
    else if nw > 255 then .error .EINVAL
    else if o.saw_digit then .ok { o with tp := .ofNat nw }
    else if o.octets + 1 > 4 then .error .EINVAL
    else .ok { o with tp := .ofNat nw, octets := o.octets + 1, saw_digit := true }
  | none =>
    if ch = '.' ∧ o.saw_digit then
      if o.octets = 4 then .error .EINVAL
      else .ok { o with tmp := o.tmp ++ [o.tp], tp := 0, saw_digit := false }
    else .error .EINVAL

def inetPton4 (src : List Char) : Except Err In4Addr := do
  let o ← run Octets.next Octets.start src
  if o.octets < 4 then .error .EINVAL else memcpy4 (o.tmp ++ [o.tp])

/-! ## `inet_pton6` -/

def xdigitsL : List Char := "0123456789abcdef".toList

def xdigitsU : List Char := "0123456789ABCDEF".toList

/-- `pch - xdigits`. -/
def xdigit (ch : Char) : Option Nat :=
  match strchr xdigitsL ch with
  | some d => some d
  | none => strchr xdigitsU ch

/-- The locals of `inet_pton6`: the bytes before `tp`, and `colonp` as a place in them. -/
structure Groups where
  tmp : List UInt8
  colonp : Option Nat
  curtok : List Char
  seen_xdigits : Nat
  val : Nat
  deriving DecidableEq, Repr

/-- The two bytes of `val` go to `tp`, when there is room for them. -/
def Groups.push (g : Groups) : Except Err Groups :=
  if g.tmp.length + 2 > 16 then .error .EINVAL
  else .ok { g with tmp := g.tmp ++ [.ofNat (g.val >>> 8) &&& 0xff, .ofNat g.val &&& 0xff] }

/-- The loop over the characters that are left. -/
def Groups.loop (g : Groups) : List Char → Except Err Groups
  | [] => .ok g
  | ch :: src =>
    match xdigit ch with
    | some d =>
      if g.seen_xdigits + 1 > 4 then .error .EINVAL
      else loop { g with val := g.val <<< 4 ||| d, seen_xdigits := g.seen_xdigits + 1 } src
    | none =>
      if ch = ':' then
        if g.seen_xdigits = 0 then
          if g.colonp.isSome then .error .EINVAL
          else loop { g with curtok := src, colonp := some g.tmp.length } src
        else if src = [] then .error .EINVAL
        else do
          let g ← { g with curtok := src }.push
          loop { g with seen_xdigits := 0, val := 0 } src
      else if ch = '.' ∧ g.tmp.length + 4 ≤ 16 then
        -- The token is read again, up to the NUL.
        match inetPton4 g.curtok with
        | .ok a => .ok { g with tmp := g.tmp ++ a.bytes, seen_xdigits := 0 }
        | .error _ => .error .EINVAL
      else .error .EINVAL

/-- One turn of the loop that shifts the `n` bytes from `colonp` on to the end:
`endp[- i] = colonp[n - i]; colonp[n - i] = 0;`. -/
def shiftOne (colonp n : Nat) (tmp : List UInt8) (i : Nat) : Except Err (List UInt8) :=
  let last := 16 - i
  let at_n_i := colonp + n - i
  -- Both places have to be in `tmp`; `Nat` would read a place before it as its first one.
  if i ≤ 16 ∧ last < tmp.length ∧ i ≤ colonp + n ∧ at_n_i < tmp.length then
    .ok ((tmp.set last (tmp.getD at_n_i 0)).set at_n_i 0)
  else .error .outside

/-- The turns for `i` from 1 to `n`. -/
def shift (colonp n : Nat) (tmp : List UInt8) : Except Err (List UInt8) :=
  (List.range' 1 n).foldlM (shiftOne colonp n) tmp

/-- What follows the loop. -/
def Groups.finish (g : Groups) : Except Err In6Addr := do
  let g ← if g.seen_xdigits ≠ 0 then g.push else .ok g
  match g.colonp with
  | some colonp =>
    if g.tmp.length = 16 then .error .EINVAL
    else
      let n := g.tmp.length - colonp
      shift colonp n (g.tmp ++ List.replicate (16 - g.tmp.length) 0) >>= memcpy16
  | none => if g.tmp.length ≠ 16 then .error .EINVAL else memcpy16 g.tmp

/-- The function after the special handling of a leading `::`. -/
def inetPton6From (src : List Char) : Except Err In6Addr := do
  let g ← (⟨[], none, src, 0, 0⟩ : Groups).loop src
  g.finish

def inetPton6 : List Char → Except Err In6Addr
  | ':' :: src =>
    match src with
    | ':' :: _ => inetPton6From src
    | _ => .error .EINVAL
  | src => inetPton6From src

/-! ## `uv_inet_ntop` and `uv_inet_pton` -/

inductive Family
  | AF_INET
  | AF_INET6
  | other
  deriving DecidableEq, Repr

/-- What the pointer to an address points to. -/
inductive Addr
  | in4 (a : In4Addr)
  | in6 (a : In6Addr)
  | other
  deriving DecidableEq

def uvInetNtop (src : Addr) (size : Nat) : Except Err (List Char) :=
  match src with
  | .in4 a => inetNtop4 a size
  | .in6 a => inetNtop6 a size
  | .other => .error .EAFNOSUPPORT

def uvInetPton (af : Family) (src : List Char) : Except Err Addr :=
  match af with
  | .AF_INET => .in4 <$> inetPton4 src
  | .AF_INET6 => .in6 <$>
    match strchr src '%' with
    | some len => if len > UV__INET6_ADDRSTRLEN - 1 then .error .EINVAL else inetPton6 (src.take len)
    | none => inetPton6 src
  | .other => .error .EAFNOSUPPORT

/-! ## uv-common.c -/

/-- `struct sockaddr_in` and `struct sockaddr_in6`, with the port in network order. -/
structure Sockaddr where
  sin_port : List UInt8
  sin_addr : Addr
  scope_id : Nat
  deriving DecidableEq

def htons (port : Int) : List UInt8 :=
  let p := (UInt16.ofInt port).toNat
  [.ofNat (p >>> 8), .ofNat p]

def uvIp4Addr (ip : List Char) (port : Int) : Except Err Sockaddr := do
  let a ← uvInetPton .AF_INET ip
  .ok ⟨htons port, a, 0⟩

/-- The address is read from a copy of at most 39 characters when there is a zone. The zone is looked
up by `if_nametoindex`. -/
def uvIp6Addr (if_nametoindex : List Char → Nat) (ip : List Char) (port : Int) :
    Except Err Sockaddr := do
  match strchr ip '%' with
  | some zone_index =>
    let address_part_size := if zone_index ≥ 40 then 40 - 1 else zone_index
    let a ← uvInetPton .AF_INET6 (ip.take address_part_size)
    .ok ⟨htons port, a, if_nametoindex (ip.drop (zone_index + 1))⟩
  | none =>
    let a ← uvInetPton .AF_INET6 ip
    .ok ⟨htons port, a, 0⟩

/-- `uv_ip4_name`, `uv_ip6_name` and `uv_ip_name`. -/
def uvIpName (src : Sockaddr) (size : Nat) : Except Err (List Char) := uvInetNtop src.sin_addr size

end linuxc.inet
