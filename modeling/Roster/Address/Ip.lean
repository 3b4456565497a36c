import Roster.Text

/-!
# Roster.Address.Ip

Internet addresses and their texts.

* `IPv4.ofChars?` — four numbers up to 255 without leading zeros, separated by points.
* `IPv6.ofChars?` — eight groups of one to four hexadecimal digits; one pair of colons may stand for
  one or more zero groups, and the last two groups may be written as an `IPv4`.
* `IPv6.chars`  — lower case, the first longest run of two or more zero groups left out; an address
  that maps an `IPv4` shows it.
-/

namespace Roster

structure IPv4 where
  a : UInt8
  b : UInt8
  c : UInt8
  d : UInt8
deriving DecidableEq, Inhabited

structure IPv6 where
  groups : List UInt16
  length_groups : groups.length = 8
deriving DecidableEq

namespace IPv4

def unspecified : IPv4 := ⟨0, 0, 0, 0⟩

def octets (a : IPv4) : List UInt8 :=
  [a.a, a.b, a.c, a.d]

def octet? (cs : List Char) : Option UInt8 :=
  match Text.decimal? cs with
  | none => none
  | some n =>
    if cs.length ≤ 3 ∧ n ≤ 255 ∧ (cs.head? = some '0' → cs.length = 1) then some (UInt8.ofNat n)
    else none

def ofChars? (cs : List Char) : Option IPv4 :=
  match Text.split '.' cs with
  | [a, b, c, d] =>
    match octet? a, octet? b, octet? c, octet? d with
    | some a, some b, some c, some d => some ⟨a, b, c, d⟩
    | _, _, _, _ => none
  | _ => none

def chars (a : IPv4) : List Char :=
  Nat.toDigits 10 a.a.toNat ++ '.' :: Nat.toDigits 10 a.b.toNat ++ '.' ::
    Nat.toDigits 10 a.c.toNat ++ '.' :: Nat.toDigits 10 a.d.toNat

def high (a : IPv4) : UInt16 := a.a.toUInt16 * 256 + a.b.toUInt16

def low (a : IPv4) : UInt16 := a.c.toUInt16 * 256 + a.d.toUInt16

def ofHalves (high low : UInt16) : IPv4 :=
  ⟨(high >>> 8).toUInt8, high.toUInt8, (low >>> 8).toUInt8, low.toUInt8⟩

end IPv4

namespace IPv6

/-! ## Reading -/

def group? (cs : List Char) : Option UInt16 :=
  if cs.length ≤ 4 then (Text.hex? cs).map UInt16.ofNat else none

/-- Groups from the pieces between colons; the last piece may be an `IPv4` when `dotted`. -/
def pieces? (dotted : Bool) : List (List Char) → Option (List UInt16)
  | [] => some []
  | [cs] =>
    match group? cs with
    | some g => some [g]
    | none =>
      if dotted then (IPv4.ofChars? cs).map fun a => [a.high, a.low] else none
  | cs :: rest =>
    match group? cs, pieces? dotted rest with
    | some g, some gs => some (g :: gs)
    | _, _ => none

def groups? (dotted : Bool) (cs : List Char) : Option (List UInt16) :=
  if cs = [] then some [] else pieces? dotted (Text.split ':' cs)

def cutPair : List Char → Option (List Char × List Char)
  | ':' :: ':' :: rest => some ([], rest)
  | c :: rest => (cutPair rest).map fun p => (c :: p.1, p.2)
  | [] => none

def ofGroups? (gs : List UInt16) : Option IPv6 :=
  if h : gs.length = 8 then some ⟨gs, h⟩ else none

def ofChars? (cs : List Char) : Option IPv6 :=
  match cutPair cs with
  | none => (groups? true cs).bind ofGroups?
  | some (before, after) =>
    match groups? false before, groups? true after with
    | some head, some tail =>
      if head.length + tail.length ≤ 7 then
        ofGroups? (head ++ List.replicate (8 - head.length - tail.length) 0 ++ tail)
      else none
    | _, _ => none

/-! ## Writing -/

def zerosAhead (gs : List UInt16) : Nat :=
  (gs.takeWhile (· = 0)).length

/-- Start and length of the first longest run of zero groups, the groups starting at index `i`. -/
def longestRun (i : Nat) : List UInt16 → Nat × Nat
  | [] => (i, 0)
  | g :: gs =>
    let here := zerosAhead (g :: gs)
    let later := longestRun (i + 1) gs
    if later.2 ≤ here then (i, here) else later

def joined : List UInt16 → List Char
  | [] => []
  | [g] => Nat.toDigits 16 g.toNat
  | g :: gs => Nat.toDigits 16 g.toNat ++ ':' :: joined gs

/-- The `IPv4` an address maps: five zero groups and one of all ones come before it. -/
def mapped? (a : IPv6) : Option IPv4 :=
  match a.groups with
  | [0, 0, 0, 0, 0, 0xffff, high, low] => some (IPv4.ofHalves high low)
  | _ => none

def chars (a : IPv6) : List Char :=
  match a.mapped? with
  | some v4 => ':' :: ':' :: 'f' :: 'f' :: 'f' :: 'f' :: ':' :: v4.chars
  | none =>
    let run := longestRun 0 a.groups
    if 1 < run.2 then
      joined (a.groups.take run.1) ++ ':' :: ':' :: joined (a.groups.drop (run.1 + run.2))
    else joined a.groups

end IPv6

end Roster
