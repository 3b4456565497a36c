/-!
# Roster.Binary64

Doubles by their bits, in exact arithmetic on natural numbers.

* `magnitude` — a finite double without its sign, as `m * 2 ^ q`.
* `ofRatio?`  — the nearest double to a quotient, ties to even; `none` past the largest.
* `product?`, `quotient?` — of two doubles, rounded once.
* `shortest`  — the fewest decimal digits that read back as the same double.
-/

namespace Roster.Binary64

def negative (bits : UInt64) : Bool :=
  bits >>> 63 == 1

def isNaN (bits : UInt64) : Bool :=
  (bits &&& 0x7fffffffffffffff) > 0x7ff0000000000000

def magnitude (bits : UInt64) : Nat × Int :=
  let e := ((bits >>> 52) &&& 0x7ff).toNat
  let f := (bits &&& 0xfffffffffffff).toNat
  if e = 0 then (f, -1074) else (f + 0x10000000000000, (e : Int) - 1075)

/-- `num / den * 2 ^ (-q)` as a quotient of natural numbers. -/
def scaled (num den : Nat) (q : Int) : Nat × Nat :=
  if 0 ≤ q then (num, den <<< q.toNat) else (num <<< (-q).toNat, den)

/-- The nearest integer to a quotient, ties to even. -/
def roundDiv (num den : Nat) : Nat :=
  let m := num / den
  let r := 2 * (num % den)
  if r < den then m
  else if r > den then m + 1
  else m + m % 2

/-- The exponent of the last place of the nearest double to `num / den`. -/
def lastPlace (num den : Nat) : Int :=
  let e : Int := (num.log2 : Int) - (den.log2 : Int)
  let s := scaled num den e
  let e := if s.1 < s.2 then e - 1 else e
  max (e - 52) (-1074)

def ofRatio? (num den : Nat) : Option UInt64 :=
  if num = 0 then some 0
  else
    let q := lastPlace num den
    let s := scaled num den q
    let bits := (q + 1074).toNat <<< 52 + roundDiv s.1 s.2
    if bits < 0x7ff0000000000000 then some (UInt64.ofNat bits) else none

/-- A finite double without its sign, as a quotient. -/
def ratio (bits : UInt64) : Nat × Nat :=
  let mq := magnitude bits
  if 0 ≤ mq.2 then (mq.1 <<< mq.2.toNat, 1) else (mq.1, 1 <<< (-mq.2).toNat)

/-- The nearest double to the product of two magnitudes; `none` past the largest. -/
def product? (x y : UInt64) : Option UInt64 :=
  ofRatio? ((ratio x).1 * (ratio y).1) ((ratio x).2 * (ratio y).2)

def quotient? (x y : UInt64) : Option UInt64 :=
  ofRatio? ((ratio x).1 * (ratio y).2) ((ratio x).2 * (ratio y).1)

/-- The nearest double to `digits * 10 ^ exponent`. Exponents far outside the range of doubles are
settled without computing the power. -/
def ofDecimal? (digits : Nat) (exponent : Int) : Option UInt64 :=
  let size : Int := (digits.log2 : Int) / 3 + 1
  if digits = 0 then some 0
  else if exponent + size < -400 then some 0
  else if exponent > 400 then none
  else if 0 ≤ exponent then ofRatio? (digits * Nat.pow 10 exponent.toNat) 1
  else ofRatio? digits (Nat.pow 10 (-exponent).toNat)

/-! ## Shortest digits -/

/-- `x * 10 ^ (-k)` for `x = num / den`. -/
def shifted (num den : Nat) (k : Int) : Nat × Nat :=
  if 0 ≤ k then (num, den * Nat.pow 10 k.toNat) else (num * Nat.pow 10 (-k).toNat, den)

/-- Raises `k` until `num / den < 10 ^ k`, at most `fuel` times. -/
def raise (num den : Nat) : Nat → Int → Int
  | 0, k => k
  | fuel + 1, k =>
    let s := shifted num den k
    if s.1 < s.2 then k else raise num den fuel (k + 1)

/-- The least `k` with `num / den < 10 ^ k`. -/
def decimalExponent (num den : Nat) : Int :=
  let e : Int := (num.log2 : Int) - (den.log2 : Int)
  raise num den 4 ((e * 30103) / 100000 - 1)

/-- The reals that round to a double, and the double itself, over one denominator. -/
structure Interval where
  low : Nat
  value : Nat
  high : Nat
  den : Nat
  closed : Bool

def interval (m : Nat) (q : Int) : Interval :=
  let below := if m = 0x10000000000000 ∧ q > -1074 then 1 else 2
  let up := q.toNat
  { low := (4 * m - below) <<< up, value := (4 * m) <<< up, high := (4 * m + 2) <<< up,
    den := 4 <<< (-q).toNat, closed := m % 2 = 0 }

def Interval.holds (i : Interval) (d : Nat) (k : Int) : Bool :=
  let x := if 0 ≤ k then d * Nat.pow 10 k.toNat * i.den else d * i.den
  let scale := if 0 ≤ k then 1 else Nat.pow 10 (-k).toNat
  if i.closed then i.low * scale ≤ x && x ≤ i.high * scale
  else i.low * scale < x && x < i.high * scale

/-- The neighbour of the double on the grid of `10 ^ k` that reads back, the nearer one if both do. -/
def Interval.onGrid (i : Interval) (k : Int) : Option Nat :=
  let s := shifted i.value i.den k
  let d := s.1 / s.2
  let near := if 2 * (s.1 % s.2) ≤ s.2 then d else d + 1
  let far := if 2 * (s.1 % s.2) ≤ s.2 then d + 1 else d
  if i.holds near k then some near
  else if i.holds far k then some far
  else none

def Interval.search (i : Interval) : Nat → Int → Nat × Int
  | 0, k => ((shifted i.value i.den k).1 / (shifted i.value i.den k).2, k)
  | fuel + 1, k =>
    match i.onGrid k with
    | some d => (d, k)
    | none => i.search fuel (k - 1)

/-- Drops trailing zeros of a decimal, at most `fuel` of them. -/
def trim : Nat → Nat → Int → Nat × Int
  | 0, d, k => (d, k)
  | fuel + 1, d, k => if d ≠ 0 ∧ d % 10 = 0 then trim fuel (d / 10) (k + 1) else (d, k)

/-- Digits and decimal exponent of a finite double's magnitude: `d * 10 ^ k` with the fewest
digits that read back. -/
def shortest (bits : UInt64) : Nat × Int :=
  let mq := magnitude bits
  if mq.1 = 0 then (0, 0)
  else
    let i := interval mq.1 mq.2
    let dk := i.search 17 (decimalExponent i.value i.den - 1)
    trim 20 dk.1 dk.2

end Roster.Binary64
