import Roster.Json.Value
import Roster.Binary64
import Roster.Text

/-!
# Roster.Json.Number

Reading numbers. A number without point and exponent that fits 64 bits is an integer; any other is a
double.

* `scaled?` — a significand times a power of ten. Both are rounded to doubles before they are
  multiplied or divided, and the outcome is rounded again, so the last place may be off.
* `number`  — a number with its sign; one past the largest double is refused.
-/

namespace Roster.Json

def withSign (negative : Bool) (bits : UInt64) : UInt64 :=
  if negative then bits ||| 0x8000000000000000 else bits

/-! ## Doubles -/

def maxPower : Nat := 308

def powerOfTen? (e : Nat) : Option UInt64 :=
  Binary64.ofRatio? (Nat.pow 10 e) 1

/-- Divides by the greatest power of ten so often, and then by `10 ^ e`. -/
def lower? (e : Nat) : Nat → UInt64 → Option UInt64
  | 0, bits => (powerOfTen? e).bind (Binary64.quotient? bits)
  | n + 1, bits =>
    if bits = 0 then some 0
    else ((powerOfTen? maxPower).bind (Binary64.quotient? bits)).bind (lower? e n)

def scaled? (significand : Nat) (exponent : Int) : Option UInt64 :=
  match Binary64.ofRatio? significand 1 with
  | none => none
  | some bits =>
    if significand = 0 then some 0
    else if exponent < 0 then
      let e := (-exponent).toNat
      let n := (e - 1) / maxPower
      lower? (e - n * maxPower) n bits
    else if exponent ≤ maxPower then (powerOfTen? exponent.toNat).bind (Binary64.product? bits)
    else none

/-! ## Numerals -/

/-- Digits behind a point; at least one. -/
def fraction : List Char → Option (List Char × List Char)
  | '.' :: cs =>
    match cs.takeWhile Char.isDigit with
    | [] => none
    | ds => some (ds, cs.dropWhile Char.isDigit)
  | cs => some ([], cs)

/-- A signed power of ten; at least one digit after the letter. -/
def exponentDigits (negative : Bool) (cs : List Char) : Option (Int × List Char) :=
  match cs.takeWhile Char.isDigit with
  | [] => none
  | ds =>
    let n : Int := Text.decimal ds
    some (if negative then -n else n, cs.dropWhile Char.isDigit)

def exponent (cs : List Char) : Option (Int × List Char) :=
  match cs with
  | c :: rest =>
    if c == 'e' || c == 'E' then
      match rest with
      | '+' :: rest => exponentDigits false rest
      | '-' :: rest => exponentDigits true rest
      | rest => exponentDigits false rest
    else some (0, cs)
  | [] => some (0, [])

/-- Appends digits to a significand as long as it fits 64 bits; the digits left over. -/
def absorb (n : Nat) : List Char → Nat × List Char
  | [] => (n, [])
  | c :: cs =>
    let m := 10 * n + (c.toNat - '0'.toNat)
    if m < UInt64.size then absorb m cs else (n, c :: cs)

/-- The integer of 64 bits with a magnitude that fits them; for minus zero, and past the least integer,
the double. -/
def integer (negative : Bool) (n : Nat) : Option Json :=
  if !negative then some (.int n)
  else if 0 < n ∧ n ≤ 1 <<< 63 then some (.int (-(n : Int)))
  else (Binary64.ofRatio? n 1).map fun b => .float (withSign true b)

/-- Digits of the whole part that do not fit raise the exponent; digits of the fraction that do not fit are
dropped. -/
def double (negative : Bool) (whole frac : List Char) (e : Int) : Option Json :=
  let w := absorb 0 whole
  let f := absorb w.1 frac
  (scaled? f.1 (e + w.2.length - (frac.length - f.2.length : Nat))).map fun b =>
    .float (withSign negative b)

def unsigned (negative : Bool) (cs : List Char) : Option (Json × List Char) :=
  let whole := cs.takeWhile Char.isDigit
  let rest := cs.dropWhile Char.isDigit
  let leadingZero := whole.head? = some '0' ∧ 1 < whole.length
  if whole = [] ∨ leadingZero then none
  else
    match fraction rest with
    | none => none
    | some (frac, afterFrac) =>
      match exponent afterFrac with
      | none => none
      | some (e, afterExp) =>
        let isWhole := afterExp.length = rest.length ∧ (absorb 0 whole).2 = []
        let v := if isWhole then integer negative (absorb 0 whole).1 else double negative whole frac e
        v.map (·, afterExp)

def number : List Char → Option (Json × List Char)
  | '-' :: cs => unsigned true cs
  | cs => unsigned false cs

end Roster.Json
