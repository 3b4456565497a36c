/-!
# Roster.Quantity

The arithmetic that shares and deadlines are computed in: doubles when serving, rationals when
reasoning.
-/

namespace Roster

class Quantity (τ : Type) where
  ofNat : Nat → τ
  add : τ → τ → τ
  mul : τ → τ → τ
  div : τ → τ → τ
  positive : τ → Bool
  order : τ → τ → Ordering

namespace Quantity

variable {τ : Type} [Quantity τ]

def atMostOne (x : τ) : τ :=
  if order x (ofNat 1) = .gt then ofNat 1 else x

/-- The time between two turns of an entry of weight `w`. -/
def period (w : τ) : τ :=
  div (ofNat 1) w

/-- Doubles by sign and magnitude, as a word that orders them. -/
def floatKey (x : Float) : UInt64 :=
  let bits := x.toBits
  if bits >>> 63 = 0 then bits ||| 0x8000000000000000 else ~~~bits

instance : Quantity Float where
  ofNat := Float.ofNat
  add := (· + ·)
  mul := (· * ·)
  div := (· / ·)
  positive x := 0.0 < x
  order x y := compare (floatKey x) (floatKey y)

instance : Quantity Rat where
  ofNat n := (n : Rat)
  add := (· + ·)
  mul := (· * ·)
  div := (· / ·)
  positive x := 0 < x
  order x y := if x < y then .lt else if x = y then .eq else .gt

end Quantity

end Roster
