import Roster.Assoc

/-!
# Roster.Json.Value

Values of free form: what metadata holds.

* `Json`      — integers and doubles are different values; a double is kept by its bits.
* `Json.same` — equality of values: the fields of an object are in key order, and the two zeros
  are one value.
* `Json.mkObj` — an object from pairs in any order; the last of two equal keys wins.
-/

namespace Roster

inductive Json where
  | null
  | bool (b : Bool)
  | int (n : Int)
  | float (bits : UInt64)
  | str (s : String)
  | arr (items : List Json)
  | obj (fields : List (String × Json))
deriving Inhabited

namespace Json

def mkObj (ps : List (String × Json)) : Json :=
  .obj (Assoc.ofList ps)

/-- Doubles that hold the same number: the same bits, or a zero each. -/
def sameFloat (x y : UInt64) : Bool :=
  x == y || (x <<< 1 == 0 && y <<< 1 == 0)

mutual

def same : Json → Json → Bool
  | .null, .null => true
  | .bool a, .bool b => a == b
  | .int a, .int b => a == b
  | .float a, .float b => sameFloat a b
  | .str a, .str b => a == b
  | .arr a, .arr b => sameItems a b
  | .obj a, .obj b => sameFields a b
  | _, _ => false

def sameItems : List Json → List Json → Bool
  | [], [] => true
  | x :: xs, y :: ys => same x y && sameItems xs ys
  | _, _ => false

def sameFields : List (String × Json) → List (String × Json) → Bool
  | [], [] => true
  | (j, x) :: xs, (k, y) :: ys => j == k && same x y && sameFields xs ys
  | _, _ => false

end

instance : BEq Json := ⟨same⟩

def asBool? : Json → Option Bool
  | .bool b => some b
  | _ => none

/-! ## `same` is an equivalence -/

theorem sameFloat_refl (x : UInt64) : sameFloat x x = true := by
  simp [sameFloat]

mutual

theorem same_refl : ∀ v : Json, same v v = true
  | .null => rfl
  | .bool _ => by simp [same]
  | .int _ => by simp [same]
  | .float x => by simp [same, sameFloat_refl]
  | .str _ => by simp [same]
  | .arr items => by simp [same, sameItems_refl items]
  | .obj fields => by simp [same, sameFields_refl fields]

theorem sameItems_refl : ∀ xs : List Json, sameItems xs xs = true
  | [] => rfl
  | x :: xs => by simp [sameItems, same_refl x, sameItems_refl xs]

theorem sameFields_refl : ∀ fs : List (String × Json), sameFields fs fs = true
  | [] => rfl
  | (k, v) :: fs => by simp [sameFields, same_refl v, sameFields_refl fs]

end

/-! ## What equal values have in common -/

theorem asBool?_congr {v w : Json} (h : same v w = true) : asBool? v = asBool? w := by
  cases v <;> cases w <;> simp_all [same, asBool?]

theorem asBool?_find?_congr {k : String} {xs ys : List (String × Json)} (h : sameFields xs ys = true) :
    (Assoc.find? k xs).bind asBool? = (Assoc.find? k ys).bind asBool? := by
  induction xs generalizing ys with
  | nil =>
    cases ys with
    | nil => rfl
    | cons y ys => simp [sameFields] at h
  | cons x xs ih =>
    cases ys with
    | nil => simp [sameFields] at h
    | cons y ys =>
      obtain ⟨j, v⟩ := x
      obtain ⟨l, w⟩ := y
      simp only [sameFields, Bool.and_eq_true, beq_iff_eq] at h
      obtain ⟨⟨rfl, hv⟩, hrest⟩ := h
      simp only [Assoc.find?]
      split
      · exact asBool?_congr hv
      · exact ih hrest

end Json

end Roster
