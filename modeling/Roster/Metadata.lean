import Roster.Json.Value

/-!
# Roster.Metadata

Free data of a host, by filter and key, both in increasing order. Two blobs are equal when they hold the
same values.

* `ofFilters`        — from filters as written.
* `insert`, `value?` — at a filter and key.
* `canary`           — the flag that marks a canary host.
-/

namespace Roster

structure Metadata where
  filters : List (String × List (String × Json)) := []
  ordered : Assoc.Ordered filters := by exact .nil
  fields_ordered : ∀ p ∈ filters, Assoc.Ordered p.2 := by simp

namespace Metadata

def empty : Metadata := {}

instance : Inhabited Metadata := ⟨empty⟩

/-- Filters and their fields in any order; the last of two equal keys wins. -/
def ofFilters (fs : List (String × List (String × Json))) : Metadata where
  filters := Assoc.ofList (fs.map fun p => (p.1, Assoc.ofList p.2))
  ordered := Assoc.ordered_ofList _
  fields_ordered p hp := by
    obtain ⟨q, _, rfl⟩ := List.mem_map.1 (Assoc.mem_of_mem_ofList hp)
    exact Assoc.ordered_ofList _

def lbFilter : String := "envoy.lb"

def canaryKey : String := "canary"

def same (a b : Metadata) : Bool :=
  go a.filters b.filters
where
  go : List (String × List (String × Json)) → List (String × List (String × Json)) → Bool
    | [], [] => true
    | (f, x) :: xs, (g, y) :: ys => f == g && Json.sameFields x y && go xs ys
    | _, _ => false

instance : BEq Metadata := ⟨same⟩

def isEmpty (m : Metadata) : Bool :=
  m.filters.isEmpty

def value? (m : Metadata) (filter key : String) : Option Json :=
  (Assoc.find? filter m.filters).bind (Assoc.find? key)

def insert (m : Metadata) (filter key : String) (value : Json) : Metadata where
  filters := Assoc.upsert filter (fun fields => Assoc.insert key value (fields.getD [])) m.filters
  ordered := m.ordered.upsert
  fields_ordered p hp := by
    rcases Assoc.mem_upsert hp with hp | rfl | ⟨q, hq, rfl⟩
    · exact m.fields_ordered p hp
    · exact Assoc.Ordered.nil.insert
    · exact (m.fields_ordered q hq).insert

def canary (m : Metadata) : Bool :=
  ((m.value? lbFilter canaryKey).bind Json.asBool?).getD false

theorem canary_iff (m : Metadata) :
    m.canary = true ↔ m.value? "envoy.lb" "canary" = some (.bool true) := by
  rw [canary, lbFilter, canaryKey]
  cases m.value? "envoy.lb" "canary" with
  | none => simp
  | some v => cases v <;> simp [Json.asBool?]

theorem ofFilters_filters (m : Metadata) : ofFilters m.filters = m := by
  obtain ⟨fs, ordered, fields_ordered⟩ := m
  have h : (fs.map fun p => (p.1, Assoc.ofList p.2)) = fs := by
    conv => rhs; rw [← List.map_id fs]
    exact List.map_congr_left fun p hp => by simp [Assoc.ofList_eq_self (fields_ordered p hp)]
  simp [ofFilters, h, Assoc.ofList_eq_self ordered]

theorem same_refl (m : Metadata) : same m m = true := by
  unfold same
  generalize m.filters = fs
  induction fs with
  | nil => rfl
  | cons p fs ih => simp [same.go, Json.sameFields_refl, ih]

theorem canary_congr {m n : Metadata} (h : same m n = true) : m.canary = n.canary := by
  have hgo : ∀ (fs gs : List (String × List (String × Json))), same.go fs gs = true →
      ((Assoc.find? lbFilter fs).bind (Assoc.find? canaryKey)).bind Json.asBool? =
        ((Assoc.find? lbFilter gs).bind (Assoc.find? canaryKey)).bind Json.asBool? := by
    intro fs
    induction fs with
    | nil =>
      intro gs hgs
      cases gs with
      | nil => rfl
      | cons g gs => simp [same.go] at hgs
    | cons f fs ih =>
      intro gs hgs
      cases gs with
      | nil => simp [same.go] at hgs
      | cons g gs =>
        simp only [same.go, Bool.and_eq_true, beq_iff_eq] at hgs
        obtain ⟨⟨hkey, hfields⟩, hrest⟩ := hgs
        simp only [Assoc.find?, ← hkey]
        split
        · exact Json.asBool?_find?_congr hfields
        · exact ih gs hrest
  rw [canary, canary, value?, value?, hgo _ _ h]

end Metadata

end Roster
