import Roster.Fault

/-!
# Roster.Grouping

Hosts grouped by locality. With a local locality, the first group is the local one.

* `ofGroups?` — refuses a local locality without any group.
* `filter`    — one grouping for each predicate, from one pass over the hosts; empty groups stay.
-/

namespace Roster

structure Grouping (α : Type) where
  hasLocal : Bool := false
  groups : List (List α) := []
deriving DecidableEq, Inhabited

namespace Grouping

variable {α : Type}

def empty : Grouping α := {}

def ofGroups? (groups : List (List α)) (hasLocal : Bool) : Except Fault (Grouping α) :=
  if hasLocal ∧ groups = [] then .error .localWithoutGroups else .ok ⟨hasLocal, groups⟩

def single (hosts : List α) (hasLocal : Bool) : Grouping α :=
  ⟨hasLocal, [hosts]⟩

def size (g : Grouping α) : Nat := g.groups.length

def isEmpty (g : Grouping α) : Bool := g.groups.isEmpty

def flatten (g : Grouping α) : List α := g.groups.flatten

/-- The number of hosts in the group at `i`, 0 past the last group. -/
def sizeAt (g : Grouping α) (i : Nat) : Nat :=
  (g.groups[i]?.getD []).length

/-- One list for each predicate: the items that satisfy it. -/
def sift (ps : List (α → Bool)) : List α → List (List α)
  | [] => ps.map fun _ => []
  | x :: rest =>
    List.zipWith (fun p kept => if p x then x :: kept else kept) ps (sift ps rest)

def siftGroups (ps : List (α → Bool)) : List (List α) → List (List (List α))
  | [] => ps.map fun _ => []
  | group :: rest => List.zipWith (· :: ·) (sift ps group) (siftGroups ps rest)

def filter (g : Grouping α) (ps : List (α → Bool)) : List (Grouping α) :=
  (siftGroups ps g.groups).map fun groups => ⟨g.hasLocal, groups⟩

end Grouping

end Roster
