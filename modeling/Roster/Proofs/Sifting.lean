import Mathlib.Data.List.Forall2
import Mathlib.Data.List.ModifyLast
import Roster.Proofs.Arranging

/-!
# Roster.Proofs.Sifting

Filtering by several predicates in one pass over the hosts is filtering by each of them on its own.

* `Grouping.Keeps` — a part that stays in step with its grouping and keeps what satisfies a predicate.
* `Grouping.sweep` — the pass as it goes, from the first host to the last: a partly built grouping for
  each predicate, whose last group takes the hosts of the group that is being read.
* `offer_kept`, `sweepGroup_kept` — all along, each of them is what its predicate keeps of what was read.
* `sweep_eq` — so it is at the end, and that is what `filter` gives.
* `groupsByHealth_eq_regroup` — splitting a grouping by health is splitting each of its groups.
-/

namespace Roster

namespace Grouping

variable {α : Type}

/-- The same groups at the same places, each with the hosts that satisfy the predicate, in order. -/
structure Keeps (g : Grouping α) (p : α → Bool) (part : Grouping α) : Prop where
  hasLocal : part.hasLocal = g.hasLocal
  size : part.size = g.size
  groups : ∀ i : Nat, part.groups[i]? = (g.groups[i]?).map (List.filter p)

theorem keeps_kept (g : Grouping α) (p : α → Bool) : g.Keeps p (g.kept p) :=
  ⟨rfl, List.length_map _, fun _ => List.getElem?_map⟩

/-! ## The pass -/

def append (g : Grouping α) (group : List α) : Grouping α :=
  { g with groups := g.groups ++ [group] }

def push (g : Grouping α) (x : α) : Grouping α :=
  { g with groups := g.groups.modifyLast (· ++ [x]) }

/-- A host goes into every grouping whose predicate it satisfies. -/
def offer (ps : List (α → Bool)) (parts : List (Grouping α)) (x : α) : List (Grouping α) :=
  List.zipWith (fun p part => if p x then part.push x else part) ps parts

/-- One group, host by host. -/
def sweepGroup (ps : List (α → Bool)) (parts : List (Grouping α)) (group : List α) :
    List (Grouping α) :=
  group.foldl (offer ps) (parts.map fun part => part.append [])

def sweep (g : Grouping α) (ps : List (α → Bool)) : List (Grouping α) :=
  g.groups.foldl (sweepGroup ps) (ps.map fun _ => ⟨g.hasLocal, []⟩)

variable (g : Grouping α) (p : α → Bool) (ps : List (α → Bool))

theorem push_append (seen : List α) (x : α) : (g.append seen).push x = g.append (seen ++ [x]) := by
  simp only [push, append, List.modifyLast_concat]

theorem kept_append (group : List α) : (g.append group).kept p = (g.kept p).append (group.filter p) := by
  simp only [kept, append, List.map_append, List.map_cons, List.map_nil]

/-- One step: what was read before is `g` and the hosts `seen` of the next group. -/
theorem offer_kept (seen : List α) (x : α) :
    offer ps (ps.map (g.append seen).kept) x = ps.map (g.append (seen ++ [x])).kept := by
  rw [offer, List.zipWith_map_right, List.zipWith_self]
  refine List.map_congr_left fun p _ => ?_
  rw [kept_append, kept_append, List.filter_append]
  by_cases hx : p x
  · rw [if_pos hx, push_append, List.filter_cons_of_pos hx, List.filter_nil]
  · rw [if_neg hx, List.filter_cons_of_neg hx, List.filter_nil, List.append_nil]

theorem foldl_offer_kept (seen group : List α) :
    group.foldl (offer ps) (ps.map (g.append seen).kept) = ps.map (g.append (seen ++ group)).kept := by
  -- the group grows while it is read, so what was seen of it is general
  induction group generalizing seen with
  | nil => rw [List.foldl_nil, List.append_nil]
  | cons x group ih => rw [List.foldl_cons, offer_kept, ih, List.append_assoc, List.singleton_append]

theorem sweepGroup_kept (group : List α) :
    sweepGroup ps (ps.map g.kept) group = ps.map (g.append group).kept := by
  have hopened : (ps.map g.kept).map (fun part => part.append []) = ps.map (g.append []).kept := by
    rw [List.map_map]
    exact List.map_congr_left fun p _ => (g.kept_append p []).symm
  rw [sweepGroup, hopened, foldl_offer_kept, List.nil_append]

theorem foldl_sweepGroup_kept (groups : List (List α)) :
    groups.foldl (sweepGroup ps) (ps.map g.kept) =
      ps.map (kept ⟨g.hasLocal, g.groups ++ groups⟩) := by
  induction groups generalizing g with
  | nil => rw [List.foldl_nil, List.append_nil]
  | cons group groups ih =>
    rw [List.foldl_cons, sweepGroup_kept, ih]
    simp only [append, List.append_assoc, List.singleton_append]

theorem sweep_eq : g.sweep ps = ps.map g.kept :=
  foldl_sweepGroup_kept ⟨g.hasLocal, []⟩ ps g.groups

theorem forall₂_keeps_filter : List.Forall₂ g.Keeps ps (g.filter ps) := by
  rw [filter_eq, List.forall₂_map_right_iff, List.forall₂_same]
  exact fun p _ => g.keeps_kept p

/-- Two predicates at once; a group that nobody is left in stays. -/
example : filter ⟨true, [[1, 2], [3, 4]]⟩ [fun n => 2 < n, fun n => n % 2 = 1] =
    [⟨true, [[], [3, 4]]⟩, ⟨true, [[1], [3]]⟩] := rfl

end Grouping

/-! ## Health -/

namespace Partition

/-- Splits of all groups as one split of the grouping. -/
def Split.regroup {α : Type} (hasLocal : Bool) (splits : List (Split (List α))) : Split (Grouping α) :=
  ⟨⟨hasLocal, splits.map Split.healthy⟩, ⟨hasLocal, splits.map Split.degraded⟩,
    ⟨hasLocal, splits.map Split.excluded⟩⟩

theorem groupsByHealth_eq_regroup (store : HostStore) (g : Grouping HostId) :
    groupsByHealth store g = .regroup g.hasLocal (g.groups.map (byHealth store)) := by
  have hsplits : g.groups.map (byHealth store) =
      g.groups.map fun group => ⟨group.filter (isHealthy store), group.filter (isDegraded store),
        group.filter (isExcluded store)⟩ :=
    List.map_congr_left fun group _ => byHealth_eq store group
  simp only [groupsByHealth_eq, Grouping.kept, Split.regroup, hsplits, List.map_map,
    Function.comp_def]

end Partition

/-- One pass for all predicates gives a grouping for each of them, in order, with what it keeps of every
group; so the split of a grouping by health consists of the splits of its groups. -/
theorem Grouping.filter_separates (g : Grouping HostId) (ps : List (HostId → Bool))
    (store : HostStore) :
    g.filter ps = g.sweep ps ∧ List.Forall₂ g.Keeps ps (g.filter ps) ∧
      Partition.groupsByHealth store g =
        .regroup g.hasLocal (g.groups.map (Partition.byHealth store)) :=
  ⟨(g.filter_eq ps).trans (g.sweep_eq ps).symm, g.forall₂_keeps_filter ps,
    Partition.groupsByHealth_eq_regroup store g⟩

end Roster
