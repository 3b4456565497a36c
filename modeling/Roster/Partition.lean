import Roster.Grouping
import Roster.HostStore

/-!
# Roster.Partition

The hosts of a level, and those of them that are healthy, degraded and excluded: as lists and by
locality.

* `Partition.byHealth` — splits a list.
* `Partition.groupsByHealth` — splits a grouping, group by group.
* `Partition.of`       — both.
-/

namespace Roster

structure Partition where
  hosts : List HostId := []
  healthy : List HostId := []
  degraded : List HostId := []
  excluded : List HostId := []
  groups : Grouping HostId := {}
  healthyGroups : Grouping HostId := {}
  degradedGroups : Grouping HostId := {}
  excludedGroups : Grouping HostId := {}
deriving DecidableEq, Inhabited

namespace Partition

/-- The healthy, the degraded and the excluded hosts of a list, each in its order. -/
structure Split (α : Type) where
  healthy : α
  degraded : α
  excluded : α

def byHealth (store : HostStore) : List HostId → Split (List HostId)
  | [] => ⟨[], [], []⟩
  | id :: rest =>
    let split := byHealth store rest
    let h := store.get id
    let split :=
      match h.health with
      | .healthy => { split with healthy := id :: split.healthy }
      | .degraded => { split with degraded := id :: split.degraded }
      | .unhealthy => split
    if h.excluded then { split with excluded := id :: split.excluded } else split

def isHealthy (store : HostStore) (id : HostId) : Bool :=
  (store.get id).health = .healthy

def isDegraded (store : HostStore) (id : HostId) : Bool :=
  (store.get id).health = .degraded

def isExcluded (store : HostStore) (id : HostId) : Bool :=
  (store.get id).excluded

def groupsByHealth (store : HostStore) (g : Grouping HostId) : Split (Grouping HostId) :=
  match g.filter [isHealthy store, isDegraded store, isExcluded store] with
  | [healthy, degraded, excluded] => ⟨healthy, degraded, excluded⟩
  | _ => ⟨.empty, .empty, .empty⟩

def of (store : HostStore) (hosts : List HostId) (groups : Grouping HostId) : Partition :=
  let flat := byHealth store hosts
  let grouped := groupsByHealth store groups
  { hosts, groups
    healthy := flat.healthy
    degraded := flat.degraded
    excluded := flat.excluded
    healthyGroups := grouped.healthy
    degradedGroups := grouped.degraded
    excludedGroups := grouped.excluded }

end Partition

end Roster
