import Roster.Cluster
import Roster.Report

/-!
# Roster.Report.Directory

Hosts by number: a host gets the next number when it is shown first. Reports of levels, events and
drafts name hosts by these numbers.

* `Directory.note`  — numbers the hosts of a list that have no number.
* `mentioned`       — the hosts a report names, in the order it names them.
-/

namespace Roster

structure Directory where
  hosts : List HostId := []
  described : Nat := 0
deriving Inhabited

namespace Directory

def note (d : Directory) : List HostId → Directory
  | [] => d
  | id :: rest => note (if id ∈ d.hosts then d else { d with hosts := d.hosts ++ [id] }) rest

def host? (d : Directory) (number : Nat) : Option HostId := d.hosts[number]?

def number (d : Directory) (id : HostId) : Nat := d.hosts.idxOf id

/-- Descriptions of the hosts numbered since the last time, and a row for every host. -/
def describe (d : Directory) (store : HostStore) : Json × Json × Directory :=
  let hosts := d.hosts.zipIdx.map fun p => (p.2, store.get p.1)
  (.arr ((hosts.drop d.described).map fun p => Report.description p.1 p.2),
    .arr (hosts.map fun p => Report.row p.1 p.2),
    { d with described := d.hosts.length })

end Directory

/-- The hosts of a partition: the lists before the groups. -/
def Partition.mentioned (p : Partition) : List HostId :=
  p.hosts ++ p.healthy ++ p.degraded ++ p.excluded ++ p.groups.flatten ++
    p.healthyGroups.flatten ++ p.degradedGroups.flatten ++ p.excludedGroups.flatten

def Event.mentioned : Event → List HostId
  | .level _ _ added removed _ => added ++ removed
  | .members _ added removed _ => added ++ removed
  | .initialized => []

def Draft.mentioned (d : Draft) : List HostId :=
  d.levels.flatMap fun l => l.hosts?.getD []

namespace Report

open Json

variable (d : Directory)

def hosts (ids : List HostId) : Json := nats (ids.map d.number)

def grouping (g : Grouping HostId) : Json :=
  .obj [("local", .bool g.hasLocal), ("groups", .arr (g.groups.map (hosts d)))]

def addressMap (m : AddressMap) : Json :=
  .arr (m.map fun p => .arr [.str p.1, nat (d.number p.2)])

def generation {τ : Type} (g : Generation τ) : List (String × Json) :=
  let p := g.partition
  [("factor", nat g.factor), ("hosts", hosts d p.hosts), ("healthy", hosts d p.healthy),
    ("degraded", hosts d p.degraded), ("excluded", hosts d p.excluded),
    ("groups", grouping d p.groups), ("weights", orNull nats g.weights?)]

def level {τ : Type} (l : Level τ) : Json :=
  let p := l.generation.partition
  .obj ([("priority", nat l.priority)] ++ generation d l.generation ++
    [("healthy_groups", grouping d p.healthyGroups), ("degraded_groups", grouping d p.degradedGroups),
      ("excluded_groups", grouping d p.excludedGroups)])

/-- What an observer saw; the census is left out where none is taken. -/
def event (hasCensus : Bool) : Event → Json
  | .level watch p added removed census =>
    .obj [("cb", nat watch), ("priority", .arr [nat p, hosts d added, hosts d removed]),
      ("total", if hasCensus then nat census.total else .null)]
  | .members watch added removed size =>
    .obj [("cb", nat watch), ("member", .arr [hosts d added, hosts d removed]), ("map_len", nat size)]
  | .initialized => .str "initialized"

def draft (x : Draft) : Json :=
  .arr (x.levels.map fun l =>
    .obj [("hosts", orNull (hosts d) l.hosts?),
      ("weights", .arr (l.weights.map fun p => .arr [locality p.1, nat p.2]))])

def statName : Metric → String
  | .membershipTotal => "total"
  | .membershipHealthy => "healthy"
  | .membershipDegraded => "degraded"
  | .membershipExcluded => "excluded"
  | .membershipChange => "change"
  | .maxHostWeight => "max_weight"
  | .updateNoRebuild => "no_rebuild"
  | .updateEmpty => "empty"

def progress {τ : Type} (c : Cluster τ) : List (String × Json) :=
  [("started", .bool c.started), ("pending", .bool c.waiting),
    ("stats", .obj (Metric.all.map fun m => (statName m, nat (c.sample m))))]

end Report

end Roster
