import Roster.Fault
import Roster.Assoc

/-!
# Roster.Registry

The metrics of clusters in a registry, which may hold collectors of others.

* `Key`                  — what collectors are told apart by: their family and their labels.
* `Registry.register`    — refuses a collector whose key is there already.
* `Registry.registerAll` — all of a list, or none: what was registered before a refusal is taken back.
* `Registry.text`        — the text format: families by name, then clusters by name.
-/

namespace Roster

inductive MetricKind where
  | gauge
  | counter
deriving DecidableEq

inductive Metric where
  | membershipTotal
  | membershipHealthy
  | membershipDegraded
  | membershipExcluded
  | membershipChange
  | maxHostWeight
  | updateNoRebuild
  | updateEmpty
deriving DecidableEq

namespace Metric

def all : List Metric :=
  [.membershipTotal, .membershipHealthy, .membershipDegraded, .membershipExcluded,
    .membershipChange, .maxHostWeight, .updateNoRebuild, .updateEmpty]

def name : Metric → String
  | .membershipTotal => "membership_total"
  | .membershipHealthy => "membership_healthy"
  | .membershipDegraded => "membership_degraded"
  | .membershipExcluded => "membership_excluded"
  | .membershipChange => "membership_change_total"
  | .maxHostWeight => "max_host_weight"
  | .updateNoRebuild => "update_no_rebuild_total"
  | .updateEmpty => "update_empty_total"

def family (m : Metric) : String :=
  "upstream_cluster_" ++ m.name

def help : Metric → String
  | .membershipTotal => "Number of hosts in the cluster."
  | .membershipHealthy => "Number of healthy hosts in the cluster."
  | .membershipDegraded => "Number of degraded hosts in the cluster."
  | .membershipExcluded => "Number of hosts excluded from load balancing weights."
  | .membershipChange => "Number of membership changes of the cluster."
  | .maxHostWeight => "Largest host weight of the last discovery update."
  | .updateNoRebuild => "Number of discovery updates that did not change the cluster."
  | .updateEmpty => "Number of discovery updates without any endpoints."

def kind : Metric → MetricKind
  | .membershipChange | .updateNoRebuild | .updateEmpty => .counter
  | _ => .gauge

end Metric

/-- What a registry tells collectors apart by: the name of the family and the constant labels. -/
structure Key where
  family : String
  labels : List (String × String)
deriving DecidableEq

/-- One metric of one cluster. -/
structure Collector where
  metric : Metric
  cluster : String
deriving DecidableEq

def Collector.key (c : Collector) : Key :=
  ⟨c.metric.family, [("cluster", c.cluster)]⟩

/-- The cluster whose metric is registered under the key. -/
def Metric.cluster? (m : Metric) (k : Key) : Option String :=
  match k.labels with
  | [(label, cluster)] => if k.family = m.family ∧ label = "cluster" then some cluster else none
  | _ => none

structure DuplicateCollector where
  key : Key
deriving DecidableEq

def DuplicateCollector.message (_ : DuplicateCollector) : String :=
  "Duplicate metrics collector registration attempted"

structure Registry where
  keys : List Key := []
deriving DecidableEq

namespace Registry

def register (r : Registry) (c : Collector) : Except DuplicateCollector Registry :=
  if c.key ∈ r.keys then .error ⟨c.key⟩ else .ok ⟨r.keys ++ [c.key]⟩

def unregister (r : Registry) (c : Collector) : Registry :=
  ⟨r.keys.filter (· ≠ c.key)⟩

/-- Registers a list of collectors; `mine` are those registered before. -/
def registerAll (mine : List Collector) : List Collector → Registry →
    Attempt DuplicateCollector Registry
  | [], r => .done r
  | c :: rest, r =>
    match r.register c with
    | .ok r => registerAll (mine ++ [c]) rest r
    | .error e => .failed e (mine.foldl unregister r)

def collectorsOf (cluster : String) : List Collector :=
  Metric.all.map fun m => ⟨m, cluster⟩

def addCluster (r : Registry) (cluster : String) : Attempt DuplicateCollector Registry :=
  registerAll [] (collectorsOf cluster) r

def dropCluster (r : Registry) (cluster : String) : Registry :=
  (collectorsOf cluster).foldl unregister r

/-! ## The text format -/

def kindName : MetricKind → String
  | .gauge => "gauge"
  | .counter => "counter"

def escapedLabel (s : String) : String :=
  s.foldl (fun acc c =>
    match c with
    | '\\' => acc ++ "\\\\"
    | '"' => acc ++ "\\\""
    | '\n' => acc ++ "\\n"
    | c => acc.push c) ""

def sampleLine (c : Collector) (value : Nat) : String :=
  c.metric.family ++ "\x7bcluster=\"" ++ escapedLabel c.cluster ++ "\"\x7d " ++ toString value ++ "\n"

def clustersOf (r : Registry) (m : Metric) : List String :=
  (r.keys.filterMap m.cluster?).mergeSort fun a b => a ≤ b

def familyText (r : Registry) (value : Collector → Nat) (m : Metric) : String :=
  match r.clustersOf m with
  | [] => ""
  | clusters =>
    "# HELP " ++ m.family ++ " " ++ m.help ++ "\n# TYPE " ++ m.family ++ " " ++ kindName m.kind ++ "\n" ++
      String.join (clusters.map fun cluster => sampleLine ⟨m, cluster⟩ (value ⟨m, cluster⟩))

def text (r : Registry) (value : Collector → Nat) : String :=
  String.join
    ((Metric.all.mergeSort fun a b => a.family ≤ b.family).map (r.familyText value))

end Registry

end Roster
