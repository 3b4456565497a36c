import Roster.Draft
import Roster.Registry

/-!
# Roster.Cluster

What every cluster has: its hosts and levels, its health checker and outlier detectors, and how far
its initialization has come.

* `create`       — from a valid configuration whose name is new in the registry.
* `reload`       — splits every level by health anew; does nothing while initialization is waited for.
* `preInitDone`  — ends the work that comes before initialization; only the first call counts.
* `completeCheck` — tells those who observe completed checks.
-/

namespace Roster

/-- What a cluster does when a health check completes. -/
inductive CheckObserver where
  | reload
  /-- Counts the first checks that initialization waits for. -/
  | countdown
deriving DecidableEq

structure Cluster (τ : Type) where
  config : ClusterConfig
  hosts : HostStore := {}
  priorities : PrioritySet τ
  /-- The health checker, by those who observe its completed checks. -/
  checker? : Option (List CheckObserver) := none
  detectors : Nat := 0
  started : Bool := false
  /-- Whether an initialization callback has not run yet. -/
  waiting : Bool := false
  /-- First checks still to complete before initialization is over. -/
  awaited : Nat := 0
  maxHostWeight : Nat := 0
  noRebuild : Nat := 0
  emptyUpdates : Nat := 0

inductive CreateError where
  | invalid (cluster : String) (cause : ValidationError)
  | duplicate (cluster : String) (cause : DuplicateCollector)
deriving DecidableEq

namespace CreateError

def message : CreateError → String
  | .invalid cluster cause =>
    "invalid configuration for cluster `" ++ cluster ++ "`: " ++ cause.message
  | .duplicate cluster cause =>
    "failed to register stats for cluster `" ++ cluster ++ "`: " ++ cause.message

end CreateError

namespace Cluster

/-- The registry after the metrics of a valid configuration are registered. -/
def enroll (config : ClusterConfig) (r : Registry) : Attempt CreateError Registry :=
  match config.validate with
  | .error e => .failed (.invalid config.name e) r
  | .ok () =>
    match r.addCluster config.name with
    | .done r => .done r
    | .failed e r => .failed (.duplicate config.name e) r

variable {τ : Type}

def sample (c : Cluster τ) : Metric → Nat
  | .membershipTotal => c.priorities.journal.census.total
  | .membershipHealthy => c.priorities.journal.census.healthy
  | .membershipDegraded => c.priorities.journal.census.degraded
  | .membershipExcluded => c.priorities.journal.census.excluded
  | .membershipChange => c.priorities.journal.census.changes
  | .maxHostWeight => c.maxHostWeight
  | .updateNoRebuild => c.noRebuild
  | .updateEmpty => c.emptyUpdates

def hasChecker (c : Cluster τ) : Bool := c.checker?.isSome

def modifyHost (c : Cluster τ) (id : HostId) (f : Host → Host) : Cluster τ :=
  { c with hosts := c.hosts.modify id f }

def introduce (c : Cluster τ) (h : Host) : Cluster τ :=
  { c with hosts := (c.hosts.add h).2 }

/-- Asks to be told when initialization is over. -/
def awaitInit (c : Cluster τ) : Attempt Fault (Cluster τ) :=
  if c.started ∨ c.waiting then .failed (.initializedTwice c.config.name) c
  else .done { c with waiting := true }

def setChecker (c : Cluster τ) : Attempt Fault (Cluster τ) :=
  match c.checker? with
  | some _ => .failed (.secondChecker c.config.name) c
  | none => .done { c with checker? := some [.reload] }

def setDetector (c : Cluster τ) : Cluster τ :=
  { c with detectors := c.detectors + 1 }

variable [Quantity τ]

/-- A cluster with one empty level, whose observers begin with the census. -/
def ofConfig (config : ClusterConfig) : Cluster τ :=
  { config, priorities := (PrioritySet.main.ensureLevel 0 none).takeCensus }

def create (config : ClusterConfig) (r : Registry) :
    Except CreateError (Cluster τ × Registry) :=
  match enroll config r with
  | .done r => .ok (ofConfig config, r)
  | .failed e _ => .error e

/-! ## Reloading -/

/-- Installs the hosts of a level again, split by their health now. -/
def reloadLevel (store : HostStore) (ps : PrioritySet τ) (p : Nat) : PrioritySet τ :=
  match ps.level? p with
  | none => ps
  | some l =>
    let g := l.generation
    (ps.put store
      { priority := p
        partition := .of store g.partition.hosts g.partition.groups
        weights? := g.weights? }).notifyMembers [] []

def reloadLevels (c : Cluster τ) : Cluster τ :=
  { c with
    priorities :=
      (List.range c.priorities.levels.length).foldl (reloadLevel c.hosts) c.priorities }

def reload (c : Cluster τ) : Cluster τ :=
  if c.waiting then c else c.reloadLevels

/-! ## Initialization -/

def announce (c : Cluster τ) : Cluster τ :=
  { c with priorities := c.priorities.writeEvent .initialized }

/-- Initialization is over: reload if checks were made, then run the callback if one waits. -/
def finishInit (c : Cluster τ) : Cluster τ :=
  let d := { c with waiting := false }
  let d := if d.hasChecker then d.reload else d
  if c.waiting then d.announce else d

def checkedHosts (c : Cluster τ) : Nat :=
  (c.priorities.levels.flatMap fun l =>
    l.hosts.filter fun id => !(c.hosts.get id).disableActiveCheck).length

/-- With a checker, waits for as many completed checks as there are hosts to check. -/
def beginChecks (c : Cluster τ) : Cluster τ :=
  match c.checker? with
  | none => c
  | some observers =>
    if c.awaited = 0 then
      { c with awaited := c.checkedHosts, checker? := some (observers ++ [.countdown]) }
    else c

def preInitDone (c : Cluster τ) : Cluster τ :=
  if c.started then c
  else
    let c := { c with started := true }.beginChecks
    if c.awaited = 0 then c.finishInit else c

/-! ## Health -/

def countCheck (c : Cluster τ) : Cluster τ :=
  match c.awaited with
  | 0 => c
  | n + 1 =>
    let c := { c with awaited := n }
    if n = 0 then c.finishInit else c

def onCheck (transition : Transition) (c : Cluster τ) : CheckObserver → Cluster τ
  | .reload => if transition = .changed then c.reload else c
  | .countdown => c.countCheck

/-- A check completed; nothing happens without a checker. -/
def completeCheck (c : Cluster τ) (transition : Transition) : Cluster τ :=
  (c.checker?.getD []).foldl (onCheck transition) c

/-- The first flag of a host that passes a check is cleared, and the check completes. -/
def passCheck (c : Cluster τ) (id : HostId) : Cluster τ :=
  let transition : Transition :=
    if (c.hosts.get id).hasFlag .failedActiveCheck then .changed else .unchanged
  (c.modifyHost id fun h =>
    (h.clearFlag .failedActiveCheck).clearFlag .pendingActiveCheck).completeCheck transition

/-- A detector ejected or restored a host; nothing happens without a detector. -/
def outlierChanged (c : Cluster τ) : Cluster τ :=
  if c.detectors = 0 then c else c.reload

end Cluster

end Roster
