import Roster.Cluster

/-!
# Roster.Cluster.Static

A cluster whose hosts are those of its configuration.

* `openStatic`  — refuses endpoints that are not allowed in the cluster.
* `installConfigured` — installs every priority, then ends the work before initialization.
* `initializeStatic`  — asks to be told of initialization and installs.
-/

namespace Roster.Cluster

variable {τ : Type} [Quantity τ]

def configuredGroups (config : ClusterConfig) : List EndpointGroup :=
  match config.assignment? with
  | some a => a.groups
  | none => []

def openStatic (c : Cluster τ) : Except ValidationError (Cluster τ) :=
  match c.config.checkZones (configuredGroups c.config) with
  | .error e => .error e
  | .ok () => .ok c

def configuredFactor (config : ClusterConfig) : Nat :=
  match config.assignment? with
  | some a => config.factorFor a
  | none => config.overprovisioningFactor.toNat

/-- Installs the hosts of one priority; every host is reported as added. -/
def installDraft (draft : Draft) (p : Nat) (c : Cluster τ) : Attempt Fault (Cluster τ) :=
  let (store, update) := Draft.compose c.config (draft.weightsAt p) c.hosts
    { priority := p
      hosts := draft.hostsAt p
      flag? := if c.hasChecker then some .failedActiveCheck else none
      factor? := some (configuredFactor c.config) }
  match update with
  | .error e => .failed e { c with hosts := store }
  | .ok u => (c.priorities.update store u).map fun ps => { c with hosts := store, priorities := ps }

def installConfigured (c : Cluster τ) : Attempt Fault (Cluster τ) :=
  let (store, draft) := Draft.registerGroups (configuredGroups c.config) (c.hosts, {})
  (Attempt.each (installDraft draft) (List.range draft.levels.length) { c with hosts := store }).andThen
    fun c => .done c.preInitDone

def initializeStatic (c : Cluster τ) : Attempt Fault (Cluster τ) :=
  c.awaitInit.andThen installConfigured

end Roster.Cluster
