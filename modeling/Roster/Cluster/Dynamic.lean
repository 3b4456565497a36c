import Roster.Cluster.Reconcile
import Roster.PrioritySet.Batch

/-!
# Roster.Cluster.Dynamic

A cluster whose hosts are delivered by a discovery source, every priority at once.

* `Delivery`    — what a delivery asks of each level: its hosts, its locality weights and a factor.
* `rolloutLevel` — reconciles one level and installs it, unless nothing about it changed.
* `deliver`     — all levels as one batch; levels the assignment does not name are emptied.
* `emptyUpdate` — a delivery without an assignment.

An assignment that is refused changes nothing.
-/

namespace Roster

structure DynamicCluster (τ : Type) where
  cluster : Cluster τ
  /-- The locality weights each level was last installed with. -/
  weights : List LocalityWeights := []

inductive DeliveryError where
  | refused (cause : ValidationError)
  | fault (cause : Fault)
deriving DecidableEq

/-- What a delivery asks of the levels. -/
structure Delivery where
  config : ClusterConfig
  rules : Reconcile.Rules
  factor : Nat
  draft : Draft
  /-- The hosts by address when the delivery came. -/
  installed : AddressMap
  addresses : List String

/-- A delivery under way. -/
structure Rollout (τ : Type) where
  batch : Batch τ
  hosts : HostStore
  weights : List LocalityWeights
  maxHostWeight : Nat
  rebuilt : Bool := false

namespace Rollout

variable {τ : Type}

def hostsAt (r : Rollout τ) (p : Nat) : List HostId := r.batch.priorities.hostsAt p

def factorAt? (r : Rollout τ) (p : Nat) : Option Nat :=
  (r.batch.priorities.level? p).map Level.factor

/-- Room in the memory of weights up to priority `p`. -/
def extendWeights (weights : List LocalityWeights) (p : Nat) : List LocalityWeights :=
  weights ++ List.replicate (p + 1 - weights.length) []

variable [Quantity τ]

def ensureLevel (r : Rollout τ) (p factor : Nat) : Attempt Fault (Rollout τ) :=
  (r.batch.priorities.getOrCreate p (some factor)).map fun ps =>
    { r with batch := { r.batch with priorities := ps } }

def install (d : Delivery) (p : Nat) (result : Reconcile.Result) (r : Rollout τ) :
    Attempt Fault (Rollout τ) :=
  let (store, update) := Draft.compose d.config (d.draft.weightsAt p) r.hosts
    { priority := p
      hosts := result.hosts
      added? := some result.added
      removed? := some result.removed
      factor? := some d.factor }
  match update with
  | .error e => .failed e { r with hosts := store }
  | .ok u => (r.batch.update store u).map fun b => { r with batch := b, hosts := store, rebuilt := true }

def isSettled (d : Delivery) (p : Nat) (changed : Bool) (r : Rollout τ) : Bool :=
  !changed && r.factorAt? p = some d.factor && r.weights[p]? = some (d.draft.weightsAt p)

def reconcileLevel (d : Delivery) (p : Nat) (r : Rollout τ) : Attempt Fault (Rollout τ) :=
  let result :=
    Reconcile.reconcile d.rules r.hosts (d.draft.hostsAt p) (r.hostsAt p) d.installed d.addresses
  let r :=
    { r with
      hosts := result.store
      maxHostWeight := result.maxWeight
      weights := extendWeights r.weights p }
  if r.isSettled d p result.changed then .done r
  else install d p result { r with weights := r.weights.set p (d.draft.weightsAt p) }

end Rollout

namespace DynamicCluster

variable {τ : Type} [Quantity τ]

def rolloutLevel (d : Delivery) (p : Nat) (r : Rollout τ) : Attempt Fault (Rollout τ) :=
  (r.ensureLevel p d.factor).andThen (Rollout.reconcileLevel d p)

def startRollout (dc : DynamicCluster τ) (hosts : HostStore) : Rollout τ :=
  { batch := .start dc.cluster.priorities.readMap
    hosts
    weights := dc.weights
    maxHostWeight := dc.cluster.maxHostWeight }

/-- What an assignment asks, and the hosts with those of its endpoints. -/
def plan (dc : DynamicCluster τ) (a : Assignment) : Delivery × HostStore :=
  let c := dc.cluster
  let (hosts, draft) := Draft.registerGroups a.groups (c.hosts, {})
  ({ config := c.config
     rules := c.rules
     factor := c.config.factorFor a
     draft
     installed := c.priorities.addressMap
     addresses := a.members.map fun m => m.2.address.text },
   hosts)

/-- The cluster after a rollout that goes no further. -/
def settle (dc : DynamicCluster τ) (r : Rollout τ) (priorities : PrioritySet τ) : DynamicCluster τ :=
  { cluster :=
      { dc.cluster with hosts := r.hosts, priorities, maxHostWeight := r.maxHostWeight }
    weights := r.weights }

/-- How many levels a delivery goes through. -/
def span (dc : DynamicCluster τ) (d : Delivery) : Nat :=
  max d.draft.levels.length dc.cluster.priorities.levels.length

/-- A delivery to every level is over. -/
def complete (dc : DynamicCluster τ) (r : Rollout τ) : DynamicCluster τ :=
  let dc := dc.settle r r.batch.finish
  let c := dc.cluster
  { dc with
    cluster :=
      ({ c with noRebuild := c.noRebuild + if r.rebuilt then 0 else 1 } : Cluster τ).preInitDone }

def rollout (dc : DynamicCluster τ) (a : Assignment) : Attempt DeliveryError (DynamicCluster τ) :=
  let (d, hosts) := dc.plan a
  match Attempt.each (rolloutLevel d) (List.range (dc.span d)) (dc.startRollout hosts) with
  | .failed e r => .failed (.fault e) (dc.settle r r.batch.priorities)
  | .done r => .done (dc.complete r)

def check (config : ClusterConfig) (a : Assignment) : Except ValidationError Unit :=
  match config.validateAssignment a with
  | .error e => .error e
  | .ok () => config.checkZones a.groups

def deliver (dc : DynamicCluster τ) (a : Assignment) : Attempt DeliveryError (DynamicCluster τ) :=
  match check dc.cluster.config a with
  | .error e => .failed (.refused e) dc
  | .ok () => dc.rollout a

def emptyUpdate (dc : DynamicCluster τ) : DynamicCluster τ :=
  let c := dc.cluster
  { dc with cluster := ({ c with emptyUpdates := c.emptyUpdates + 1 } : Cluster τ).preInitDone }

/-- Asks to be told of initialization; the first delivery ends the work before it. -/
def awaitInit (dc : DynamicCluster τ) : Attempt Fault (DynamicCluster τ) :=
  dc.cluster.awaitInit.map fun c => { dc with cluster := c }

end DynamicCluster

end Roster
