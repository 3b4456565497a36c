import Roster.Cluster.Dynamic
import Roster.Cluster.Static
import Roster.PrioritySet.Readers

/-!
# Roster.Cluster.Run

What may happen to a cluster, one action after another.

* `Service`  — a cluster and where its hosts come from.
* `perform`  — one action; a refused action says why.
* `run`      — a list of actions, up to the first refused one.
* `Knows`    — whether there are the hosts that an action installs.
* `Reaches`  — what allowed actions lead to, none of them refused.
-/

namespace Roster

/-- Where the hosts of a cluster come from. -/
inductive Source where
  | configured
  | discovered
deriving DecidableEq

/-- A cluster whose hosts are configured remembers no delivered weights. -/
structure Service (τ : Type) where
  source : Source
  body : DynamicCluster τ

inductive Action where
  | start
  | startPreInit
  | preInitDone
  | setChecker
  | setDetector
  | setFlags (id : HostId) (set clear : List HealthFlag)
  | setUsed (id : HostId) (used : Bool)
  | setFailure (id : HostId) (kind : FailureKind)
  | setWeight (id : HostId) (weight : Nat)
  | setPriority (id : HostId) (priority : Nat)
  | setMetadata (id : HostId) (metadata : Metadata)
  | setCanary (id : HostId) (canary : Bool)
  | introduce (host : Host)
  /-- Hosts are reconciled, and nothing is installed. -/
  | reconcile (delivered current : List HostId) (all : AddressMap) (allNew : List String)
  | check (id : HostId) (transition : Transition)
  /-- A host passed a check, which clears its first flag. -/
  | pass (id : HostId)
  | outlier (id : HostId)
  | reload
  | deliver (a : Assignment)
  | emptyUpdate
  | getOrCreate (priority : Nat) (factor? : Option Nat)
  | update (u : Update)
  | batch (us : List Update)
  /-- Installs at a level, past the index and the observers of the members. -/
  | updateLevel (u : Update)
  | choose (priority : Nat) (kind : Eligibility)
  | watchMembers (drops : List Nat)
  | watchPriorities (drops : List Nat)
  | watchLevel (priority : Nat) (drops : List Nat)
  | unwatch (number : Nat)

/-- There are the hosts that the update installs or enters in the index. -/
structure HostStore.Knows (store : HostStore) (u : Update) : Prop where
  installed : ∀ i ∈ u.partition.hosts, i < store.size
  added : ∀ i ∈ u.added, i < store.size

namespace Service

variable {τ : Type}

def cluster (s : Service τ) : Cluster τ := s.body.cluster

def withCluster (s : Service τ) (c : Cluster τ) : Service τ :=
  { s with body := { s.body with cluster := c } }

def withPriorities (s : Service τ) (ps : PrioritySet τ) : Service τ :=
  s.withCluster { s.cluster with priorities := ps }

def change (s : Service τ) (f : Cluster τ → Cluster τ) : Attempt DeliveryError (Service τ) :=
  .done (s.withCluster (f s.cluster))

/-- Changes the cluster, unless that breaks a rule of use. -/
def attempt (s : Service τ) (f : Cluster τ → Attempt Fault (Cluster τ)) :
    Attempt DeliveryError (Service τ) :=
  ((f s.cluster).mapError .fault).map s.withCluster

def changeLevels (s : Service τ) (f : PrioritySet τ → PrioritySet τ) :
    Attempt DeliveryError (Service τ) :=
  .done (s.withPriorities (f s.cluster.priorities))

def attemptLevels (s : Service τ) (f : PrioritySet τ → Attempt Fault (PrioritySet τ)) :
    Attempt DeliveryError (Service τ) :=
  ((f s.cluster.priorities).mapError .fault).map s.withPriorities

variable [Quantity τ]

/-- A cluster that is configured takes no deliveries. -/
def deliver (s : Service τ) (a : Assignment) : Attempt DeliveryError (Service τ) :=
  match s.source with
  | .configured => .done s
  | .discovered => (s.body.deliver a).map fun body => { s with body }

def emptyUpdate (s : Service τ) : Service τ :=
  match s.source with
  | .configured => s
  | .discovered => { s with body := s.body.emptyUpdate }

/-- Asks to be told of initialization and starts the work before it. -/
def start (s : Service τ) : Attempt DeliveryError (Service τ) :=
  match s.source with
  | .configured => s.attempt Cluster.initializeStatic
  | .discovered => s.attempt Cluster.awaitInit

/-- The work before initialization; a discovered cluster waits for its first delivery instead. -/
def startPreInit (s : Service τ) : Attempt DeliveryError (Service τ) :=
  match s.source with
  | .configured => s.attempt Cluster.installConfigured
  | .discovered => .done s

def choose (s : Service τ) (p : Nat) (kind : Eligibility) : Attempt DeliveryError (Service τ) :=
  match ({ priorities := s.cluster.priorities } : Readers τ).chooseAt? p kind 1 with
  | none => .done s
  | some (.error e) => .failed (.fault e) s
  | some (.ok (_, r)) => .done (s.withPriorities r.priorities)

def perform (a : Action) (s : Service τ) : Attempt DeliveryError (Service τ) :=
  match a with
  | .start => s.start
  | .startPreInit => s.startPreInit
  | .preInitDone => s.change Cluster.preInitDone
  | .setChecker => s.attempt Cluster.setChecker
  | .setDetector => s.change Cluster.setDetector
  | .setFlags id set clear => s.change (·.modifyHost id fun h => (h.setFlags set).clearFlags clear)
  | .setUsed id used => s.change (·.modifyHost id (·.setUsed used))
  | .setFailure id kind => s.change (·.modifyHost id (·.setFailure kind))
  | .setWeight id weight => s.change (·.modifyHost id (·.setWeight weight))
  | .setPriority id priority => s.change (·.modifyHost id (·.setPriority priority))
  | .setMetadata id metadata => s.change (·.modifyHost id (·.setMetadata metadata))
  | .setCanary id canary => s.change (·.modifyHost id (·.setCanary canary))
  | .introduce host => s.change (·.introduce host)
  | .reconcile delivered current all allNew =>
    s.change fun c => (c.reconcile delivered current all allNew).2
  | .check _ transition => s.change (·.completeCheck transition)
  | .pass id => s.change (·.passCheck id)
  | .outlier _ => s.change Cluster.outlierChanged
  | .reload => s.change Cluster.reload
  | .deliver a => s.deliver a
  | .emptyUpdate => .done s.emptyUpdate
  | .getOrCreate p factor? => s.attemptLevels (·.getOrCreate p factor?)
  | .update u => s.attemptLevels (·.update s.cluster.hosts u)
  | .batch us => s.attemptLevels (Batch.updateAll s.cluster.hosts us)
  | .updateLevel u => s.attemptLevels (·.updateLevel u)
  | .choose p kind => s.choose p kind
  | .watchMembers drops => s.changeLevels (·.watchMembers drops)
  | .watchPriorities drops => s.changeLevels (·.watchPriorities drops)
  | .watchLevel p drops => s.changeLevels (·.watchLevel p drops)
  | .unwatch number => s.changeLevels (·.dropWatch number)

def run (as : List Action) (s : Service τ) : Attempt DeliveryError (Service τ) :=
  Attempt.each perform as s

/-- There are the hosts that the action installs or enters in the index. -/
def Knows (s : Service τ) : Action → Prop
  | .update u | .updateLevel u => s.cluster.hosts.Knows u
  | .batch us => ∀ u ∈ us, s.cluster.hosts.Knows u
  | _ => True

inductive Reaches (allowed : Service τ → Action → Prop) : Service τ → Service τ → Prop where
  | refl {s : Service τ} : Reaches allowed s s
  | cons {s t u : Service τ} {a : Action} :
      allowed s a → perform a s = .done t → Reaches allowed t u → Reaches allowed s u

namespace Reaches

variable {allowed : Service τ → Action → Prop}

theorem of_run {as : List Action} {s t : Service τ} (hall : ∀ a ∈ as, ∀ u, allowed u a)
    (h : run as s = .done t) : Reaches allowed s t := by
  induction as generalizing s with
  | nil => cases h; exact .refl
  | cons a as ih =>
    simp only [run, Attempt.each] at h
    cases hs : perform a s with
    | failed e u => rw [hs] at h; cases h
    | done u =>
      rw [hs] at h
      exact .cons (hall a (by simp) s) hs (ih (fun b hb => hall b (by simp [hb])) h)

theorem mono {weaker : Service τ → Action → Prop} {s t : Service τ} (h : Reaches allowed s t)
    (himp : ∀ u a, allowed u a → weaker u a) : Reaches weaker s t := by
  induction h with
  | refl => exact .refl
  | cons ha hs _ ih => exact .cons (himp _ _ ha) hs ih

/-- What every action keeps that is allowed holds in every state that is reached. -/
theorem keeps {P : Service τ → Prop} {s t : Service τ} (h : Reaches allowed s t)
    (hstep : ∀ u a v, allowed u a → perform a u = .done v → P u → P v) (hs : P s) : P t := by
  induction h with
  | refl => exact hs
  | cons ha hdone _ ih => exact ih (hstep _ _ _ ha hdone hs)

end Reaches

end Service

end Roster
