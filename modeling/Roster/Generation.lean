import Roster.LocalityShare
import Roster.Partition

/-!
# Roster.Generation

One installed state of a level: its hosts, the weights of its localities, and the schedules that
localities are chosen by. A generation stays as it was installed, its schedules apart.

* `build`  — a new generation, told apart by its stamp.
* `choose` — the next locality for a healthy or a degraded host.
-/

namespace Roster

/-- Which hosts a locality is chosen for. -/
inductive Eligibility where
  | healthy
  | degraded
deriving DecidableEq

structure Generation (τ : Type) where
  stamp : Nat
  partition : Partition
  weights? : Option (List Nat)
  factor : Nat
  healthySchedule? : Option (Schedule τ Nat)
  degradedSchedule? : Option (Schedule τ Nat)

namespace Generation

variable {τ : Type} [Quantity τ]

def build (stamp : Nat) (p : Partition) (weights? : Option (List Nat)) (factor : Nat) :
    Generation τ :=
  { stamp, partition := p, weights?, factor
    healthySchedule? :=
      LocalityShare.schedule? p.healthyGroups p.healthy p.groups p.excludedGroups weights? factor
    degradedSchedule? :=
      LocalityShare.schedule? p.degradedGroups p.degraded p.groups p.excludedGroups weights? factor }

def hosts (g : Generation τ) : List HostId := g.partition.hosts

def schedule? (g : Generation τ) : Eligibility → Option (Schedule τ Nat)
  | .healthy => g.healthySchedule?
  | .degraded => g.degradedSchedule?

def setSchedule (g : Generation τ) (kind : Eligibility) (s : Schedule τ Nat) : Generation τ :=
  match kind with
  | .healthy => { g with healthySchedule? := some s }
  | .degraded => { g with degradedSchedule? := some s }

/-- The next locality, and the generation after the choice; no locality when none can serve. -/
def choose (g : Generation τ) (kind : Eligibility) : Except Fault (Option Nat × Generation τ) :=
  match g.schedule? kind with
  | none => .ok (none, g)
  | some s =>
    match s.pick with
    | none => .error .weightlessLocality
    | some ((locality, weight), s) =>
      if Quantity.positive weight then .ok (some locality, g.setSchedule kind s)
      else .error .weightlessLocality

def chooseMany (kind : Eligibility) : Nat → Generation τ →
    Except Fault (List (Option Nat) × Generation τ)
  | 0, g => .ok ([], g)
  | n + 1, g =>
    match g.choose kind with
    | .error e => .error e
    | .ok (locality, g) =>
      match chooseMany kind n g with
      | .error e => .error e
      | .ok (rest, g) => .ok (locality :: rest, g)

end Generation

end Roster
