import Roster.PrioritySet

/-!
# Roster.PrioritySet.Batch

Several levels updated as one change. The observers of the members are told once, at the end, of the
net change: a host that only moves between levels is neither added nor removed.

* `Batch.update` — updates a level; refuses a second update of the same level.
* `Batch.finish` — tells the observers of the members.
-/

namespace Roster

structure Batch (τ : Type) where
  priorities : PrioritySet τ
  /-- Every host reported as added, once each, in the order first seen. -/
  added : List HostId := []
  removed : List HostId := []
  touched : List Nat := []

namespace Batch

variable {τ : Type}

def extend (seen : List HostId) : List HostId → List HostId
  | [] => seen
  | id :: rest => extend (if id ∈ seen then seen else seen ++ [id]) rest

def without (hosts excluded : List HostId) : List HostId :=
  hosts.filter fun id => id ∉ excluded

def start (ps : PrioritySet τ) : Batch τ := { priorities := ps }

def netAdded (b : Batch τ) : List HostId := without b.added b.removed

def netRemoved (b : Batch τ) : List HostId := without b.removed b.added

def finish (b : Batch τ) : PrioritySet τ :=
  b.priorities.notifyMembers b.netAdded b.netRemoved

variable [Quantity τ]

def update (b : Batch τ) (store : HostStore) (u : Update) : Attempt Fault (Batch τ) :=
  if u.priority ∈ b.touched then .failed (.updatedTwice u.priority) b
  else
    let b :=
      { b with
        added := extend b.added u.added
        removed := extend b.removed u.removed
        touched := u.priority :: b.touched }
    (b.priorities.putChecked store u).map fun ps => { b with priorities := ps }

/-- All updates as one change; a refused one ends it. -/
def updateAll (store : HostStore) (us : List Update) (ps : PrioritySet τ) :
    Attempt Fault (PrioritySet τ) :=
  (Attempt.each (fun u b => b.update store u) us (.start ps)).map Batch.finish

end Batch

end Roster
