import Roster.AddressIndex
import Roster.Config.Cluster
import Roster.Generation
import Roster.Observers

/-!
# Roster.PrioritySet

The levels of a cluster, one for each priority from 0 up to the highest seen, and those who are told
of each change.

* `Level`       — one priority: its generation and its own observers.
* `Update`      — what is installed at a level, and what is reported of it.
* `ensureLevel` — makes a level and every missing lower one.
* `put`         — indexes, installs, and tells the observers of the level.
* `update`      — `put`, then the observers of the whole set; refuses a factor of zero.

Observers do not return anything: what they see is written to the `Journal`.
-/

namespace Roster

/-- How many hosts are installed, and how many changes of membership there were. -/
structure Census where
  total : Nat := 0
  healthy : Nat := 0
  degraded : Nat := 0
  excluded : Nat := 0
  changes : Nat := 0
deriving DecidableEq, Inhabited

/-- What an observer saw when it was called. -/
inductive Event where
  | level (watch priority : Nat) (added removed : List HostId) (census : Census)
  | members (watch : Nat) (added removed : List HostId) (mapSize : Nat)
  | initialized
deriving DecidableEq

structure Journal where
  census : Census := {}
  events : List Event := []
deriving Inhabited

/-- An observer that writes what it sees, then drops the handles of others. -/
structure Watch where
  number : Nat
  drops : List Nat := []
deriving DecidableEq

inductive LevelObserver where
  /-- Tells the observers of all levels. -/
  | forward
  | watch (w : Watch)
deriving DecidableEq

inductive PriorityObserver where
  /-- Counts the installed hosts anew. -/
  | census
  | watch (w : Watch)
deriving DecidableEq

/-- Where a watch is registered. -/
inductive Handle where
  | members (token : Nat)
  | priorities (token : Nat)
  | level (priority token : Nat)
deriving DecidableEq

structure Level (τ : Type) where
  priority : Nat
  generation : Generation τ
  observers : Observers LevelObserver

structure Update where
  priority : Nat
  partition : Partition := {}
  weights? : Option (List Nat) := none
  added : List HostId := []
  removed : List HostId := []
  /-- The factor from now on; the level keeps its factor when there is none. -/
  factor? : Option Nat := none

structure PrioritySet (τ : Type) where
  levels : List (Level τ) := []
  /-- The hosts of all levels by address, in the main set of a cluster. -/
  index? : Option AddressIndex := none
  memberObservers : Observers Watch := {}
  priorityObservers : Observers PriorityObserver := {}
  handles : List (Nat × Handle) := []
  nextWatch : Nat := 0
  nextStamp : Nat := 0
  journal : Journal := {}

namespace Level

variable {τ : Type}

def hosts (l : Level τ) : List HostId := l.generation.hosts

def factor (l : Level τ) : Nat := l.generation.factor

end Level

namespace PrioritySet

variable {τ : Type}

def plain : PrioritySet τ := {}

def main : PrioritySet τ := { index? := some {} }

def level? (ps : PrioritySet τ) (p : Nat) : Option (Level τ) := ps.levels[p]?

def hostsAt (ps : PrioritySet τ) (p : Nat) : List HostId :=
  match ps.level? p with
  | some l => l.hosts
  | none => []

/-- Every installed host with its level's priority, by ascending priority. -/
def installed (ps : PrioritySet τ) : List (Nat × HostId) :=
  ps.levels.flatMap fun l => l.hosts.map (l.priority, ·)

/-! ## The index of addresses -/

def readMap (ps : PrioritySet τ) : PrioritySet τ :=
  { ps with index? := ps.index?.map AddressIndex.read }

def publishedMap (ps : PrioritySet τ) : AddressMap :=
  match ps.index? with
  | some x => x.published
  | none => []

/-- The map a reader would get now. -/
def addressMap (ps : PrioritySet τ) : AddressMap :=
  ps.readMap.publishedMap

/-- Another host at the address of `id`. -/
def isTwin (store : HostStore) (id other : HostId) : Bool :=
  (store.get other).address = (store.get id).address && other ≠ id

/-- Another host still installed at the address of `removed`: among the new hosts of the level first,
then in the other levels. -/
def survivor? (ps : PrioritySet τ) (store : HostStore) (p : Nat) (hosts : List HostId)
    (removed : HostId) : Option HostId :=
  match hosts.find? (isTwin store removed) with
  | some id => some id
  | none =>
    (ps.levels.filter fun l => l.priority ≠ p).findSome? fun l =>
      l.hosts.find? (isTwin store removed)

def reindex (ps : PrioritySet τ) (store : HostStore) (u : Update) : PrioritySet τ :=
  { ps with
    index? := ps.index?.map fun x =>
      x.update store u.priority u.added u.removed
        (ps.survivor? store u.priority u.partition.hosts) }

/-! ## Observers -/

def dropWatch (ps : PrioritySet τ) (number : Nat) : PrioritySet τ :=
  match ps.handles.lookup number with
  | none => ps
  | some handle =>
    let ps := { ps with handles := ps.handles.filter fun h => h.1 ≠ number }
    match handle with
    | .members token => { ps with memberObservers := ps.memberObservers.remove token }
    | .priorities token => { ps with priorityObservers := ps.priorityObservers.remove token }
    | .level p token =>
      { ps with
        levels := ps.levels.modify p fun l => { l with observers := l.observers.remove token } }

def holdsWatch (ps : PrioritySet τ) (number : Nat) : Bool :=
  (ps.handles.lookup number).isSome

def writeEvent (ps : PrioritySet τ) (e : Event) : PrioritySet τ :=
  { ps with journal := { ps.journal with events := ps.journal.events ++ [e] } }

/-- A watch writes what it saw, then drops handles. -/
def record (ps : PrioritySet τ) (w : Watch) (e : Event) : PrioritySet τ :=
  w.drops.foldl dropWatch (ps.writeEvent e)

/-- The census of the installed generations, after one more report. -/
def recount (ps : PrioritySet τ) (added removed : List HostId) : Census :=
  let sum (f : Partition → List HostId) : Nat :=
    (ps.levels.flatMap fun l => f l.generation.partition).length
  { total := sum Partition.hosts
    healthy := sum Partition.healthy
    degraded := sum Partition.degraded
    excluded := sum Partition.excluded
    changes := ps.journal.census.changes + if added = [] ∧ removed = [] then 0 else 1 }

def callPriority (p : Nat) (added removed : List HostId) (ps : PrioritySet τ) :
    PriorityObserver → PrioritySet τ
  | .census => { ps with journal := { ps.journal with census := ps.recount added removed } }
  | .watch w => ps.record w (.level w.number p added removed ps.journal.census)

def notifyPriority (ps : PrioritySet τ) (p : Nat) (added removed : List HostId) : PrioritySet τ :=
  ps.priorityObservers.callbacks.foldl (callPriority p added removed) ps

def callLevel (p : Nat) (added removed : List HostId) (ps : PrioritySet τ) :
    LevelObserver → PrioritySet τ
  | .forward => ps.notifyPriority p added removed
  | .watch w => ps.record w (.level w.number p added removed ps.journal.census)

def notifyLevel (ps : PrioritySet τ) (p : Nat) (added removed : List HostId) : PrioritySet τ :=
  match ps.level? p with
  | none => ps
  | some l => l.observers.callbacks.foldl (callLevel p added removed) ps

/-- A watch of the members reads the index. -/
def callMembers (added removed : List HostId) (ps : PrioritySet τ) (w : Watch) : PrioritySet τ :=
  let ps := ps.readMap
  ps.record w (.members w.number added removed ps.publishedMap.length)

def notifyMembers (ps : PrioritySet τ) (added removed : List HostId) : PrioritySet τ :=
  ps.memberObservers.callbacks.foldl (callMembers added removed) ps

/-! ## Registering -/

def watchMembers (ps : PrioritySet τ) (drops : List Nat) : PrioritySet τ :=
  let (token, os) := ps.memberObservers.add ⟨ps.nextWatch, drops⟩
  { ps with
    memberObservers := os
    handles := ps.handles ++ [(ps.nextWatch, .members token)]
    nextWatch := ps.nextWatch + 1 }

def watchPriorities (ps : PrioritySet τ) (drops : List Nat) : PrioritySet τ :=
  let (token, os) := ps.priorityObservers.add (.watch ⟨ps.nextWatch, drops⟩)
  { ps with
    priorityObservers := os
    handles := ps.handles ++ [(ps.nextWatch, .priorities token)]
    nextWatch := ps.nextWatch + 1 }

/-- Watches one level; nothing happens when there is no such level. -/
def watchLevel (ps : PrioritySet τ) (p : Nat) (drops : List Nat) : PrioritySet τ :=
  match ps.level? p with
  | none => ps
  | some l =>
    let (token, os) := l.observers.add (.watch ⟨ps.nextWatch, drops⟩)
    { ps with
      levels := ps.levels.modify p fun l => { l with observers := os }
      handles := ps.handles ++ [(ps.nextWatch, .level p token)]
      nextWatch := ps.nextWatch + 1 }

/-- Keeps the census of the journal up to date. -/
def takeCensus (ps : PrioritySet τ) : PrioritySet τ :=
  { ps with priorityObservers := (ps.priorityObservers.add .census).2 }

/-! ## Installing -/

variable [Quantity τ]

/-- An empty level that forwards to the observers of all levels. -/
def newLevel (stamp p factor : Nat) : Level τ :=
  { priority := p
    generation := .build stamp {} none factor
    observers := (Observers.add {} .forward).2 }

/-- Makes level `p` with the factor, and every missing lower level with the default factor. -/
def ensureLevel (ps : PrioritySet τ) (p : Nat) (factor? : Option Nat) : PrioritySet τ :=
  if p < ps.levels.length then ps
  else
    let first := ps.levels.length
    let fresh := (List.range (p + 1 - first)).map fun i =>
      newLevel (ps.nextStamp + i) (first + i)
        (if first + i = p then factor?.getD defaultFactor else defaultFactor)
    { ps with levels := ps.levels ++ fresh, nextStamp := ps.nextStamp + fresh.length }

def install (ps : PrioritySet τ) (u : Update) : PrioritySet τ :=
  { ps with
    levels := ps.levels.modify u.priority fun l =>
      { l with generation := .build ps.nextStamp u.partition u.weights? (u.factor?.getD l.factor) }
    nextStamp := ps.nextStamp + 1 }

/-- Installs at a level that exists and tells its observers; the index and the observers of the
members are left out. -/
def putLevel (ps : PrioritySet τ) (u : Update) : PrioritySet τ :=
  (ps.install u).notifyLevel u.priority u.added u.removed

def put (ps : PrioritySet τ) (store : HostStore) (u : Update) : PrioritySet τ :=
  ((ps.reindex store u).ensureLevel u.priority u.factor?).putLevel u

/-- `put`, unless the factor is zero; the index has changed even then. -/
def putChecked (ps : PrioritySet τ) (store : HostStore) (u : Update) :
    Attempt Fault (PrioritySet τ) :=
  if u.factor? = some 0 then .failed .zeroFactor (ps.reindex store u) else .done (ps.put store u)

def update (ps : PrioritySet τ) (store : HostStore) (u : Update) : Attempt Fault (PrioritySet τ) :=
  (ps.putChecked store u).andThen fun ps => .done (ps.notifyMembers u.added u.removed)

/-- Level `p`, made if it is missing; the factor of a level to be made is not zero. -/
def getOrCreate (ps : PrioritySet τ) (p : Nat) (factor? : Option Nat) :
    Attempt Fault (PrioritySet τ) :=
  if p < ps.levels.length then .done ps
  else if factor? = some 0 then .failed .zeroFactor ps
  else .done (ps.ensureLevel p factor?)

/-- Installs at a level that exists, past the index and the observers of the members. -/
def updateLevel (ps : PrioritySet τ) (u : Update) : Attempt Fault (PrioritySet τ) :=
  if u.factor? = some 0 then .failed .zeroFactor ps else .done (ps.putLevel u)

end PrioritySet

end Roster
