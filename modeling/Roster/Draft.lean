import Roster.PrioritySet

/-!
# Roster.Draft

The hosts of an assignment before they are installed: gathered by priority, then grouped by locality.

* `openGroup`, `register` — make room for a group; add a host under the priority of its group.
* `byLocality`       — groups in the order of their localities.
* `compose`          — the update that installs hosts at a level: the local locality first, the other
  localities in order, and for each its configured weight, 0 when it has none.
-/

namespace Roster

abbrev LocalityWeights := List (Locality × Nat)

structure DraftLevel where
  hosts? : Option (List HostId) := none
  weights : LocalityWeights := []
deriving Inhabited

structure Draft where
  levels : List DraftLevel := []

namespace Draft

def hostsAt? (d : Draft) (p : Nat) : Option (List HostId) :=
  d.levels[p]?.bind DraftLevel.hosts?

def hostsAt (d : Draft) (p : Nat) : List HostId :=
  (d.hostsAt? p).getD []

def weightsAt (d : Draft) (p : Nat) : LocalityWeights :=
  (d.levels[p]?.map DraftLevel.weights).getD []

def extendTo (d : Draft) (p : Nat) : Draft :=
  ⟨d.levels ++ List.replicate (p + 1 - d.levels.length) default⟩

def modify (d : Draft) (p : Nat) (f : DraftLevel → DraftLevel) : Draft :=
  ⟨(d.extendTo p).levels.modify p f⟩

/-- Makes room for a group and notes the weight of its locality, unless either is empty. -/
def openGroup (d : Draft) (g : EndpointGroup) : Draft :=
  d.modify g.level fun l =>
    { hosts? := some (l.hosts?.getD [])
      weights :=
        match g.weight? with
        | some w => if g.locality.isEmpty then l.weights else Assoc.insert g.locality w.toNat l.weights
        | none => l.weights }

def register (d : Draft) (g : EndpointGroup) (id : HostId) : Draft :=
  d.modify g.level fun l => { l with hosts? := some (l.hosts?.getD [] ++ [id]) }

/-- New hosts for the endpoints of a group, registered in their order. -/
def registerEndpoints (g : EndpointGroup) : List Endpoint → HostStore × Draft → HostStore × Draft
  | [], s => s
  | e :: rest, (store, d) =>
    let (id, store) := store.add (Host.ofEndpoint g e)
    registerEndpoints g rest (store, d.register g id)

def registerGroups : List EndpointGroup → HostStore × Draft → HostStore × Draft
  | [], s => s
  | g :: rest, (store, d) =>
    registerGroups rest (registerEndpoints g g.endpoints (store, d.openGroup g))

/-! ## Grouping by locality -/

def byLocality (store : HostStore) (hosts : List HostId) : List (Locality × List HostId) :=
  hosts.foldl
    (fun m id => Assoc.upsert (store.get id).locality (fun ids => ids.getD [] ++ [id]) m) []

/-- Whether the local locality has hosts, and the groups with the local one first. -/
def localFirst (local? : Option Locality) (groups : List (Locality × List HostId)) :
    Bool × List (Locality × List HostId) :=
  match local? with
  | none => (false, groups)
  | some here =>
    match Assoc.find? here groups with
    | none => (false, groups)
    | some ids => (true, (here, ids) :: Assoc.erase here groups)

/-- Sets a flag on every host that has active checks enabled. -/
def flagChecked (flag? : Option HealthFlag) (store : HostStore) (hosts : List HostId) : HostStore :=
  match flag? with
  | none => store
  | some flag =>
    store.modifyAll hosts fun h => if h.disableActiveCheck then h else h.setFlag flag

/-- What to install at a level. -/
structure Plan where
  priority : Nat
  hosts : List HostId
  /-- Every host when there is no list. -/
  added? : Option (List HostId) := none
  removed? : Option (List HostId) := none
  /-- Set on every host that has active checks enabled. -/
  flag? : Option HealthFlag := none
  factor? : Option Nat := none

/-- The hosts after their flag is set, and the update. -/
def compose (config : ClusterConfig) (weights : LocalityWeights) (store : HostStore) (plan : Plan) :
    HostStore × Except Fault Update :=
  let store := flagChecked plan.flag? store plan.hosts
  let (hasLocal, groups) := localFirst config.localLocality? (byLocality store plan.hosts)
  let update : Except Fault Update :=
    match Grouping.ofGroups? (groups.map (·.2)) hasLocal with
    | .error e => .error e
    | .ok grouping =>
      .ok
        { priority := plan.priority
          partition := .of store plan.hosts grouping
          weights? :=
            if config.localityWeighted then
              some (groups.map fun g => (Assoc.find? g.1 weights).getD 0)
            else none
          added := plan.added?.getD plan.hosts
          removed := plan.removed?.getD []
          factor? := plan.factor? }
  (store, update)

end Draft

end Roster
