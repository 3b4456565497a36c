import Roster.Cluster

/-!
# Roster.Cluster.Reconcile

The hosts of one level against what was delivered for it.

* `matchHost`  — a delivered host updates the host at its address in place, unless that host's locality
  or way of being checked changed; then the delivered host replaces it.
* `Host.adopt` — the update in place.
* `leaves`     — whether a host that was not matched goes at once; otherwise it drains: it stays until
  it fails its checks.
* `reconcile`  — the hosts the level should have, and which were added and removed.
-/

namespace Roster

namespace Host

/-- Takes over what a delivered host says; flags set by others stay. -/
def adopt (existing delivered : Host) : Host :=
  let h := { existing with weight := delivered.weight }
  let h := { h with
    flags := (h.flags.assign .failedDiscovery (delivered.hasFlag .failedDiscovery)).assign
      .degradedDiscovery (delivered.hasFlag .degradedDiscovery) }
  let h :=
    if h.metadata == delivered.metadata then h
    else { h with metadata := delivered.metadata, canary := delivered.canary }
  { h with priority := delivered.priority }

/-- Whether copying a flag changes the coarse health. -/
def healthShifts (existing : Host) (flag : HealthFlag) (on : Bool) : Bool :=
  existing.health ≠ ({ existing with flags := existing.flags.assign flag on } : Host).health

/-- Whether an update in place asks for the level to be installed again: weight, coarse health after
either flag, or metadata change. -/
def shifts (existing delivered : Host) : Bool :=
  let failed := delivered.hasFlag .failedDiscovery
  let afterFailed := { existing with flags := existing.flags.assign .failedDiscovery failed }
  existing.weight ≠ delivered.weight ||
    existing.healthShifts .failedDiscovery failed ||
    afterFailed.healthShifts .degradedDiscovery (delivered.hasFlag .degradedDiscovery) ||
    !(existing.metadata == delivered.metadata)

end Host

namespace Reconcile

/-- What the hosts of a level are reconciled under. -/
structure Rules where
  hasChecker : Bool
  /-- Hosts that were withdrawn go at once. -/
  ignoreHealth : Bool
  /-- New hosts stay out of the weights until their first check. -/
  awaitFirstCheck : Bool

/-- What was gathered from the delivered hosts so far. -/
structure Matching where
  store : HostStore
  /-- Addresses whose host was updated in place. -/
  kept : List String := []
  /-- Addresses that get the delivered host. -/
  fresh : List String := []
  moved : List String := []
  checkSwitched : List String := []
  final : List HostId := []
  added : List HostId := []
  changed : Bool := false
  maxWeight : Nat := 1

def movedLocality (existing delivered : Host) : Bool :=
  existing.locality ≠ delivered.locality

def switchedCheck (rules : Rules) (existing delivered : Host) : Bool :=
  rules.hasChecker && existing.disableActiveCheck ≠ delivered.disableActiveCheck

def movedCheck (rules : Rules) (existing delivered : Host) : Bool :=
  rules.hasChecker && existing.healthCheckAddress ≠ delivered.healthCheckAddress

def insertNew (a : String) (s : List String) : List String :=
  if a ∈ s then s else a :: s

def admitNew (rules : Rules) (m : Matching) (id : HostId) : Matching :=
  let h := m.store.get id
  let checked := rules.hasChecker && !h.disableActiveCheck
  let flags :=
    if checked then
      HealthFlag.failedActiveCheck ::
        (if rules.awaitFirstCheck then [HealthFlag.pendingActiveCheck] else [])
    else []
  { m with
    store := m.store.modify id (·.setFlags flags)
    fresh := insertNew h.address.text m.fresh
    final := m.final ++ [id]
    added := m.added ++ [id]
    maxWeight := max m.maxWeight h.weight }

def updateInPlace (m : Matching) (existingId id : HostId) : Matching :=
  let existing := m.store.get existingId
  let delivered := m.store.get id
  { m with
    store := m.store.modify existingId (·.adopt delivered)
    kept := insertNew delivered.address.text m.kept
    final := m.final ++ [existingId]
    added := if existing.priority ≠ delivered.priority then m.added ++ [existingId] else m.added
    changed := m.changed || existing.shifts delivered
    maxWeight := max m.maxWeight delivered.weight }

def matchHost (rules : Rules) (all : AddressMap) (m : Matching) (id : HostId) : Matching :=
  let address := m.store.addressText id
  match Assoc.find? address all with
  | none => admitNew rules m id
  | some existingId =>
    let m := { m with store := m.store.modify existingId (·.clearFlag .pendingRemoval) }
    let existing := m.store.get existingId
    let delivered := m.store.get id
    let m :=
      { m with
        moved := if movedLocality existing delivered then insertNew address m.moved else m.moved
        checkSwitched :=
          if switchedCheck rules existing delivered then insertNew address m.checkSwitched
          else m.checkSwitched }
    if movedLocality existing delivered || movedCheck rules existing delivered ||
        switchedCheck rules existing delivered then
      admitNew rules m id
    else updateInPlace m existingId id

/-- Takes out, for each kept address, the first host of the level that has it. The second part is the
addresses no host of the level has: their hosts moved here. -/
def unmatched (store : HostStore) : List HostId → List String → List HostId × List String
  | [], kept => ([], kept)
  | id :: rest, kept =>
    let address := store.addressText id
    if address ∈ kept then unmatched store rest (kept.erase address)
    else
      let r := unmatched store rest kept
      (id :: r.1, r.2)

/-- Whether a host that was not matched goes at once. -/
def leaves (m : Matching) (allNew : List String) (id : HostId) : Bool :=
  let h := m.store.get id
  let address := h.address.text
  address ∈ m.moved || address ∈ m.checkSwitched ||
    (address ∈ allNew && address ∉ m.fresh) ||
    (h.hasFlag .failedActiveCheck || h.hasFlag .failedDiscovery) || h.disableActiveCheck

structure Result where
  store : HostStore
  hosts : List HostId
  added : List HostId
  removed : List HostId
  changed : Bool
  maxWeight : Nat

def matchAll (rules : Rules) (all : AddressMap) (store : HostStore) (delivered : List HostId) :
    Matching :=
  delivered.foldl (matchHost rules all) { store }

/-- Hosts that were not matched: those that stay to drain, and those that leave. -/
def drain (rules : Rules) (m : Matching) (allNew : List String) (left : List HostId) :
    List HostId × List HostId :=
  if rules.hasChecker && !rules.ignoreHealth then
    (left.filter fun id => !leaves m allNew id, left.filter (leaves m allNew))
  else ([], left)

def reconcile (rules : Rules) (store : HostStore) (delivered current : List HostId)
    (all : AddressMap) (allNew : List String) : Result :=
  let m := matchAll rules all store delivered
  let (left, arrived) := unmatched m.store current m.kept
  let (draining, leaving) := drain rules m allNew left
  let reports := !m.added.isEmpty || !leaving.isEmpty
  { store := m.store.modifyAll draining (·.setFlag .pendingRemoval)
    hosts := m.final ++ draining
    added := m.added
    removed := leaving
    changed := m.changed || !arrived.isEmpty || reports
    maxWeight := (draining.map fun id => (m.store.get id).weight).foldl max m.maxWeight }

end Reconcile

namespace Cluster

variable {τ : Type}

def rules (c : Cluster τ) : Reconcile.Rules :=
  { hasChecker := c.hasChecker
    ignoreHealth := c.config.ignoreHealthOnRemoval
    awaitFirstCheck := c.config.ignoreNewUntilFirstCheck }

/-- Reconciles a list of hosts as a level would be, hosts and the largest weight included. -/
def reconcile (c : Cluster τ) (delivered current : List HostId) (all : AddressMap)
    (allNew : List String) : Reconcile.Result × Cluster τ :=
  let r := Reconcile.reconcile c.rules c.hosts delivered current all allNew
  (r, { c with hosts := r.store, maxHostWeight := r.maxWeight })

end Cluster

end Roster
