import Mathlib.Data.List.Nodup
import Roster.Draft

/-!
# Roster.Proofs.Drafting

What registering the groups of an assignment gathers.

* `Arrival`  — an endpoint of an assignment with the host that is made for it.
* `arrivals` — all of them, numbered in document order.
* `Registered` — under each priority the hosts of its endpoints in document order; in the store the hosts
  there were, then one new host for each endpoint.
* `registered_registerGroups` — registering groups leads to just that.
* `SameWeights` — drafts that note the same weights; registering the same groups keeps them so.
-/

namespace Roster

/-- An endpoint of an assignment, its group, and the name of the host made for it. -/
structure Arrival where
  group : EndpointGroup
  endpoint : Endpoint
  id : HostId

namespace Arrival

def level (x : Arrival) : Nat := x.group.level

def text (x : Arrival) : String := x.endpoint.address.text

def host (x : Arrival) : Host := Host.ofEndpoint x.group x.endpoint

end Arrival

def HealthStatus.flags : HealthStatus → HealthFlags
  | .unhealthy | .draining | .timeout => HealthFlags.empty.insert .failedDiscovery
  | .degraded => HealthFlags.empty.insert .degradedDiscovery
  | .unknown | .healthy => .empty

theorem Arrival.host_eq (x : Arrival) :
    x.host =
      { address := x.endpoint.address
        healthCheckAddress := x.endpoint.healthCheckAddress
        hostname := x.endpoint.hostname
        checkHostname := x.endpoint.healthCheck.hostname
        locality := x.group.locality
        disableActiveCheck := x.endpoint.disableActiveCheck
        metadata := x.endpoint.metadata
        canary := x.endpoint.metadata.canary
        priority := x.level
        flags := x.endpoint.healthStatus.flags
        weight := clampWeight x.endpoint.weight
        used := false
        failure := .unknown } := by
  simp only [host, Host.ofEndpoint, HostSpec.make]
  cases x.endpoint.healthStatus <;> rfl

/-- The endpoints of groups with their hosts, the first of them named `n`. -/
def arrivalsOf (groups : List EndpointGroup) (n : Nat) : List Arrival :=
  ((groups.flatMap fun g => g.endpoints.map (g, ·)).zipIdx n).map fun m => ⟨m.1.1, m.1.2, m.2⟩

def Assignment.arrivals (a : Assignment) (n : Nat) : List Arrival := arrivalsOf a.groups n

theorem ids_arrivalsOf (groups : List EndpointGroup) (n : Nat) :
    (arrivalsOf groups n).map Arrival.id = List.range' n (arrivalsOf groups n).length := by
  simp only [arrivalsOf, List.map_map, List.length_map, List.length_zipIdx]
  exact List.zipIdx_map_snd n _

theorem nodup_ids_arrivalsOf (groups : List EndpointGroup) (n : Nat) :
    ((arrivalsOf groups n).map Arrival.id).Nodup := by
  rw [ids_arrivalsOf]
  exact List.nodup_range'

theorem le_id_of_mem_arrivalsOf {groups : List EndpointGroup} {n : Nat} {x : Arrival}
    (hx : x ∈ arrivalsOf groups n) : n ≤ x.id ∧ x.id < n + (arrivalsOf groups n).length := by
  have hid : x.id ∈ (arrivalsOf groups n).map Arrival.id := List.mem_map_of_mem hx
  rw [ids_arrivalsOf] at hid
  exact List.mem_range'_1.1 hid

theorem eq_of_id_eq {groups : List EndpointGroup} {n : Nat} {x y : Arrival}
    (hx : x ∈ arrivalsOf groups n) (hy : y ∈ arrivalsOf groups n) (h : x.id = y.id) : x = y :=
  List.inj_on_of_nodup_map (nodup_ids_arrivalsOf groups n) hx hy h

theorem map_arrivals (a : Assignment) (n : Nat) :
    (a.arrivals n).map (fun x => (x.group, x.endpoint)) = a.members := by
  simp only [Assignment.arrivals, arrivalsOf, List.map_map]
  exact List.zipIdx_map_fst n _

theorem mem_members_of_arrival {a : Assignment} {n : Nat} {x : Arrival} (hx : x ∈ a.arrivals n) :
    (x.group, x.endpoint) ∈ a.members := by
  rw [← map_arrivals a n]
  exact List.mem_map_of_mem hx

namespace Draft

/-! ## Room for priorities -/

def levelAt (d : Draft) (p : Nat) : DraftLevel := d.levels[p]?.getD default

theorem hostsAt_eq (d : Draft) (p : Nat) : d.hostsAt p = (d.levelAt p).hosts?.getD [] := by
  simp only [hostsAt, hostsAt?, levelAt]
  cases d.levels[p]? <;> rfl

theorem weightsAt_eq (d : Draft) (p : Nat) : d.weightsAt p = (d.levelAt p).weights := by
  simp only [weightsAt, levelAt]
  cases d.levels[p]? <;> rfl

theorem levelAt_extendTo (d : Draft) (p q : Nat) : (d.extendTo p).levelAt q = d.levelAt q := by
  simp only [levelAt, extendTo, List.getElem?_append, List.getElem?_replicate]
  by_cases hq : q < d.levels.length
  · rw [if_pos hq]
  · rw [if_neg hq, List.getElem?_eq_none (by omega)]
    split <;> rfl

theorem length_extendTo (d : Draft) (p : Nat) :
    (d.extendTo p).levels.length = max d.levels.length (p + 1) := by
  simp only [extendTo, List.length_append, List.length_replicate]
  omega

theorem length_modify (d : Draft) (p : Nat) (f : DraftLevel → DraftLevel) :
    (d.modify p f).levels.length = max d.levels.length (p + 1) := by
  simp only [modify, List.length_modify, length_extendTo]

theorem levelAt_modify (d : Draft) (p : Nat) (f : DraftLevel → DraftLevel) (q : Nat) :
    (d.modify p f).levelAt q = if q = p then f (d.levelAt p) else d.levelAt q := by
  rw [← levelAt_extendTo d p q, ← levelAt_extendTo d p p]
  have hp : p < (d.extendTo p).levels.length := by rw [length_extendTo]; omega
  simp only [levelAt, modify, List.getElem?_modify]
  by_cases hq : q = p
  · rw [if_pos hq, hq, List.getElem?_eq_getElem hp]
    simp
  · rw [if_neg hq]
    simp only [Ne.symm hq, if_false, Option.map_eq_map, Option.map_id_fun', id_eq]

/-! ## Registering -/

theorem hostsAt_openGroup (d : Draft) (g : EndpointGroup) (q : Nat) :
    (d.openGroup g).hostsAt q = d.hostsAt q := by
  rw [hostsAt_eq, hostsAt_eq, openGroup, levelAt_modify]
  by_cases hq : q = g.level
  · rw [if_pos hq, hq]; rfl
  · rw [if_neg hq]

theorem hostsAt_register (d : Draft) (g : EndpointGroup) (id : HostId) (q : Nat) :
    (d.register g id).hostsAt q = if g.level = q then d.hostsAt q ++ [id] else d.hostsAt q := by
  rw [hostsAt_eq, hostsAt_eq, register, levelAt_modify]
  by_cases hq : q = g.level
  · rw [if_pos hq, if_pos hq.symm, hq]; rfl
  · rw [if_neg hq, if_neg (Ne.symm hq)]

def idsAt (xs : List Arrival) (p : Nat) : List HostId :=
  (xs.filter fun x => x.level = p).map Arrival.id

theorem idsAt_append (xs ys : List Arrival) (p : Nat) :
    idsAt (xs ++ ys) p = idsAt xs p ++ idsAt ys p := by
  simp only [idsAt, List.filter_append, List.map_append]

theorem mem_idsAt {xs : List Arrival} {p : Nat} {id : HostId} :
    id ∈ idsAt xs p ↔ ∃ x ∈ xs, x.level = p ∧ x.id = id := by
  simp only [idsAt, List.mem_map, List.mem_filter, decide_eq_true_eq, and_assoc]

def ofGroup (g : EndpointGroup) (es : List Endpoint) (n : Nat) : List Arrival :=
  ((es.map (g, ·)).zipIdx n).map fun m => ⟨m.1.1, m.1.2, m.2⟩

theorem ofGroup_cons (g : EndpointGroup) (e : Endpoint) (es : List Endpoint) (n : Nat) :
    ofGroup g (e :: es) n = ⟨g, e, n⟩ :: ofGroup g es (n + 1) := rfl

theorem arrivalsOf_cons (g : EndpointGroup) (groups : List EndpointGroup) (n : Nat) :
    arrivalsOf (g :: groups) n =
      ofGroup g g.endpoints n ++ arrivalsOf groups (n + g.endpoints.length) := by
  simp only [arrivalsOf, ofGroup, List.flatMap_cons, List.zipIdx_append, List.map_append,
    List.length_map]

theorem registerEndpoints_eq (g : EndpointGroup) (es : List Endpoint) (store : HostStore) (d : Draft) :
    (registerEndpoints g es (store, d)).1.hosts.toList =
        store.hosts.toList ++ (ofGroup g es store.size).map Arrival.host ∧
      (∀ p, (registerEndpoints g es (store, d)).2.hostsAt p =
        d.hostsAt p ++ idsAt (ofGroup g es store.size) p) ∧
      d.levels.length ≤ (registerEndpoints g es (store, d)).2.levels.length := by
  induction es generalizing store d with
  | nil => exact ⟨(List.append_nil _).symm, fun p => (List.append_nil _).symm, Nat.le_refl _⟩
  | cons e es ih =>
    obtain ⟨hstore, hdraft, hlen⟩ :=
      ih (store.add (Host.ofEndpoint g e)).2 (d.register g (store.add (Host.ofEndpoint g e)).1)
    have hsize : (store.add (Host.ofEndpoint g e)).2.size = store.size + 1 := store.size_add _
    rw [hsize] at hstore hdraft
    rw [ofGroup_cons]
    refine ⟨hstore.trans ?_, fun p => (hdraft p).trans ?_, ?_⟩
    · simp only [HostStore.add, Array.toList_push, List.append_assoc, List.singleton_append,
        List.map_cons]
      rfl
    · rw [hostsAt_register]
      by_cases hp : g.level = p
      · simp [idsAt, Arrival.level, hp, HostStore.add, HostStore.size]
      · simp [idsAt, Arrival.level, hp]
    · refine Nat.le_trans ?_ hlen
      rw [register, length_modify]
      exact Nat.le_max_left _ _

theorem size_eq (store : HostStore) : store.size = store.hosts.toList.length := rfl

/-- All that registering does: new hosts in document order, each under its group's priority. -/
theorem registerGroups_eq (groups : List EndpointGroup) (store : HostStore) (d : Draft) :
    (registerGroups groups (store, d)).1.hosts.toList =
        store.hosts.toList ++ (arrivalsOf groups store.size).map Arrival.host ∧
      (∀ p, (registerGroups groups (store, d)).2.hostsAt p =
        d.hostsAt p ++ idsAt (arrivalsOf groups store.size) p) ∧
      d.levels.length ≤ (registerGroups groups (store, d)).2.levels.length ∧
      ∀ g ∈ groups, g.level < (registerGroups groups (store, d)).2.levels.length := by
  induction groups generalizing store d with
  | nil =>
    exact ⟨(List.append_nil _).symm, fun p => (List.append_nil _).symm, Nat.le_refl _, by simp⟩
  | cons g groups ih =>
    obtain ⟨hstore, hdraft, hlen⟩ := registerEndpoints_eq g g.endpoints store (d.openGroup g)
    obtain ⟨hstore', hdraft', hlen', hlevel⟩ :=
      ih (registerEndpoints g g.endpoints (store, d.openGroup g)).1
        (registerEndpoints g g.endpoints (store, d.openGroup g)).2
    have hsize : (registerEndpoints g g.endpoints (store, d.openGroup g)).1.size =
        store.size + g.endpoints.length := by
      rw [size_eq, hstore, size_eq]
      simp [ofGroup]
    have hopen : max d.levels.length (g.level + 1) ≤
        (registerEndpoints g g.endpoints (store, d.openGroup g)).2.levels.length := by
      refine Nat.le_trans (Nat.le_of_eq ?_) hlen
      rw [openGroup, length_modify]
    rw [hsize] at hstore' hdraft'
    rw [arrivalsOf_cons]
    refine ⟨?_, ?_, ?_, ?_⟩
    · refine hstore'.trans ?_
      rw [hstore, List.map_append, List.append_assoc]
    · intro p
      refine (hdraft' p).trans ?_
      rw [hdraft p, hostsAt_openGroup, idsAt_append, List.append_assoc]
    · exact Nat.le_trans (Nat.le_trans (Nat.le_max_left _ _) hopen) hlen'
    · intro k hk
      rcases List.mem_cons.1 hk with rfl | hk
      · exact Nat.lt_of_lt_of_le (Nat.lt_of_lt_of_le (Nat.lt_succ_self _) (Nat.le_max_right _ _))
          (Nat.le_trans hopen hlen')
      · exact hlevel k hk

/-- What registering groups in an empty draft leads to. -/
structure Registered (groups : List EndpointGroup) (store store' : HostStore) (d : Draft) : Prop where
  size : store'.size = store.size + (arrivalsOf groups store.size).length
  old : ∀ id, id < store.size → store'.get id = store.get id
  new : ∀ x ∈ arrivalsOf groups store.size, store'.get x.id = x.host
  hostsAt : ∀ p, d.hostsAt p = idsAt (arrivalsOf groups store.size) p
  level : ∀ x ∈ arrivalsOf groups store.size, x.level < d.levels.length

namespace Registered

variable {groups : List EndpointGroup} {store store' : HostStore} {d : Draft}

theorem keeps (h : Registered groups store store' d) : HostStore.Keeps store store' := by
  refine ⟨by rw [h.size]; exact Nat.le_add_right _ _, fun id hid => ?_⟩
  rw [h.old id hid]
  exact .refl _

theorem known (h : Registered groups store store' d) {p : Nat} {i : HostId} (hi : i ∈ d.hostsAt p) :
    i < store'.size := by
  rw [h.hostsAt] at hi
  obtain ⟨x, hx, _, rfl⟩ := mem_idsAt.1 hi
  rw [h.size]
  exact (le_id_of_mem_arrivalsOf hx).2

/-- What is registered is new. -/
theorem not_mem_hostsAt (h : Registered groups store store' d) {i : HostId} (hi : i < store.size)
    (p : Nat) : i ∉ d.hostsAt p := by
  rw [h.hostsAt p]
  intro hm
  obtain ⟨x, hx, _, rfl⟩ := mem_idsAt.1 hm
  exact Nat.not_lt.2 (le_id_of_mem_arrivalsOf hx).1 hi

theorem mem_hostsAt (h : Registered groups store store' d) {x : Arrival}
    (hx : x ∈ arrivalsOf groups store.size) : x.id ∈ d.hostsAt x.level := by
  rw [h.hostsAt]
  exact mem_idsAt.2 ⟨x, hx, rfl, rfl⟩

theorem exists_arrival (h : Registered groups store store' d) {i : HostId} (hi : store.size ≤ i)
    (hlt : i < store'.size) : ∃ x ∈ arrivalsOf groups store.size, x.id = i := by
  rw [h.size] at hlt
  have hid : i ∈ (arrivalsOf groups store.size).map Arrival.id := by
    rw [ids_arrivalsOf]
    exact List.mem_range'_1.2 ⟨hi, hlt⟩
  exact List.mem_map.1 hid

end Registered

theorem get_eq (store : HostStore) (id : HostId) :
    store.get id = (store.hosts.toList[id]?).getD default := by
  simp only [HostStore.get, Array.getElem?_toList]

theorem registered_registerGroups (groups : List EndpointGroup) (store : HostStore) :
    Registered groups store (registerGroups groups (store, {})).1
      (registerGroups groups (store, {})).2 := by
  obtain ⟨hstore, hdraft, _, hlevel⟩ := registerGroups_eq groups store {}
  refine ⟨?_, ?_, ?_, ?_, fun x hx => hlevel x.group ?_⟩
  · rw [size_eq, hstore, size_eq]
    simp
  · intro id hid
    rw [get_eq, hstore, List.getElem?_append_left hid, get_eq]
  · intro x hx
    obtain ⟨⟨m, i⟩, hm, rfl⟩ := List.mem_map.1 hx
    obtain ⟨hge, hi⟩ := List.mem_zipIdx_iff_le_and_getElem?_sub.1 hm
    have hlist : (arrivalsOf groups store.size)[i - store.size]? = some ⟨m.1, m.2, i⟩ := by
      simp only [arrivalsOf, List.getElem?_map, List.getElem?_zipIdx]
      rw [hi]
      simp only [Option.map_some, Nat.add_sub_cancel' hge]
    rw [get_eq, hstore, List.getElem?_append_right hge, List.getElem?_map]
    simp only [← size_eq, hlist, Option.map_some, Option.getD_some]
  · intro p
    rw [hdraft p]
    simp [hostsAt_eq, levelAt]
    rfl
  · obtain ⟨m, hm, rfl⟩ := List.mem_map.1 hx
    obtain ⟨g, hg, he⟩ := List.mem_flatMap.1 (List.fst_mem_of_mem_zipIdx hm)
    obtain ⟨e, _, he⟩ := List.mem_map.1 he
    rw [← he]
    exact hg

/-! ## Weights -/

/-- Two drafts reach as far and note the same weights. -/
structure SameWeights (d d' : Draft) : Prop where
  length : d'.levels.length = d.levels.length
  weights : ∀ p, (d'.levelAt p).weights = (d.levelAt p).weights

namespace SameWeights

variable {d d' : Draft}

theorem modify (h : SameWeights d d') (p : Nat) {f f' : DraftLevel → DraftLevel}
    (hf : ∀ l l', l'.weights = l.weights → (f' l').weights = (f l).weights) :
    SameWeights (d.modify p f) (d'.modify p f') := by
  refine ⟨by rw [length_modify, length_modify, h.length], fun q => ?_⟩
  rw [levelAt_modify, levelAt_modify]
  split
  · exact hf _ _ (h.weights p)
  · exact h.weights q

theorem openGroup (h : SameWeights d d') (g : EndpointGroup) :
    SameWeights (d.openGroup g) (d'.openGroup g) :=
  h.modify g.level fun l l' hl => by simp only [hl]

theorem register (h : SameWeights d d') (g : EndpointGroup) (id id' : HostId) :
    SameWeights (d.register g id) (d'.register g id') :=
  h.modify g.level fun _ _ hl => hl

theorem registerEndpoints (h : SameWeights d d') (g : EndpointGroup) (es : List Endpoint)
    (store store' : HostStore) :
    SameWeights (registerEndpoints g es (store, d)).2 (registerEndpoints g es (store', d')).2 := by
  induction es generalizing store store' d d' with
  | nil => exact h
  | cons e es ih => exact ih (h.register g _ _) _ _

theorem registerGroups (h : SameWeights d d') (groups : List EndpointGroup)
    (store store' : HostStore) :
    SameWeights (registerGroups groups (store, d)).2 (registerGroups groups (store', d')).2 := by
  induction groups generalizing store store' d d' with
  | nil => exact h
  | cons g groups ih => exact ih ((h.openGroup g).registerEndpoints g g.endpoints store store') _ _

theorem weightsAt (h : SameWeights d d') (p : Nat) : d'.weightsAt p = d.weightsAt p := by
  rw [weightsAt_eq, weightsAt_eq, h.weights]

end SameWeights

end Draft

end Roster
