import Roster.Proofs.Reaching
import Mathlib.Data.List.Nodup

/-!
# Roster.Proofs.Refusing

Why an assignment is refused, and that a refused one changes nothing.

* `Assignment.violations`   — all that is wrong with an assignment, in document order.
* `verdict`                 — the first of some violations as an error.
* `validateAssignment_eq`   — validation reports the first violation.
* `Assignment.Faulty`       — what may be wrong; `violations_ne_nil_iff` says that this is all.
* `Service.refuses_deliver` — a delivery is refused just then, and leaves the cluster as it was.
-/

namespace Roster

/-! ## Violations in document order -/

/-- What is wrong with an endpoint of a group, after endpoints of these addresses. -/
def Endpoint.violations (locality : Locality) (before : List Address) (e : Endpoint) :
    List ValidationError :=
  (if e.weight? = some 0 then [.zeroEndpointWeight e.address] else []) ++
    if e.address ∈ before then [.duplicateAddress e.address locality] else []

/-- What is wrong with a group: its weight, its priority, and its endpoints one after another. -/
def EndpointGroup.violations (c : ClusterConfig) (g : EndpointGroup) : List ValidationError :=
  (if g.weight? = some 0 then [.zeroLocalityWeight g.locality] else []) ++
    (if c.localCluster ∧ g.level ≠ 0 then [.localClusterPriority c.name g.level] else []) ++
    g.endpoints.zipIdx.flatMap fun p =>
      p.1.violations g.locality ((g.endpoints.take p.2).map Endpoint.address)

/-- What is wrong with an assignment: its factor, and its groups one after another. -/
def Assignment.violations (c : ClusterConfig) (a : Assignment) : List ValidationError :=
  (if a.overprovisioningFactor? = some 0 then [.zeroAssignmentFactor c.name] else []) ++
    a.groups.flatMap (EndpointGroup.violations c)

/-- The first violation is the error. -/
def verdict : List ValidationError → Except ValidationError Unit
  | [] => .ok ()
  | v :: _ => .error v

theorem verdict_eq_ok_iff {vs : List ValidationError} : verdict vs = .ok () ↔ vs = [] := by
  cases vs <;> simp [verdict]

theorem verdict_eq_error_iff {vs : List ValidationError} {v : ValidationError} :
    verdict vs = .error v ↔ vs.head? = some v := by
  cases vs <;> simp [verdict]

theorem verdict_append (vs ws : List ValidationError) :
    verdict (vs ++ ws) = match verdict vs with
      | .error v => .error v
      | .ok () => verdict ws := by
  cases vs <;> rfl

theorem verdict_ite_append (p : Prop) [Decidable p] (v : ValidationError) (ws : List ValidationError) :
    verdict ((if p then [v] else []) ++ ws) = if p then .error v else verdict ws := by
  split <;> rfl

namespace ClusterConfig

variable {c : ClusterConfig} {a : Assignment}

/-! ## Validation reports the first violation -/

theorem validateEndpoints_eq (locality : Locality) (seen : List Address) (done rest : List Endpoint)
    (hseen : ∀ address, address ∈ seen ↔ address ∈ done.map Endpoint.address) :
    validateEndpoints locality seen rest =
      verdict ((rest.zipIdx done.length).flatMap fun p =>
        p.1.violations locality (((done ++ rest).take p.2).map Endpoint.address)) := by
  induction rest generalizing seen done with
  | nil => rfl
  | cons e rest ih =>
    have hlater := ih (e.address :: seen) (done ++ [e]) fun address => by
      simp only [List.mem_cons, hseen, List.map_append, List.map_cons, List.map_nil, List.mem_append,
        List.not_mem_nil, or_false]
      exact or_comm
    rw [List.length_append, List.length_singleton, List.append_assoc, List.singleton_append] at hlater
    rw [List.zipIdx_cons, List.flatMap_cons, List.take_left, Endpoint.violations, List.append_assoc,
      verdict_ite_append, verdict_ite_append, ← hlater]
    simp only [validateEndpoints, hseen]

theorem validateGroup_eq (c : ClusterConfig) (g : EndpointGroup) :
    c.validateGroup g = verdict (g.violations c) := by
  have hendpoints := validateEndpoints_eq g.locality [] [] g.endpoints (by simp)
  rw [List.length_nil, List.nil_append] at hendpoints
  rw [EndpointGroup.violations, List.append_assoc, verdict_ite_append, verdict_ite_append, ← hendpoints,
    validateGroup]

theorem validateGroups_eq (c : ClusterConfig) (groups : List EndpointGroup) :
    c.validateGroups groups = verdict (groups.flatMap (EndpointGroup.violations c)) := by
  induction groups with
  | nil => rfl
  | cons g groups ih =>
    cases hverdict : verdict (g.violations c) <;>
      simp only [validateGroups, validateGroup_eq, List.flatMap_cons, verdict_append, hverdict, ih]

theorem validateAssignment_eq (c : ClusterConfig) (a : Assignment) :
    c.validateAssignment a = verdict (a.violations c) := by
  rw [Assignment.violations, verdict_ite_append, ← validateGroups_eq, validateAssignment]

theorem checkZones_of_validateAssignment (h : c.validateAssignment a = .ok ()) :
    c.checkZones a.groups = .ok () :=
  checkZones_of_valid (validateAssignment_eq_ok h).2

end ClusterConfig

/-- The second check of a delivery never says anything that validation does not. -/
theorem DynamicCluster.check_eq (c : ClusterConfig) (a : Assignment) :
    DynamicCluster.check c a = verdict (a.violations c) := by
  rw [check, ← c.validateAssignment_eq]
  cases h : c.validateAssignment a with
  | error v => rfl
  | ok _ => exact ClusterConfig.checkZones_of_validateAssignment h

theorem Cluster.openStatic_of_validateAssignment {τ : Type} {c : Cluster τ} {a : Assignment}
    (ha : c.config.assignment? = some a) (h : c.config.validateAssignment a = .ok ()) :
    c.openStatic = .ok c := by
  have hzones := ClusterConfig.checkZones_of_validateAssignment h
  simp only [openStatic, configuredGroups, ha, hzones]

/-! ## What may be wrong -/

/-- What an assignment for the cluster must not be. -/
inductive Assignment.Faulty (c : ClusterConfig) (a : Assignment) : Prop where
  | factor : a.overprovisioningFactor? = some 0 → Faulty c a
  | localityWeight (g : EndpointGroup) : g ∈ a.groups → g.weight? = some 0 → Faulty c a
  | priority (g : EndpointGroup) : c.localCluster = true → g ∈ a.groups → g.priority ≠ 0 → Faulty c a
  | endpointWeight (g : EndpointGroup) (e : Endpoint) :
      g ∈ a.groups → e ∈ g.endpoints → e.weight? = some 0 → Faulty c a
  /-- Two endpoints of one group have the same address. -/
  | duplicate (g : EndpointGroup) (i j : Fin g.endpoints.length) :
      g ∈ a.groups → i ≠ j → g.endpoints[i].address = g.endpoints[j].address → Faulty c a

theorem ite_append_ne_nil_iff {α : Type} {p : Prop} [Decidable p] {x : α} {ys : List α} :
    (if p then [x] else []) ++ ys ≠ [] ↔ p ∨ ys ≠ [] := by
  split <;> simp [*]

theorem Endpoint.violations_ne_nil_iff {locality : Locality} {before : List Address} {e : Endpoint} :
    e.violations locality before ≠ [] ↔ e.weight? = some 0 ∨ e.address ∈ before := by
  rw [violations, ite_append_ne_nil_iff]
  split <;> simp [*]

namespace EndpointGroup

variable {c : ClusterConfig} {g : EndpointGroup}

theorem mem_take_iff {i : Nat} {address : Address} :
    address ∈ (g.endpoints.take i).map Endpoint.address ↔
      ∃ (j : Nat) (hj : j < g.endpoints.length), j < i ∧ g.endpoints[j].address = address := by
  simp only [List.mem_map, List.mem_take_iff_getElem]
  constructor
  · rintro ⟨_, ⟨j, hj, rfl⟩, rfl⟩
    exact ⟨j, by omega, by omega, rfl⟩
  · rintro ⟨j, hj, hi, rfl⟩
    exact ⟨_, ⟨j, by omega, rfl⟩, rfl⟩

theorem violations_ne_nil_iff :
    g.violations c ≠ [] ↔
      g.weight? = some 0 ∨ (c.localCluster ∧ g.level ≠ 0) ∨
        ∃ (i : Nat) (hi : i < g.endpoints.length), g.endpoints[i].weight? = some 0 ∨
          ∃ (j : Nat) (hj : j < g.endpoints.length), j < i ∧
            g.endpoints[j].address = g.endpoints[i].address := by
  have hendpoints : (g.endpoints.zipIdx.flatMap fun p =>
      p.1.violations g.locality ((g.endpoints.take p.2).map Endpoint.address)) ≠ [] ↔
      ∃ (i : Nat) (hi : i < g.endpoints.length), g.endpoints[i].weight? = some 0 ∨
        ∃ (j : Nat) (hj : j < g.endpoints.length), j < i ∧
          g.endpoints[j].address = g.endpoints[i].address := by
    rw [Ne, List.flatMap_eq_nil_iff, not_forall]
    simp only [Classical.not_imp, ← ne_eq, Endpoint.violations_ne_nil_iff, mem_take_iff]
    constructor
    · rintro ⟨⟨e, i⟩, hmem, h⟩
      obtain ⟨hi, he⟩ := List.mem_zipIdx' hmem
      rw [he] at h
      exact ⟨i, hi, h⟩
    · rintro ⟨i, hi, h⟩
      exact ⟨(g.endpoints[i], i), List.mk_mem_zipIdx_iff_getElem?.2 (List.getElem?_eq_getElem hi), h⟩
  rw [violations, List.append_assoc, ite_append_ne_nil_iff, ite_append_ne_nil_iff, hendpoints]

end EndpointGroup

theorem Assignment.violations_ne_nil_iff {c : ClusterConfig} {a : Assignment} :
    a.violations c ≠ [] ↔ a.Faulty c := by
  have hlevel : ∀ g : EndpointGroup, g.level ≠ 0 ↔ g.priority ≠ 0 := fun g =>
    not_congr (UInt32.toNat_inj (b := 0))
  rw [violations, ite_append_ne_nil_iff, Ne, List.flatMap_eq_nil_iff, not_forall]
  simp only [Classical.not_imp, ← ne_eq, EndpointGroup.violations_ne_nil_iff, hlevel]
  constructor
  · rintro (h | ⟨g, hg, h | ⟨hlocal, h⟩ | ⟨i, hi, h | ⟨j, hj, hlt, h⟩⟩⟩)
    · exact .factor h
    · exact .localityWeight g hg h
    · exact .priority g hlocal hg h
    · exact .endpointWeight g _ hg (List.getElem_mem hi) h
    · exact .duplicate g ⟨j, hj⟩ ⟨i, hi⟩ hg (fun he => Nat.ne_of_lt hlt (Fin.mk.inj he)) h
  · rintro (h | ⟨g, hg, h⟩ | ⟨g, hlocal, hg, h⟩ | ⟨g, e, hg, he, h⟩ | ⟨g, i, j, hg, hne, h⟩)
    · exact .inl h
    · exact .inr ⟨g, hg, .inl h⟩
    · exact .inr ⟨g, hg, .inr (.inl ⟨hlocal, h⟩)⟩
    · obtain ⟨i, hi, rfl⟩ := List.getElem_of_mem he
      exact .inr ⟨g, hg, .inr (.inr ⟨i, hi, .inl h⟩)⟩
    · rcases Nat.lt_or_gt_of_ne (Fin.val_ne_of_ne hne) with hlt | hlt
      · exact .inr ⟨g, hg, .inr (.inr ⟨j, j.isLt, .inr ⟨i, i.isLt, hlt, h⟩⟩)⟩
      · exact .inr ⟨g, hg, .inr (.inr ⟨i, i.isLt, .inr ⟨j, j.isLt, hlt, h.symm⟩⟩)⟩

/-! ## Deliveries -/

namespace Service

variable {τ : Type} [Quantity τ] {config : ClusterConfig} {s : Service τ} {a : Assignment}

theorem deliver_of_violation (hs : Sound config s) {v : ValidationError}
    (hv : (a.violations config).head? = some v) : s.deliver a = .failed (.refused v) s := by
  have hcheck : DynamicCluster.check s.body.cluster.config a = .error v := by
    rw [DynamicCluster.check_eq, show s.body.cluster.config = config from hs.config]
    exact verdict_eq_error_iff.2 hv
  simp only [deliver, hs.source, DynamicCluster.deliver, hcheck, Attempt.map]
  rw [← hs.source]

theorem exists_deliver_of_violations_eq_nil (hconfig : config.validate = .ok ()) (hs : Sound config s)
    (ha : a.violations config = []) : ∃ t, s.deliver a = .done t := by
  have hvalid : config.validateAssignment a = .ok () := by
    rw [config.validateAssignment_eq]
    exact verdict_eq_ok_iff.2 ha
  obtain ⟨_, body, hdone, _⟩ := exists_deliver hconfig hs hvalid
  exact ⟨_, hdone⟩

/-- A delivery fails just when its assignment is faulty. Then it is refused for the first violation in
document order, and nothing at all has changed. What validation accepts, neither a delivery nor opening a
cluster that is configured with it refuses for its priorities. -/
theorem refuses_deliver (hconfig : config.validate = .ok ()) (hs : Reaches Knows (fresh τ config) s)
    (a : Assignment) :
    ((∃ e t, s.deliver a = .failed e t) ↔ a.Faulty config) ∧
      (∀ e t, s.deliver a = .failed e t →
        (∃ v, (a.violations config).head? = some v ∧ e = .refused v) ∧ t = s) ∧
      (config.validateAssignment a = .ok () → config.checkZones a.groups = .ok ()) ∧
      ∀ c : Cluster τ, c.config.assignment? = some a → c.config.validateAssignment a = .ok () →
        c.openStatic = .ok c := by
  have hsound := sound_of_reaches hconfig hs
  refine ⟨?_, ?_, ClusterConfig.checkZones_of_validateAssignment,
    fun c => Cluster.openStatic_of_validateAssignment⟩
  · rw [← Assignment.violations_ne_nil_iff]
    constructor
    · rintro ⟨e, t, hfailed⟩ hnone
      obtain ⟨u, hdone⟩ := exists_deliver_of_violations_eq_nil hconfig hsound hnone
      rw [hdone] at hfailed
      cases hfailed
    · intro hsome
      obtain ⟨v, _, hvs⟩ := List.exists_cons_of_ne_nil hsome
      exact ⟨_, _, deliver_of_violation hsound (by rw [hvs]; rfl)⟩
  · intro e t hfailed
    cases hvs : a.violations config with
    | nil =>
      obtain ⟨u, hdone⟩ := exists_deliver_of_violations_eq_nil hconfig hsound hvs
      rw [hdone] at hfailed
      cases hfailed
    | cons v vs =>
      rw [deliver_of_violation hsound (v := v) (by rw [hvs]; rfl)] at hfailed
      cases hfailed
      exact ⟨⟨v, rfl, rfl⟩, rfl⟩

/-- An address twice in the first group, the second time without weight, and then a group without. -/
def spoiled : Assignment :=
  { groups :=
      [{ locality := { region := "east" }
         endpoints :=
          [{ address := ⟨.ipv4 ⟨10, 0, 0, 1⟩, 80⟩ },
            { address := ⟨.ipv4 ⟨10, 0, 0, 1⟩, 80⟩, weight? := some 0 }] },
        { weight? := some 0, priority := 1 }] }

def localDelivered : Service Rat :=
  (run [.deliver (lone 2)] (fresh Rat { localCluster := true })).state

/-- Four things are wrong, and the weight of the second endpoint comes first. -/
theorem refuses_spoiled :
    (spoiled.violations { localCluster := true }).length = 4 ∧ spoiled.Faulty { localCluster := true } ∧
      localDelivered.deliver spoiled =
        .failed (.refused (.zeroEndpointWeight ⟨.ipv4 ⟨10, 0, 0, 1⟩, 80⟩)) localDelivered := by
  let config : ClusterConfig := { localCluster := true }
  have hrun : run [.deliver (lone 2)] (fresh Rat config) = .done localDelivered := rfl
  have hreaches : Reaches Knows (fresh Rat config) localDelivered :=
    .of_run (fun act hact _ => by rw [List.mem_singleton.1 hact]; trivial) hrun
  have hconfig : config.validate = .ok () := rfl
  obtain ⟨hiff, hfirst, _⟩ := refuses_deliver hconfig hreaches spoiled
  have hfaulty : spoiled.Faulty config :=
    .endpointWeight _ _ List.mem_cons_self (List.mem_cons_of_mem _ List.mem_cons_self) rfl
  obtain ⟨e, t, hfailed⟩ := hiff.2 hfaulty
  obtain ⟨⟨v, hv, rfl⟩, rfl⟩ := hfirst e t hfailed
  have hv : some v = some (.zeroEndpointWeight ⟨.ipv4 ⟨10, 0, 0, 1⟩, 80⟩) := hv.symm.trans rfl
  cases hv
  exact ⟨rfl, hfaulty, hfailed⟩

end Service

end Roster
