import Roster.Proofs.Localities

/-!
# Roster.Proofs.Weighting

The weights and the factor that a level has after a delivery, whether it was installed again or left as
it is.

* `weightAt`   — the weight that an assignment gives a locality of a priority.
* `weightAt_registerGroups` — a draft notes just that.
* `Remembers`  — the memory of weights agrees with the weights that are installed; what is left as it is
  because of the memory has the right weights then.
* `remembers_perform` — every action keeps it.
* `weighted_deliver`  — what follows for a delivery.
-/

namespace Roster

/-! ## The weights of an assignment -/

/-- The weight of the last group that is of the priority and the locality and has one. -/
def lastWeight? (groups : List EndpointGroup) (p : Nat) (l : Locality) : Option Nat :=
  ((groups.filterMap fun g => if g.level = p ∧ g.locality = l then g.weight? else none).getLast?).map
    UInt32.toNat

/-- The weight an assignment gives a locality of a priority: 0 without any, and for the empty
locality. -/
def Assignment.weightAt (a : Assignment) (p : Nat) (l : Locality) : Nat :=
  if l.isEmpty then 0 else (lastWeight? a.groups p l).getD 0

theorem lastWeight?_cons (g : EndpointGroup) (groups : List EndpointGroup) (p : Nat) (l : Locality) :
    lastWeight? (g :: groups) p l =
      (lastWeight? groups p l).or
        (if g.level = p ∧ g.locality = l then g.weight?.map UInt32.toNat else none) := by
  simp only [lastWeight?, List.filterMap_cons]
  by_cases hg : g.level = p ∧ g.locality = l
  · simp only [if_pos hg]
    cases g.weight? with
    | none => rw [Option.map_none, Option.or_none]
    | some w =>
      rw [List.getLast?_cons]
      cases (groups.filterMap _).getLast? <;> rfl
  · simp only [if_neg hg, Option.or_none]

namespace Draft

theorem weightsAt_registerEndpoints (g : EndpointGroup) (es : List Endpoint) (store : HostStore)
    (d : Draft) (p : Nat) :
    (registerEndpoints g es (store, d)).2.weightsAt p = d.weightsAt p := by
  induction es generalizing store d with
  | nil => rfl
  | cons e es ih =>
    refine (ih _ _).trans ?_
    rw [weightsAt_eq, weightsAt_eq, register, levelAt_modify]
    split
    · rename_i hp
      rw [hp]
    · rfl

theorem find?_openGroup (d : Draft) (g : EndpointGroup) (p : Nat) {l : Locality}
    (hl : l.isEmpty = false) :
    Assoc.find? l ((d.openGroup g).weightsAt p) =
      (if g.level = p ∧ g.locality = l then g.weight?.map UInt32.toNat else none).or
        (Assoc.find? l (d.weightsAt p)) := by
  rw [weightsAt_eq, weightsAt_eq, openGroup, levelAt_modify]
  by_cases hp : p = g.level
  · rw [if_pos hp, hp]
    cases hw : g.weight? with
    | none => simp
    | some w =>
      by_cases hlocality : g.locality = l
      · simp [hlocality, hl, Assoc.find?_insert_self]
      · simp only [hlocality, and_false, if_false, Option.none_or]
        split
        · rfl
        · exact Assoc.find?_insert_of_ne (Ne.symm hlocality)
  · rw [if_neg hp, if_neg fun h => hp h.1.symm, Option.none_or]

theorem find?_openGroup_of_isEmpty (d : Draft) (g : EndpointGroup) (p : Nat) {l : Locality}
    (hl : l.isEmpty = true) :
    Assoc.find? l ((d.openGroup g).weightsAt p) = Assoc.find? l (d.weightsAt p) := by
  rw [weightsAt_eq, weightsAt_eq, openGroup, levelAt_modify]
  by_cases hp : p = g.level
  · rw [if_pos hp, hp]
    cases g.weight? with
    | none => rfl
    | some w =>
      simp only
      split
      · rfl
      · rename_i hg
        refine Assoc.find?_insert_of_ne fun h => ?_
        rw [h] at hl
        exact hg hl
  · rw [if_neg hp]

theorem find?_registerGroups (groups : List EndpointGroup) (store : HostStore) (d : Draft) (p : Nat)
    (l : Locality) :
    Assoc.find? l ((registerGroups groups (store, d)).2.weightsAt p) =
      if l.isEmpty then Assoc.find? l (d.weightsAt p)
      else (lastWeight? groups p l).or (Assoc.find? l (d.weightsAt p)) := by
  induction groups generalizing store d with
  | nil => simp [registerGroups, lastWeight?]
  | cons g groups ih =>
    refine (ih _ _).trans ?_
    rw [weightsAt_registerEndpoints]
    cases hl : l.isEmpty with
    | true => exact find?_openGroup_of_isEmpty d g p hl
    | false =>
      simp only [Bool.false_eq_true, if_false]
      rw [find?_openGroup d g p hl, lastWeight?_cons, Option.or_assoc]

/-- The draft of an assignment notes for each locality the weight that the assignment gives it. -/
theorem weightAt_registerGroups (a : Assignment) (store : HostStore) (p : Nat) (l : Locality) :
    (Assoc.find? l ((registerGroups a.groups (store, {})).2.weightsAt p)).getD 0 = a.weightAt p l := by
  have hnone : Assoc.find? l (({} : Draft).weightsAt p) = none := rfl
  rw [find?_registerGroups, hnone, Option.or_none, Assignment.weightAt]
  split <;> rfl

/-! ## The weights of a level -/

def groupWeights (config : ClusterConfig) (weights : LocalityWeights) (store : HostStore)
    (hosts : List HostId) : Option (List Nat) :=
  if config.localityWeighted then
    some ((arrange config store hosts).2.map fun g => (Assoc.find? g.1 weights).getD 0)
  else none

theorem groupWeights_congr (config : ClusterConfig) (weights : LocalityWeights) {s t : HostStore}
    {hosts : List HostId} (h : ∀ i ∈ hosts, (t.get i).locality = (s.get i).locality) :
    groupWeights config weights t hosts = groupWeights config weights s hosts := by
  simp only [groupWeights, arrange_congr config h]

theorem exists_groupWeight {config : ClusterConfig} {weights : LocalityWeights} {store : HostStore}
    {hosts : List HostId} {i : Nat} {group : List HostId} (hweighted : config.localityWeighted = true)
    (hgroup : (grouping config store hosts).groups[i]? = some group) :
    group ≠ [] ∧ ∃ l, (∀ j ∈ group, (store.get j).locality = l) ∧
      ∃ ws, groupWeights config weights store hosts = some ws ∧
        ws[i]? = some ((Assoc.find? l weights).getD 0) := by
  simp only [grouping, List.getElem?_map, Option.map_eq_some_iff] at hgroup
  obtain ⟨g, hg, rfl⟩ := hgroup
  obtain ⟨hmembers, hne⟩ :=
    ((arranged_arrange config store hosts).mem g).1 (List.mem_of_getElem? hg)
  refine ⟨hne, g.1, ?_, _, if_pos hweighted, ?_⟩
  · intro j hj
    rw [hmembers] at hj
    exact of_decide_eq_true (List.mem_filter.1 hj).2
  · rw [List.getElem?_map, hg]
    rfl

end Draft

/-! ## The memory of weights -/

/-- A generation is empty, or has the weights of `weights`. -/
def Generation.Weighs {τ : Type} (config : ClusterConfig) (store : HostStore)
    (weights : LocalityWeights) (g : Generation τ) : Prop :=
  g.Vacant ∨ g.weights? = Draft.groupWeights config weights store g.hosts

/-- What every level was last installed with is remembered. -/
structure DynamicCluster.Remembers {τ : Type} (config : ClusterConfig) (dc : DynamicCluster τ) :
    Prop where
  composed : dc.cluster.Composed config
  weighs : ∀ p g, dc.cluster.priorities.generation? p = some g →
    g.Weighs config dc.cluster.hosts (dc.weights[p]?.getD [])

namespace Generation.Weighs

variable {τ : Type} {config : ClusterConfig} {s t : HostStore} {weights : LocalityWeights}
  {g h : Generation τ}

theorem congr (hg : g.Weighs config s weights)
    (hst : ∀ i ∈ g.hosts, (t.get i).locality = (s.get i).locality) : g.Weighs config t weights :=
  hg.imp_right fun heq => heq.trans (Draft.groupWeights_congr config weights hst).symm

theorem resplits (hg : g.Weighs config s weights) (hr : g.Resplits h) :
    h.Weighs config s weights := by
  have hhosts : h.hosts = g.hosts := hr.hosts
  rcases hg with hg | hg
  · exact .inl (hr.vacant hg)
  · exact .inr (by rw [hr.weights, hg, hhosts])

end Generation.Weighs

namespace DynamicCluster

variable {τ : Type} {config : ClusterConfig} {dc t : DynamicCluster τ} {a : Assignment}
  {new : List Event}

theorem Remembers.of_rests (h : dc.Remembers config) (hconfig : t.cluster.config = dc.cluster.config)
    (hweights : t.weights = dc.weights) (hhosts : HostStore.Keeps dc.cluster.hosts t.cluster.hosts)
    (hlevels : PrioritySet.Rests dc.cluster.priorities t.cluster.priorities) : t.Remembers config := by
  refine ⟨h.composed.of_rests hconfig hhosts hlevels, fun p g hg => ?_⟩
  rw [hweights]
  rcases hlevels.generations p g hg with ⟨k, hk, hresplits⟩ | hvacant
  · have hweighs := h.weighs p k hk
    exact (hweighs.congr fun i hi =>
      (hhosts.alike i ((h.composed.levels p k hk).known i hi)).locality).resplits hresplits
  · exact .inl hvacant

variable [Quantity τ]

/-- Every level that had its turn weighs what was delivered: one that is left as it is because the memory
of its weights agrees with the delivery, as the memory agrees with what is installed. -/
theorem weighs_reached (h : dc.Remembers config) (hf : dc.cluster.config.factorFor a ≠ 0) {p n : Nat}
    (hp : p < n) {g : Generation τ} (hg : (dc.reached a n).batch.priorities.generation? p = some g) :
    g.Weighs config (dc.reached a n).hosts ((dc.plan a).1.draft.weightsAt p) := by
  have hs := h.composed.toSound
  rw [generation?_reached_of_lt hs hf hp] at hg
  cases halone : dc.isAlone a p with
  | true =>
    obtain ⟨hold, hmade⟩ := generation?_of_isAlone hs hf halone
    rcases Nat.lt_or_ge p dc.cluster.priorities.levels.length with hlt | hge
    · rw [hold hlt] at hg
      have hmemory : dc.weights[p]?.getD [] = (dc.plan a).1.draft.weightsAt p := by
        have hweights := weights_reached (a := a) hs hf p p
        rw [if_neg (Nat.lt_irrefl p)] at hweights
        simp only [isAlone, Rollout.isAlone, Bool.and_eq_true, decide_eq_true_eq] at halone
        exact hweights.symm.trans halone.2
      rw [← hmemory]
      exact (h.weighs p g hg).congr fun i hi =>
        (alike_reached hs hf ((h.composed.levels p g hg).known i hi) n).locality
    · exact .inl (hmade hge g hg).1
  | false =>
    obtain ⟨stamp, hbuilt⟩ := generation?_of_not_isAlone hs hf halone
    rw [hbuilt, updateAt_eq hs hf, h.composed.config] at hg
    cases hg
    refine Generation.Weighs.congr (s := (dc.reached a (p + 1)).hosts) (.inr rfl) fun i _ => ?_
    exact ((underway_reached hs hf n).alike i).locality.trans
      ((underway_reached hs hf (p + 1)).alike i).locality.symm

/-- After a delivery every level weighs what was delivered, and has the factor of the delivery. -/
theorem Delivered.weighs (ht : dc.Delivered a new t) (h : dc.Remembers config)
    (hf : dc.cluster.config.factorFor a ≠ 0) {p : Nat} {g : Generation τ}
    (hg : t.cluster.priorities.generation? p = some g) :
    g.Weighs config t.cluster.hosts ((dc.plan a).1.draft.weightsAt p) ∧
      g.factor = config.factorFor a := by
  have hs := h.composed.toSound
  have hdone := ht.concluded hs hf
  obtain ⟨k, hk, hresplits⟩ := hdone.quiet.resplits p g hg
  rw [PrioritySet.generation?_congr hdone.finish.installation] at hk
  have hp := PrioritySet.lt_of_generation? hk
  rw [length_reached_span hs hf] at hp
  rw [ht.hosts, hresplits.factor, ← h.composed.config]
  exact ⟨(h.composed.config ▸ weighs_reached h hf hp hk).resplits hresplits, factor_reached hs hf hp hk⟩

theorem Delivered.remembers (ht : dc.Delivered a new t) (h : dc.Remembers config)
    (hf : dc.cluster.config.factorFor a ≠ 0) : t.Remembers config := by
  have hs := h.composed.toSound
  have hdone := ht.concluded hs hf
  refine ⟨ht.composed h.composed hf, fun p g hg => ?_⟩
  obtain ⟨k, hk, _⟩ := hdone.quiet.resplits p g hg
  rw [PrioritySet.generation?_congr hdone.finish.installation] at hk
  have hp := PrioritySet.lt_of_generation? hk
  rw [length_reached_span hs hf] at hp
  rw [hdone.weights, weights_reached hs hf, if_pos hp]
  exact (ht.weighs h hf hg).1

end DynamicCluster

/-! ## Runs -/

namespace Service

variable {τ : Type} [Quantity τ] {config : ClusterConfig} {s t : Service τ} {act : Action}

theorem weights_perform (hdelivery : ¬ act.IsDelivery) (h : perform act s = .done t) :
    t.body.weights = s.body.weights := by
  cases effect_perform h with
  | deliver _ _ => exact absurd trivial hdelivery
  | _ => rfl

theorem remembers_fresh (config : ClusterConfig) : (fresh τ config).body.Remembers config :=
  ⟨composed_opened .discovered config, fun p g hg => .inl ((bare_fresh config).vacant p g hg)⟩

/-- Every action but the installs of a caller keeps the memory in step with what is installed. -/
theorem remembers_perform (hconfig : config.validate = .ok ()) (hsource : s.source = .discovered)
    (h : s.body.Remembers config) (hact : ¬ act.IsInstall) (hstep : perform act s = .done t) :
    t.source = .discovered ∧ t.body.Remembers config := by
  by_cases hdirect : act.IsDirect
  · obtain ⟨hsame, hconfig', hlevels, hkeeps⟩ := keeps_direct hdirect hact hstep
    have hweights := weights_perform hdirect.not_isDelivery hstep
    refine ⟨hsame.trans hsource, h.of_rests hconfig' hweights hkeeps ?_⟩
    show PrioritySet.Rests _ t.cluster.priorities
    rw [hlevels]
    exact .refl _
  have hs : Sound config s := ⟨hsource, h.composed.config, h.composed.toSound⟩
  rcases delivers_or_steady hconfig hs hdirect hstep with
    ⟨a, new, body, rfl, rfl, hnew, hf, hsound⟩ | ⟨hd, hsame, hsteady⟩
  · exact ⟨hsound.source, hnew.remembers h hf⟩
  · exact ⟨hsame.trans hsource, h.of_rests hsteady.config (weights_perform hd hstep)
      ⟨Nat.le_of_eq hsteady.size.symm, fun i _ => (hsteady.hosts i).toAlike⟩ hsteady.priorities⟩

theorem remembers_of_reaches (hconfig : config.validate = .ok ())
    (h : Reaches (fun _ act => ¬ act.IsInstall) (fresh τ config) s) :
    s.source = .discovered ∧ s.body.Remembers config :=
  h.keeps (fun _ _ _ hact hstep hs => remembers_perform hconfig hs.1 hs.2 hact hstep)
    ⟨rfl, remembers_fresh config⟩

/-- A valid assignment is never refused, and after it every level, whether it was installed again or not,
has the factor of the assignment, or the configured one without any; and if localities are weighted, the
weight of every group is that of its locality in the assignment. -/
theorem weighted_deliver (hconfig : config.validate = .ok ())
    (hs : Reaches (fun _ act => ¬ act.IsInstall) (fresh τ config) s) {a : Assignment}
    (ha : config.validateAssignment a = .ok ()) :
    ∃ t, s.deliver a = .done t ∧ ∀ p g, t.cluster.priorities.generation? p = some g →
      g.factor = (a.overprovisioningFactor?.getD config.overprovisioningFactor).toNat ∧
      (config.localityWeighted = true →
        ∀ (i : Nat) (group : List HostId), g.partition.groups.groups[i]? = some group → group ≠ [] ∧
          ∃ l, (∀ j ∈ group, (t.cluster.hosts.get j).locality = l) ∧
            ∃ ws : List Nat, g.weights? = some ws ∧ ws[i]? = some (a.weightAt p l)) := by
  obtain ⟨hsource, hmemory⟩ := remembers_of_reaches hconfig hs
  have hsound : Sound config s := ⟨hsource, hmemory.composed.config, hmemory.composed.toSound⟩
  have hf := hsound.factorFor_ne_zero hconfig ha
  obtain ⟨_, body, hdone, hnew, _⟩ := exists_deliver hconfig hsound ha
  refine ⟨_, hdone, fun p g hg => ?_⟩
  obtain ⟨hweighs, hfactor⟩ := hnew.weighs hmemory hf hg
  refine ⟨hfactor, fun hweighted i group hgroup => ?_⟩
  rcases hweighs with hvacant | hweights
  · rw [hvacant.partition] at hgroup
    cases hgroup
  · rw [((hnew.composed hmemory.composed hf).levels p g hg).groups] at hgroup
    obtain ⟨hne, l, hlocality, ws, hws, hi⟩ := Draft.exists_groupWeight hweighted hgroup
    refine ⟨hne, l, hlocality, ws, hweights.trans hws, ?_⟩
    rw [hi, ← Draft.weightAt_registerGroups a s.cluster.hosts]
    rfl

/-- An assignment of one endpoint in the east; a second group there changes the weight. -/
def eastern (first last : UInt32) : Assignment :=
  { groups :=
      [{ locality := { region := "east" }
         weight? := some first
         endpoints := [{ address := ⟨.ipv4 ⟨10, 0, 0, 1⟩, 80⟩ }] },
        { locality := { region := "east" }
          weight? := some last }] }

def easternDelivered : Service Rat :=
  (run [.deliver (eastern 1 2)] (fresh Rat { localityWeighted := true })).state

/-- Nothing but the weight is delivered anew. -/
theorem weighted_eastern : ∃ t, easternDelivered.deliver (eastern 1 3) = .done t ∧
    (eastern 1 3).weightAt 0 { region := "east" } = 3 ∧
    ∀ p g, t.cluster.priorities.generation? p = some g → g.factor = 140 ∧
      ∀ (i : Nat) (group : List HostId), g.partition.groups.groups[i]? = some group →
        ∃ (l : Locality) (ws : List Nat), g.weights? = some ws ∧
          ws[i]? = some ((eastern 1 3).weightAt p l) := by
  let config : ClusterConfig := { localityWeighted := true }
  have hrun : run [.deliver (eastern 1 2)] (fresh Rat config) = .done easternDelivered := rfl
  have hinstall : ∀ act ∈ [Action.deliver (eastern 1 2)], ¬ act.IsInstall := by
    simp [Action.IsInstall]
  have hconfig : config.validate = .ok () := rfl
  have hvalid : config.validateAssignment (eastern 1 3) = .ok () := rfl
  obtain ⟨t, hdone, hall⟩ :=
    weighted_deliver hconfig (.of_run (fun act hact _ => hinstall act hact) hrun) hvalid
  refine ⟨t, hdone, rfl, fun p g hg => ⟨(hall p g hg).1, fun i group hgroup => ?_⟩⟩
  obtain ⟨_, l, _, ws, hws, hi⟩ := (hall p g hg).2 rfl i group hgroup
  exact ⟨l, ws, hws, hi⟩

end Service

end Roster
