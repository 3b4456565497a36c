import Roster.Proofs.Reaching

/-!
# Roster.Proofs.Localities

How the hosts of a level are grouped, in every state that is reached by a configured cluster or by one
that discovers its hosts, whatever assignments are delivered.

* `ByLocality` — hosts grouped by locality, the local one first; `Part` — those of one health.
* `Divided`    — a generation is grouped so, each part in step with the whole, and weighted by group.
* `Composed`   — the invariant behind it: the generation was composed from hosts that there are.
* `composed_installConfigured`, `Delivered.composed`, `Composed.of_rests` — installing what was configured,
  a delivery, and everything between deliveries keep it.
-/

namespace Roster

/-! ## Groups -/

/-- The groups are those of the localities `ls`, each in the order of the hosts: the local one first,
if it has hosts, then the others in order. -/
structure Grouping.ByLocality (local? : Option Locality) (store : HostStore) (hosts : List HostId)
    (ls : List Locality) (g : Grouping HostId) : Prop where
  perm : g.flatten.Perm hosts
  groups : g.groups = ls.map fun l => hosts.filter fun i => (store.get i).locality = l
  nonempty : ∀ group ∈ g.groups, group ≠ []
  distinct : ls.Nodup
  hasLocal : g.hasLocal = true ↔ ∃ i ∈ hosts, local? = some (store.get i).locality
  first : g.hasLocal = true → ls.head? = local?
  sorted : (if g.hasLocal then ls.tail else ls).Pairwise fun l m => compare l m = .lt

/-- Some of the hosts, as a list and by the groups of all of them. -/
structure Grouping.Part (part : Grouping HostId) (list : List HostId) (all : Grouping HostId)
    (hosts : List HostId) : Prop where
  hasLocal : part.hasLocal = all.hasLocal
  groups : List.Forall₂ List.Sublist part.groups all.groups
  sublist : list.Sublist hosts
  perm : list.Perm part.flatten

/-- The hosts of a generation are grouped by locality, and so are those that are healthy, degraded and
excluded; there is a weight for every group, if there are any. -/
structure Generation.Divided {τ : Type} (local? : Option Locality) (store : HostStore)
    (g : Generation τ) : Prop where
  groups : ∃ ls, g.partition.groups.ByLocality local? store g.hosts ls
  healthy : g.partition.healthyGroups.Part g.partition.healthy g.partition.groups g.hosts
  degraded : g.partition.degradedGroups.Part g.partition.degraded g.partition.groups g.hosts
  excluded : g.partition.excludedGroups.Part g.partition.excluded g.partition.groups g.hosts
  weights : ∀ ws, g.weights? = some ws → ws.length = g.partition.groups.size

theorem Grouping.part_kept {all : Grouping HostId} {hosts : List HostId} (f : HostId → Bool)
    (h : all.flatten.Perm hosts) : (all.kept f).Part (hosts.filter f) all hosts := by
  refine ⟨rfl, ?_, List.filter_sublist, ?_⟩
  · rw [kept, List.forall₂_map_left_iff, List.forall₂_same]
    exact fun group _ => List.filter_sublist
  · rw [flatten_kept]
    exact (h.filter f).symm

theorem Draft.byLocality_grouping (config : ClusterConfig) (store : HostStore) (hosts : List HostId) :
    (grouping config store hosts).ByLocality config.localLocality? store hosts
      ((arrange config store hosts).2.map Prod.fst) := by
  have h := arranged_arrange config store hosts
  refine ⟨h.flatten_perm, h.groups_eq, h.ne_nil, h.distinct, h.hasLocal.trans ?_, h.first, ?_⟩
  · constructor
    · rintro ⟨l, hl, i, hi, rfl⟩
      exact ⟨i, hi, hl⟩
    · rintro ⟨i, hi, hl⟩
      exact ⟨_, hl, i, hi, rfl⟩
  · have hsorted := h.sorted
    have hlocal : (grouping config store hosts).hasLocal = (arrange config store hosts).1 := rfl
    rw [hlocal]
    split
    · rename_i hfirst
      rw [if_pos hfirst] at hsorted
      rw [← List.map_tail]
      exact List.pairwise_map.2 hsorted
    · rename_i hfirst
      rw [if_neg hfirst] at hsorted
      exact List.pairwise_map.2 hsorted

/-! ## Generations -/

/-- The generation was composed from hosts of the store; their flags may have changed since. -/
structure Generation.Composed {τ : Type} (config : ClusterConfig) (store : HostStore)
    (g : Generation τ) : Prop where
  known : ∀ i ∈ g.hosts, i < store.size
  partition : ∃ flags, g.partition = .of flags g.hosts (Draft.grouping config store g.hosts)
  weights : ∀ ws, g.weights? = some ws → ws.length = (Draft.grouping config store g.hosts).size

namespace Generation

variable {τ : Type} {config : ClusterConfig} {s t : HostStore} {g h : Generation τ}

theorem Composed.groups (hg : g.Composed config s) :
    g.partition.groups = Draft.grouping config s g.hosts := by
  obtain ⟨flags, hpartition⟩ := hg.partition
  rw [hpartition]
  rfl

theorem Composed.divided (hg : g.Composed config s) : g.Divided config.localLocality? s := by
  obtain ⟨flags, hpartition⟩ := hg.partition
  have hgroups := Draft.byLocality_grouping config s g.hosts
  have hsplit := Partition.groupsByHealth_eq flags (Draft.grouping config s g.hosts)
  have hlists := Partition.byHealth_eq flags g.hosts
  refine ⟨⟨_, hg.groups ▸ hgroups⟩, ?_, ?_, ?_, ?_⟩
  · have hpart := Grouping.part_kept (Partition.isHealthy flags) hgroups.perm
    rw [hpartition]
    simpa only [Partition.of, hsplit, hlists] using hpart
  · have hpart := Grouping.part_kept (Partition.isDegraded flags) hgroups.perm
    rw [hpartition]
    simpa only [Partition.of, hsplit, hlists] using hpart
  · have hpart := Grouping.part_kept (Partition.isExcluded flags) hgroups.perm
    rw [hpartition]
    simpa only [Partition.of, hsplit, hlists] using hpart
  · rw [hg.groups]
    exact hg.weights

theorem Composed.congr (hg : g.Composed config s) (hsize : s.size ≤ t.size)
    (hst : ∀ i ∈ g.hosts, (t.get i).locality = (s.get i).locality) : g.Composed config t := by
  have hgrouping := Draft.grouping_congr config hst
  refine ⟨fun i hi => Nat.lt_of_lt_of_le (hg.known i hi) hsize, ?_, ?_⟩
  · rw [hgrouping]
    exact hg.partition
  · rw [hgrouping]
    exact hg.weights

theorem Composed.keeps (hg : g.Composed config s) (hst : HostStore.Keeps s t) :
    g.Composed config t :=
  hg.congr hst.size_le fun i hi => (hst.alike i (hg.known i hi)).locality

theorem Composed.resplits (hg : g.Composed config s) (hr : g.Resplits h) : h.Composed config s := by
  have hhosts : h.hosts = g.hosts := hr.hosts
  refine ⟨?_, ?_, ?_⟩
  · rw [hhosts]
    exact hg.known
  · rw [hhosts]
    rcases hr.partition with hp | ⟨flags, hp⟩
    · rw [hp]
      exact hg.partition
    · exact ⟨flags, by rw [hp, hg.groups]; rfl⟩
  · rw [hr.weights, hhosts]
    exact hg.weights

theorem Vacant.composed (hg : g.Vacant) : g.Composed config s := by
  have hhosts : g.hosts = [] := congrArg Partition.hosts hg.partition
  refine ⟨by simp [hhosts], ⟨s, ?_⟩, fun ws hws => ?_⟩
  · rw [hhosts, Draft.grouping_nil, Partition.of_nil, hg.partition]
  · rw [hg.weights] at hws
    cases hws

theorem composed_build [Quantity τ] {weights : LocalityWeights} {plan : Draft.Plan}
    (hknown : ∀ i ∈ plan.hosts, i < s.size) (stamp factor : Nat) :
    (build stamp (Draft.composed config weights s plan).partition
      (Draft.composed config weights s plan).weights? factor : Generation τ).Composed config s :=
  ⟨hknown, ⟨s, rfl⟩, fun _ hws => Draft.length_weights_composed hws⟩

end Generation

/-! ## Clusters -/

/-- Every generation was composed by the configuration of the cluster from hosts of the cluster. -/
structure Cluster.Composed {τ : Type} (config : ClusterConfig) (c : Cluster τ) : Prop
    extends Cluster.Sound c where
  levels : ∀ p g, c.priorities.generation? p = some g → g.Composed config c.hosts
  config : c.config = config

namespace Cluster

variable {τ : Type} {config : ClusterConfig} {c d : Cluster τ}

/-- Hosts change but for their descriptions, and levels are split anew at most. -/
theorem Composed.of_rests (hc : c.Composed config) (hconfig : d.config = c.config)
    (hhosts : HostStore.Keeps c.hosts d.hosts)
    (hlevels : PrioritySet.Rests c.priorities d.priorities) : d.Composed config := by
  refine ⟨hc.toSound.of_keeps hhosts hlevels, ?_, hconfig.trans hc.config⟩
  intro p g hg
  rcases hlevels.generations p g hg with ⟨h, hh, hresplits⟩ | hvacant
  · exact ((hc.levels p h hh).keeps hhosts).resplits hresplits
  · exact hvacant.composed

theorem Steady.composed (h : c.Steady d) (hc : c.Composed config) : d.Composed config :=
  hc.of_rests h.config ⟨Nat.le_of_eq h.size.symm, fun i _ => (h.hosts i).toAlike⟩ h.priorities

variable [Quantity τ]

/-! ## Configured hosts -/

omit [Quantity τ] in
theorem keeps_flagChecked (flag? : Option HealthFlag) (store : HostStore) (hosts : List HostId) :
    HostStore.Keeps store (Draft.flagChecked flag? store hosts) := by
  unfold Draft.flagChecked
  cases flag? with
  | none => exact .refl store
  | some flag =>
    refine HostStore.keeps_modifyAll store hosts fun h => ?_
    split
    · exact .refl h
    · exact Host.alike_setFlag h flag

theorem Composed.put (hc : c.Composed config) (weights : LocalityWeights) (plan : Draft.Plan)
    (hknown : ∀ i ∈ plan.hosts, i < c.hosts.size)
    (hadded : ∀ i ∈ plan.added?.getD plan.hosts, i < c.hosts.size) :
    ({ c with priorities := c.priorities.put c.hosts (Draft.composed config weights c.hosts plan) } :
      Cluster τ).Composed config := by
  refine ⟨hc.toSound.put ⟨hknown, hadded⟩, ?_, hc.config⟩
  intro p g hg
  obtain ⟨_, hputs⟩ := PrioritySet.puts_put hc.regular c.hosts
    (Draft.composed config weights c.hosts plan)
  by_cases hp : p = plan.priority
  · subst hp
    obtain ⟨stamp, hhere⟩ := hputs.here
    cases hhere.symm.trans hg
    exact Generation.composed_build hknown _ _
  · have hmade : ({ c with priorities := c.priorities.ensureLevel plan.priority plan.factor? } :
        Cluster τ).Composed config :=
      hc.of_rests rfl (.refl _) (PrioritySet.rests_ensureLevel c.priorities plan.priority plan.factor?)
    exact hmade.levels p g ((hputs.others p hp).symm.trans hg)

/-- What the configuration asks of a priority. -/
def configuredPlan (draft : Draft) (p : Nat) (c : Cluster τ) : Draft.Plan :=
  { priority := p
    hosts := draft.hostsAt p
    flag? := if c.hasChecker then some .failedActiveCheck else none
    factor? := some (configuredFactor c.config) }

def flagConfigured (draft : Draft) (p : Nat) (c : Cluster τ) : Cluster τ :=
  { c with hosts := Draft.flagChecked (configuredPlan draft p c).flag? c.hosts (draft.hostsAt p) }

theorem installDraft_eq (draft : Draft) (p : Nat) (c : Cluster τ) :
    installDraft draft p c =
      (c.priorities.update (c.flagConfigured draft p).hosts
        (Draft.composed c.config (draft.weightsAt p) (c.flagConfigured draft p).hosts
          (configuredPlan draft p c))).map
        fun ps => { c.flagConfigured draft p with priorities := ps } := by
  simp only [installDraft, Draft.compose_eq]
  rfl

theorem composed_installDraft (hc : c.Composed config) {draft : Draft} {p : Nat}
    (hdraft : ∀ i ∈ draft.hostsAt p, i < c.hosts.size) (h : installDraft draft p c = .done d) :
    d.Composed config ∧ HostStore.Keeps c.hosts d.hosts := by
  have hkeeps : HostStore.Keeps c.hosts (c.flagConfigured draft p).hosts := keeps_flagChecked _ _ _
  have hflagged : (c.flagConfigured draft p).Composed config := hc.of_rests rfl hkeeps (.refl _)
  have hknown : ∀ i ∈ draft.hostsAt p, i < (c.flagConfigured draft p).hosts.size := fun i hi =>
    Nat.lt_of_lt_of_le (hdraft i hi) hkeeps.size_le
  rw [installDraft_eq, hc.config] at h
  obtain ⟨ps, hupdate, rfl⟩ := Attempt.map_eq_done h
  rw [PrioritySet.update_eq_done hupdate]
  have hput := hflagged.put (draft.weightsAt p) (configuredPlan draft p c) hknown hknown
  exact ⟨hput.of_rests rfl (.refl _) (PrioritySet.rests_notifyMembers _ _ _), hkeeps⟩

theorem composed_installAll {draft : Draft} {priorities : List Nat} (hc : c.Composed config)
    (hdraft : ∀ p, ∀ i ∈ draft.hostsAt p, i < c.hosts.size)
    (h : Attempt.each (installDraft draft) priorities c = .done d) : d.Composed config := by
  refine (Attempt.each_keeps
    (P := fun e : Cluster τ => e.Composed config ∧ c.hosts.size ≤ e.hosts.size) ?_
    ⟨hc, Nat.le_refl _⟩ h).1
  intro p _ e f he hp
  obtain ⟨hf, hkeeps⟩ :=
    composed_installDraft he.1 (fun i hi => Nat.lt_of_lt_of_le (hdraft p i hi) he.2) hp
  exact ⟨hf, Nat.le_trans he.2 hkeeps.size_le⟩

/-- The endpoints that are configured are registered, their levels installed one by one, and then the
work before initialization ends. -/
theorem installConfigured_eq_done (h : c.installConfigured = .done d) :
    ∃ store draft e, Draft.Registered (configuredGroups c.config) c.hosts store draft ∧
      Attempt.each (installDraft draft) (List.range draft.levels.length) { c with hosts := store } =
        .done e ∧ d = e.preInitDone := by
  obtain ⟨e, heach, hdone⟩ := Attempt.andThen_eq_done h
  cases hdone
  exact ⟨_, _, e, Draft.registered_registerGroups _ _, heach, rfl⟩

theorem composed_installConfigured (hc : c.Composed config) (h : c.installConfigured = .done d) :
    d.Composed config := by
  obtain ⟨store, draft, e, hreg, heach, rfl⟩ := installConfigured_eq_done h
  have hstart : ({ c with hosts := store } : Cluster τ).Composed config :=
    hc.of_rests rfl hreg.keeps (.refl _)
  have he := composed_installAll hstart (fun p i hi => hreg.known hi) heach
  exact (quiet_preInitDone he.regular).steady.composed he

omit [Quantity τ] in
theorem Composed.waiting (hc : c.Composed config) (w : Bool) :
    ({ c with waiting := w } : Cluster τ).Composed config := hc.of_rests rfl (.refl _) (.refl _)

end Cluster

/-! ## Deliveries -/

namespace DynamicCluster

variable {τ : Type} [Quantity τ] {dc t : DynamicCluster τ} {a : Assignment} {new : List Event}
  {config : ClusterConfig}

theorem composed_reached (hc : dc.cluster.Composed config) (hf : dc.cluster.config.factorFor a ≠ 0)
    {p n : Nat} (hp : p < n) {g : Generation τ}
    (hg : (dc.reached a n).batch.priorities.generation? p = some g) :
    g.Composed config (dc.reached a n).hosts := by
  have hs := hc.toSound
  rw [generation?_reached_of_lt hs hf hp] at hg
  cases halone : dc.isAlone a p with
  | true =>
    obtain ⟨hold, hmade⟩ := generation?_of_isAlone hs hf halone
    rcases Nat.lt_or_ge p dc.cluster.priorities.levels.length with hlt | hge
    · rw [hold hlt] at hg
      refine (hc.levels p g hg).keeps ⟨?_, fun i hi => alike_reached hs hf hi n⟩
      rw [size_reached hs hf]
      exact size_le_plan
    · exact (hmade hge g hg).1.composed
  | false =>
    obtain ⟨stamp, hbuilt⟩ := generation?_of_not_isAlone hs hf halone
    rw [hbuilt, updateAt_eq hs hf, hc.config] at hg
    cases hg
    have hknown : ∀ i ∈ (dc.resultAt a p).hosts, i < (dc.reached a (p + 1)).hosts.size := fun i hi => by
      rw [size_reached hs hf]
      exact known_resultAt hs hf hi
    refine (Generation.composed_build hknown stamp _).congr ?_ fun i _ => ?_
    · exact Nat.le_of_eq ((size_reached hs hf _).trans (size_reached hs hf _).symm)
    · exact ((underway_reached hs hf n).alike i).locality.trans
        ((underway_reached hs hf (p + 1)).alike i).locality.symm

theorem Delivered.composed (ht : dc.Delivered a new t) (hc : dc.cluster.Composed config)
    (hf : dc.cluster.config.factorFor a ≠ 0) : t.cluster.Composed config := by
  have hrests := (ht.concluded hc.toSound hf).rests
  refine ⟨ht.sound hc.toSound hf, ?_, ht.config.trans hc.config⟩
  intro p g hg
  rw [ht.hosts]
  rcases hrests.generations p g hg with ⟨h, hh, hresplits⟩ | hvacant
  · have hp := PrioritySet.lt_of_generation? hh
    rw [length_reached_span hc.toSound hf] at hp
    exact (composed_reached hc hf hp hh).resplits hresplits
  · exact hvacant.composed

end DynamicCluster

/-! ## Runs -/

namespace Service

variable {τ : Type} [Quantity τ] {config : ClusterConfig} {s t : Service τ}

/-- A cluster, before anything happened. -/
def opened (τ : Type) [Quantity τ] (source : Source) (config : ClusterConfig) : Service τ :=
  { source, body := { cluster := .ofConfig config } }

theorem composed_opened (source : Source) (config : ClusterConfig) :
    (opened τ source config).cluster.Composed config := by
  have hbare : (opened τ source config).cluster.priorities.Bare := Cluster.bare_ofConfig config
  exact ⟨Cluster.sound_of_bare hbare, fun p g hg => (hbare.vacant p g hg).composed, rfl⟩

/-- No action but the installs of a caller makes a generation that was not composed. -/
theorem composed_perform (hconfig : config.validate = .ok ()) (hc : s.cluster.Composed config)
    {act : Action} (hact : ¬ act.IsInstall) (h : perform act s = .done t) :
    t.source = s.source ∧ t.cluster.Composed config := by
  cases advance_perform hc.regular h with
  | direct hdirect =>
    obtain ⟨hsource, hconfig', hlevels, hkeeps⟩ := keeps_direct hdirect hact h
    refine ⟨hsource, hc.of_rests hconfig' hkeeps ?_⟩
    rw [hlevels]
    exact .refl _
  | delivery _ hsource hdone =>
    obtain ⟨_, hnew, hf, _⟩ := delivered_of_body hconfig ⟨hsource, hc.config, hc.toSound⟩ hdone
    exact ⟨rfl, hnew.composed hc hf⟩
  | installed _ hdone => exact ⟨rfl, Cluster.composed_installConfigured (hc.waiting _) hdone⟩
  | steady _ hsource hsteady => exact ⟨hsource, hsteady.composed hc⟩

theorem composed_of_reaches (hconfig : config.validate = .ok ())
    (h : Reaches (fun _ act => ¬ act.IsInstall) s t) (hc : s.cluster.Composed config) :
    t.source = s.source ∧ t.cluster.Composed config := by
  refine h.keeps (P := fun u => u.source = s.source ∧ u.cluster.Composed config) ?_ ⟨rfl, hc⟩
  intro u act v hact hstep ⟨hsource, hu⟩
  obtain ⟨hsource', hv⟩ := composed_perform hconfig hu hact hstep
  exact ⟨hsource'.trans hsource, hv⟩

/-- In every state of a configured cluster, and of one that discovers its hosts, the hosts of every
level are grouped by locality, the local one first, and the lists and groups of healthy, degraded and
excluded hosts and the weights are in step with the groups. -/
theorem divided_of_reaches (hconfig : config.validate = .ok ()) {source : Source}
    (h : Reaches (fun _ act => ¬ act.IsInstall) (opened τ source config) s) :
    ∀ p g, s.cluster.priorities.generation? p = some g →
      g.Divided config.localLocality? s.cluster.hosts := fun p g hg =>
  ((composed_of_reaches hconfig h (composed_opened source config)).2.levels p g hg).divided

/-- A configured cluster of two localities, the second of them local. -/
def twoRegions : ClusterConfig :=
  { localLocality? := some { region := "west" }
    localityWeighted := true
    assignment? := some
      { groups :=
          [{ locality := { region := "east" }
             endpoints := [{ address := ⟨.ipv4 ⟨10, 0, 0, 1⟩, 80⟩ }] },
            { locality := { region := "west" }
              endpoints := [{ address := ⟨.ipv4 ⟨10, 0, 0, 2⟩, 80⟩ }] }] } }

def startedRegions : Service Rat :=
  (run [.setChecker, .start, .pass 0] (opened Rat .configured twoRegions)).state

theorem divided_startedRegions : ∃ g, startedRegions.cluster.priorities.generation? 0 = some g ∧
    g.Divided (some { region := "west" }) startedRegions.cluster.hosts := by
  have hrun : run [.setChecker, .start, .pass 0] (opened Rat .configured twoRegions) =
      .done startedRegions := rfl
  have hconfig : twoRegions.validate = .ok () := rfl
  have hinstall : ∀ act ∈ [Action.setChecker, .start, .pass 0], ¬ act.IsInstall := by
    simp [Action.IsInstall]
  have hdivided := divided_of_reaches hconfig (.of_run (fun act hact _ => hinstall act hact) hrun)
  have hsome : (startedRegions.cluster.priorities.generation? 0).isSome = true := rfl
  obtain ⟨g, hg⟩ := Option.isSome_iff_exists.1 hsome
  exact ⟨g, hg, hdivided 0 g hg⟩

end Service

end Roster
