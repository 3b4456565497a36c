import Roster.Proofs.Current
import Roster.Proofs.Localities

/-!
# Roster.Proofs.Withholding

A host that was never checked, as long as nobody outside the cluster says otherwise.

* `Host.Unchecked` — its flags say that it still has to pass a check.
* `Partition.Withholds` — it is neither healthy nor degraded there, flat or grouped.
* `Cluster.Withholds` — both, at every level; `Cluster.Lacks` — it is installed nowhere.
* `Withholds.of_every` — whatever splits levels anew keeps a host withheld.
* `withholds_installConfigured`, `unchecked_reconcile` — installing what is configured, and reconciling.
-/

namespace Roster

/-- The first check is still to be passed; where new hosts are held back it is pending as well. -/
structure Host.Unchecked (strict : Prop) (h : Host) : Prop where
  failed : h.hasFlag .failedActiveCheck = true
  pending : strict → h.hasFlag .pendingActiveCheck = true

/-- A host is not eligible; where new hosts are held back it is excluded wherever it is. -/
structure Partition.Withholds (strict : Prop) (i : HostId) (p : Partition) : Prop where
  healthy : i ∉ p.healthy
  degraded : i ∉ p.degraded
  healthyGroups : i ∉ p.healthyGroups.flatten
  degradedGroups : i ∉ p.degradedGroups.flatten
  excluded : strict → i ∈ p.hosts → i ∈ p.excluded
  excludedGroups : strict → i ∈ p.groups.flatten → i ∈ p.excludedGroups.flatten

namespace Host

variable {strict : Prop} {h k : Host}

theorem Unchecked.health (hu : h.Unchecked strict) : h.health = .unhealthy := by
  have hfailing : h.flags.failing = true := by
    rw [HealthFlags.failing, show h.flags.contains .failedActiveCheck = true from hu.failed,
      Bool.true_or, Bool.true_or]
  exact if_pos hfailing

theorem Unchecked.isExcluded (hu : h.Unchecked strict) (hstrict : strict) : h.excluded = true := by
  have hpending : h.flags.contains .pendingActiveCheck = true := hu.pending hstrict
  rw [excluded, HealthFlags.excluded, hpending, Bool.true_or]

theorem Unchecked.of_flags (hu : h.Unchecked strict)
    (hfailed : k.hasFlag .failedActiveCheck = h.hasFlag .failedActiveCheck)
    (hpending : k.hasFlag .pendingActiveCheck = h.hasFlag .pendingActiveCheck) :
    k.Unchecked strict :=
  ⟨hfailed.trans hu.failed, fun hstrict => hpending.trans (hu.pending hstrict)⟩

theorem Unchecked.setFlags (hu : h.Unchecked strict) (fs : List HealthFlag) :
    (h.setFlags fs).Unchecked strict := by
  refine ⟨?_, fun hstrict => ?_⟩
  · rw [hasFlag_setFlags, hu.failed, Bool.or_true]
  · rw [hasFlag_setFlags, hu.pending hstrict, Bool.or_true]

theorem Unchecked.setFlag (hu : h.Unchecked strict) (f : HealthFlag) :
    (h.setFlag f).Unchecked strict := hu.setFlags [f]

theorem Unchecked.clearFlags (hu : h.Unchecked strict) {fs : List HealthFlag}
    (hfailed : .failedActiveCheck ∉ fs) (hpending : .pendingActiveCheck ∉ fs) :
    (h.clearFlags fs).Unchecked strict := by
  refine ⟨?_, fun hstrict => ?_⟩
  · rw [hasFlag_clearFlags, hu.failed, decide_eq_true hfailed, Bool.and_true]
  · rw [hasFlag_clearFlags, hu.pending hstrict, decide_eq_true hpending, Bool.and_true]

theorem Unchecked.adopt (hu : h.Unchecked strict) (delivered : Host) :
    (h.adopt delivered).Unchecked strict := by
  refine hu.of_flags ?_ ?_ <;> simp [hasFlag_adopt]

end Host

theorem HostStore.unchecked_modify {strict : Prop} {i : HostId} {store : HostStore} (id : HostId)
    {f : Host → Host} (hf : ∀ h : Host, h.Unchecked strict → (f h).Unchecked strict)
    (hu : (store.get i).Unchecked strict) : ((store.modify id f).get i).Unchecked strict := by
  rcases Nat.lt_or_ge id store.size with hid | hid
  · rw [get_modify store f hid]
    split
    · exact hf _ hu
    · exact hu
  · rw [modify_of_size_le store f hid]
    exact hu

theorem HostStore.unchecked_modifyAll {strict : Prop} {i : HostId} {store : HostStore}
    (ids : List HostId) {f : Host → Host}
    (hf : ∀ h : Host, h.Unchecked strict → (f h).Unchecked strict)
    (hu : (store.get i).Unchecked strict) : ((store.modifyAll ids f).get i).Unchecked strict := by
  induction ids generalizing store with
  | nil => exact hu
  | cons id ids ih => exact ih (unchecked_modify id hf hu)

/-! ## Partitions -/

namespace Partition

variable {strict : Prop} {i : HostId} {store : HostStore} {hosts : List HostId}
  {groups : Grouping HostId}

theorem withholds_of (hu : (store.get i).Unchecked strict) :
    (Partition.of store hosts groups).Withholds strict i := by
  have hhealth := hu.health
  refine ⟨?_, ?_, ?_, ?_, fun hstrict hi => ?_, fun hstrict hi => ?_⟩ <;>
    simp only [of, byHealth_eq, groupsByHealth_eq, Grouping.flatten_kept, List.mem_filter]
  · simp [isHealthy, hhealth]
  · simp [isDegraded, hhealth]
  · simp [isHealthy, hhealth]
  · simp [isDegraded, hhealth]
  · exact ⟨hi, hu.isExcluded hstrict⟩
  · exact ⟨hi, hu.isExcluded hstrict⟩

theorem withholds_of_not_mem (hhosts : i ∉ hosts) (hgroups : i ∉ groups.flatten) :
    (Partition.of store hosts groups).Withholds strict i := by
  refine ⟨?_, ?_, ?_, ?_, fun _ hi => absurd hi hhosts, fun _ hi => absurd hi hgroups⟩ <;>
    simp only [of, byHealth_eq, groupsByHealth_eq, Grouping.flatten_kept, List.mem_filter]
  · exact fun hi => hhosts hi.1
  · exact fun hi => hhosts hi.1
  · exact fun hi => hgroups hi.1
  · exact fun hi => hgroups hi.1

end Partition

namespace Generation

variable {τ : Type} {strict : Prop} {i : HostId} {g h : Generation τ} {config : ClusterConfig}
  {store : HostStore}

theorem Composed.withholds_of_not_mem (hg : g.Composed config store) (hi : i ∉ g.hosts) :
    g.partition.Withholds strict i := by
  obtain ⟨flags, hpartition⟩ := hg.partition
  rw [hpartition]
  refine Partition.withholds_of_not_mem hi fun hmem => hi ?_
  exact (Draft.byLocality_grouping config store g.hosts).perm.mem_iff.1 hmem

theorem Vacant.withholds (hg : g.Vacant) : g.partition.Withholds strict i := by
  rw [hg.partition]
  exact ⟨by simp, by simp, by simp [Grouping.flatten], by simp [Grouping.flatten], by simp,
    by simp [Grouping.flatten]⟩

end Generation

/-! ## Levels -/

namespace PrioritySet

variable {τ : Type} {strict : Prop} {i : HostId} {ps qs : PrioritySet τ}

/-- A host is eligible at no level. -/
def Withholds (strict : Prop) (i : HostId) (ps : PrioritySet τ) : Prop :=
  ∀ p g, ps.generation? p = some g → g.partition.Withholds strict i

theorem Withholds.of_partitions (h : ps.Withholds strict i)
    (hlevels : ∀ p g, qs.generation? p = some g →
      g.Vacant ∨ ∃ k, ps.generation? p = some k ∧ g.partition = k.partition) :
    qs.Withholds strict i := by
  intro p g hg
  rcases hlevels p g hg with hvacant | ⟨k, hk, hpartition⟩
  · exact hvacant.withholds
  · rw [hpartition]
    exact h p k hk

theorem Withholds.congr (h : ps.Withholds strict i) (heq : qs.installation = ps.installation) :
    qs.Withholds strict i :=
  h.of_partitions fun p g hg => .inr ⟨g, (generation?_congr heq p).symm.trans hg, rfl⟩

variable [Quantity τ]

theorem Withholds.ensureLevel (h : ps.Withholds strict i) (p : Nat) (factor? : Option Nat) :
    (ps.ensureLevel p factor?).Withholds strict i := by
  refine h.of_partitions fun q g hg => ?_
  rcases Nat.lt_or_ge q ps.levels.length with hq | hq
  · exact .inr ⟨g, (generation?_ensureLevel_of_lt hq p factor?).symm.trans hg, rfl⟩
  · exact .inl (generation?_ensureLevel_of_le hq hg).1

theorem Withholds.put (h : ps.Withholds strict i) (hps : ps.Regular) (store : HostStore) {u : Update}
    (hu : u.partition.Withholds strict i) : (ps.put store u).Withholds strict i := by
  obtain ⟨_, hputs⟩ := puts_put hps store u
  intro q g hg
  by_cases hq : q = u.priority
  · obtain ⟨stamp, hhere⟩ := hputs.here
    rw [hq, hhere] at hg
    cases hg
    exact hu
  · exact h.ensureLevel u.priority u.factor? q g ((hputs.others q hq).symm.trans hg)

theorem Withholds.share (h : ps.Withholds strict i) (hps : ps.Regular) {p : Nat} {l : Level τ}
    {kind : Eligibility} {n : Nat} {answers : List (Option Nat)} {g : Generation τ}
    (hl : ps.level? p = some l) (hchoose : Generation.chooseMany kind n l.generation = .ok (answers, g)) :
    (({ priorities := ps } : Readers τ).share g).priorities.Withholds strict i := by
  have hmoved := reschedules_chooseMany hchoose
  refine h.of_partitions fun q k hk => .inr ?_
  simp only [generation?, level?_share, Option.map_map] at hk
  obtain ⟨j, hj, rfl⟩ := Option.map_eq_some_iff.1 hk
  refine ⟨j.generation, by rw [generation?, hj]; rfl, ?_⟩
  simp only [Function.comp]
  split
  · case isTrue hshared =>
    rw [eq_of_stamp_eq hps hl hj (hshared.trans hmoved.stamp)]
    exact hmoved.partition
  · rfl

end PrioritySet

/-- What is composed of hosts withholds one that is unchecked by then, or is not among them. -/
theorem Draft.withholds_composed {strict : Prop} {i : HostId} (config : ClusterConfig)
    (weights : LocalityWeights) {store : HostStore} {plan : Plan}
    (h : (store.get i).Unchecked strict ∨ i ∉ plan.hosts) :
    (composed config weights store plan).partition.Withholds strict i := by
  rcases h with hu | hnot
  · exact Partition.withholds_of hu
  · refine Partition.withholds_of_not_mem hnot fun hmem => hnot ?_
    exact (byLocality_grouping config store plan.hosts).perm.mem_iff.1 hmem

/-! ## Clusters -/

namespace Cluster

variable {τ : Type} {strict : Prop} {i : HostId} {c d : Cluster τ}

/-- A host that was not checked is eligible at no level. -/
structure Withholds (strict : Prop) (i : HostId) (c : Cluster τ) : Prop where
  unchecked : (c.hosts.get i).Unchecked strict
  levels : c.priorities.Withholds strict i

/-- A host is installed at no level, and the index does not lead to it. -/
structure Lacks (i : HostId) (c : Cluster τ) : Prop where
  known : i < c.hosts.size
  installed : ∀ p, i ∉ c.priorities.hostsAt p
  mapped : ∀ b, Assoc.find? b c.priorities.addressMap ≠ some i

theorem Lacks.of_rests (h : c.Lacks i) (hsize : c.hosts.size ≤ d.hosts.size)
    (hlevels : PrioritySet.Rests c.priorities d.priorities) : d.Lacks i := by
  refine ⟨Nat.lt_of_lt_of_le h.known hsize, fun p => ?_, ?_⟩
  · rw [hlevels.hostsAt]
    exact h.installed p
  · rw [hlevels.map]
    exact h.mapped

theorem Withholds.modifyHost (h : c.Withholds strict i) (id : HostId) {f : Host → Host}
    (hf : id = i → ∀ k : Host, k.Unchecked strict → (f k).Unchecked strict) :
    (c.modifyHost id f).Withholds strict i := by
  refine ⟨?_, h.levels⟩
  by_cases hid : id = i
  · exact HostStore.unchecked_modify id (hf hid) h.unchecked
  · simpa only [Cluster.modifyHost, HostStore.get_modify_of_ne _ _ (Ne.symm hid)] using h.unchecked

theorem Withholds.of_installation (h : c.Withholds strict i) {ps : PrioritySet τ}
    (heq : ps.installation = c.priorities.installation) :
    ({ c with priorities := ps } : Cluster τ).Withholds strict i :=
  ⟨h.unchecked, h.levels.congr heq⟩

theorem Withholds.known (h : c.Withholds strict i) : i < c.hosts.size := by
  by_contra hlt
  have hflag := h.unchecked.failed
  rw [HostStore.get_of_size_le c.hosts (Nat.not_lt.1 hlt)] at hflag
  exact absurd hflag (by decide)

/-- What is kept of every level that is split anew is that an unchecked host is withheld. -/
theorem Withholds.of_every (h : c.Withholds strict i) (hhosts : d.hosts = c.hosts)
    (hevery : ∀ P : HostStore → Generation τ → Prop, (∀ store g, g.IsSplit store → P store g) →
      c.Every P → d.Every P) : d.Withholds strict i := by
  have hu : (d.hosts.get i).Unchecked strict := hhosts ▸ h.unchecked
  let P : HostStore → Generation τ → Prop := fun store g =>
    (store.get i).Unchecked strict → g.partition.Withholds strict i
  have hsplit : ∀ store (g : Generation τ), g.IsSplit store → P store g := fun store g hg hstore => by
    rw [hg]
    exact Partition.withholds_of hstore
  exact ⟨hu, fun p g hg => hevery P hsplit (fun q k hk _ => h.levels q k hk) p g hg hu⟩

variable [Quantity τ]

theorem Withholds.preInitDone (h : c.Withholds strict i) (hc : c.priorities.Regular) :
    c.preInitDone.Withholds strict i :=
  h.of_every (quiet_preInitDone hc).hosts fun _ hsplit hP => hP.preInitDone hsplit

theorem Withholds.completeCheck (h : c.Withholds strict i) (hc : c.priorities.Regular)
    (transition : Transition) : (c.completeCheck transition).Withholds strict i :=
  h.of_every (quiet_completeCheck hc transition).hosts fun _ hsplit hP =>
    hP.completeCheck hsplit transition

/-! ## Configured hosts -/

variable {config : ClusterConfig} {draft : Draft}

omit [Quantity τ] in
theorem size_flagChecked (flag? : Option HealthFlag) (store : HostStore) (hosts : List HostId) :
    (Draft.flagChecked flag? store hosts).size = store.size := by
  cases flag? with
  | none => rfl
  | some flag => exact HostStore.size_modifyAll _ _ _

omit [Quantity τ] in
theorem unchecked_flagChecked {store : HostStore} (flag? : Option HealthFlag) (hosts : List HostId)
    (hu : (store.get i).Unchecked strict) :
    ((Draft.flagChecked flag? store hosts).get i).Unchecked strict := by
  cases flag? with
  | none => exact hu
  | some flag =>
    refine HostStore.unchecked_modifyAll hosts (fun h hh => ?_) hu
    split
    · exact hh
    · exact hh.setFlag flag

omit [Quantity τ] in
theorem unchecked_of_flagged {store : HostStore} {hosts : List HostId} (hi : i ∈ hosts)
    (hlt : i < store.size) (hactive : (store.get i).disableActiveCheck = false) (hstrict : ¬ strict) :
    ((Draft.flagChecked (some .failedActiveCheck) store hosts).get i).Unchecked strict := by
  have htwice : ∀ h : Host, (fun h : Host => if h.disableActiveCheck then h else
      h.setFlag .failedActiveCheck) ((fun h : Host => if h.disableActiveCheck then h else
        h.setFlag .failedActiveCheck) h) =
      (if h.disableActiveCheck then h else h.setFlag .failedActiveCheck) := by
    intro h
    cases hd : h.disableActiveCheck with
    | true => simp [hd]
    | false =>
      have hd' : (h.setFlag .failedActiveCheck).disableActiveCheck = false := hd
      simp [hd, hd', Host.setFlag_setFlag]
  refine ⟨?_, fun h => absurd h hstrict⟩
  rw [Draft.flagChecked, HostStore.get_modifyAll_of_mem store htwice hlt hi, hactive]
  simp

/-- What is known of a configured cluster once the levels below `n` are installed: the host is not
eligible, and if it belongs to one of them or was unchecked before it is unchecked. -/
structure Installing (config : ClusterConfig) (draft : Draft) (strict : Prop) (i : HostId)
    (start : Cluster τ) (n : Nat) (c : Cluster τ) : Prop where
  composed : c.Composed config
  keeps : HostStore.Keeps start.hosts c.hosts
  size : c.hosts.size = start.hosts.size
  checker : c.hasChecker = start.hasChecker
  levels : c.priorities.Withholds strict i
  turn : (start.hosts.get i).Unchecked strict ∨ (∃ p < n, i ∈ draft.hostsAt p) →
    (c.hosts.get i).Unchecked strict

theorem Installing.step {start c d : Cluster τ} {n : Nat}
    (h : Installing config draft strict i start n c)
    (hdraft : ∀ p, ∀ j ∈ draft.hostsAt p, j < start.hosts.size)
    (hmade : i ∈ draft.hostsAt n → start.hasChecker = true ∧ ¬ strict ∧
      (start.hosts.get i).disableActiveCheck = false)
    (hdone : installDraft draft n c = .done d) :
    Installing config draft strict i start (n + 1) d := by
  have hknown : ∀ j ∈ draft.hostsAt n, j < c.hosts.size := fun j hj => h.size ▸ hdraft n j hj
  obtain ⟨hcomposed, hkeeps⟩ := composed_installDraft h.composed hknown hdone
  rw [installDraft_eq] at hdone
  obtain ⟨ps, hupdate, rfl⟩ := Attempt.map_eq_done hdone
  rw [PrioritySet.update_eq_done hupdate] at hcomposed ⊢
  have hkept : (c.hosts.get i).Unchecked strict →
      ((c.flagConfigured draft n).hosts.get i).Unchecked strict := unchecked_flagChecked _ _
  have hhere : i ∈ draft.hostsAt n → ((c.flagConfigured draft n).hosts.get i).Unchecked strict := by
    intro hi
    obtain ⟨hchecker, hstrict, hactive⟩ := hmade hi
    have hflag : (configuredPlan draft n c).flag? = some .failedActiveCheck :=
      if_pos (h.checker.trans hchecker)
    have halike := h.keeps.alike i (hdraft n i hi)
    rw [flagConfigured, hflag]
    exact unchecked_of_flagged hi (hknown i hi) (halike.disableActiveCheck.trans hactive) hstrict
  refine ⟨hcomposed, h.keeps.trans hkeeps, (size_flagChecked _ _ _).trans h.size, h.checker, ?_, ?_⟩
  · refine PrioritySet.Withholds.congr ?_ (PrioritySet.hears_notifyMembers _ _ _).installation
    refine h.levels.put h.composed.regular _ (Draft.withholds_composed _ _ ?_)
    by_cases hi : i ∈ draft.hostsAt n
    · exact .inl (hhere hi)
    · exact .inr hi
  · rintro (hstart | ⟨p, hp, hi⟩)
    · exact hkept (h.turn (.inl hstart))
    · rcases Nat.lt_succ_iff_lt_or_eq.1 hp with hlt | rfl
      · exact hkept (h.turn (.inr ⟨p, hlt, hi⟩))
      · exact hhere hi

theorem Installing.each {start d : Cluster τ} (h : Installing config draft strict i start 0 start)
    (hdraft : ∀ p, ∀ j ∈ draft.hostsAt p, j < start.hosts.size)
    (hmade : ∀ n, i ∈ draft.hostsAt n → start.hasChecker = true ∧ ¬ strict ∧
      (start.hosts.get i).disableActiveCheck = false) (n : Nat)
    (hdone : Attempt.each (installDraft draft) (List.range n) start = .done d) :
    Installing config draft strict i start n d := by
  induction n generalizing d with
  | zero =>
    cases hdone
    exact h
  | succ n ih =>
    rw [List.range_succ, Attempt.each_append] at hdone
    obtain ⟨c, hc, hn⟩ := Attempt.andThen_eq_done hdone
    rw [Attempt.each_singleton] at hn
    exact (ih hc).step hdraft (hmade n) hn

theorem keeps_installAll {priorities : List Nat}
    (h : Attempt.each (installDraft draft) priorities c = .done d) :
    HostStore.Keeps c.hosts d.hosts ∧ d.hosts.size = c.hosts.size := by
  refine Attempt.each_keeps (P := fun e : Cluster τ => HostStore.Keeps c.hosts e.hosts ∧
    e.hosts.size = c.hosts.size) ?_ ⟨.refl _, rfl⟩ h
  intro p _ e f he hp
  rw [installDraft_eq] at hp
  obtain ⟨ps, _, rfl⟩ := Attempt.map_eq_done hp
  exact ⟨he.1.trans (keeps_flagChecked _ _ _), (size_flagChecked _ _ _).trans he.2⟩

/-- Installing what is configured goes on withholding the hosts there were. -/
theorem Withholds.installConfigured (hw : c.Withholds strict i) (hc : c.Composed config)
    (h : c.installConfigured = .done d) : d.Withholds strict i := by
  obtain ⟨store, draft, e, hreg, heach, rfl⟩ := installConfigured_eq_done h
  have hstart : ({ c with hosts := store } : Cluster τ).Composed config :=
    hc.of_rests rfl hreg.keeps (.refl _)
  have hu : (store.get i).Unchecked strict := (hreg.old i hw.known).symm ▸ hw.unchecked
  have hbegin : Installing config draft strict i { c with hosts := store } 0 { c with hosts := store } :=
    ⟨hstart, .refl _, rfl, rfl, hw.levels, fun _ => hu⟩
  have hinstalling := hbegin.each (fun p j hj => hreg.known hj)
    (fun p hi => absurd hi (hreg.not_mem_hostsAt hw.known p)) _ heach
  have he : e.Withholds strict i := ⟨hinstalling.turn (.inl hu), hinstalling.levels⟩
  exact he.preInitDone hinstalling.composed.regular

/-- Installing what is configured withholds the hosts that it makes, as it is checked. -/
theorem withholds_installConfigured (hc : c.Composed config) (h : c.installConfigured = .done d)
    (hnew : c.hosts.size ≤ i) (hlt : i < d.hosts.size) (hchecker : c.hasChecker = true)
    (hstrict : ¬ strict) (hactive : (d.hosts.get i).disableActiveCheck = false) :
    d.Withholds strict i := by
  obtain ⟨store, draft, e, hreg, heach, rfl⟩ := installConfigured_eq_done h
  have hstart : ({ c with hosts := store } : Cluster τ).Composed config :=
    hc.of_rests rfl hreg.keeps (.refl _)
  have hknown : ∀ p, ∀ j ∈ draft.hostsAt p, j < store.size := fun p j hj => hreg.known hj
  have hregular := (composed_installAll hstart hknown heach).regular
  have hhosts : e.preInitDone.hosts = e.hosts := (quiet_preInitDone hregular).hosts
  obtain ⟨hkeeps, hsize⟩ := keeps_installAll heach
  have hlt : i < store.size := by
    rw [hhosts, hsize] at hlt
    exact hlt
  have hactive : (store.get i).disableActiveCheck = false := by
    rw [hhosts] at hactive
    exact (hkeeps.alike i hlt).disableActiveCheck.symm.trans hactive
  have hlevels : c.priorities.Withholds strict i := fun p g hg =>
    (hc.levels p g hg).withholds_of_not_mem fun hmem =>
      absurd ((hc.levels p g hg).known i hmem) (Nat.not_lt.2 hnew)
  have hnone : (store.get i).Unchecked strict ∨ (∃ p < 0, i ∈ draft.hostsAt p) →
      (store.get i).Unchecked strict := fun h =>
    h.resolve_right fun ⟨p, hp, _⟩ => Nat.not_lt_zero p hp
  have hinstalling := Installing.each ⟨hstart, .refl _, rfl, rfl, hlevels, hnone⟩ hknown
    (fun _ _ => ⟨hchecker, hstrict, hactive⟩) _ heach
  obtain ⟨x, hx, rfl⟩ := hreg.exists_arrival hnew hlt
  have he : e.Withholds strict x.id :=
    ⟨hinstalling.turn (.inr ⟨x.level, hreg.level x hx, hreg.mem_hostsAt hx⟩), hinstalling.levels⟩
  exact he.preInitDone hregular

end Cluster

/-! ## Reconciling -/

namespace Reconcile

variable {strict : Prop} {i : HostId} {rules : Rules} {all : AddressMap}

theorem unchecked_matchHost {m : Matching} (id : HostId) (hu : (m.store.get i).Unchecked strict) :
    ((matchHost rules all m id).store.get i).Unchecked strict := by
  have hclear : ∀ h : Host, h.Unchecked strict → (h.clearFlag .pendingRemoval).Unchecked strict :=
    fun h hh =>
      have hcleared : (h.clearFlags [.pendingRemoval]).Unchecked strict :=
        hh.clearFlags (by simp) (by simp)
      hcleared
  simp only [matchHost]
  split
  · exact HostStore.unchecked_modify _ (fun h hh => hh.setFlags _) hu
  · rename_i e _
    have hcleared := HostStore.unchecked_modify e hclear hu
    split
    · exact HostStore.unchecked_modify _ (fun h hh => hh.setFlags _) hcleared
    · exact HostStore.unchecked_modify _ (fun h hh => hh.adopt _) hcleared

theorem unchecked_entered {h : Host} (hchecker : rules.hasChecker = true)
    (hactive : h.disableActiveCheck = false) (hstrict : strict → rules.awaitFirstCheck = true) :
    (h.setFlags (entryFlags rules h)).Unchecked strict := by
  rw [entryFlags, hchecker, hactive]
  refine ⟨?_, fun hs => ?_⟩
  · simp [Host.hasFlag_setFlags]
  · simp [Host.hasFlag_setFlags, hstrict hs]

theorem unchecked_reconcile {store : HostStore} (delivered current : List HostId)
    (texts : List String) (hu : (store.get i).Unchecked strict) :
    ((reconcile rules store delivered current all texts).store.get i).Unchecked strict := by
  have hfold : ∀ m : Matching, (m.store.get i).Unchecked strict →
      ((delivered.foldl (matchHost rules all) m).store.get i).Unchecked strict := by
    induction delivered with
    | nil => exact fun m hm => hm
    | cons id delivered ih => exact fun m hm => ih _ (unchecked_matchHost id hm)
  rw [reconcile_eq]
  exact HostStore.unchecked_modifyAll _ (fun h hh => hh.setFlag _) (hfold { store } hu)

end Reconcile

end Roster
