import Roster.Proofs.Lifecycle

/-!
# Roster.Proofs.Agreeing

An assignment that is configured against the same one delivered to a cluster that has no hosts yet. The
one installs every level and flags its hosts as it goes; the other reconciles each level with nothing,
flags in between, and may leave an empty level as it is.

* `enters_reconcile` — reconciled with nothing, every delivered host becomes a member, in order.
* `Agrees`     — the same hosts, installed, grouped and indexed alike, as far into initialization.
* `Agrees.preInitDone` — clusters that agree do so still when the work before initialization ends.
* `tracks_step`, `tracks_run` — level by level, the configured cluster keeps up with the delivery.
* `agrees_start` — so both clusters agree in the end.
-/

namespace Roster

/-! ## Reconciling with nothing -/

namespace Reconcile

def entered (rules : Rules) (h : Host) : Host := h.setFlags (entryFlags rules h)

/-- All delivered hosts become members; there are no others. -/
structure Enters (rules : Rules) (store : HostStore) (delivered : List HostId) (r : Result) : Prop where
  store : r.store = store.modifyAll delivered (entered rules)
  hosts : r.hosts = delivered
  added : r.added = delivered
  removed : r.removed = []
  changed : r.changed = !delivered.isEmpty

theorem store_admitNew (rules : Rules) (m : Matching) (id : HostId) :
    (admitNew rules m id).store = m.store.modify id (entered rules) :=
  HostStore.modify_congr m.store rfl

theorem foldl_admitNew (rules : Rules) (ids : List HostId) (m : Matching) :
    (ids.foldl (admitNew rules) m).store = m.store.modifyAll ids (entered rules) ∧
      (ids.foldl (admitNew rules) m).kept = m.kept ∧
      (ids.foldl (admitNew rules) m).final = m.final ++ ids ∧
      (ids.foldl (admitNew rules) m).added = m.added ++ ids ∧
      (ids.foldl (admitNew rules) m).changed = m.changed := by
  induction ids generalizing m with
  | nil => exact ⟨rfl, rfl, (List.append_nil _).symm, (List.append_nil _).symm, rfl⟩
  | cons id ids ih =>
    obtain ⟨hstore, hkept, hfinal, hadded, hchanged⟩ := ih (admitNew rules m id)
    refine ⟨?_, hkept, ?_, ?_, hchanged⟩
    · rw [List.foldl_cons, hstore, store_admitNew]
      rfl
    · rw [List.foldl_cons, hfinal]
      exact List.append_assoc m.final [id] ids
    · rw [List.foldl_cons, hadded]
      exact List.append_assoc m.added [id] ids

/-- With an empty index no delivered host meets another, and a level without hosts has none to drain. -/
theorem enters_reconcile (rules : Rules) (store : HostStore) (delivered : List HostId)
    (texts : List String) :
    Enters rules store delivered (reconcile rules store delivered [] [] texts) := by
  have hmatch : matchHost rules [] = admitNew rules :=
    funext₂ fun m id => matchHost_of_none rfl
  obtain ⟨hstore, hkept, hfinal, hadded, hchanged⟩ := foldl_admitNew rules delivered { store }
  have hdrain : ∀ m, drain rules m texts [] = ([], []) := fun m => by
    unfold drain
    split <;> rfl
  simp only [reconcile, matchAll, hmatch, unmatched, hdrain]
  refine ⟨hstore, ?_, hadded, rfl, ?_⟩
  · rw [hfinal]
    exact List.append_nil delivered
  · rw [hkept, hadded, hchanged]
    simp

end Reconcile

theorem Draft.flagChecked_eq (rules : Reconcile.Rules)
    (hrules : rules.hasChecker = true → rules.awaitFirstCheck = false) (store : HostStore)
    (hosts : List HostId) :
    flagChecked (if rules.hasChecker then some .failedActiveCheck else none) store hosts =
      store.modifyAll hosts (Reconcile.entered rules) := by
  cases hchecker : rules.hasChecker with
  | false =>
    have hentered : Reconcile.entered rules = fun h => h := funext fun h => by
      simp [Reconcile.entered, Reconcile.entryFlags, hchecker, Host.setFlags]
    rw [hentered, HostStore.modifyAll_id]
    rfl
  | true =>
    have hentered : Reconcile.entered rules = fun h =>
        if h.disableActiveCheck then h else h.setFlag .failedActiveCheck := funext fun h => by
      cases hdisabled : h.disableActiveCheck <;>
        simp [Reconcile.entered, Reconcile.entryFlags, hchecker, hrules hchecker, hdisabled,
          Host.setFlags]
    rw [hentered]
    rfl

/-! ## Levels that agree -/

/-- Two generations have the same hosts, split and grouped alike, and one factor. Only where there are
no hosts may they differ in their weights. -/
structure Generation.Agrees {τ : Type} (g h : Generation τ) : Prop where
  partition : h.partition = g.partition
  factor : h.factor = g.factor
  weights : g.hosts ≠ [] → h.weights? = g.weights?

theorem Generation.Agrees.refl {τ : Type} (g : Generation τ) : g.Agrees g := ⟨rfl, rfl, fun _ => rfl⟩

namespace PrioritySet

variable {τ : Type} {ps ps' qs qs' : PrioritySet τ}

/-- As many levels, which agree, and one index. -/
structure Agrees (ps qs : PrioritySet τ) : Prop where
  length : qs.levels.length = ps.levels.length
  levels : ∀ p g h, ps.generation? p = some g → qs.generation? p = some h → g.Agrees h
  map : qs.addressMap = ps.addressMap

theorem exists_generation {p : Nat} (hp : p < ps.levels.length) : ∃ g, ps.generation? p = some g :=
  Option.isSome_iff_exists.1 (by simp [generation?, level?, hp])

namespace Agrees

theorem congr (h : ps.Agrees qs) (hps : ps'.installation = ps.installation)
    (hqs : qs'.installation = qs.installation) : ps'.Agrees qs' := by
  refine ⟨?_, fun p g k hg hk => ?_, ?_⟩
  · rw [length_congr hps, length_congr hqs, h.length]
  · rw [generation?_congr hps] at hg
    rw [generation?_congr hqs] at hk
    exact h.levels p g k hg hk
  · rw [addressMap_congr hps, addressMap_congr hqs, h.map]

theorem refl (ps : PrioritySet τ) : ps.Agrees ps := by
  refine ⟨rfl, fun p g h hg hh => ?_, rfl⟩
  cases hg.symm.trans hh
  exact .refl g

theorem hostLists (h : ps.Agrees qs) : qs.hostLists = ps.hostLists := by
  have hlength : ∀ rs : PrioritySet τ, rs.hostLists.length = rs.levels.length := fun rs => by
    simp only [PrioritySet.hostLists, List.length_map]
  refine List.ext_getElem? fun p => ?_
  rcases Nat.lt_or_ge p ps.levels.length with hp | hp
  · obtain ⟨g, hg⟩ := exists_generation hp
    obtain ⟨k, hk⟩ := exists_generation (h.length.symm ▸ hp)
    rw [hostLists_getElem?, hostLists_getElem?, hg, hk]
    exact congrArg (fun x => some (Partition.hosts x)) (h.levels p g k hg hk).partition
  · rw [List.getElem?_eq_none (by rw [hlength, h.length]; exact hp),
      List.getElem?_eq_none (by rw [hlength]; exact hp)]

variable [Quantity τ]

theorem ensureLevel (h : ps.Agrees qs) (p : Nat) (factor? : Option Nat) :
    (ps.ensureLevel p factor?).Agrees (qs.ensureLevel p factor?) := by
  refine ⟨?_, fun q g k hg hk => ?_, ?_⟩
  · rw [length_ensureLevel, length_ensureLevel, h.length]
  · rcases Nat.lt_or_ge q ps.levels.length with hq | hq
    · rw [generation?_ensureLevel_of_lt hq] at hg
      rw [generation?_ensureLevel_of_lt (h.length.symm ▸ hq)] at hk
      exact h.levels q g k hg hk
    · obtain ⟨hvacant, hfactor⟩ := generation?_ensureLevel_of_le hq hg
      obtain ⟨hvacant', hfactor'⟩ := generation?_ensureLevel_of_le (h.length.symm ▸ hq) hk
      exact ⟨hvacant'.partition.trans hvacant.partition.symm, hfactor'.trans hfactor.symm,
        fun _ => hvacant'.weights.trans hvacant.weights.symm⟩
  · rw [addressMap_ensureLevel, addressMap_ensureLevel, h.map]

omit [Quantity τ] in
theorem resplit (h : ps.Agrees qs) {store : HostStore} (hps : Quiet ps ps') (hqs : Quiet qs qs')
    (hsplit : ∀ p g, ps'.generation? p = some g → g.IsSplit store)
    (hsplit' : ∀ p g, qs'.generation? p = some g → g.IsSplit store) : ps'.Agrees qs' := by
  refine ⟨?_, fun p g k hg hk => ?_, ?_⟩
  · rw [hps.length, hqs.length, h.length]
  · obtain ⟨g₀, hg₀, hresplits⟩ := hps.resplits p g hg
    obtain ⟨k₀, hk₀, hresplits'⟩ := hqs.resplits p k hk
    have hagree := h.levels p g₀ k₀ hg₀ hk₀
    have hhosts : k.hosts = g.hosts := by
      refine hresplits'.hosts.trans (Eq.trans ?_ hresplits.hosts.symm)
      rw [hagree.partition]
    have hgroups : k.partition.groups = g.partition.groups := by
      rw [hresplits'.groups, hresplits.groups, hagree.partition]
    refine ⟨?_, ?_, fun hne => ?_⟩
    · rw [hsplit p g hg, hsplit' p k hk, hhosts, hgroups]
    · rw [hresplits'.factor, hresplits.factor, hagree.factor]
    · have hhosts₀ : g.hosts = g₀.hosts := hresplits.hosts
      rw [hresplits'.weights, hresplits.weights, hagree.weights (hhosts₀ ▸ hne)]
  · rw [hps.map, hqs.map, h.map]

end Agrees

end PrioritySet

/-! ## Clusters that agree -/

namespace Cluster

variable {τ : Type} {c d : Cluster τ}

/-- The same hosts, with every field and flag, installed alike at every level and indexed alike; and
initialization has come as far. -/
structure Agrees (c d : Cluster τ) : Prop where
  hosts : d.hosts = c.hosts
  priorities : c.priorities.Agrees d.priorities
  checker? : d.checker? = c.checker?
  started : d.started = c.started
  waiting : d.waiting = c.waiting
  awaited : d.awaited = c.awaited
  announcements : d.announcements = c.announcements

theorem Agrees.hasChecker (h : c.Agrees d) : d.hasChecker = c.hasChecker := by
  rw [Cluster.hasChecker, Cluster.hasChecker, h.checker?]

theorem Agrees.sameMembers (h : c.Agrees d) : SameMembers c d :=
  ⟨h.hosts, h.hasChecker, h.priorities.hostLists⟩

theorem Agrees.announce (h : c.Agrees d) : c.announce.Agrees d.announce := by
  refine ⟨h.hosts, h.priorities.congr rfl rfl, h.checker?, h.started, h.waiting, h.awaited, ?_⟩
  rw [announcements_announce, announcements_announce, h.announcements]

theorem Agrees.beginChecks (h : c.Agrees d) : c.beginChecks.Agrees d.beginChecks := by
  have hchecked := h.sameMembers.checkedHosts
  unfold Cluster.beginChecks
  rw [h.checker?, h.awaited]
  cases hchecker : c.checker? with
  | none => exact h
  | some observers =>
    dsimp only
    split
    · exact ⟨h.hosts, h.priorities, rfl, h.started, h.waiting, hchecked, h.announcements⟩
    · exact h

variable [Quantity τ]

theorem Agrees.reload (h : c.Agrees d) (hc : c.priorities.Regular) (hd : d.priorities.Regular) :
    c.reload.Agrees d.reload := by
  cases hask : c.waiting with
  | true =>
    have hreload : c.reload = c ∧ d.reload = d := ⟨if_pos hask, if_pos (h.waiting.trans hask)⟩
    rwa [hreload.1, hreload.2]
  | false =>
    have hquiet := quiet_reload hc
    have hquiet' := quiet_reload hd
    have hhosts : d.reload.hosts = c.reload.hosts := by rw [hquiet.hosts, hquiet'.hosts, h.hosts]
    have hstage := sameStage_reload c
    have hstage' := sameStage_reload d
    refine ⟨hhosts, h.priorities.resplit hquiet.priorities hquiet'.priorities
      (fun p g hg => isSplit_reload hask hg)
      (fun p g hg => hhosts ▸ isSplit_reload (h.waiting.trans hask) hg), ?_, ?_, ?_, ?_, ?_⟩
    · rw [hstage.checker?, hstage'.checker?, h.checker?]
    · rw [hstage.started, hstage'.started, h.started]
    · rw [hstage.waiting, hstage'.waiting, h.waiting]
    · rw [hstage.awaited, hstage'.awaited, h.awaited]
    · rw [hstage.announcements, hstage'.announcements, h.announcements]

theorem Agrees.finishInit (h : c.Agrees d) (hc : c.priorities.Regular) (hd : d.priorities.Regular) :
    c.finishInit.Agrees d.finishInit := by
  let ended (e : Cluster τ) : Cluster τ := { e with waiting := false }
  have hended : (ended c).Agrees (ended d) :=
    ⟨h.hosts, h.priorities, h.checker?, h.started, rfl, h.awaited, h.announcements⟩
  have hreload : (if (ended c).hasChecker then (ended c).reload else ended c).Agrees
      (if (ended d).hasChecker then (ended d).reload else ended d) := by
    rw [hended.hasChecker]
    split
    · exact hended.reload hc hd
    · exact hended
  simp only [Cluster.finishInit, h.waiting]
  split
  · exact hreload.announce
  · exact hreload

theorem Agrees.preInitDone (h : c.Agrees d) (hc : c.priorities.Regular) (hd : d.priorities.Regular) :
    c.preInitDone.Agrees d.preInitDone := by
  let begun (e : Cluster τ) : Cluster τ := { e with started := true }
  have hbegun : (begun c).Agrees (begun d) :=
    ⟨h.hosts, h.priorities, h.checker?, rfl, h.waiting, h.awaited, h.announcements⟩
  have hchecks := hbegun.beginChecks
  simp only [Cluster.preInitDone, h.started]
  split
  · exact h
  · rw [hchecks.awaited]
    split
    · exact hchecks.finishInit ((quiet_beginChecks (begun c)).regular hc)
        ((quiet_beginChecks (begun d)).regular hd)
    · exact hchecks

end Cluster

/-! ## What is configured -/

namespace ClusterConfig

variable {config : ClusterConfig} {a : Assignment}

theorem configuredGroups_eq (h : config.assignment? = some a) :
    Cluster.configuredGroups config = a.groups := by
  simp only [Cluster.configuredGroups, h]

theorem configuredFactor_eq (h : config.assignment? = some a) :
    Cluster.configuredFactor config = config.factorFor a := by
  simp only [Cluster.configuredFactor, h]

end ClusterConfig

/-! ## The first delivery -/

namespace DynamicCluster

variable {τ : Type} [Quantity τ] {dc : DynamicCluster τ} {a : Assignment}

section Bare

variable (hb : dc.cluster.priorities.Bare) (hf : dc.cluster.config.factorFor a ≠ 0)

include hb hf

theorem enters_resultAt (p : Nat) :
    Reconcile.Enters dc.cluster.rules (dc.reached a p).hosts ((dc.plan a).1.draft.hostsAt p)
      (dc.resultAt a p) := by
  have hhosts : (dc.reached a p).hostsAt p = [] :=
    (hostsAt_reached (Cluster.sound_of_bare hb) hf p).trans (hb.hostsAt p)
  have hinstalled : (dc.plan a).1.installed = [] := hb.unmapped
  rw [resultAt, Rollout.result, hhosts, hinstalled]
  exact Reconcile.enters_reconcile _ _ _ _

theorem hostsAt_of_isAlone {p : Nat} (h : dc.isAlone a p = true) :
    (dc.plan a).1.draft.hostsAt p = [] := by
  have hchanged := (enters_resultAt hb hf p).changed
  rw [changed_of_isAlone h] at hchanged
  simpa using hchanged

theorem hostsAt_delivered {new : List Event} {t : DynamicCluster τ} (ht : dc.Delivered a new t)
    (p : Nat) :
    t.cluster.priorities.hostsAt p = Draft.idsAt (a.arrivals dc.cluster.hosts.size) p := by
  have hdraft := (dc.registered_plan a).hostsAt p
  rw [ht.hostsAt p]
  split
  · rename_i halone
    rw [hostsAt_of_isAlone hb hf halone] at hdraft
    exact (hb.hostsAt p).trans hdraft
  · exact (enters_resultAt hb hf p).hosts.trans hdraft

theorem agrees_turn {p : Nat} {g : Generation τ}
    (hg : (dc.reached a (p + 1)).batch.priorities.generation? p = some g) (plan : Draft.Plan)
    (hplan : plan.hosts = (dc.plan a).1.draft.hostsAt p) (stamp : Nat) :
    (Generation.build stamp
      (Draft.composed dc.cluster.config ((dc.plan a).1.draft.weightsAt p)
        (dc.reached a (p + 1)).hosts plan).partition
      (Draft.composed dc.cluster.config ((dc.plan a).1.draft.weightsAt p)
        (dc.reached a (p + 1)).hosts plan).weights?
      (dc.cluster.config.factorFor a) : Generation τ).Agrees g := by
  have hs := Cluster.sound_of_bare hb
  cases halone : dc.isAlone a p with
  | true =>
    have hnone : plan.hosts = [] := hplan.trans (hostsAt_of_isAlone hb hf halone)
    have hvacant : g.Vacant := by
      obtain ⟨hold, hmade⟩ := generation?_of_isAlone hs hf halone
      rcases Nat.lt_or_ge p dc.cluster.priorities.levels.length with hlt | hge
      · exact hb.vacant p g ((hold hlt).symm.trans hg)
      · exact (hmade hge g hg).1
    refine ⟨?_, factor_reached hs hf (Nat.lt_succ_self p) hg, fun hne => absurd hnone hne⟩
    rw [hvacant.partition]
    simp only [Generation.build, Draft.composed, hnone, Draft.grouping_nil, Partition.of_nil]
  | false =>
    obtain ⟨stamp', hbuilt⟩ := generation?_of_not_isAlone hs hf halone
    have hhosts : (dc.resultAt a p).hosts = plan.hosts :=
      (enters_resultAt hb hf p).hosts.trans hplan.symm
    rw [hbuilt, updateAt_eq hs hf, hhosts] at hg
    cases hg
    exact ⟨rfl, rfl, fun _ => rfl⟩

end Bare

/-! ## Level by level -/

/-- The configured cluster with the levels `ps`, when those below `n` have had their turns in the
delivery. -/
def beside (dc : DynamicCluster τ) (a : Assignment) (n : Nat) (ps : PrioritySet τ) : Cluster τ :=
  { dc.cluster with hosts := (dc.reached a n).hosts, priorities := ps }

/-- What the configured cluster installs at level `n`. -/
def configuredUpdate (dc : DynamicCluster τ) (a : Assignment) (n : Nat) : Update :=
  Draft.composed dc.cluster.config ((dc.plan a).1.draft.weightsAt n) (dc.reached a (n + 1)).hosts
    (dc.cluster.configuredPlan (dc.plan a).1.draft n)

/-- The levels `ps` of the configured cluster keep up with the delivery. -/
structure Tracks (dc : DynamicCluster τ) (a : Assignment) (n : Nat) (ps : PrioritySet τ) : Prop where
  regular : ps.Regular
  agrees : ps.Agrees (dc.reached a n).batch.priorities
  silent : PrioritySet.Silent dc.cluster.priorities ps

section Configured

variable (hb : dc.cluster.priorities.Bare) (hf : dc.cluster.config.factorFor a ≠ 0)
  (hassigned : dc.cluster.config.assignment? = some a)
  (hchecked : dc.cluster.hasChecker = true → dc.cluster.config.ignoreNewUntilFirstCheck = false)

include hb hf hassigned

/-- Installing a level leads to where its turn leads the delivery, also where the delivery leaves it as
it is. -/
theorem agrees_put {n : Nat} {ps : PrioritySet τ} (h : Tracks dc a n ps) :
    (ps.put (dc.reached a (n + 1)).hosts (dc.configuredUpdate a n)).Agrees
      (dc.reached a (n + 1)).batch.priorities := by
  have hs := Cluster.sound_of_bare hb
  have hstep := levelStep_reached (a := a) hs hf n
  have henters := enters_resultAt hb hf n
  obtain ⟨_, hputs⟩ :=
    PrioritySet.puts_put h.regular (dc.reached a (n + 1)).hosts (dc.configuredUpdate a n)
  have hfactor := ClusterConfig.configuredFactor_eq hassigned
  refine ⟨?_, fun p g k hg hk => ?_, ?_⟩
  · rw [hputs.length, hstep.length, h.agrees.length]
    rfl
  · -- the level itself; the others are at most made on the way to it, by both
    by_cases hp : p = n
    · subst hp
      obtain ⟨stamp, hhere⟩ := hputs.here
      cases hhere.symm.trans hg
      have hagree := agrees_turn hb hf hk (dc.cluster.configuredPlan (dc.plan a).1.draft p) rfl stamp
      rwa [← hfactor] at hagree
    · have hagree := h.agrees.ensureLevel n (some (dc.cluster.config.factorFor a))
      rw [← hfactor] at hagree
      refine hagree.levels p g k ((hputs.others p hp).symm.trans hg) ?_
      rw [hfactor]
      exact (hstep.others p hp).symm.trans hk
  · have hmap : (ps.put (dc.reached a (n + 1)).hosts (dc.configuredUpdate a n)).addressMap =
        ((dc.plan a).1.draft.hostsAt n).foldl (AddressIndex.enter (dc.reached a (n + 1)).hosts)
          ps.addressMap := hputs.map
    rw [hmap, hstep.map, h.agrees.map]
    split
    · rename_i halone
      rw [hostsAt_of_isAlone hb hf halone]
      rfl
    · change AddressIndex.revised (dc.resultAt a n).store n (dc.resultAt a n).added
        (dc.resultAt a n).removed _ _ = _
      have hstore : (dc.resultAt a n).store = (dc.reached a (n + 1)).hosts := hstep.hosts.symm
      rw [henters.added, henters.removed, hstore]
      rfl

include hchecked

/-- One level more: the hosts get their flags on both sides, and the levels agree. -/
theorem tracks_step {n : Nat} {ps : PrioritySet τ} (h : Tracks dc a n ps) :
    ∃ qs, Cluster.installDraft (dc.plan a).1.draft n (dc.beside a n ps) =
        .done (dc.beside a (n + 1) qs) ∧ Tracks dc a (n + 1) qs := by
  have hs := Cluster.sound_of_bare hb
  have hflagged : (dc.beside a n ps).flagConfigured (dc.plan a).1.draft n = dc.beside a (n + 1) ps := by
    have hhosts : ((dc.beside a n ps).flagConfigured (dc.plan a).1.draft n).hosts =
        (dc.reached a (n + 1)).hosts := by
      rw [(levelStep_reached (a := a) hs hf n).hosts]
      exact (Draft.flagChecked_eq dc.cluster.rules hchecked _ _).trans
        (enters_resultAt hb hf n).store.symm
    exact congrArg (fun hosts => ({ dc.cluster with hosts, priorities := ps } : Cluster τ)) hhosts
  have hfactor : ¬ (dc.configuredUpdate a n).factor? = some 0 := fun hzero =>
    hf ((ClusterConfig.configuredFactor_eq hassigned).symm.trans (Option.some.inj hzero))
  have hdone : ps.update (dc.reached a (n + 1)).hosts (dc.configuredUpdate a n) =
      .done ((ps.put (dc.reached a (n + 1)).hosts (dc.configuredUpdate a n)).notifyMembers
        (dc.configuredUpdate a n).added (dc.configuredUpdate a n).removed) := by
    rw [PrioritySet.update, PrioritySet.putChecked, if_neg hfactor, Attempt.andThen_done]
  have hears := PrioritySet.hears_notifyMembers (dc.configuredUpdate a n).added
    (dc.configuredUpdate a n).removed (ps.put (dc.reached a (n + 1)).hosts (dc.configuredUpdate a n))
  obtain ⟨_, hputs⟩ :=
    PrioritySet.puts_put h.regular (dc.reached a (n + 1)).hosts (dc.configuredUpdate a n)
  refine ⟨_, ?_, hears.regular hputs.regular, (agrees_put hb hf hassigned h).congr hears.installation rfl,
    h.silent.trans (PrioritySet.silent_update hdone)⟩
  rw [Cluster.installDraft_eq, hflagged]
  change (ps.update (dc.reached a (n + 1)).hosts (dc.configuredUpdate a n)).map _ = _
  rw [hdone]
  rfl

theorem tracks_run (n : Nat) :
    ∃ ps, Attempt.each (Cluster.installDraft (dc.plan a).1.draft) (List.range n)
        { dc.cluster with hosts := (dc.plan a).2 } = .done (dc.beside a n ps) ∧ Tracks dc a n ps := by
  induction n with
  | zero =>
    exact ⟨dc.cluster.priorities, rfl, hb.regular, (PrioritySet.Agrees.refl _).congr rfl
      (PrioritySet.hears_readMap dc.cluster.priorities).installation, .refl _⟩
  | succ n ih =>
    obtain ⟨ps, hdone, htracks⟩ := ih
    obtain ⟨qs, hstep, htracks'⟩ := tracks_step hb hf hassigned hchecked htracks
    refine ⟨qs, ?_, htracks'⟩
    rw [List.range_succ, Attempt.each_append, hdone, Attempt.andThen_done, Attempt.each_singleton, hstep]

/-- Installing the configured assignment and delivering it end in clusters that agree; every level has a
host of its own for each endpoint of its priority, in document order. -/
theorem agrees_installConfigured (hconfig : dc.cluster.config.validate = .ok ())
    (hgroups : a.groups ≠ []) :
    ∃ d t, dc.cluster.installConfigured = .done d ∧ dc.deliver a = .done t ∧ d.Agrees t.cluster ∧
      ∀ p, t.cluster.priorities.hostsAt p = Draft.idsAt (a.arrivals dc.cluster.hosts.size) p := by
  have hs := Cluster.sound_of_bare hb
  obtain ⟨_, t, ht, hnew⟩ :=
    exists_deliver hs hconfig (ClusterConfig.validateAssignment_of_validate hconfig hassigned)
  have hspan : (dc.plan a).1.draft.levels.length = dc.span (dc.plan a).1 := by
    obtain ⟨g, hg⟩ := List.exists_mem_of_ne_nil _ hgroups
    have hlevel : g.level < (dc.plan a).1.draft.levels.length :=
      (Draft.registerGroups_eq a.groups dc.cluster.hosts {}).2.2.2 g hg
    rw [span, hb.single]
    omega
  obtain ⟨ps, hps, htracks⟩ := tracks_run hb hf hassigned hchecked (dc.span (dc.plan a).1)
  have hinstalled : dc.cluster.installConfigured =
      .done (dc.beside a (dc.span (dc.plan a).1) ps).preInitDone := by
    rw [Cluster.installConfigured, ClusterConfig.configuredGroups_eq hassigned]
    change (Attempt.each (Cluster.installDraft (dc.plan a).1.draft)
      (List.range (dc.plan a).1.draft.levels.length) { dc.cluster with hosts := (dc.plan a).2 }).andThen
        _ = _
    rw [hspan, hps]
    rfl
  refine ⟨_, t, hinstalled, ht, ?_, hostsAt_delivered hb hf hnew⟩
  have hfinish := (hnew.concluded hs hf).finish
  have hunderway := underway_reached (a := a) hs hf (dc.span (dc.plan a).1)
  rw [hnew.complete]
  refine Cluster.Agrees.preInitDone (c := dc.beside a (dc.span (dc.plan a).1) ps) ?_ htracks.regular
    (hfinish.regular hunderway.regular)
  refine ⟨rfl, htracks.agrees.congr rfl hfinish.installation, rfl, rfl, rfl, rfl, ?_⟩
  have hsilent := silent_rollout (each_reached (a := a) hs hf (dc.span (dc.plan a).1)).1
  have hfinished := hsilent.trans (PrioritySet.silent_notifyMembers _
    (dc.reached a (dc.span (dc.plan a).1)).batch.netAdded
    (dc.reached a (dc.span (dc.plan a).1)).batch.netRemoved)
  exact hfinished.count.trans htracks.silent.count.symm

end Configured

end DynamicCluster

/-! ## Starting -/

namespace Service

variable {τ : Type} [Quantity τ] {config : ClusterConfig} {a : Assignment}

def beforehand (checked : Bool) : List Action := if checked then [.setChecker] else []

/-- A cluster that was not started, checked or not. -/
def unstarted (τ : Type) [Quantity τ] (config : ClusterConfig) (checked : Bool) : Cluster τ :=
  { Cluster.ofConfig config with checker? := if checked then some [.reload] else none }

/-- It, once somebody asked to be told of its initialization. -/
def asking (τ : Type) [Quantity τ] (config : ClusterConfig) (checked : Bool) : Cluster τ :=
  { unstarted τ config checked with waiting := true }

theorem awaitInit_unstarted (config : ClusterConfig) (checked : Bool) :
    (unstarted τ config checked).awaitInit = .done (asking τ config checked) := rfl

theorem run_beforehand (source : Source) (config : ClusterConfig) (checked : Bool) (as : List Action) :
    run (beforehand checked ++ as) (opened τ source config) =
      run as ((opened τ source config).withCluster (unstarted τ config checked)) := by
  cases checked <;> rfl

/-- A configured assignment that is installed at the start and the same assignment delivered after the
start end in clusters that agree; every level has the hosts of its endpoints, in document order. -/
theorem agrees_start (hconfig : config.validate = .ok ()) (ha : config.assignment? = some a)
    (hgroups : a.groups ≠ []) {checked : Bool}
    (hchecked : checked = true → config.ignoreNewUntilFirstCheck = false) :
    (opened τ .configured config).cluster.openStatic = .ok (opened τ .configured config).cluster ∧
      ∃ s t, run (beforehand checked ++ [.start]) (opened τ .configured config) = .done s ∧
        run (beforehand checked ++ [.start, .deliver a]) (opened τ .discovered config) = .done t ∧
        s.cluster.Agrees t.cluster ∧
        ∀ p, t.cluster.priorities.hostsAt p = Draft.idsAt (a.arrivals 0) p := by
  have hvalid := ClusterConfig.validateAssignment_of_validate hconfig ha
  have hzones : config.checkZones (Cluster.configuredGroups config) = .ok () := by
    rw [ClusterConfig.configuredGroups_eq ha]
    exact ClusterConfig.checkZones_of_valid (ClusterConfig.validateAssignment_eq_ok hvalid).2
  have hopen : (opened τ .configured config).cluster.openStatic =
      .ok (opened τ .configured config).cluster := by
    have hconfig : (opened τ .configured config).cluster.config = config := rfl
    simp only [Cluster.openStatic, hconfig, hzones]
  have hchecker : (asking τ config checked).hasChecker = true →
      config.ignoreNewUntilFirstCheck = false := by
    cases checked with
    | false => exact fun h => by cases h
    | true => exact fun _ => hchecked rfl
  let dc : DynamicCluster τ := { cluster := asking τ config checked }
  have hbare : dc.cluster.priorities.Bare := Cluster.bare_ofConfig config
  obtain ⟨d, t, hd, ht, hagree, hmembers⟩ := DynamicCluster.agrees_installConfigured hbare
    (ClusterConfig.factorFor_ne_zero hconfig hvalid) ha hchecker hconfig hgroups
  refine ⟨hopen, (opened τ .configured config).withCluster d,
    { opened τ .discovered config with body := t }, ?_, ?_, hagree, hmembers⟩
  · have hstart : perform .start
        ((opened τ .configured config).withCluster (unstarted τ config checked)) =
          .done ((opened τ .configured config).withCluster d) := by
      change ((unstarted τ config checked).initializeStatic.mapError DeliveryError.fault).map _ = _
      rw [Cluster.initializeStatic, awaitInit_unstarted, Attempt.andThen_done, hd]
      rfl
    rw [run_beforehand]
    simp only [run, Attempt.each, hstart, Attempt.andThen_done]
  · have hstart : perform .start
        ((opened τ .discovered config).withCluster (unstarted τ config checked)) =
          .done { opened τ .discovered config with body := dc } := rfl
    have hdeliver : perform (.deliver a) { opened τ .discovered config with body := dc } =
        .done { opened τ .discovered config with body := t } := by
      change (dc.deliver a).map _ = _
      rw [ht]
      rfl
    rw [run_beforehand]
    simp only [run, Attempt.each, hstart, hdeliver, Attempt.andThen_done]

/-- An address that two localities name, at different priorities, and no group between them. -/
def spread : Assignment :=
  { groups :=
      [{ locality := { region := "east" }
         priority := 2
         endpoints := [{ address := ⟨.ipv4 ⟨10, 0, 0, 1⟩, 80⟩ }] },
        { locality := { region := "west" }
          endpoints :=
            [{ address := ⟨.ipv4 ⟨10, 0, 0, 1⟩, 80⟩ }, { address := ⟨.ipv4 ⟨10, 0, 0, 2⟩, 80⟩ }] }] }

/-- It, configured with weighted localities and checked from the start, against its delivery. -/
theorem agrees_spread : ∃ s t,
    run [.setChecker, .start]
        (opened Rat .configured { localityWeighted := true, assignment? := some spread }) = .done s ∧
      run [.setChecker, .start, .deliver spread]
        (opened Rat .discovered { localityWeighted := true, assignment? := some spread }) = .done t ∧
      s.cluster.Agrees t.cluster ∧ t.cluster.priorities.hostsAt 0 = [1, 2] ∧
      t.cluster.priorities.hostsAt 2 = [0] := by
  let config : ClusterConfig := { localityWeighted := true, assignment? := some spread }
  have hconfig : config.validate = .ok () := rfl
  have hgroups : spread.groups ≠ [] := by simp [spread]
  have hchecked : true = true → config.ignoreNewUntilFirstCheck = false := fun _ => rfl
  obtain ⟨_, s, t, hs, ht, hagree, hmembers⟩ := agrees_start (τ := Rat) hconfig rfl hgroups hchecked
  exact ⟨s, t, hs, ht, hagree, hmembers 0, hmembers 2⟩

end Service

end Roster
