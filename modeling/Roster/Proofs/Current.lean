import Roster.Proofs.Consistency

/-!
# Roster.Proofs.Current

Whether the healthy, degraded and excluded hosts of a level are those whose flags say so now. Flags
change host by host, and a delivery leaves levels as they are.

* `Current`            — so it is for one generation, or for every level of a cluster.
* `Sorted`             — moreover so are its groups; `IsSplit` says it by what splits a level.
* `isSplit_reload`     — a reload splits every level anew.
* `current_reload`     — a reload makes it so, whatever the cluster was like.
* `Every`              — a property of all generations; those that hold of whatever is split anew are
  kept by everything that reloads.
* `sameHealth_of_isAlone`, `sameHealth_of_installed` — the turns of other levels leave the health of the
  hosts of a level as it was.
* `Delivered.current`  — a delivery keeps it so as long as addresses are named once.
-/

namespace Roster

/-- The lists of a generation are, in order, its hosts whose flags say so now. -/
structure Generation.Current {τ : Type} (store : HostStore) (g : Generation τ) : Prop where
  healthy : g.partition.healthy = g.hosts.filter fun i => (store.get i).health = .healthy
  degraded : g.partition.degraded = g.hosts.filter fun i => (store.get i).health = .degraded
  excluded : g.partition.excluded = g.hosts.filter fun i => (store.get i).excluded

/-- So they are, and its groups are those of all hosts without the ones whose flags do not say so. -/
structure Generation.Sorted {τ : Type} (store : HostStore) (g : Generation τ) : Prop
    extends g.Current store where
  healthyGroups : g.partition.healthyGroups =
    g.partition.groups.kept fun i => (store.get i).health = .healthy
  degradedGroups : g.partition.degradedGroups =
    g.partition.groups.kept fun i => (store.get i).health = .degraded
  excludedGroups : g.partition.excludedGroups =
    g.partition.groups.kept fun i => (store.get i).excluded

/-- The lists and groups of a generation are what its hosts are split into now. -/
def Generation.IsSplit {τ : Type} (store : HostStore) (g : Generation τ) : Prop :=
  g.partition = .of store g.hosts g.partition.groups

/-- What every generation is like, given the hosts of now. -/
def Cluster.Every {τ : Type} (P : HostStore → Generation τ → Prop) (c : Cluster τ) : Prop :=
  ∀ p g, c.priorities.generation? p = some g → P c.hosts g

def Cluster.Current {τ : Type} (c : Cluster τ) : Prop :=
  ∀ p g, c.priorities.generation? p = some g → g.Current c.hosts

namespace Generation

variable {τ : Type} {g : Generation τ} {s t : HostStore}

theorem current_of {hosts : List HostId} {groups : Grouping HostId}
    (h : g.partition = .of s hosts groups) : g.Current s := by
  have hhosts : g.hosts = hosts := congrArg Partition.hosts h
  have hsplit := Partition.byHealth_eq s hosts
  rw [← hhosts] at hsplit
  refine ⟨?_, ?_, ?_⟩ <;> rw [h] <;> simp only [Partition.of, ← hhosts, hsplit] <;> rfl

theorem isSplit_iff : g.IsSplit s ↔ g.Sorted s := by
  have hof : Partition.of s g.hosts g.partition.groups =
      { hosts := g.partition.hosts
        healthy := g.hosts.filter fun i => (s.get i).health = .healthy
        degraded := g.hosts.filter fun i => (s.get i).health = .degraded
        excluded := g.hosts.filter fun i => (s.get i).excluded
        groups := g.partition.groups
        healthyGroups := g.partition.groups.kept fun i => (s.get i).health = .healthy
        degradedGroups := g.partition.groups.kept fun i => (s.get i).health = .degraded
        excludedGroups := g.partition.groups.kept fun i => (s.get i).excluded } := by
    rw [Partition.of, Partition.byHealth_eq, Partition.groupsByHealth_eq]
    rfl
  rw [IsSplit, hof]
  constructor
  · intro h
    exact ⟨⟨congrArg Partition.healthy h, congrArg Partition.degraded h, congrArg Partition.excluded h⟩,
      congrArg Partition.healthyGroups h, congrArg Partition.degradedGroups h,
      congrArg Partition.excludedGroups h⟩
  · intro h
    rw [← h.healthy, ← h.degraded, ← h.excluded, ← h.healthyGroups, ← h.degradedGroups,
      ← h.excludedGroups]

theorem IsSplit.current (h : g.IsSplit s) : g.Current s := (isSplit_iff.1 h).toCurrent

theorem Vacant.current (h : g.Vacant) : g.Current s :=
  current_of (h.partition.trans (Partition.of_nil s).symm)

theorem Current.congr (h : g.Current s)
    (hst : ∀ i ∈ g.hosts, Host.SameHealth (s.get i) (t.get i)) : g.Current t := by
  refine ⟨h.healthy.trans (List.filter_congr ?_), h.degraded.trans (List.filter_congr ?_),
    h.excluded.trans (List.filter_congr ?_)⟩
  all_goals
    intro i hi
    simp only [(hst i hi).health, (hst i hi).excluded]

end Generation

/-! ## Reloading -/

namespace PrioritySet

variable {τ : Type} [Quantity τ] {ps : PrioritySet τ}

theorem generation?_put {u : Update} (hu : u.priority < ps.levels.length) (store : HostStore)
    (q : Nat) : (ps.put store u).generation? q = (ps.install u).generation? q := by
  have hlt : u.priority < (ps.reindex store u).levels.length := hu
  rw [put, ensureLevel_of_lt hlt, putLevel, generation?_congr (installation_notifyLevel _ _ _ _)]
  rfl

theorem generation?_reloadLevel {store : HostStore} {p q : Nat} {g : Generation τ}
    (hg : (Cluster.reloadLevel store ps p).generation? q = some g) :
    g.IsSplit store ∨ (q ≠ p ∧ ps.generation? q = some g) := by
  simp only [Cluster.reloadLevel] at hg
  cases hl : ps.level? p with
  | none =>
    simp only [hl] at hg
    refine .inr ⟨?_, hg⟩
    rintro rfl
    rw [generation?, hl] at hg
    cases hg
  | some l =>
    have hp : p < ps.levels.length := (List.getElem?_eq_some_iff.1 hl).1
    simp only [hl] at hg
    rw [generation?_congr (hears_notifyMembers [] [] _).installation, generation?_put hp] at hg
    by_cases hq : q = p
    · subst hq
      rw [generation?_install_self hl] at hg
      cases hg
      exact .inl rfl
    · rw [generation?_install_of_ne ps hq] at hg
      exact .inr ⟨hq, hg⟩

theorem generation?_reloadAll {store : HostStore} {ps : PrioritySet τ} {levels : List Nat} {q : Nat}
    {g : Generation τ} (hg : (levels.foldl (Cluster.reloadLevel store) ps).generation? q = some g) :
    g.IsSplit store ∨ (q ∉ levels ∧ ps.generation? q = some g) := by
  induction levels generalizing ps with
  | nil => exact .inr ⟨by simp, hg⟩
  | cons p levels ih =>
    rcases ih hg with hsplit | ⟨hlater, hg⟩
    · exact .inl hsplit
    · refine (generation?_reloadLevel hg).imp_right fun ⟨hq, hg⟩ => ⟨?_, hg⟩
      simp [hq, hlater]

end PrioritySet

namespace Cluster

variable {τ : Type} [Quantity τ] {c : Cluster τ}

/-- A reload splits every level anew unless an initialization callback waits. -/
theorem isSplit_reload (h : c.waiting = false) {p : Nat} {g : Generation τ}
    (hg : c.reload.priorities.generation? p = some g) : g.IsSplit c.reload.hosts := by
  simp only [reload, h, Bool.false_eq_true, if_false] at hg ⊢
  rcases PrioritySet.generation?_reloadAll hg with hsplit | ⟨hp, hg⟩
  · exact hsplit
  · exact absurd (List.mem_range.2 (PrioritySet.lt_of_generation? hg)) hp

theorem current_reload (c : Cluster τ) (h : c.waiting = false) : c.reload.Current :=
  fun _ _ hg => (isSplit_reload h hg).current

section Every

variable {P : HostStore → Generation τ → Prop} (hsplit : ∀ store g, g.IsSplit store → P store g)

include hsplit

/-- Levels change by being split anew only. -/
theorem Every.reload (h : c.Every P) : c.reload.Every P := by
  unfold Cluster.reload
  split
  · exact h
  · exact fun p g hg => (PrioritySet.generation?_reloadAll hg).elim (hsplit _ g) fun hold =>
      h p g hold.2

theorem Every.finishInit (h : c.Every P) : c.finishInit.Every P := by
  have hreload : (if ({ c with waiting := false } : Cluster τ).hasChecker then
      ({ c with waiting := false } : Cluster τ).reload else { c with waiting := false }).Every P := by
    split
    · exact Every.reload (c := { c with waiting := false }) hsplit h
    · exact h
  unfold Cluster.finishInit
  split
  · exact hreload
  · exact hreload

omit [Quantity τ] hsplit in
theorem Every.beginChecks (h : c.Every P) : c.beginChecks.Every P := by
  unfold Cluster.beginChecks
  split
  · exact h
  · split
    · exact h
    · exact h

theorem Every.preInitDone (h : c.Every P) : c.preInitDone.Every P := by
  have hbegin : ({ c with started := true } : Cluster τ).beginChecks.Every P :=
    Every.beginChecks (c := { c with started := true }) h
  simp only [Cluster.preInitDone]
  split
  · exact h
  · split
    · exact hbegin.finishInit hsplit
    · exact hbegin

theorem Every.countCheck (h : c.Every P) : c.countCheck.Every P := by
  unfold Cluster.countCheck
  split
  · exact h
  · rename_i n _
    split
    · exact Every.finishInit (c := { c with awaited := n }) hsplit h
    · exact h

theorem Every.completeCheck (h : c.Every P) (transition : Transition) :
    (c.completeCheck transition).Every P := by
  rw [Cluster.completeCheck]
  generalize c.checker?.getD [] = observers
  induction observers generalizing c with
  | nil => exact h
  | cons o observers ih =>
    have ho : (onCheck transition c o).Every P := by
      cases o with
      | reload =>
        simp only [onCheck]
        split
        · exact h.reload hsplit
        · exact h
      | countdown => exact h.countCheck hsplit
    exact ih ho

end Every

theorem Current.preInitDone (h : c.Current) : c.preInitDone.Current :=
  Every.preInitDone (fun _ _ hg => hg.current) h

end Cluster

/-! ## Deliveries -/

namespace DynamicCluster

variable {τ : Type} [Quantity τ] {dc t : DynamicCluster τ} {a : Assignment} {new : List Event}

section Clean

variable (hc : dc.cluster.Orderly) (hf : dc.cluster.config.factorFor a ≠ 0) (ha : a.Clean)

include hc hf ha

/-- A host that stays to drain keeps its health from then on. -/
theorem sameHealth_of_stays {q : Nat} {i : HostId} (hi : i ∈ dc.left a q)
    (hstays : dc.stays a q i = true) {m n : Nat} (hmn : m ≤ n) :
    Host.SameHealth ((dc.reached a m).hosts.get i) ((dc.reached a n).hosts.get i) := by
  refine (still_reached hc.toSound hf (lt_size_of_mem_left hc.toSound hi) hmn ?_).1
  intro r _ _ x hx he
  rw [not_stays_of_heir? hc hf ha (mem_arrivalsAt.1 hx).1 he q] at hstays
  cases hstays

theorem sameHealth_of_isAlone {p : Nat} (halone : dc.isAlone a p = true) {i : HostId}
    (hi : i ∈ dc.cluster.priorities.hostsAt p) (n : Nat) :
    Host.SameHealth (dc.cluster.hosts.get i) ((dc.reached a n).hosts.get i) := by
  have hlt := hc.known p i hi
  have hstart : (dc.reached a 0).hosts.get i = dc.cluster.hosts.get i := (dc.registered_plan a).old i hlt
  rw [← hstart]
  refine (still_reached hc.toSound hf hlt (Nat.zero_le n) ?_).1
  intro q _ _ x hx he
  by_cases hq : q = p
  · subst hq
    exact ((changed_resultAt hc.toSound hf).1 (changed_of_isAlone halone)).1 x hx i he
  · -- the endpoint is another level's, so the host would have had to stay to drain
    obtain ⟨hx, hlevel⟩ := mem_arrivalsAt.1 hx
    have hnot : ¬ dc.Renewed a p (dc.cluster.hosts.addressText i) := by
      rintro ⟨y, hy, hyi, _⟩
      obtain ⟨hy, hylevel⟩ := mem_arrivalsAt.1 hy
      have htext := (text_of_heir? hc.toSound he).1
      rw [eq_of_text_eq ha hy hx (hyi.trans htext)] at hylevel
      exact hq (hlevel.symm.trans hylevel)
    have hstays := stays_of_unchanged hc.toSound hf (changed_of_isAlone halone)
      (mem_left_of_not_renewed hc.toSound hf hi hnot)
    rw [not_stays_of_heir? hc hf ha hx he p] at hstays
    cases hstays

theorem sameHealth_of_installed {p : Nat} {i : HostId} (hi : i ∈ (dc.resultAt a p).hosts) {n : Nat}
    (hn : p < n) :
    Host.SameHealth ((dc.reached a (p + 1)).hosts.get i) ((dc.reached a n).hosts.get i) := by
  rw [hosts_resultAt hc.toSound hf] at hi
  rcases List.mem_append.1 hi with hi | hi
  · obtain ⟨x, hx, rfl⟩ := List.mem_map.1 hi
    obtain ⟨hx', rfl⟩ := mem_arrivalsAt.1 hx
    cases hheir : dc.heir? x with
    | some e =>
      rw [member_of_heir? hheir, get_reached_of_heir? hc hf ha hx' hheir (Nat.lt_succ_self _),
        get_reached_of_heir? hc hf ha hx' hheir hn]
      exact .refl _
    | none =>
      rw [member_of_fresh hheir, get_reached_id hc.toSound hf hx' (Nat.lt_succ_self _),
        get_reached_id hc.toSound hf hx' hn]
      exact .refl _
  · obtain ⟨hi, hstays⟩ := List.mem_filter.1 hi
    exact sameHealth_of_stays hc hf ha hi hstays hn

/-- After every turn the levels that had theirs are current, and the others if they were. -/
theorem current_reached (hcurrent : dc.cluster.Current) {p n : Nat} (hp : p < n) {g : Generation τ}
    (hg : (dc.reached a n).batch.priorities.generation? p = some g) :
    g.Current (dc.reached a n).hosts := by
  rw [generation?_reached_of_lt hc.toSound hf hp] at hg
  cases halone : dc.isAlone a p with
  | true =>
    obtain ⟨hold, hmade⟩ := generation?_of_isAlone hc.toSound hf halone
    rcases Nat.lt_or_ge p dc.cluster.priorities.levels.length with hlt | hge
    · rw [hold hlt] at hg
      have hhosts : dc.cluster.priorities.hostsAt p = g.hosts := by
        rw [PrioritySet.hostsAt_eq, hg]
        rfl
      exact (hcurrent p g hg).congr fun i hi =>
        sameHealth_of_isAlone hc hf ha halone (hhosts ▸ hi) n
    · exact (hmade hge g hg).1.current
  | false =>
    obtain ⟨stamp, hbuilt⟩ := generation?_of_not_isAlone hc.toSound hf halone
    rw [hbuilt, updateAt_eq hc.toSound hf] at hg
    cases hg
    exact (Generation.current_of rfl).congr fun i hi => sameHealth_of_installed hc hf ha hi hp

theorem Delivered.current (ht : dc.Delivered a new t) (hcurrent : dc.cluster.Current) :
    t.cluster.Current := by
  have hdone : (dc.settle (dc.reached a (dc.span (dc.plan a).1))
      (dc.reached a (dc.span (dc.plan a).1)).batch.finish).cluster.Current := by
    intro p g hg
    have hg : (dc.reached a (dc.span (dc.plan a).1)).batch.finish.generation? p = some g := hg
    rw [Batch.finish, PrioritySet.generation?_congr
      (PrioritySet.hears_notifyMembers _ _ _).installation] at hg
    have hp := PrioritySet.lt_of_generation? hg
    rw [length_reached_span hc.toSound hf] at hp
    exact current_reached hc hf ha hcurrent hp hg
  rw [ht.complete]
  exact Cluster.Current.preInitDone hdone

end Clean

end DynamicCluster

namespace Service

variable {τ : Type} [Quantity τ] {config : ClusterConfig} {s : Service τ}

/-- As long as assignments name every address once, a delivery keeps every level current, also those
that it leaves as they are; and a reload makes any cluster current unless an initialization callback
waits. -/
theorem current_deliver (hconfig : config.validate = .ok ())
    (hs : Reaches (fun _ act => act.IsClean) (fresh τ config) s) :
    (∀ a, config.validateAssignment a = .ok () → a.Clean → s.cluster.Current →
        ∃ t, s.deliver a = .done t ∧ t.cluster.Current) ∧
      ∀ c : Cluster τ, c.waiting = false → c.reload.Current := by
  refine ⟨?_, fun c hc => c.current_reload hc⟩
  intro a ha hclean hcurrent
  have hsound := sound_of_reaches hconfig (reaches_knows hs)
  obtain ⟨_, body, hdone, hnew, _⟩ := exists_deliver hconfig hsound ha
  exact ⟨_, hdone, hnew.current (orderly_of_reaches hconfig hs)
    (hsound.factorFor_ne_zero hconfig ha) hclean hcurrent⟩

/-- The levels of `settled` are current after the reload, and still when hosts have changed places. -/
theorem current_settled :
    settled.deliver crossed = .done resettled ∧ resettled.cluster.Current ∧
      (resettled.cluster.priorities.generation? 0).map (·.partition.healthy) = some [2, 0] ∧
      (resettled.cluster.priorities.generation? 1).map (·.partition.degraded) = some [1] := by
  have hconfig : ({} : ClusterConfig).validate = .ok () := rfl
  obtain ⟨hdeliver, hreload⟩ := current_deliver hconfig reaches_settled_of_clean
  have hcurrent : settled.cluster.Current := hreload (run [.setChecker, .watchPriorities [],
    .watchMembers [], .deliver paired, .pass 0, .pass 1, .pass 2] (fresh Rat {})).state.cluster rfl
  obtain ⟨t, ht, hafter⟩ := hdeliver crossed rfl clean_crossed hcurrent
  cases ht
  exact ⟨rfl, hafter, rfl, rfl⟩

end Service

end Roster
