import Roster.Proofs.Withholding

/-!
# Roster.Proofs.Unchecked

Hosts that are made while there is a health checker, over all that may happen to their cluster as long
as nobody outside says that they were checked.

* `withholds_reached`, `not_mapped_reached` — the turns of a delivery.
* `level_of_mem_resultAt` — the one level that a new host is brought to.
* `Delivered.withholds_new` — what a delivery makes is withheld or installed nowhere.
* `Delivered.withholds_old`, `Delivered.lacks_old` — what later deliveries leave so.
* `withholds_perform`, `lacks_perform`, `holds_of_made` — one action, also the one that makes the host.
* `withheld_of_reaches` — from that action on.
-/

namespace Roster

/-! ## Deliveries -/

namespace DynamicCluster

variable {τ : Type} [Quantity τ] {dc t : DynamicCluster τ} {a : Assignment} {new : List Event}
  {strict : Prop} {i : HostId} {config : ClusterConfig}

section Sound

variable (hs : dc.cluster.Sound) (hf : dc.cluster.config.factorFor a ≠ 0)

include hs hf

theorem withholds_reached (hlevels : dc.cluster.priorities.Withholds strict i)
    (hturn : ∀ p, ((dc.reached a (p + 1)).hosts.get i).Unchecked strict ∨ i ∉ (dc.resultAt a p).hosts)
    (n : Nat) : (dc.reached a n).batch.priorities.Withholds strict i := by
  intro p g hg
  rcases Nat.lt_or_ge p n with hp | hp
  · rw [generation?_reached_of_lt hs hf hp] at hg
    cases halone : dc.isAlone a p with
    | true =>
      obtain ⟨hold, hmade⟩ := generation?_of_isAlone hs hf halone
      rcases Nat.lt_or_ge p dc.cluster.priorities.levels.length with hlt | hge
      · exact hlevels p g ((hold hlt).symm.trans hg)
      · exact (hmade hge g hg).1.withholds
    | false =>
      obtain ⟨stamp, hbuilt⟩ := generation?_of_not_isAlone hs hf halone
      rw [hbuilt, updateAt_eq hs hf] at hg
      cases hg
      exact Draft.withholds_composed dc.cluster.config ((dc.plan a).1.draft.weightsAt p) (hturn p)
  · exact hlevels p g ((generation?_reached_of_le hs hf hp).symm.trans hg)

theorem not_mapped_reached (hmapped : ∀ b, Assoc.find? b dc.cluster.priorities.addressMap ≠ some i)
    (hinstalled : ∀ p, i ∉ dc.cluster.priorities.hostsAt p)
    (hresult : ∀ p, i ∉ (dc.resultAt a p).hosts) (n : Nat) (b : String) :
    Assoc.find? b (dc.reached a n).batch.priorities.addressMap ≠ some i := by
  induction n with
  | zero =>
    have hmap : (dc.reached a 0).batch.priorities.addressMap = dc.cluster.priorities.addressMap :=
      PrioritySet.addressMap_congr (PrioritySet.hears_readMap dc.cluster.priorities).installation
    rw [hmap]
    exact hmapped b
  | succ n ih =>
    have hstep := levelStep_reached (a := a) hs hf n
    rw [hstep.map]
    split
    · exact ih
    · intro hb
      have hmade : ((dc.reached a n).made (dc.plan a).1 n).Regular :=
        (underway_reached hs hf n).regular.ensureLevel n _
      rcases AddressIndex.find?_revised_eq_some hb with hb | ⟨hadded, _⟩ | ⟨id, _, hsome, _⟩
      · exact ih hb
      · obtain ⟨x, hx, hmember, _⟩ := (mem_added_resultAt hs hf).1 hadded
        refine hresult n ?_
        rw [hosts_resultAt hs hf]
        exact List.mem_append_left _ (List.mem_map.2 ⟨x, hx, hmember⟩)
      · rcases (PrioritySet.survivor?_eq_some hmade hsome).2 with hk | ⟨q, _, hk⟩
        · exact hresult n hk
        · rw [Rollout.hostsAt_made] at hk
          rcases Nat.lt_or_ge q n with hq | hq
          · rw [hostsAt_reached_of_lt hs hf hq] at hk
            split at hk
            · exact hinstalled q hk
            · exact hresult q hk
          · rw [(underway_reached hs hf n).hostsAt q hq] at hk
            exact hinstalled q hk

variable (ht : dc.Delivered a new t)

include ht

theorem Delivered.withholds (hu : (t.cluster.hosts.get i).Unchecked strict)
    (hlevels : (dc.reached a (dc.span (dc.plan a).1)).batch.priorities.Withholds strict i) :
    t.cluster.Withholds strict i := by
  have hdone := ht.concluded hs hf
  let c := dc.concluding (dc.reached a (dc.span (dc.plan a).1))
  have hcluster : t.cluster = c.preInitDone := by rw [ht.complete]; rfl
  have hhosts : t.cluster.hosts = c.hosts := ht.hosts
  have hc : c.Withholds strict i := ⟨hhosts ▸ hu, hlevels.congr hdone.finish.installation⟩
  rw [hcluster]
  exact hc.preInitDone (hdone.finish.regular (underway_reached hs hf _).regular)

theorem Delivered.withholds_old (h : dc.cluster.Withholds strict i) : t.cluster.Withholds strict i := by
  have hunchecked : ∀ n, ((dc.reached a n).hosts.get i).Unchecked strict := fun n =>
    have hflags := (underway_reached (a := a) hs hf n).flags i h.known
    h.unchecked.of_flags (hflags _ (by simp) (by simp) (by simp)) (hflags _ (by simp) (by simp) (by simp))
  exact ht.withholds hs hf (ht.hosts ▸ hunchecked _)
    (withholds_reached hs hf h.levels (fun p => .inl (hunchecked (p + 1))) _)

theorem Delivered.lacks (hlt : i < t.cluster.hosts.size)
    (hmapped : ∀ b, Assoc.find? b dc.cluster.priorities.addressMap ≠ some i)
    (hinstalled : ∀ p, i ∉ dc.cluster.priorities.hostsAt p)
    (hresult : ∀ p, i ∉ (dc.resultAt a p).hosts) : t.cluster.Lacks i := by
  refine ⟨hlt, fun p => ?_, ?_⟩
  · rw [ht.hostsAt p]
    split
    · exact hinstalled p
    · exact hresult p
  · rw [ht.map]
    exact not_mapped_reached hs hf hmapped hinstalled hresult _

theorem Delivered.lacks_old (h : dc.cluster.Lacks i) : t.cluster.Lacks i := by
  have hlt : i < t.cluster.hosts.size := by
    rw [ht.hosts, size_reached hs hf]
    exact Nat.lt_of_lt_of_le h.known size_le_plan
  refine ht.lacks hs hf hlt h.mapped h.installed fun p hp => ?_
  rw [hosts_resultAt hs hf] at hp
  rcases List.mem_append.1 hp with hp | hp
  · obtain ⟨x, hx, hmember⟩ := List.mem_map.1 hp
    have hheir := heir?_of_member (mem_arrivalsAt.1 hx).1 h.known hmember
    exact h.mapped x.text (Option.filter_eq_some_iff.1 hheir).1
  · exact h.installed p ((left_sublist p).subset (List.mem_filter.1 hp).1)

omit ht in
/-- A host that a delivery makes for an endpoint is a member of the level that the endpoint is of, if it
is one at all. -/
theorem level_of_mem_resultAt {x : Arrival} (hx : x ∈ dc.arrivals a) {p : Nat}
    (hp : x.id ∈ (dc.resultAt a p).hosts) : dc.heir? x = none ∧ p = x.level := by
  have hnew : ∀ {j}, j < dc.cluster.hosts.size → j ≠ x.id := fun hj heq =>
    absurd (heq ▸ hj) (Nat.not_lt.2 (Underway.id_lt hx).1)
  rw [hosts_resultAt hs hf] at hp
  rcases List.mem_append.1 hp with hp | hp
  · obtain ⟨y, hy, hmember⟩ := List.mem_map.1 hp
    obtain ⟨hy', rfl⟩ := mem_arrivalsAt.1 hy
    cases hheir : dc.heir? y with
    | some e =>
      rw [member_of_heir? hheir] at hmember
      exact absurd hmember (hnew (text_of_heir? hs hheir).2)
    | none =>
      rw [member_of_fresh hheir] at hmember
      cases eq_of_id_eq hy' hx hmember
      exact ⟨hheir, rfl⟩
  · exact absurd rfl (hnew (hs.known p _ ((left_sublist p).subset (List.mem_filter.1 hp).1)))

/-- A host that a delivery makes while there is a checker: if it becomes a member it is withheld, and
otherwise it is nowhere. -/
theorem Delivered.withholds_new (hc : dc.cluster.Composed config) (hold : dc.cluster.hosts.size ≤ i)
    (hlt : i < t.cluster.hosts.size) (hchecker : dc.cluster.hasChecker = true)
    (hactive : (t.cluster.hosts.get i).disableActiveCheck = false)
    (hstrict : strict → dc.cluster.config.ignoreNewUntilFirstCheck = true) :
    t.cluster.Withholds strict i ∨ t.cluster.Lacks i := by
  have hplan : i < (dc.plan a).2.size := by
    rw [← size_reached (a := a) hs hf (dc.span (dc.plan a).1), ← ht.hosts]
    exact hlt
  obtain ⟨x, hx, rfl⟩ := exists_arrival hold hplan
  have hinstalled : ∀ p, x.id ∉ dc.cluster.priorities.hostsAt p := fun p hp =>
    absurd (hs.known p _ hp) (Nat.not_lt.2 hold)
  cases hheir : dc.heir? x with
  | some e =>
    refine .inr (ht.lacks hs hf hlt (fun b hb => ?_) hinstalled fun p hp => ?_)
    · exact absurd (hs.mapped b _ hb).1 (Nat.not_lt.2 hold)
    · have hnone := (level_of_mem_resultAt hs hf hx hp).1
      rw [hheir] at hnone
      cases hnone
  | none =>
    have hhost : x.host.disableActiveCheck = false := by
      rw [← (alike_reached_id hs hf hx (dc.span (dc.plan a).1)).disableActiveCheck, ← ht.hosts]
      exact hactive
    have hunchecked : ∀ n, x.level < n → ((dc.reached a n).hosts.get x.id).Unchecked strict := by
      intro n hn
      rw [get_reached_id hs hf hx hn, hheir]
      exact Reconcile.unchecked_entered hchecker hhost hstrict
    refine .inl (ht.withholds hs hf (ht.hosts ▸ hunchecked _ (level_lt_span hx)) ?_)
    refine withholds_reached hs hf (fun p g hg => ?_) (fun p => ?_) _
    · refine (hc.levels p g hg).withholds_of_not_mem fun hmem => ?_
      exact absurd ((hc.levels p g hg).known _ hmem) (Nat.not_lt.2 hold)
    · by_cases hp : x.id ∈ (dc.resultAt a p).hosts
      · obtain ⟨_, rfl⟩ := level_of_mem_resultAt hs hf hx hp
        exact .inl (hunchecked _ (Nat.lt_succ_self _))
      · exact .inr hp

end Sound

end DynamicCluster

/-! ## Runs -/

/-- The action leaves alone the flags that say that the host was not checked yet. -/
def Action.Spares (i : HostId) : Action → Prop
  | .setFlags id _ clear => id = i → .failedActiveCheck ∉ clear ∧ .pendingActiveCheck ∉ clear
  | .pass id => id ≠ i
  | _ => True

theorem Host.Unchecked.edit {strict : Prop} {act : Action} {id : HostId} {f : Host → Host} {k : Host}
    (hk : k.Unchecked strict) (h : act.edit? = some (id, f)) (hspares : act.Spares id) :
    (f k).Unchecked strict := by
  cases act with
  | setFlags _ set clear =>
    cases h
    exact (hk.setFlags set).clearFlags (hspares rfl).1 (hspares rfl).2
  | setUsed | setFailure | setWeight | setPriority | setMetadata | setCanary =>
    cases h
    exact hk.of_flags rfl rfl
  | _ => cases h

namespace Service

variable {τ : Type} [Quantity τ] {config : ClusterConfig} {s t u : Service τ} {strict : Prop}
  {i : HostId} {act : Action}

/-- A host is withheld, or it is nowhere and its cluster discovers hosts. -/
def Holds (strict : Prop) (i : HostId) (s : Service τ) : Prop :=
  s.cluster.Withholds strict i ∨ (s.source = .discovered ∧ s.cluster.Lacks i)

theorem withholds_perform (hconfig : config.validate = .ok ()) (hc : s.cluster.Composed config)
    (hinstall : ¬ act.IsInstall) (hspares : act.Spares i) (hw : s.cluster.Withholds strict i)
    (h : perform act s = .done t) : t.cluster.Withholds strict i := by
  have hs := hc.regular
  cases effect_perform h with
  | void _ => exact hw
  | ask _ _ | setChecker _ | setDetector => exact ⟨hw.unchecked, hw.levels⟩
  | launch _ _ hdone =>
    have hwaiting : ({ s.cluster with waiting := true } : Cluster τ).Withholds strict i :=
      ⟨hw.unchecked, hw.levels⟩
    exact hwaiting.installConfigured (hc.waiting true) hdone
  | startPreInit _ hdone => exact hw.installConfigured hc hdone
  | preInitDone => exact hw.preInitDone hs
  | emptyUpdate _ =>
    have hcounted : ({ s.cluster with emptyUpdates := s.cluster.emptyUpdates + 1 } :
        Cluster τ).Withholds strict i := ⟨hw.unchecked, hw.levels⟩
    exact hcounted.preInitDone hs
  | edit hedit => exact hw.modifyHost _ fun hid _ hk => hk.edit hedit (hid ▸ hspares)
  | introduce host =>
    exact ⟨(HostStore.get_add_of_lt _ host hw.known).symm ▸ hw.unchecked, hw.levels⟩
  | reconcile delivered current all allNew =>
    exact ⟨Reconcile.unchecked_reconcile delivered current allNew hw.unchecked, hw.levels⟩
  | check id transition => exact hw.completeCheck hs transition
  | pass id =>
    have hcleared := hw.modifyHost id
      (f := fun h => (h.clearFlag .failedActiveCheck).clearFlag .pendingActiveCheck)
      fun hid => absurd hid hspares
    exact hcleared.completeCheck hs _
  | outlier _ _ | reload =>
    exact hw.of_every (Cluster.quiet_reload hs).hosts fun _ hsplit hP => hP.reload hsplit
  | deliver hsource hdone =>
    obtain ⟨_, hnew, hf, _⟩ := delivered_of_body hconfig ⟨hsource, hc.config, hc.toSound⟩ hdone
    exact hnew.withholds_old hc.toSound hf hw
  | getOrCreate _ _ => exact ⟨hw.unchecked, hw.levels.ensureLevel _ _⟩
  | install hact _ => exact absurd (Action.isInstall_of_install? hact) hinstall
  | choose hl hchoose => exact ⟨hw.unchecked, hw.levels.share hs hl hchoose⟩
  | watching hact => exact hw.of_installation (Action.installation_watching hact _)

/-- Where hosts are discovered, a host that is nowhere is not brought in. -/
theorem lacks_perform (hconfig : config.validate = .ok ()) (hc : s.cluster.Composed config)
    (hsource : s.source = .discovered) (hinstall : ¬ act.IsInstall) (hl : s.cluster.Lacks i)
    (h : perform act s = .done t) : t.cluster.Lacks i := by
  cases advance_perform hc.regular h with
  | direct hdirect =>
    obtain ⟨_, _, hlevels, hkeeps⟩ := keeps_direct hdirect hinstall h
    exact hl.of_rests hkeeps.size_le (hlevels ▸ .refl _)
  | delivery _ _ hdone =>
    obtain ⟨_, hnew, hf, _⟩ := delivered_of_body hconfig ⟨hsource, hc.config, hc.toSound⟩ hdone
    exact hnew.lacks_old hc.toSound hf hl
  | installed hconfigured _ =>
    rw [hsource] at hconfigured
    cases hconfigured
  | steady _ _ hsteady => exact hl.of_rests (Nat.le_of_eq hsteady.size.symm) hsteady.priorities

theorem holds_perform (hconfig : config.validate = .ok ()) (hc : s.cluster.Composed config)
    (hinstall : ¬ act.IsInstall) (hspares : act.Spares i) (hh : s.Holds strict i)
    (h : perform act s = .done t) : t.Holds strict i := by
  obtain ⟨hsource, _⟩ := composed_perform hconfig hc hinstall h
  rcases hh with hw | ⟨hs, hl⟩
  · exact .inl (withholds_perform hconfig hc hinstall hspares hw h)
  · exact .inr ⟨hsource.trans hs, lacks_perform hconfig hc hs hinstall hl h⟩

theorem holds_of_made (hconfig : config.validate = .ok ()) (hc : s.cluster.Composed config)
    (hdirect : ¬ act.IsDirect) (h : perform act s = .done t)
    (hchecker : s.cluster.hasChecker = true) (hold : s.cluster.hosts.size ≤ i)
    (hnew : i < t.cluster.hosts.size) (hactive : (t.cluster.hosts.get i).disableActiveCheck = false) :
    t.Holds (s.source = .discovered ∧ config.ignoreNewUntilFirstCheck = true) i := by
  cases advance_perform hc.regular h with
  | direct hact => exact absurd hact hdirect
  | delivery _ hsource hdone =>
    obtain ⟨_, hdelivered, hf, _⟩ :=
      delivered_of_body hconfig ⟨hsource, hc.config, hc.toSound⟩ hdone
    have hignore : s.body.cluster.config.ignoreNewUntilFirstCheck = config.ignoreNewUntilFirstCheck :=
      congrArg _ hc.config
    exact (hdelivered.withholds_new hc.toSound hf hc hold hnew hchecker hactive fun hstrict =>
      hignore.trans hstrict.2).imp_right fun hlacks => ⟨hsource, hlacks⟩
  | installed hsource hdone =>
    have hstrict : ¬ (s.source = .discovered ∧ config.ignoreNewUntilFirstCheck = true) := by
      rw [hsource]
      exact fun hdiscovered => nomatch hdiscovered.1
    exact .inl (Cluster.withholds_installConfigured (hc.waiting _) hdone hold hnew hchecker hstrict
      hactive)
  | steady _ _ hsteady =>
    rw [hsteady.size] at hnew
    exact absurd hnew (Nat.not_lt.2 hold)

/-- A host that a delivery or the start of a configured cluster makes while there is a checker, and that
is to be checked, is neither healthy nor degraded at any level as long as nobody clears its flags or
installs levels past the cluster; where new hosts are held back it is excluded at every level it is in. -/
theorem withheld_of_reaches (hconfig : config.validate = .ok ()) {source : Source}
    (hs : Reaches (fun _ act => ¬ act.IsInstall) (opened τ source config) s)
    (hmakes : act.IsDelivery ∨ act.IsStart) (hstep : perform act s = .done t)
    (hchecker : s.cluster.hasChecker = true) (hold : s.cluster.hosts.size ≤ i)
    (hnew : i < t.cluster.hosts.size) (hactive : (t.cluster.hosts.get i).disableActiveCheck = false)
    (hrun : Reaches (fun _ act => ¬ act.IsInstall ∧ act.Spares i) t u) :
    ∀ p g, u.cluster.priorities.generation? p = some g →
      g.partition.Withholds (source = .discovered ∧ config.ignoreNewUntilFirstCheck = true) i := by
  obtain ⟨hsource, hc⟩ := composed_of_reaches hconfig hs (composed_opened source config)
  have hdirect : ¬ act.IsDirect := fun hact => hmakes.elim hact.not_isDelivery hact.not_isStart
  have hinstall : ¬ act.IsInstall := fun hact => hdirect hact.isDirect
  have hmade := holds_of_made hconfig hc hdirect hstep hchecker hold hnew hactive
  obtain ⟨hcomposed, hholds⟩ := hrun.keeps
    (P := fun v => v.cluster.Composed config ∧
      v.Holds (s.source = .discovered ∧ config.ignoreNewUntilFirstCheck = true) i)
    (fun _ _ _ hact hdone hv => ⟨(composed_perform hconfig hv.1 hact.1 hdone).2,
      holds_perform hconfig hv.1 hact.1 hact.2 hv.2 hdone⟩)
    ⟨(composed_perform hconfig hc hinstall hstep).2, hmade⟩
  have hopened : s.source = source := hsource
  rw [hopened] at hholds
  intro p g hg
  rcases hholds with hw | ⟨_, hlacks⟩
  · exact hw.levels p g hg
  · refine (hcomposed.levels p g hg).withholds_of_not_mem fun hi => hlacks.installed p ?_
    rw [PrioritySet.hostsAt_eq, hg]
    exact hi

def cautious : ClusterConfig := { ignoreNewUntilFirstCheck := true }

/-- A checked cluster once four endpoints are delivered, -/
def cautiousPaired : Service Rat :=
  (run [.setChecker, .deliver paired] (opened Rat .discovered cautious)).state

/-- and once the other hosts passed their checks, the middle ones changed places, and the levels were
split anew. -/
def cautiousLater : Service Rat :=
  (run [.pass 0, .pass 2, .deliver crossed, .reload] cautiousPaired).state

/-- The second host moves to the other level, and is still excluded there. -/
theorem withheld_cautiousLater :
    cautiousPaired.cluster.priorities.hostsAt 0 = [0, 1] ∧
      cautiousLater.cluster.priorities.hostsAt 0 = [2, 5, 0] ∧
      cautiousLater.cluster.priorities.hostsAt 1 = [1] ∧
      ∀ p g, cautiousLater.cluster.priorities.generation? p = some g → g.partition.Withholds
        (Source.discovered = .discovered ∧ cautious.ignoreNewUntilFirstCheck = true) 1 := by
  have hchecked : run [.setChecker] (opened Rat .discovered cautious) =
      .done (run [.setChecker] (opened Rat .discovered cautious)).state := rfl
  have hstep : perform (.deliver paired) (run [.setChecker] (opened Rat .discovered cautious)).state =
      .done cautiousPaired := rfl
  have hlater : run [.pass 0, .pass 2, .deliver crossed, .reload] cautiousPaired =
      .done cautiousLater := rfl
  have hbefore : ∀ act ∈ [Action.setChecker], ¬ act.IsInstall := by simp [Action.IsInstall]
  have hafter : ∀ act ∈ [Action.pass 0, .pass 2, .deliver crossed, .reload],
      ¬ act.IsInstall ∧ act.Spares 1 := by
    simp [Action.IsInstall, Action.Spares]
  have hdelivery : (Action.deliver paired).IsDelivery ∨ (Action.deliver paired).IsStart := .inl trivial
  have hwithheld := withheld_of_reaches (i := 1) rfl
    (.of_run (fun act hact _ => hbefore act hact) hchecked) hdelivery hstep rfl (Nat.zero_le 1)
    (by decide) rfl (.of_run (fun act hact _ => hafter act hact) hlater)
  exact ⟨rfl, rfl, rfl, hwithheld⟩

end Service

end Roster
