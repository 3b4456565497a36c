import Roster.Proofs.Effects
import Roster.Proofs.Intervening
import Roster.Proofs.Turns

/-!
# Roster.Proofs.Reaching

Runs of a cluster that discovers its hosts.

* `Advance`        — a caller's doing, a delivery, a configured start, or steady; `advance_perform`.
* `Delivered`      — the cluster after a delivery; `exists_deliver` says that no valid assignment fails.
* `Bare`           — the levels a cluster is made with.
* `sound_of_reaches` — what holds in every state that is reached.
-/

namespace Roster

/-! ## Actions -/

namespace Action

variable {τ : Type} {act : Action} {id : HostId} {f : Host → Host}

theorem Void.not_isDirect [Quantity τ] {s : Service τ} (h : act.Void s) : ¬ act.IsDirect := by
  cases act <;> first | exact not_false | exact h.elim

theorem isInstall_of_install? [Quantity τ] {store : HostStore}
    {f : PrioritySet τ → Attempt Fault (PrioritySet τ)} (h : act.install? store = some f) :
    act.IsInstall := by
  cases act <;> first | exact trivial | cases h

theorem not_isDirect_of_watching {f : PrioritySet τ → PrioritySet τ} (h : act.watching? = some f) :
    ¬ act.IsDirect := by
  cases act <;> first | exact not_false | cases h

theorem Void.not_isDelivery [Quantity τ] {s : Service τ} (h : act.Void s)
    (hsource : s.source = .discovered) : ¬ act.IsDelivery := by
  cases act with
  | deliver _ =>
    have hconfigured : s.source = .configured := h
    rw [hsource] at hconfigured
    cases hconfigured
  | _ => exact not_false

theorem not_isDelivery_of_edit? (h : act.edit? = some (id, f)) : ¬ act.IsDelivery := by
  cases act <;> first | exact not_false | cases h

theorem not_isDelivery_of_watching? {f : PrioritySet τ → PrioritySet τ} (h : act.watching? = some f) :
    ¬ act.IsDelivery := by
  cases act <;> first | exact not_false | cases h

theorem IsInstall.isDirect (h : act.IsInstall) : act.IsDirect := by
  cases act <;> first | exact trivial | exact h.elim

theorem IsDirect.not_isDelivery (h : act.IsDirect) : ¬ act.IsDelivery := by
  cases act <;> first | exact not_false | exact h.elim

theorem IsDirect.not_isStart (h : act.IsDirect) : ¬ act.IsStart := by
  cases act <;> first | exact not_false | exact h.elim

theorem alike_edit (h : act.edit? = some (id, f)) (k : Host) : k.Alike (f k) := by
  cases act with
  | setFlags _ set clear =>
    cases h
    exact (Host.steady_setFlags k set).toAlike.trans (Host.steady_clearFlags _ clear).toAlike
  | setUsed | setFailure | setWeight | setPriority | setMetadata | setCanary =>
    cases h
    exact ⟨rfl, rfl, rfl, rfl, rfl, rfl⟩
  | _ => cases h

theorem steady_edit (h : act.edit? = some (id, f)) (hdirect : ¬ act.IsDirect) (k : Host) :
    k.Steady (f k) := by
  cases act with
  | setFlags _ set clear =>
    cases h
    exact (Host.steady_setFlags k set).trans (Host.steady_clearFlags _ clear)
  | setUsed | setFailure =>
    cases h
    exact ⟨⟨rfl, rfl, rfl, rfl, rfl, rfl⟩, rfl, rfl, rfl, rfl⟩
  | setWeight | setPriority | setMetadata | setCanary => exact absurd trivial hdirect
  | _ => cases h

theorem installation_watching {f : PrioritySet τ → PrioritySet τ} (h : act.watching? = some f)
    (ps : PrioritySet τ) : (f ps).installation = ps.installation := by
  cases act with
  | watchMembers | watchPriorities => cases h; rfl
  | watchLevel p drops => cases h; exact PrioritySet.installation_watchLevel ps p drops
  | unwatch number => cases h; exact PrioritySet.installation_dropWatch ps number
  | _ => cases h

theorem rests_watching {f : PrioritySet τ → PrioritySet τ} (h : act.watching? = some f)
    (ps : PrioritySet τ) : PrioritySet.Rests ps (f ps) := by
  cases act with
  | watchMembers drops => cases h; exact PrioritySet.rests_watchMembers ps drops
  | watchPriorities drops => cases h; exact PrioritySet.rests_watchPriorities ps drops
  | watchLevel p drops => cases h; exact PrioritySet.rests_watchLevel ps p drops
  | unwatch number => cases h; exact PrioritySet.rests_dropWatch ps number
  | _ => cases h

end Action

namespace Service

variable {τ : Type} [Quantity τ] {s t : Service τ}

/-- How an action takes a service on: a caller changes hosts or levels past the discovery source, an
assignment is delivered, what is configured is installed, or all is steady. -/
inductive Advance (act : Action) (s : Service τ) : Service τ → Prop where
  | direct {t : Service τ} : act.IsDirect → Advance act s t
  | delivery {a : Assignment} {body : DynamicCluster τ} : act = .deliver a → s.source = .discovered →
      s.body.deliver a = .done body → Advance act s { s with body }
  | installed {w : Bool} {c : Cluster τ} : s.source = .configured →
      ({ s.cluster with waiting := w } : Cluster τ).installConfigured = .done c →
      Advance act s (s.withCluster c)
  | steady {t : Service τ} : (s.source = .discovered → ¬ act.IsDelivery) → t.source = s.source →
      s.cluster.Steady t.cluster → Advance act s t

theorem advance_perform (hs : s.cluster.priorities.Regular) {act : Action}
    (h : perform act s = .done t) : Advance act s t := by
  by_cases hdirect : act.IsDirect
  · exact .direct hdirect
  cases effect_perform h with
  | void hvoid => exact .steady hvoid.not_isDelivery rfl (.refl _)
  | ask _ _ | setChecker _ | setDetector =>
    exact .steady (fun _ => id) rfl ⟨rfl, rfl, fun _ => .refl _, .refl _⟩
  | launch hsource _ hdone => exact .installed hsource hdone
  | startPreInit hsource hdone => exact .installed (w := s.cluster.waiting) hsource hdone
  | preInitDone => exact .steady (fun _ => id) rfl (Cluster.quiet_preInitDone hs).steady
  | emptyUpdate _ =>
    have hcount : Cluster.Quiet s.cluster
        { s.cluster with emptyUpdates := s.cluster.emptyUpdates + 1 } :=
      ⟨rfl, rfl, rfl, rfl, .refl _⟩
    exact .steady (fun _ => id) rfl (hcount.trans (Cluster.quiet_preInitDone (hcount.regular hs))).steady
  | edit hedit =>
    exact .steady (fun _ => Action.not_isDelivery_of_edit? hedit) rfl
      (Cluster.steady_modifyHost _ _ (Action.steady_edit hedit hdirect))
  | introduce _ | reconcile _ _ _ _ => exact absurd trivial hdirect
  | check _ transition =>
    exact .steady (fun _ => id) rfl (Cluster.quiet_completeCheck hs transition).steady
  | pass id => exact .steady (fun _ => not_false) rfl (Cluster.steady_passCheck hs id)
  | outlier _ _ | reload => exact .steady (fun _ => id) rfl (Cluster.quiet_reload hs).steady
  | deliver hsource hdone => exact .delivery rfl hsource hdone
  | getOrCreate _ _ =>
    exact .steady (fun _ => id) rfl (.of_rests (PrioritySet.rests_ensureLevel _ _ _))
  | install hact _ => exact absurd (Action.isInstall_of_install? hact).isDirect hdirect
  | choose hl hchoose =>
    have hmoved := PrioritySet.reschedules_chooseMany hchoose
    exact .steady (fun _ => id) rfl (.of_rests (PrioritySet.rests_share hs hl hmoved.stamp hmoved.resplits))
  | watching hact =>
    exact .steady (fun _ => Action.not_isDelivery_of_watching? hact) rfl
      (.of_rests (Action.rests_watching hact _))

end Service

/-! ## What validity gives -/

namespace ClusterConfig

theorem validateGroups_eq_ok {c : ClusterConfig} {groups : List EndpointGroup}
    (h : c.validateGroups groups = .ok ()) : ∀ g ∈ groups, c.validateGroup g = .ok () := by
  induction groups with
  | nil => simp
  | cons g groups ih =>
    simp only [validateGroups] at h
    cases hg : c.validateGroup g with
    | error e => rw [hg] at h; cases h
    | ok u =>
      rw [hg] at h
      intro k hk
      rcases List.mem_cons.1 hk with rfl | hk
      · exact hg
      · exact ih h k hk

theorem validateAssignment_eq_ok {c : ClusterConfig} {a : Assignment}
    (h : c.validateAssignment a = .ok ()) :
    a.overprovisioningFactor? ≠ some 0 ∧ ∀ g ∈ a.groups, c.validateGroup g = .ok () := by
  simp only [validateAssignment] at h
  split at h
  · cases h
  · rename_i hf
    exact ⟨hf, validateGroups_eq_ok h⟩

theorem validateAssignment_of_validate {c : ClusterConfig} {a : Assignment} (h : c.validate = .ok ())
    (ha : c.assignment? = some a) : c.validateAssignment a = .ok () := by
  simp only [validate, ha] at h
  split at h
  · cases h
  · exact h

theorem checkZones_of_valid {c : ClusterConfig} {groups : List EndpointGroup}
    (h : ∀ g ∈ groups, c.validateGroup g = .ok ()) : c.checkZones groups = .ok () := by
  induction groups with
  | nil => rfl
  | cons g groups ih =>
    have hg := h g (by simp)
    simp only [validateGroup] at hg
    have hzone : c.checkZone g = .ok () := by
      rw [checkZone, if_neg]
      rintro ⟨hlocal, hlevel⟩
      split at hg
      · cases hg
      · rw [if_pos ⟨hlocal, by omega⟩] at hg
        cases hg
    simp only [checkZones, hzone]
    exact ih fun k hk => h k (by simp [hk])

theorem factorFor_ne_zero {c : ClusterConfig} {a : Assignment} (hc : c.validate = .ok ())
    (ha : c.validateAssignment a = .ok ()) : c.factorFor a ≠ 0 := by
  have hconfig : c.overprovisioningFactor ≠ 0 := by
    intro h
    rw [validate, if_pos h] at hc
    cases hc
  have hassignment := (validateAssignment_eq_ok ha).1
  rw [factorFor]
  cases hf : a.overprovisioningFactor? with
  | none =>
    intro h
    exact hconfig (UInt32.toNat_inj.1 h)
  | some f =>
    intro h
    exact hassignment (by rw [hf]; exact congrArg some (UInt32.toNat_inj.1 h))

end ClusterConfig

/-! ## Deliveries -/

/-- A watch wrote that a host was removed from level `p`. -/
def ReportsRemoved (events : List Event) (n p : Nat) (i : HostId) : Prop :=
  ∃ added removed c, Event.level n p added removed c ∈ events ∧ i ∈ removed

/-- A watch wrote that a host was added to level `p`. -/
def ReportsAdded (events : List Event) (n p : Nat) (i : HostId) : Prop :=
  ∃ added removed c, Event.level n p added removed c ∈ events ∧ i ∈ added

namespace DynamicCluster

variable {τ : Type} [Quantity τ]

/-- The cluster after a delivery, and `new`, what was written meanwhile. -/
structure Delivered (dc : DynamicCluster τ) (a : Assignment) (new : List Event)
    (t : DynamicCluster τ) : Prop where
  complete : t = dc.complete (dc.reached a (dc.span (dc.plan a).1))
  config : t.cluster.config = dc.cluster.config
  hasChecker : t.cluster.hasChecker = dc.cluster.hasChecker
  hosts : t.cluster.hosts = (dc.reached a (dc.span (dc.plan a).1)).hosts
  hostsAt : ∀ p, t.cluster.priorities.hostsAt p =
    if dc.isAlone a p = true then dc.cluster.priorities.hostsAt p else (dc.resultAt a p).hosts
  map : t.cluster.priorities.addressMap =
    (dc.reached a (dc.span (dc.plan a).1)).batch.priorities.addressMap
  regular : t.cluster.priorities.Regular
  events : t.cluster.priorities.journal.events = dc.cluster.priorities.journal.events ++ new
  removed : ∀ p w, t.cluster.priorities.Watches p w → ∀ i,
    ReportsRemoved new w.number p i ↔ dc.isAlone a p = false ∧ i ∈ (dc.resultAt a p).removed
  added : ∀ p w, t.cluster.priorities.Watches p w → ∀ i,
    ReportsAdded new w.number p i ↔ dc.isAlone a p = false ∧ i ∈ (dc.resultAt a p).added

variable {dc : DynamicCluster τ} {a : Assignment}

/-- The cluster `t` once the observers of the members are told of a rollout and the work before
initialization has ended. -/
structure Concluded (dc : DynamicCluster τ) (r : Rollout τ) (t : DynamicCluster τ) : Prop where
  config : t.cluster.config = dc.cluster.config
  hasChecker : t.cluster.hasChecker = dc.cluster.hasChecker
  hosts : t.cluster.hosts = r.hosts
  weights : t.weights = r.weights
  started : t.cluster.started = true
  noRebuild : t.cluster.noRebuild = dc.cluster.noRebuild + if r.rebuilt then 0 else 1
  finish : PrioritySet.Hears r.batch.priorities
    (PrioritySet.memberEvents r.batch.priorities.memberObservers.callbacks r.batch.netAdded
      r.batch.netRemoved r.batch.priorities.addressMap.length) r.batch.finish
  quiet : PrioritySet.Quiet r.batch.finish t.cluster.priorities

omit [Quantity τ] in
theorem Concluded.rests {r : Rollout τ} {t : DynamicCluster τ} (h : Concluded dc r t) :
    PrioritySet.Rests r.batch.priorities t.cluster.priorities :=
  h.finish.rests.trans h.quiet.toRests

/-- Once every level had its turn, what is left to do names no host but the net change. -/
theorem concluded_complete (dc : DynamicCluster τ) (r : Rollout τ)
    (hr : r.batch.priorities.Regular) : Concluded dc r (dc.complete r) := by
  have hfinish := PrioritySet.hears_notifyMembers r.batch.netAdded r.batch.netRemoved
    r.batch.priorities
  have hdone := Cluster.quiet_preInitDone (c := dc.concluding r) (hfinish.regular hr)
  exact ⟨hdone.config, hdone.hasChecker, hdone.hosts, rfl,
    Cluster.started_preInitDone (dc.concluding r), hdone.noRebuild, hfinish, hdone.priorities⟩

/-- What is written of a level during a delivery is the outcome of its turn, or names no host. -/
structure Wrote (dc : DynamicCluster τ) (a : Assignment) (new : List Event) (t : PrioritySet τ) :
    Prop where
  reports : ∀ n p added removed c, Event.level n p added removed c ∈ new →
    (dc.isAlone a p = false ∧ added = (dc.resultAt a p).added ∧ removed = (dc.resultAt a p).removed) ∨
      (added = [] ∧ removed = [])
  told : ∀ p w, t.Watches p w → dc.isAlone a p = false → p < dc.span (dc.plan a).1 →
    ∃ c, Event.level w.number p (dc.resultAt a p).added (dc.resultAt a p).removed c ∈ new

theorem wrote_complete (hs : dc.cluster.Sound) (hf : dc.cluster.config.factorFor a ≠ 0) :
    ∃ new, (dc.complete (dc.reached a (dc.span (dc.plan a).1))).cluster.priorities.journal.events =
        dc.cluster.priorities.journal.events ++ new ∧
      Wrote dc a new (dc.complete (dc.reached a (dc.span (dc.plan a).1))).cluster.priorities := by
  have hdone := concluded_complete dc _ (underway_reached hs hf (dc.span (dc.plan a).1)).regular
  obtain ⟨new, hnew, hreports, htold⟩ := events_reached hs hf (dc.span (dc.plan a).1)
  obtain ⟨more, hmore, hvacant⟩ := hdone.quiet.events
  rw [hdone.finish.events, hnew, List.append_assoc, List.append_assoc] at hmore
  refine ⟨_, hmore, ?_, ?_⟩
  · intro n p added removed c he
    rcases List.mem_append.1 he with he | he
    · obtain ⟨q, _, halone, _, _, heq⟩ := hreports _ he
      cases heq
      exact .inl ⟨halone, rfl, rfl⟩
    · rcases List.mem_append.1 he with he | he
      · obtain ⟨w, _, hw⟩ := List.mem_map.1 he
        cases hw
      · exact .inr (hvacant _ he)
  · intro p w hw halone hp
    obtain ⟨c, hc⟩ :=
      htold p hp halone w (hdone.finish.fewer.watches (hdone.quiet.fewer.watches hw))
    exact ⟨c, List.mem_append_left _ hc⟩

section Reports

variable {new : List Event} {ps : PrioritySet τ} {p : Nat} {w : Watch}

theorem Wrote.removed_iff (h : Wrote dc a new ps) (hs : dc.cluster.Sound)
    (hf : dc.cluster.config.factorFor a ≠ 0) (hw : ps.Watches p w) (i : HostId) :
    ReportsRemoved new w.number p i ↔ dc.isAlone a p = false ∧ i ∈ (dc.resultAt a p).removed := by
  constructor
  · rintro ⟨added, removed, c, he, hi⟩
    rcases h.reports _ _ _ _ _ he with ⟨halone, _, rfl⟩ | ⟨_, rfl⟩
    · exact ⟨halone, hi⟩
    · cases hi
  · rintro ⟨halone, hi⟩
    rcases Nat.lt_or_ge p (dc.span (dc.plan a).1) with hp | hp
    · obtain ⟨c, hc⟩ := h.told p w hw halone hp
      exact ⟨_, _, c, hc, hi⟩
    · rw [(resultAt_of_span_le hs hf hp).2.2] at hi
      cases hi

theorem Wrote.added_iff (h : Wrote dc a new ps) (hs : dc.cluster.Sound)
    (hf : dc.cluster.config.factorFor a ≠ 0) (hw : ps.Watches p w) (i : HostId) :
    ReportsAdded new w.number p i ↔ dc.isAlone a p = false ∧ i ∈ (dc.resultAt a p).added := by
  constructor
  · rintro ⟨added, removed, c, he, hi⟩
    rcases h.reports _ _ _ _ _ he with ⟨halone, rfl, _⟩ | ⟨rfl, _⟩
    · exact ⟨halone, hi⟩
    · cases hi
  · rintro ⟨halone, hi⟩
    rcases Nat.lt_or_ge p (dc.span (dc.plan a).1) with hp | hp
    · obtain ⟨c, hc⟩ := h.told p w hw halone hp
      exact ⟨_, _, c, hc, hi⟩
    · rw [(resultAt_of_span_le hs hf hp).2.1] at hi
      cases hi

end Reports

theorem delivered_complete (hs : dc.cluster.Sound) (hf : dc.cluster.config.factorFor a ≠ 0) :
    ∃ new, Delivered dc a new (dc.complete (dc.reached a (dc.span (dc.plan a).1))) := by
  have hunderway := underway_reached (a := a) hs hf (dc.span (dc.plan a).1)
  have hdone := concluded_complete dc _ hunderway.regular
  obtain ⟨new, hnew, hwrote⟩ := wrote_complete (a := a) hs hf
  refine ⟨new, rfl, hdone.config, hdone.hasChecker, hdone.hosts, ?_, hdone.rests.map,
    hdone.rests.regular hunderway.regular, hnew, fun p w hw i => hwrote.removed_iff hs hf hw i,
    fun p w hw i => hwrote.added_iff hs hf hw i⟩
  intro p
  rw [hdone.rests.hostsAt p]
  rcases Nat.lt_or_ge p (dc.span (dc.plan a).1) with hp | hp
  · exact hostsAt_reached_of_lt hs hf hp
  · refine (hunderway.hostsAt p hp).trans ?_
    split
    · rfl
    · rw [(resultAt_of_span_le hs hf hp).1, hostsAt_of_span_le hp]

theorem Delivered.concluded {new : List Event} {t : DynamicCluster τ} (h : Delivered dc a new t)
    (hs : dc.cluster.Sound) (hf : dc.cluster.config.factorFor a ≠ 0) :
    Concluded dc (dc.reached a (dc.span (dc.plan a).1)) t := by
  rw [h.complete]
  exact concluded_complete dc _ (underway_reached hs hf _).regular

theorem exists_deliver (hs : dc.cluster.Sound) (hconfig : dc.cluster.config.validate = .ok ())
    (ha : dc.cluster.config.validateAssignment a = .ok ()) :
    ∃ new t, dc.deliver a = .done t ∧ Delivered dc a new t := by
  have hf := ClusterConfig.factorFor_ne_zero hconfig ha
  obtain ⟨new, hnew⟩ := delivered_complete hs hf
  refine ⟨new, _, ?_, hnew⟩
  have hcheck : check dc.cluster.config a = .ok () := by
    simp only [check, ha]
    exact ClusterConfig.checkZones_of_valid (ClusterConfig.validateAssignment_eq_ok ha).2
  have heach := (each_reached hs hf (dc.span (dc.plan a).1)).1
  simp only [deliver, hcheck, rollout, heach]

/-! ## Soundness after a delivery -/

theorem size_reached (hs : dc.cluster.Sound) (hf : dc.cluster.config.factorFor a ≠ 0) (n : Nat) :
    (dc.reached a n).hosts.size = (dc.plan a).2.size := (underway_reached hs hf n).size

theorem known_resultAt (hs : dc.cluster.Sound) (hf : dc.cluster.config.factorFor a ≠ 0) {p : Nat}
    {i : HostId} (hi : i ∈ (dc.resultAt a p).hosts) : i < (dc.plan a).2.size := by
  rw [hosts_resultAt hs hf] at hi
  rcases List.mem_append.1 hi with hi | hi
  · obtain ⟨x, hx, rfl⟩ := List.mem_map.1 hi
    exact member_lt hs (mem_arrivalsAt.1 hx).1
  · exact Nat.lt_of_lt_of_le (lt_size_of_mem_left hs (List.mem_filter.1 hi).1) size_le_plan

theorem known_reached (hs : dc.cluster.Sound) (hf : dc.cluster.config.factorFor a ≠ 0) {n p : Nat}
    {i : HostId} (hi : i ∈ (dc.reached a n).hostsAt p) : i < (dc.plan a).2.size := by
  have hold : i ∈ dc.cluster.priorities.hostsAt p → i < (dc.plan a).2.size := fun h =>
    Nat.lt_of_lt_of_le (hs.known p i h) size_le_plan
  rcases Nat.lt_or_ge p n with hp | hp
  · rw [hostsAt_reached_of_lt hs hf hp] at hi
    split at hi
    · exact hold hi
    · exact known_resultAt hs hf hi
  · rw [(underway_reached hs hf n).hostsAt p hp] at hi
    exact hold hi

theorem mapped_reached (hs : dc.cluster.Sound) (hf : dc.cluster.config.factorFor a ≠ 0) (n : Nat)
    {b : String} {e : HostId}
    (he : Assoc.find? b (dc.reached a n).batch.priorities.addressMap = some e) :
    e < (dc.plan a).2.size ∧ (dc.plan a).2.addressText e = b := by
  induction n generalizing e with
  | zero =>
    have hmap : (dc.reached a 0).batch.priorities.addressMap = dc.cluster.priorities.addressMap :=
      PrioritySet.addressMap_congr (PrioritySet.hears_readMap dc.cluster.priorities).installation
    rw [hmap] at he
    obtain ⟨hlt, htext⟩ := hs.mapped b e he
    refine ⟨Nat.lt_of_lt_of_le hlt size_le_plan, ?_⟩
    rw [HostStore.addressText, (dc.registered_plan a).old e hlt]
    exact htext
  | succ n ih =>
    have hstep := levelStep_reached (a := a) hs hf n
    have htext : ∀ i, (dc.resultAt a n).store.addressText i = (dc.plan a).2.addressText i := fun i => by
      have hstore : (dc.reached a (n + 1)).hosts = (dc.resultAt a n).store := hstep.hosts
      rw [← hstore]
      exact congrArg Address.text ((underway_reached hs hf (n + 1)).alike i).address
    rw [hstep.map] at he
    split at he
    · exact ih he
    · have hmade : ((dc.reached a n).made (dc.plan a).1 n).Regular :=
        (underway_reached hs hf n).regular.ensureLevel n _
      rcases AddressIndex.find?_revised_eq_some he with he | ⟨hadded, hb⟩ | ⟨id, hid, hsome, hb⟩
      · exact ih he
      · obtain ⟨x, hx, rfl, _⟩ := (mem_added_resultAt hs hf).1 hadded
        exact ⟨member_lt hs (mem_arrivalsAt.1 hx).1, (htext _).symm.trans hb⟩
      · obtain ⟨htwin, hk⟩ := PrioritySet.survivor?_eq_some hmade hsome
        refine ⟨?_, ?_⟩
        · rcases hk with hk | ⟨q, _, hk⟩
          · exact known_resultAt hs hf hk
          · rw [Rollout.hostsAt_made] at hk
            exact known_reached hs hf hk
        · rw [← htext]
          exact (PrioritySet.addressText_of_isTwin htwin).trans hb

theorem Delivered.sound {new : List Event} {t : DynamicCluster τ} (h : Delivered dc a new t)
    (hs : dc.cluster.Sound) (hf : dc.cluster.config.factorFor a ≠ 0) : t.cluster.Sound := by
  refine ⟨h.regular, ?_, ?_⟩
  · intro p i hi
    rw [h.hosts, size_reached hs hf]
    rw [h.hostsAt p] at hi
    split at hi
    · exact Nat.lt_of_lt_of_le (hs.known p i hi) size_le_plan
    · exact known_resultAt hs hf hi
  · intro b e he
    rw [h.map] at he
    obtain ⟨hlt, htext⟩ := mapped_reached hs hf _ he
    refine ⟨by rw [h.hosts, size_reached hs hf]; exact hlt, ?_⟩
    rw [h.hosts, ← htext]
    exact congrArg Address.text ((underway_reached hs hf _).alike e).address

end DynamicCluster

/-! ## A cluster without hosts -/

/-- The levels that a cluster is made with: a single one, which is empty. -/
structure PrioritySet.Bare {τ : Type} (ps : PrioritySet τ) : Prop where
  regular : ps.Regular
  single : ps.levels.length = 1
  vacant : ∀ p g, ps.generation? p = some g → g.Vacant
  unmapped : ps.addressMap = []

theorem PrioritySet.Bare.hostsAt {τ : Type} {ps : PrioritySet τ} (h : ps.Bare) (p : Nat) :
    ps.hostsAt p = [] := by
  rw [hostsAt_eq]
  cases hg : ps.generation? p with
  | none => rfl
  | some g => exact congrArg Partition.hosts (h.vacant p g hg).partition

theorem Cluster.sound_of_bare {τ : Type} {c : Cluster τ} (h : c.priorities.Bare) : c.Sound := by
  refine ⟨h.regular, fun p i hi => ?_, fun b e he => ?_⟩
  · rw [h.hostsAt] at hi
    cases hi
  · rw [h.unmapped] at he
    cases he

theorem Cluster.bare_ofConfig {τ : Type} [Quantity τ] (config : ClusterConfig) :
    (Cluster.ofConfig config : Cluster τ).priorities.Bare := by
  have hmade : ((PrioritySet.main : PrioritySet τ).ensureLevel 0 none).Regular :=
    PrioritySet.regular_main.ensureLevel 0 none
  refine ⟨⟨hmade.installed, hmade.forwards.level, hmade.forwards.handles⟩, ?_, fun p g hg => ?_, ?_⟩
  · exact PrioritySet.length_ensureLevel (PrioritySet.main : PrioritySet τ) 0 none
  · have hg : ((PrioritySet.main : PrioritySet τ).ensureLevel 0 none).generation? p = some g := hg
    exact (PrioritySet.generation?_ensureLevel_of_le (Nat.zero_le p) hg).1
  · exact PrioritySet.addressMap_ensureLevel (PrioritySet.main : PrioritySet τ) 0 none

/-! ## Runs -/

theorem Cluster.Steady.sound {τ : Type} {c d : Cluster τ} (h : c.Steady d) (hc : c.Sound) : d.Sound :=
  hc.of_keeps ⟨Nat.le_of_eq h.size.symm, fun i _ => (h.hosts i).toAlike⟩ h.priorities

namespace Service

variable {τ : Type} [Quantity τ]

/-- What was written from one state to a later one. -/
def news (s t : Service τ) : List Event :=
  t.cluster.priorities.journal.events.drop s.cluster.priorities.journal.events.length

/-- A cluster that discovers its hosts, before anything happened. -/
def fresh (τ : Type) [Quantity τ] (config : ClusterConfig) : Service τ :=
  { source := .discovered, body := { cluster := .ofConfig config } }

/-- What holds of a service in every state that is reached. -/
structure Sound (config : ClusterConfig) (s : Service τ) : Prop where
  source : s.source = .discovered
  config : s.cluster.config = config
  cluster : s.cluster.Sound

theorem bare_fresh (config : ClusterConfig) : (fresh τ config).cluster.priorities.Bare :=
  Cluster.bare_ofConfig config

theorem sound_fresh (config : ClusterConfig) : Sound config (fresh τ config) :=
  ⟨rfl, rfl, Cluster.sound_of_bare (bare_fresh config)⟩

variable {s t : Service τ} {config : ClusterConfig}

theorem news_eq {a : Assignment} {new : List Event} {body : DynamicCluster τ}
    (h : s.body.Delivered a new body) : s.news { s with body } = new := by
  have hevents : body.cluster.priorities.journal.events =
      s.body.cluster.priorities.journal.events ++ new := h.events
  simp only [news, cluster, hevents, List.drop_left]

theorem deliver_eq_done (hs : Sound config s) {a : Assignment} (h : s.deliver a = .done t) :
    config.validateAssignment a = .ok () ∧ ∃ body, s.body.deliver a = .done body ∧
      t = { s with body } := by
  simp only [deliver, hs.source] at h
  obtain ⟨body, hd, rfl⟩ := Attempt.map_eq_done h
  refine ⟨?_, body, hd, by rw [← hs.source]⟩
  have hconfig : s.body.cluster.config = config := hs.config
  simp only [DynamicCluster.deliver, DynamicCluster.check, hconfig] at hd
  cases hv : config.validateAssignment a with
  | ok u => rfl
  | error e => rw [hv] at hd; cases hd

omit [Quantity τ] in
theorem Sound.factorFor_ne_zero (hs : Sound config s) (hconfig : config.validate = .ok ())
    {a : Assignment} (ha : config.validateAssignment a = .ok ()) :
    s.body.cluster.config.factorFor a ≠ 0 := by
  rw [show s.body.cluster.config = config from hs.config]
  exact ClusterConfig.factorFor_ne_zero hconfig ha

theorem exists_deliver (hconfig : config.validate = .ok ()) (hs : Sound config s) {a : Assignment}
    (ha : config.validateAssignment a = .ok ()) :
    ∃ new body, s.deliver a = .done { s with body } ∧ s.body.Delivered a new body ∧
      Sound config { s with body } := by
  have hf := hs.factorFor_ne_zero hconfig ha
  have hbody : s.body.cluster.Sound := hs.cluster
  obtain ⟨new, body, hdone, hnew⟩ := DynamicCluster.exists_deliver hbody
    (by rw [show s.body.cluster.config = config from hs.config]; exact hconfig)
    (by rw [show s.body.cluster.config = config from hs.config]; exact ha)
  refine ⟨new, body, ?_, hnew, hs.source, hnew.config.trans hs.config, hnew.sound hs.cluster hf⟩
  simp only [deliver, hs.source, hdone, Attempt.map]

theorem delivered_of_body (hconfig : config.validate = .ok ()) (hs : Sound config s) {a : Assignment}
    {body : DynamicCluster τ} (h : s.body.deliver a = .done body) :
    ∃ new, s.body.Delivered a new body ∧ s.body.cluster.config.factorFor a ≠ 0 ∧
      Sound config { s with body } := by
  have hdeliver : s.deliver a = .done { s with body } := by
    simp only [deliver, hs.source, h, Attempt.map]
  obtain ⟨ha, _⟩ := deliver_eq_done hs hdeliver
  obtain ⟨new, later, hdone, hnew, hsound⟩ := exists_deliver hconfig hs ha
  cases hdone.symm.trans hdeliver
  exact ⟨new, hnew, hs.factorFor_ne_zero hconfig ha, hsound⟩

/-- What callers do not do directly is a delivery or steady. -/
theorem delivers_or_steady (hconfig : config.validate = .ok ()) (hs : Sound config s) {act : Action}
    (hdirect : ¬ act.IsDirect) (h : perform act s = .done t) :
    (∃ a new body, act = .deliver a ∧ t = { s with body } ∧ s.body.Delivered a new body ∧
      s.body.cluster.config.factorFor a ≠ 0 ∧ Sound config t) ∨
      (¬ act.IsDelivery ∧ t.source = s.source ∧ s.cluster.Steady t.cluster) := by
  cases advance_perform hs.cluster.regular h with
  | direct hact => exact absurd hact hdirect
  | delivery heq _ hdone =>
    obtain ⟨new, hnew⟩ := delivered_of_body hconfig hs hdone
    exact .inl ⟨_, new, _, heq, rfl, hnew⟩
  | installed hsource _ =>
    rw [hs.source] at hsource
    cases hsource
  | steady hdelivery hsource hsteady => exact .inr ⟨hdelivery hs.source, hsource, hsteady⟩

/-- What callers do directly, past what they install, changes hosts but for their descriptions. -/
theorem keeps_direct {act : Action} (hdirect : act.IsDirect) (hinstall : ¬ act.IsInstall)
    (h : perform act s = .done t) :
    t.source = s.source ∧ t.cluster.config = s.cluster.config ∧
      t.cluster.priorities = s.cluster.priorities ∧
      HostStore.Keeps s.cluster.hosts t.cluster.hosts := by
  cases effect_perform h with
  | void hvoid => exact absurd hdirect hvoid.not_isDirect
  | edit hedit => exact ⟨rfl, rfl, rfl, HostStore.keeps_modify _ _ (Action.alike_edit hedit)⟩
  | introduce host => exact ⟨rfl, rfl, rfl, HostStore.keeps_add _ host⟩
  | reconcile delivered current all allNew =>
    exact ⟨rfl, rfl, rfl, Reconcile.keeps_reconcile _ delivered current allNew⟩
  | install hact _ => exact absurd (Action.isInstall_of_install? hact) hinstall
  | watching hact => exact absurd hdirect (Action.not_isDirect_of_watching hact)
  | _ => exact absurd hdirect not_false

theorem sound_direct (hs : Sound config s) {act : Action} (hdirect : act.IsDirect)
    (hknows : s.Knows act) (h : perform act s = .done t) : Sound config t := by
  by_cases hinstall : act.IsInstall
  · cases act with
    | update u =>
      obtain ⟨ps, hps, rfl⟩ := attemptLevels_eq_done (f := (·.update s.cluster.hosts u)) h
      exact ⟨hs.source, hs.config, Cluster.sound_update hs.cluster hknows hps⟩
    | batch us =>
      obtain ⟨ps, hps, rfl⟩ := attemptLevels_eq_done (f := Batch.updateAll s.cluster.hosts us) h
      exact ⟨hs.source, hs.config, Cluster.sound_batch hs.cluster hknows hps⟩
    | updateLevel u =>
      obtain ⟨ps, hps, rfl⟩ := attemptLevels_eq_done (f := (·.updateLevel u)) h
      exact ⟨hs.source, hs.config, Cluster.sound_updateLevel hs.cluster hknows hps⟩
    | _ => exact absurd hinstall id
  · obtain ⟨hsource, hconfig, hlevels, hkeeps⟩ := keeps_direct hdirect hinstall h
    refine ⟨hsource.trans hs.source, hconfig.trans hs.config, hs.cluster.of_keeps hkeeps ?_⟩
    rw [hlevels]
    exact .refl _

theorem sound_perform (hconfig : config.validate = .ok ()) (hs : Sound config s) {act : Action}
    (hknows : s.Knows act) (h : perform act s = .done t) : Sound config t := by
  by_cases hdirect : act.IsDirect
  · exact sound_direct hs hdirect hknows h
  rcases delivers_or_steady hconfig hs hdirect h with
    ⟨_, _, _, _, _, _, _, hsound⟩ | ⟨_, hsource, hsteady⟩
  · exact hsound
  · exact ⟨hsource.trans hs.source, hsteady.config.trans hs.config, hsteady.sound hs.cluster⟩

theorem sound_of_reaches (hconfig : config.validate = .ok ())
    (h : Reaches Knows (fresh τ config) s) : Sound config s :=
  h.keeps (fun _ _ _ hknows hstep hs => sound_perform hconfig hs hknows hstep) (sound_fresh config)

def lone (weight : UInt32) : Assignment :=
  { groups :=
      [{ endpoints := [{ address := ⟨.ipv4 ⟨10, 0, 0, 1⟩, 80⟩, weight? := some weight }] }] }

def endpointOf (n : UInt8) : Endpoint := { address := ⟨.ipv4 ⟨10, 0, 0, n⟩, 80⟩ }

/-- Four endpoints at two priorities. -/
def paired : Assignment :=
  { groups :=
      [{ endpoints := [endpointOf 1, endpointOf 2] },
       { priority := 1, endpoints := [endpointOf 3, endpointOf 4] }] }

/-- Of the four the middle ones change places, one with more weight than there is and one degraded, the
others are withdrawn, and there is a fifth. -/
def crossed : Assignment :=
  { groups :=
      [{ endpoints := [{ endpointOf 3 with weight? := some 200 }, endpointOf 5] },
       { priority := 1, endpoints := [{ endpointOf 2 with healthStatus := .degraded }] }] }

/-- Checked and watched, four hosts are delivered, and all but the last pass. -/
def settling : List Action :=
  [.setChecker, .watchPriorities [], .watchMembers [], .deliver paired, .pass 0, .pass 1, .pass 2, .reload]

def settled : Service Rat := (run settling (fresh Rat {})).state

/-- The same cluster, once the middle ones have changed places. -/
def resettled : Service Rat := (settled.deliver crossed).state

theorem reaches_settled : Reaches Knows (fresh Rat {}) settled :=
  .of_run (by simp [settling, Knows]) (rfl : run settling (fresh Rat {}) = .done settled)

end Service

end Roster
