import Roster.Cluster.Run

/-!
# Roster.Proofs.Effects

What an action does to a cluster. Actions that differ in what they are given only are one case, so that
what holds of all of them is proved kind by kind.

* `Action.IsDirect`, `IsInstall`, `IsDelivery`, `IsStart`, `isCheck` — kinds of actions.
* `Action.edit?`, `install?`, `watching?` — what the actions do that change one host, install as a caller
  says, or change the watches.
* `Action.Void`   — the action finds nothing to do.
* `Effect`        — all that an action does when it is not refused; `effect_perform`.
-/

namespace Roster

/-! ## Kinds of actions -/

namespace Action

/-- Changes, makes or installs hosts as a caller says, past the discovery source. -/
def IsDirect : Action → Prop
  | .setWeight _ _ | .setPriority _ _ | .setMetadata _ _ | .setCanary _ _ => True
  | .introduce _ | .reconcile _ _ _ _ => True
  | .update _ | .batch _ | .updateLevel _ => True
  | _ => False

def IsInstall : Action → Prop
  | .update _ | .batch _ | .updateLevel _ => True
  | _ => False

def IsDelivery : Action → Prop
  | .deliver _ => True
  | _ => False

def IsStart : Action → Prop
  | .start | .startPreInit => True
  | _ => False

/-- The host whose check completes. -/
def checkedHost? : Action → Option HostId
  | .check id _ | .pass id => some id
  | _ => none

def isCheck (act : Action) : Bool := act.checkedHost?.isSome

/-- The change of a single host, for the actions that do nothing else. -/
def edit? : Action → Option (HostId × (Host → Host))
  | .setFlags id set clear => some (id, fun h => (h.setFlags set).clearFlags clear)
  | .setUsed id used => some (id, (·.setUsed used))
  | .setFailure id kind => some (id, (·.setFailure kind))
  | .setWeight id weight => some (id, (·.setWeight weight))
  | .setPriority id priority => some (id, (·.setPriority priority))
  | .setMetadata id metadata => some (id, (·.setMetadata metadata))
  | .setCanary id canary => some (id, (·.setCanary canary))
  | _ => none

variable {τ : Type} [Quantity τ]

/-- How the levels are installed that a caller installs. -/
def install? (store : HostStore) :
    Action → Option (PrioritySet τ → Attempt Fault (PrioritySet τ))
  | .update u => some (·.update store u)
  | .batch us => some (Batch.updateAll store us)
  | .updateLevel u => some (·.updateLevel u)
  | _ => none

omit [Quantity τ] in
/-- The change of the watches, for the actions that do nothing else. -/
def watching? : Action → Option (PrioritySet τ → PrioritySet τ)
  | .watchMembers drops => some (·.watchMembers drops)
  | .watchPriorities drops => some (·.watchPriorities drops)
  | .watchLevel p drops => some (·.watchLevel p drops)
  | .unwatch number => some (·.dropWatch number)
  | _ => none

omit [Quantity τ] in
/-- The action finds nothing to do. -/
def Void (s : Service τ) : Action → Prop
  | .startPreInit => s.source = .discovered
  | .deliver _ | .emptyUpdate => s.source = .configured
  | .outlier _ => s.cluster.detectors = 0
  | .getOrCreate p _ => p < s.cluster.priorities.levels.length
  | .choose p _ => s.cluster.priorities.level? p = none
  | _ => False

variable {s : Service τ} {act : Action}

omit [Quantity τ] in
theorem Void.isCheck (h : act.Void s) : act.isCheck = false := by
  cases act <;> first | rfl | exact h.elim

theorem isCheck_of_edit? {id : HostId} {f : Host → Host} (h : act.edit? = some (id, f)) :
    act.isCheck = false := by
  cases act <;> first | rfl | cases h

theorem isCheck_of_install? {store : HostStore} {f : PrioritySet τ → Attempt Fault (PrioritySet τ)}
    (h : act.install? store = some f) : act.isCheck = false := by
  cases act <;> first | rfl | cases h

omit [Quantity τ] in
theorem isCheck_of_watching? {f : PrioritySet τ → PrioritySet τ} (h : act.watching? = some f) :
    act.isCheck = false := by
  cases act <;> first | rfl | cases h

end Action

/-! ## Effects -/

namespace Service

variable {τ : Type} {s t : Service τ}

theorem attempt_eq_done {f : Cluster τ → Attempt Fault (Cluster τ)} (h : s.attempt f = .done t) :
    ∃ c, f s.cluster = .done c ∧ t = s.withCluster c := by
  obtain ⟨c, hc, rfl⟩ := Attempt.map_eq_done h
  exact ⟨c, Attempt.mapError_eq_done hc, rfl⟩

theorem attemptLevels_eq_done {f : PrioritySet τ → Attempt Fault (PrioritySet τ)}
    (h : s.attemptLevels f = .done t) :
    ∃ ps, f s.cluster.priorities = .done ps ∧ t = s.withPriorities ps := by
  obtain ⟨ps, hps, rfl⟩ := Attempt.map_eq_done h
  exact ⟨ps, Attempt.mapError_eq_done hps, rfl⟩

variable [Quantity τ]

/-- What an action does that is not refused. -/
inductive Effect : Action → Service τ → Service τ → Prop where
  | void {act : Action} {s : Service τ} : act.Void s → Effect act s s
  /-- A callback is left that waits for the first delivery. -/
  | ask {s : Service τ} : s.source = .discovered → s.cluster.started = false →
      Effect .start s (s.withCluster { s.cluster with waiting := true })
  /-- A callback is left, and the hosts of the configuration are installed. -/
  | launch {s : Service τ} {c : Cluster τ} : s.source = .configured → s.cluster.started = false →
      ({ s.cluster with waiting := true } : Cluster τ).installConfigured = .done c →
      Effect .start s (s.withCluster c)
  | startPreInit {s : Service τ} {c : Cluster τ} : s.source = .configured →
      s.cluster.installConfigured = .done c → Effect .startPreInit s (s.withCluster c)
  | preInitDone {s : Service τ} : Effect .preInitDone s (s.withCluster s.cluster.preInitDone)
  | emptyUpdate {s : Service τ} : s.source = .discovered →
      Effect .emptyUpdate s (s.withCluster
        ({ s.cluster with emptyUpdates := s.cluster.emptyUpdates + 1 } : Cluster τ).preInitDone)
  | setChecker {s : Service τ} : s.cluster.checker? = none →
      Effect .setChecker s (s.withCluster { s.cluster with checker? := some [.reload] })
  | setDetector {s : Service τ} : Effect .setDetector s (s.withCluster s.cluster.setDetector)
  | edit {act : Action} {s : Service τ} {id : HostId} {f : Host → Host} : act.edit? = some (id, f) →
      Effect act s (s.withCluster (s.cluster.modifyHost id f))
  | introduce {s : Service τ} (host : Host) :
      Effect (.introduce host) s (s.withCluster (s.cluster.introduce host))
  | reconcile {s : Service τ} (delivered current : List HostId) (all : AddressMap)
      (allNew : List String) : Effect (.reconcile delivered current all allNew) s
        (s.withCluster (s.cluster.reconcile delivered current all allNew).2)
  | check {s : Service τ} (id : HostId) (transition : Transition) :
      Effect (.check id transition) s (s.withCluster (s.cluster.completeCheck transition))
  | pass {s : Service τ} (id : HostId) :
      Effect (.pass id) s (s.withCluster (s.cluster.passCheck id))
  | outlier {s : Service τ} (id : HostId) : s.cluster.detectors ≠ 0 →
      Effect (.outlier id) s (s.withCluster s.cluster.reload)
  | reload {s : Service τ} : Effect .reload s (s.withCluster s.cluster.reload)
  | deliver {s : Service τ} {a : Assignment} {body : DynamicCluster τ} : s.source = .discovered →
      s.body.deliver a = .done body → Effect (.deliver a) s { s with body }
  | getOrCreate {s : Service τ} {p : Nat} {factor? : Option Nat} :
      s.cluster.priorities.levels.length ≤ p → factor? ≠ some 0 →
      Effect (.getOrCreate p factor?) s (s.withPriorities (s.cluster.priorities.ensureLevel p factor?))
  | install {act : Action} {s : Service τ} {f : PrioritySet τ → Attempt Fault (PrioritySet τ)}
      {ps : PrioritySet τ} : act.install? s.cluster.hosts = some f →
      f s.cluster.priorities = .done ps → Effect act s (s.withPriorities ps)
  | choose {s : Service τ} {p : Nat} {kind : Eligibility} {l : Level τ} {answers : List (Option Nat)}
      {g : Generation τ} : s.cluster.priorities.level? p = some l →
      Generation.chooseMany kind 1 l.generation = .ok (answers, g) →
      Effect (.choose p kind) s
        (s.withPriorities (({ priorities := s.cluster.priorities } : Readers τ).share g).priorities)
  | watching {act : Action} {s : Service τ} {f : PrioritySet τ → PrioritySet τ} :
      act.watching? = some f → Effect act s (s.withPriorities (f s.cluster.priorities))

theorem effect_start (h : s.start = .done t) : Effect .start s t := by
  have hawait : ∀ {c : Cluster τ}, s.cluster.awaitInit = .done c →
      s.cluster.started = false ∧ c = { s.cluster with waiting := true } := fun hc => by
    simp only [Cluster.awaitInit] at hc
    split at hc
    · cases hc
    · rename_i hidle
      cases hc
      exact ⟨by simpa using (not_or.1 hidle).1, rfl⟩
  cases hsource : s.source with
  | configured =>
    simp only [start, hsource] at h
    obtain ⟨c, hc, rfl⟩ := attempt_eq_done h
    obtain ⟨d, hd, hinstall⟩ := Attempt.andThen_eq_done hc
    obtain ⟨hstarted, rfl⟩ := hawait hd
    exact .launch hsource hstarted hinstall
  | discovered =>
    simp only [start, hsource] at h
    obtain ⟨c, hc, rfl⟩ := attempt_eq_done h
    obtain ⟨hstarted, rfl⟩ := hawait hc
    exact .ask hsource hstarted

theorem effect_choose {p : Nat} {kind : Eligibility} (h : s.choose p kind = .done t) :
    Effect (.choose p kind) s t := by
  simp only [choose, Readers.chooseAt?] at h
  cases hl : s.cluster.priorities.level? p with
  | none =>
    simp only [hl, Option.map_none] at h
    cases h
    exact .void hl
  | some l =>
    simp only [hl, Option.map_some, Readers.chooseFrom] at h
    cases hchoose : Generation.chooseMany kind 1 l.generation with
    | error e => simp only [hchoose] at h; cases h
    | ok r =>
      simp only [hchoose] at h
      cases h
      exact .choose hl hchoose

theorem effect_getOrCreate {p : Nat} {factor? : Option Nat}
    (h : s.attemptLevels (·.getOrCreate p factor?) = .done t) :
    Effect (.getOrCreate p factor?) s t := by
  obtain ⟨ps, hps, rfl⟩ := attemptLevels_eq_done h
  simp only [PrioritySet.getOrCreate] at hps
  split at hps
  · case isTrue hlt =>
    cases hps
    exact .void hlt
  · case isFalse hlt =>
    split at hps
    · cases hps
    · case isFalse hfactor =>
      cases hps
      exact .getOrCreate (Nat.le_of_not_lt hlt) hfactor

/-- Nothing else happens. -/
theorem effect_perform {act : Action} (h : perform act s = .done t) : Effect act s t := by
  cases act with
  | start => exact effect_start h
  | startPreInit =>
    cases hsource : s.source with
    | configured =>
      simp only [perform, startPreInit, hsource] at h
      obtain ⟨c, hc, rfl⟩ := attempt_eq_done h
      exact .startPreInit hsource hc
    | discovered =>
      simp only [perform, startPreInit, hsource] at h
      cases h
      exact .void hsource
  | setChecker =>
    obtain ⟨c, hc, rfl⟩ := attempt_eq_done h
    simp only [Cluster.setChecker] at hc
    split at hc
    · cases hc
    · case h_2 hnone =>
      cases hc
      exact .setChecker hnone
  | outlier id =>
    cases h
    by_cases hnone : s.cluster.detectors = 0
    · rw [Cluster.outlierChanged, if_pos hnone]
      exact .void hnone
    · rw [Cluster.outlierChanged, if_neg hnone]
      exact .outlier id hnone
  | deliver a =>
    simp only [perform, deliver] at h
    split at h
    · case h_1 hsource =>
      cases h
      exact .void hsource
    · case h_2 hsource =>
      obtain ⟨body, hbody, rfl⟩ := Attempt.map_eq_done h
      exact .deliver hsource hbody
  | emptyUpdate =>
    simp only [perform, emptyUpdate] at h
    split at h
    · case h_1 hsource =>
      cases h
      exact .void hsource
    · case h_2 hsource =>
      cases h
      exact .emptyUpdate hsource
  | getOrCreate p factor? => exact effect_getOrCreate h
  | update u =>
    obtain ⟨ps, hps, rfl⟩ := attemptLevels_eq_done (f := (·.update s.cluster.hosts u)) h
    exact .install rfl hps
  | batch us =>
    obtain ⟨ps, hps, rfl⟩ := attemptLevels_eq_done (f := Batch.updateAll s.cluster.hosts us) h
    exact .install rfl hps
  | updateLevel u =>
    obtain ⟨ps, hps, rfl⟩ := attemptLevels_eq_done (f := (·.updateLevel u)) h
    exact .install rfl hps
  | choose p kind => exact effect_choose h
  | preInitDone => cases h; exact .preInitDone
  | setDetector => cases h; exact .setDetector
  | introduce host => cases h; exact .introduce host
  | reconcile delivered current all allNew => cases h; exact .reconcile delivered current all allNew
  | check id transition => cases h; exact .check id transition
  | pass id => cases h; exact .pass id
  | reload => cases h; exact .reload
  | setFlags | setUsed | setFailure | setWeight | setPriority | setMetadata | setCanary =>
    cases h
    exact .edit rfl
  | watchMembers drops => cases h; exact .watching (f := (·.watchMembers drops)) rfl
  | watchPriorities drops => cases h; exact .watching (f := (·.watchPriorities drops)) rfl
  | watchLevel p drops => cases h; exact .watching (f := (·.watchLevel p drops)) rfl
  | unwatch number => cases h; exact .watching (f := (·.dropWatch number)) rfl

end Service

end Roster
