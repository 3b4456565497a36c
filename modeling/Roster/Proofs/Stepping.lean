import Roster.Proofs.Localities

/-!
# Roster.Proofs.Stepping

Whatever happens to a cluster, its levels change in few ways only: a generation is installed and told
of, or one of the changes happens that install nothing. Which installations are made is computed from
the state that an action finds.

* `Moment` — one installation; those of a fold and of steps that may be refused.
* `Pass`   — a change that installs nothing.
* `Course` — installations in the order they were made, with passes between them.
* `moments` — the installations of what installs: a reload, a completed check, a delivery and so on, up to
  an action and a list of them. Beside each, that they are its course.
* `course_perform`, `course_conduct` — so of every action, and of every run.
-/

namespace Roster

/-- One installation: the levels it is made in, and what is installed. -/
structure Moment (τ : Type) where
  before : PrioritySet τ
  update : Update

namespace Moment

variable {τ ε σ α : Type}

/-- The levels once those who are told of the installation were told. -/
def after [Quantity τ] (m : Moment τ) : PrioritySet τ :=
  m.before.putLevel m.update

/-- The installations of the steps of a fold, given those of a step. -/
def ofFold (step : σ → α → σ) (moments : σ → α → List (Moment τ)) : List α → σ → List (Moment τ)
  | [], _ => []
  | a :: as, s => moments s a ++ ofFold step moments as (step s a)

/-- The installations of the steps up to the first that is refused. -/
def ofEach (step : α → σ → Attempt ε σ) (moments : σ → α → List (Moment τ)) :
    List α → σ → List (Moment τ)
  | [], _ => []
  | a :: as, s =>
    match step a s with
    | .failed _ _ => []
    | .done t => moments s a ++ ofEach step moments as t

end Moment

/-! ## Levels -/

namespace PrioritySet

variable {τ : Type} [Quantity τ] {ps qs rs : PrioritySet τ}

/-- What may happen to levels besides installing. -/
inductive Pass : PrioritySet τ → PrioritySet τ → Prop where
  | reindex {ps : PrioritySet τ} (store : HostStore) (u : Update) : Pass ps (ps.reindex store u)
  | readMap {ps : PrioritySet τ} : Pass ps ps.readMap
  | ensureLevel {ps : PrioritySet τ} (p : Nat) {factor? : Option Nat} :
      factor? ≠ some 0 → Pass ps (ps.ensureLevel p factor?)
  /-- An installation at a level that does not exist. -/
  | stray {ps : PrioritySet τ} {u : Update} : ps.levels.length ≤ u.priority → Pass ps (ps.putLevel u)
  | notifyMembers {ps : PrioritySet τ} (added removed : List HostId) :
      Pass ps (ps.notifyMembers added removed)
  | announce {ps : PrioritySet τ} : Pass ps (ps.writeEvent .initialized)
  | choose {ps : PrioritySet τ} {p : Nat} {l : Level τ} {kind : Eligibility} {n : Nat}
      {answers : List (Option Nat)} {g : Generation τ} : ps.level? p = some l →
      Generation.chooseMany kind n l.generation = .ok (answers, g) →
      Pass ps (({ priorities := ps } : Readers τ).share g).priorities
  | watchMembers {ps : PrioritySet τ} (drops : List Nat) : Pass ps (ps.watchMembers drops)
  | watchPriorities {ps : PrioritySet τ} (drops : List Nat) : Pass ps (ps.watchPriorities drops)
  | watchLevel {ps : PrioritySet τ} (p : Nat) (drops : List Nat) : Pass ps (ps.watchLevel p drops)
  | dropWatch {ps : PrioritySet τ} (number : Nat) : Pass ps (ps.dropWatch number)

/-- The installations that lead from levels to levels, with passes between them. -/
inductive Course (ps : PrioritySet τ) : List (Moment τ) → PrioritySet τ → Prop where
  | refl : Course ps [] ps
  | pass {ms : List (Moment τ)} {qs rs : PrioritySet τ} :
      Course ps ms qs → Pass qs rs → Course ps ms rs
  | install {ms : List (Moment τ)} {qs : PrioritySet τ} {u : Update} : Course ps ms qs →
      u.priority < qs.levels.length → u.factor? ≠ some 0 →
      Course ps (ms ++ [⟨qs, u⟩]) (qs.putLevel u)

namespace Course

variable {ε σ α : Type} {moments : σ → α → List (Moment τ)}

theorem of_pass (h : Pass ps qs) : Course ps [] qs := .pass .refl h

theorem trans {ms ns : List (Moment τ)} (h₁ : Course ps ms qs) (h₂ : Course qs ns rs) :
    Course ps (ms ++ ns) rs := by
  induction h₂ with
  | refl => rwa [List.append_nil]
  | pass _ hpass ih => exact ih.pass hpass
  | install _ hu hfactor ih =>
    rw [← List.append_assoc]
    exact ih.install hu hfactor

theorem ofFold {step : σ → α → σ} (levels : σ → PrioritySet τ)
    (hstep : ∀ s a, Course (levels s) (moments s a) (levels (step s a))) (as : List α) (s : σ) :
    Course (levels s) (Moment.ofFold step moments as s) (levels (as.foldl step s)) := by
  induction as generalizing s with
  | nil => exact .refl
  | cons a as ih => exact (hstep s a).trans (ih _)

theorem ofEach {step : α → σ → Attempt ε σ} (levels : σ → PrioritySet τ)
    (hstep : ∀ s a t, step a s = .done t → Course (levels s) (moments s a) (levels t)) {as : List α}
    {s t : σ} (h : Attempt.each step as s = .done t) :
    Course (levels s) (Moment.ofEach step moments as s) (levels t) := by
  induction as generalizing s with
  | nil =>
    cases h
    exact .refl
  | cons a as ih =>
    obtain ⟨u, hu, h⟩ := Attempt.andThen_eq_done h
    simp only [Moment.ofEach, hu]
    exact (hstep s a u hu).trans (ih h)

end Course

theorem putLevel_stray {u : Update} (hu : ps.levels.length ≤ u.priority) :
    ps.putLevel u = { ps with nextStamp := ps.nextStamp + 1 } := by
  have hinstall : ps.install u = { ps with nextStamp := ps.nextStamp + 1 } := by
    simp only [install, List.modify_eq_self hu]
  have hnone : ps.level? u.priority = none := List.getElem?_eq_none hu
  simp only [putLevel, hinstall, notifyLevel]
  rw [show ({ ps with nextStamp := ps.nextStamp + 1 } : PrioritySet τ).level? u.priority = none
    from hnone]

/-- The installation of an update, at a level that is there by then. -/
def moment (ps : PrioritySet τ) (store : HostStore) (u : Update) : Moment τ :=
  ⟨(ps.reindex store u).ensureLevel u.priority u.factor?, u⟩

/-- That of an update past the index, if there is the level. -/
def levelMoments (ps : PrioritySet τ) (u : Update) : List (Moment τ) :=
  if u.priority < ps.levels.length then [⟨ps, u⟩] else []

theorem course_put (ps : PrioritySet τ) (store : HostStore) {u : Update} (hfactor : u.factor? ≠ some 0) :
    Course ps [ps.moment store u] (ps.put store u) := by
  have hmade : Course ps [] ((ps.reindex store u).ensureLevel u.priority u.factor?) :=
    (Course.of_pass (.reindex store u)).pass (.ensureLevel u.priority hfactor)
  refine hmade.install ?_ hfactor
  rw [length_ensureLevel]
  exact Nat.lt_of_lt_of_le (Nat.lt_succ_self _) (Nat.le_max_right _ _)

theorem course_putChecked {store : HostStore} {u : Update} (h : ps.putChecked store u = .done qs) :
    Course ps [ps.moment store u] qs := by
  simp only [putChecked] at h
  split at h
  · cases h
  · case isFalse hfactor =>
    cases h
    exact course_put ps store hfactor

theorem course_update {store : HostStore} {u : Update} (h : ps.update store u = .done qs) :
    Course ps [ps.moment store u] qs := by
  obtain ⟨rs, hput, hdone⟩ := Attempt.andThen_eq_done h
  cases hdone
  exact (course_putChecked hput).pass (.notifyMembers u.added u.removed)

theorem course_updateLevel {u : Update} (h : ps.updateLevel u = .done qs) :
    Course ps (ps.levelMoments u) qs := by
  simp only [updateLevel] at h
  split at h
  · cases h
  · case isFalse hfactor =>
    cases h
    unfold levelMoments
    split
    · case isTrue hu => exact .install .refl hu hfactor
    · case isFalse hu => exact .of_pass (.stray (Nat.le_of_not_lt hu))

end PrioritySet

namespace Batch

variable {τ : Type} [Quantity τ] {b b' : Batch τ}

theorem course_update {store : HostStore} {u : Update} (h : b.update store u = .done b') :
    b.priorities.Course [b.priorities.moment store u] b'.priorities := by
  simp only [update] at h
  split at h
  · cases h
  · obtain ⟨ps, hps, rfl⟩ := Attempt.map_eq_done h
    exact PrioritySet.course_putChecked hps

/-- The installations of a batch, one for each update. -/
def moments (store : HostStore) (us : List Update) (ps : PrioritySet τ) : List (Moment τ) :=
  Moment.ofEach (fun u b => b.update store u) (fun b u => [b.priorities.moment store u]) us
    (Batch.start ps)

theorem course_updateAll {store : HostStore} {us : List Update} {ps qs : PrioritySet τ}
    (h : updateAll store us ps = .done qs) : ps.Course (moments store us ps) qs := by
  obtain ⟨b, heach, rfl⟩ := Attempt.map_eq_done h
  exact (PrioritySet.Course.ofEach Batch.priorities
    (fun _ _ _ hu => course_update hu) heach).pass (.notifyMembers _ _)

end Batch

/-! ## Clusters -/

namespace Cluster

variable {τ : Type} [Quantity τ] {c d : Cluster τ}

/-- The installation of a level that is split anew. -/
def levelMoments (store : HostStore) (ps : PrioritySet τ) (p : Nat) : List (Moment τ) :=
  match ps.level? p with
  | none => []
  | some l =>
    let g := l.generation
    [ps.moment store
      { priority := p
        partition := .of store g.partition.hosts g.partition.groups
        weights? := g.weights? }]

theorem course_reloadLevel (store : HostStore) (ps : PrioritySet τ) (p : Nat) :
    ps.Course (levelMoments store ps p) (reloadLevel store ps p) := by
  unfold levelMoments reloadLevel
  cases ps.level? p with
  | none => exact .refl
  | some l => exact (PrioritySet.course_put ps store (by simp)).pass (.notifyMembers [] [])

/-- The installations of a reload, one for each level, and none while initialization is waited for. -/
def reloadMoments (c : Cluster τ) : List (Moment τ) :=
  if c.waiting then []
  else
    Moment.ofFold (reloadLevel c.hosts) (levelMoments c.hosts)
      (List.range c.priorities.levels.length) c.priorities

theorem course_reload (c : Cluster τ) : c.priorities.Course c.reloadMoments c.reload.priorities := by
  unfold reloadMoments reload
  split
  · exact .refl
  · exact .ofFold id (course_reloadLevel c.hosts) _ _

/-- Those of the end of initialization. -/
def finishMoments (c : Cluster τ) : List (Moment τ) :=
  if c.hasChecker then { c with waiting := false }.reloadMoments else []

theorem course_finishInit (c : Cluster τ) :
    c.priorities.Course c.finishMoments c.finishInit.priorities := by
  let d : Cluster τ := { c with waiting := false }
  have hreload :
      c.priorities.Course c.finishMoments (if c.hasChecker then d.reload else d).priorities := by
    unfold finishMoments
    split
    · exact course_reload d
    · exact .refl
  unfold finishInit
  split
  · exact hreload.pass .announce
  · exact hreload

/-- Those of the end of the work before initialization. -/
def preInitMoments (c : Cluster τ) : List (Moment τ) :=
  if c.started then []
  else
    let c := { c with started := true }.beginChecks
    if c.awaited = 0 then c.finishMoments else []

theorem course_preInitDone (c : Cluster τ) :
    c.priorities.Course c.preInitMoments c.preInitDone.priorities := by
  have hbegun := priorities_beginChecks { c with started := true }
  simp only [preInitMoments, preInitDone]
  split
  · exact .refl
  · split
    · have hfinish := course_finishInit ({ c with started := true } : Cluster τ).beginChecks
      rwa [hbegun] at hfinish
    · rw [hbegun]
      exact .refl

def observerMoments (transition : Transition) (c : Cluster τ) : CheckObserver → List (Moment τ)
  | .reload => if transition = .changed then c.reloadMoments else []
  | .countdown => if c.awaited = 1 then { c with awaited := 0 }.finishMoments else []

theorem course_onCheck (transition : Transition) (c : Cluster τ) (o : CheckObserver) :
    c.priorities.Course (observerMoments transition c o) (onCheck transition c o).priorities := by
  cases o with
  | reload =>
    simp only [observerMoments, onCheck]
    split
    · exact course_reload c
    · exact .refl
  | countdown =>
    simp only [observerMoments, onCheck, countCheck]
    cases c.awaited with
    | zero => exact .refl
    | succ n =>
      simp only [Nat.succ_inj]
      split
      · case isTrue hzero =>
        subst hzero
        exact course_finishInit { c with awaited := 0 }
      · exact .refl

def checkMoments (c : Cluster τ) (transition : Transition) : List (Moment τ) :=
  Moment.ofFold (onCheck transition) (observerMoments transition) (c.checker?.getD []) c

theorem course_completeCheck (c : Cluster τ) (transition : Transition) :
    c.priorities.Course (c.checkMoments transition) (c.completeCheck transition).priorities :=
  .ofFold priorities (course_onCheck transition) _ c

def passMoments (c : Cluster τ) (id : HostId) : List (Moment τ) :=
  let transition : Transition :=
    if (c.hosts.get id).hasFlag .failedActiveCheck then .changed else .unchanged
  (c.modifyHost id fun h =>
    (h.clearFlag .failedActiveCheck).clearFlag .pendingActiveCheck).checkMoments transition

theorem course_passCheck (c : Cluster τ) (id : HostId) :
    c.priorities.Course (c.passMoments id) (c.passCheck id).priorities :=
  course_completeCheck (c.modifyHost id fun h =>
    (h.clearFlag .failedActiveCheck).clearFlag .pendingActiveCheck) _

/-- The installation of what is configured for a priority. -/
def draftMoment (draft : Draft) (c : Cluster τ) (p : Nat) : Moment τ :=
  c.priorities.moment (c.flagConfigured draft p).hosts
    (Draft.composed c.config (draft.weightsAt p) (c.flagConfigured draft p).hosts
      (configuredPlan draft p c))

theorem course_installDraft {draft : Draft} {p : Nat} (h : installDraft draft p c = .done d) :
    c.priorities.Course [c.draftMoment draft p] d.priorities := by
  rw [installDraft_eq] at h
  obtain ⟨ps, hps, rfl⟩ := Attempt.map_eq_done h
  exact PrioritySet.course_update hps

/-- The installations of what is configured, one for each priority, and those of the end of the work
before initialization. -/
def configuredMoments (c : Cluster τ) : List (Moment τ) :=
  let (hosts, draft) := Draft.registerGroups (configuredGroups c.config) (c.hosts, {})
  let priorities := List.range draft.levels.length
  Moment.ofEach (installDraft draft) (fun c p => [draftMoment draft c p]) priorities { c with hosts } ++
    (Attempt.each (installDraft draft) priorities { c with hosts }).state.preInitMoments

theorem course_installConfigured (h : c.installConfigured = .done d) :
    c.priorities.Course c.configuredMoments d.priorities := by
  obtain ⟨e, heach, hdone⟩ := Attempt.andThen_eq_done h
  cases hdone
  simp only [configuredMoments, heach, Attempt.state]
  exact (PrioritySet.Course.ofEach priorities
    (fun _ _ _ hp => course_installDraft hp) heach).trans (course_preInitDone e)

end Cluster

/-! ## Deliveries -/

namespace Rollout

variable {τ : Type} [Quantity τ] {d : Delivery} {p : Nat} {r r' : Rollout τ}

/-- The installation of a level whose turn it is, unless it is left as it is. -/
def levelMoments (d : Delivery) (r : Rollout τ) (p : Nat) : List (Moment τ) :=
  if r.isAlone d p then [] else [(r.made d p).moment (r.result d p).store (r.update d p)]

theorem course_ensureLevel (h : r.ensureLevel p d.factor = .done r') :
    r' = r.withLevel d p ∧ r.batch.priorities.Course [] (r.made d p) := by
  obtain ⟨ps, hps, rfl⟩ := Attempt.map_eq_done h
  simp only [PrioritySet.getOrCreate] at hps
  split at hps
  · case isTrue hp =>
    cases hps
    simp only [withLevel, made, PrioritySet.ensureLevel_of_lt hp, true_and]
    exact .refl
  · split at hps
    · cases hps
    · case isFalse hfactor =>
      cases hps
      exact ⟨rfl, .of_pass (.ensureLevel p hfactor)⟩

theorem course_rolloutLevel (h : DynamicCluster.rolloutLevel d p r = .done r') :
    r.batch.priorities.Course (r.levelMoments d p) r'.batch.priorities := by
  obtain ⟨made, hlevel, h⟩ := Attempt.andThen_eq_done h
  obtain ⟨rfl, hmade⟩ := course_ensureLevel hlevel
  rw [reconcileLevel_withLevel] at h
  unfold levelMoments
  split at h
  · case isTrue halone =>
    cases h
    rw [if_pos halone]
    exact hmade
  · case isFalse halone =>
    obtain ⟨b, hb, rfl⟩ := Attempt.map_eq_done h
    rw [if_neg halone]
    exact hmade.trans (Batch.course_update hb)

end Rollout

namespace DynamicCluster

variable {τ : Type} [Quantity τ] {dc t : DynamicCluster τ} {a : Assignment}

/-- The installations of a delivery, one for each level that is not left as it is, and those of the end
of the work before initialization; an assignment that is refused installs nothing. -/
def moments (dc : DynamicCluster τ) (a : Assignment) : List (Moment τ) :=
  match check dc.cluster.config a with
  | .error _ => []
  | .ok () =>
    let (d, hosts) := dc.plan a
    Moment.ofEach (rolloutLevel d) (Rollout.levelMoments d) (List.range (dc.span d))
        (dc.startRollout hosts) ++
      (dc.concluding (dc.reached a (dc.span d))).preInitMoments

theorem course_deliver (h : dc.deliver a = .done t) :
    dc.cluster.priorities.Course (dc.moments a) t.cluster.priorities := by
  simp only [deliver] at h
  split at h
  · cases h
  · case h_2 hcheck =>
    simp only [rollout] at h
    split at h
    · cases h
    · case h_2 r heach =>
      cases h
      have hread : dc.cluster.priorities.Course [] (dc.startRollout (dc.plan a).2).batch.priorities :=
        .of_pass .readMap
      have hturns := PrioritySet.Course.ofEach (fun r : Rollout τ => r.batch.priorities)
        (fun _ _ _ hp => Rollout.course_rolloutLevel hp) heach
      have hmembers : r.batch.priorities.Course [] (dc.concluding r).priorities :=
        .of_pass (.notifyMembers _ _)
      have hreached : dc.reached a (dc.span (dc.plan a).1) = r := by rw [reached, heach, Attempt.state]
      simp only [moments, hcheck, hreached]
      have hinstalled := (hread.trans hturns).trans hmembers
      rw [List.append_nil, List.nil_append] at hinstalled
      exact hinstalled.trans (Cluster.course_preInitDone (dc.concluding r))

end DynamicCluster

/-! ## Runs -/

namespace Service

variable {τ : Type} [Quantity τ] {s t : Service τ} {act : Action}

/-- The installations of an action. -/
def moments (s : Service τ) : Action → List (Moment τ)
  | .start =>
    match s.source with
    | .configured => { s.cluster with waiting := true }.configuredMoments
    | .discovered => []
  | .startPreInit =>
    match s.source with
    | .configured => s.cluster.configuredMoments
    | .discovered => []
  | .preInitDone => s.cluster.preInitMoments
  | .check _ transition => s.cluster.checkMoments transition
  | .pass id => s.cluster.passMoments id
  | .outlier _ => if s.cluster.detectors = 0 then [] else s.cluster.reloadMoments
  | .reload => s.cluster.reloadMoments
  | .deliver a =>
    match s.source with
    | .configured => []
    | .discovered => s.body.moments a
  | .emptyUpdate =>
    match s.source with
    | .configured => []
    | .discovered => { s.cluster with emptyUpdates := s.cluster.emptyUpdates + 1 }.preInitMoments
  | .update u => [s.cluster.priorities.moment s.cluster.hosts u]
  | .batch us => Batch.moments s.cluster.hosts us s.cluster.priorities
  | .updateLevel u => s.cluster.priorities.levelMoments u
  | _ => []

theorem moments_of_void (h : act.Void s) : s.moments act = [] := by
  cases act with
  | startPreInit | deliver | emptyUpdate =>
    have hsource : s.source = _ := h
    simp only [moments, hsource]
  | outlier id => exact if_pos h
  | getOrCreate | choose => rfl
  | _ => exact h.elim

theorem moments_of_edit {id : HostId} {f : Host → Host} (h : act.edit? = some (id, f)) :
    s.moments act = [] := by
  cases act <;> first | rfl | cases h

theorem moments_of_watching {f : PrioritySet τ → PrioritySet τ} (h : act.watching? = some f) :
    s.moments act = [] := by
  cases act <;> first | rfl | cases h

theorem course_install {f : PrioritySet τ → Attempt Fault (PrioritySet τ)} {ps : PrioritySet τ}
    (h : act.install? s.cluster.hosts = some f) (hdone : f s.cluster.priorities = .done ps) :
    s.cluster.priorities.Course (s.moments act) ps := by
  cases act with
  | update u => cases h; exact PrioritySet.course_update hdone
  | batch us => cases h; exact Batch.course_updateAll hdone
  | updateLevel u => cases h; exact PrioritySet.course_updateLevel hdone
  | _ => cases h

theorem pass_watching {f : PrioritySet τ → PrioritySet τ} (h : act.watching? = some f)
    (ps : PrioritySet τ) : PrioritySet.Pass ps (f ps) := by
  cases act with
  | watchMembers drops => cases h; exact .watchMembers drops
  | watchPriorities drops => cases h; exact .watchPriorities drops
  | watchLevel p drops => cases h; exact .watchLevel p drops
  | unwatch number => cases h; exact .dropWatch number
  | _ => cases h

theorem course_perform (h : perform act s = .done t) :
    s.cluster.priorities.Course (s.moments act) t.cluster.priorities := by
  cases effect_perform h with
  | void hvoid => rw [moments_of_void hvoid]; exact .refl
  | ask hsource _ => simp only [moments, hsource]; exact .refl
  | launch hsource _ hinstall | startPreInit hsource hinstall =>
    simp only [moments, hsource]
    exact Cluster.course_installConfigured hinstall
  | preInitDone => exact Cluster.course_preInitDone _
  | emptyUpdate hsource =>
    simp only [moments, hsource]
    exact Cluster.course_preInitDone { s.cluster with emptyUpdates := s.cluster.emptyUpdates + 1 }
  | setChecker _ | setDetector | introduce _ | reconcile _ _ _ _ => exact .refl
  | edit hedit => rw [moments_of_edit hedit]; exact .refl
  | check id transition => exact Cluster.course_completeCheck _ transition
  | pass id => exact Cluster.course_passCheck _ id
  | outlier _ hsome =>
    rw [moments, if_neg hsome]
    exact Cluster.course_reload _
  | reload => exact Cluster.course_reload _
  | deliver hsource hbody =>
    simp only [moments, hsource]
    exact DynamicCluster.course_deliver hbody
  | getOrCreate _ hfactor => exact .of_pass (.ensureLevel _ hfactor)
  | install hact hdone => exact course_install hact hdone
  | choose hl hchoose => exact .of_pass (.choose hl hchoose)
  | watching hact =>
    rw [moments_of_watching hact]
    exact .of_pass (pass_watching hact _)

/-! ## Refused assignments -/

/-- An action; an assignment that is refused is no reason to stop. -/
def endure (act : Action) (s : Service τ) : Attempt Fault (Service τ) :=
  match perform act s with
  | .done t => .done t
  | .failed (.refused _) t => .done t
  | .failed (.fault e) t => .failed e t

/-- A list of actions, up to the first that breaks a rule of use. -/
def conduct (as : List Action) (s : Service τ) : Attempt Fault (Service τ) :=
  Attempt.each endure as s

def momentsOf (s : Service τ) (as : List Action) : List (Moment τ) :=
  Moment.ofEach endure moments as s

omit [Quantity τ] in
theorem attempt_ne_refused {f : Cluster τ → Attempt Fault (Cluster τ)} {e : ValidationError} :
    s.attempt f ≠ .failed (.refused e) t := by
  unfold attempt
  cases f s.cluster <;> simp [Attempt.mapError, Attempt.map]

omit [Quantity τ] in
theorem attemptLevels_ne_refused {f : PrioritySet τ → Attempt Fault (PrioritySet τ)}
    {e : ValidationError} : s.attemptLevels f ≠ .failed (.refused e) t := by
  unfold attemptLevels
  cases f s.cluster.priorities <;> simp [Attempt.mapError, Attempt.map]

/-- Only an assignment is refused, and that changes nothing. -/
theorem eq_of_refused {e : ValidationError} (h : perform act s = .failed (.refused e) t) :
    t = s ∧ s.moments act = [] := by
  cases act with
  | deliver a =>
    simp only [perform, deliver] at h
    split at h
    · cases h
    · case h_2 hsource =>
      simp only [DynamicCluster.deliver] at h
      split at h
      · case h_1 hcheck =>
        cases h
        exact ⟨rfl, by simp only [moments, hsource, DynamicCluster.moments, hcheck]⟩
      · simp only [DynamicCluster.rollout] at h
        split at h <;> cases h
  | start =>
    simp only [perform, start] at h
    split at h <;> exact absurd h attempt_ne_refused
  | startPreInit =>
    simp only [perform, startPreInit] at h
    split at h
    · exact absurd h attempt_ne_refused
    · cases h
  | setChecker => exact absurd h attempt_ne_refused
  | getOrCreate p factor? => exact absurd h (attemptLevels_ne_refused (f := (·.getOrCreate p factor?)))
  | update u => exact absurd h (attemptLevels_ne_refused (f := (·.update s.cluster.hosts u)))
  | batch us => exact absurd h (attemptLevels_ne_refused (f := Batch.updateAll s.cluster.hosts us))
  | updateLevel u => exact absurd h (attemptLevels_ne_refused (f := (·.updateLevel u)))
  | choose p kind =>
    simp only [perform, choose] at h
    split at h <;> cases h
  | _ => cases h

theorem endure_eq_done (h : endure act s = .done t) :
    perform act s = .done t ∨ (t = s ∧ s.moments act = []) := by
  simp only [endure] at h
  split at h
  · case h_1 u hact =>
    cases h
    exact .inl hact
  · case h_2 e u hact =>
    cases h
    exact .inr (eq_of_refused hact)
  · cases h

theorem course_endure (h : endure act s = .done t) :
    s.cluster.priorities.Course (s.moments act) t.cluster.priorities := by
  rcases endure_eq_done h with h | ⟨rfl, hnone⟩
  · exact course_perform h
  · rw [hnone]
    exact .refl

theorem course_conduct {as : List Action} (h : conduct as s = .done t) :
    s.cluster.priorities.Course (s.momentsOf as) t.cluster.priorities :=
  .ofEach (fun u : Service τ => u.cluster.priorities) (fun _ _ _ hact => course_endure hact) h

end Service

end Roster
