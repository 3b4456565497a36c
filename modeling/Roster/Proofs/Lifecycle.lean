import Roster.Proofs.Initializing

/-!
# Roster.Proofs.Lifecycle

When a cluster says that it is initialized, whatever is done to it.

* `Move`            — all that an action can do to what a cluster remembers of its initialization.
* `move_perform`    — every action does one of these.
* `Preparing.move`, `Counting.move` — what a move makes of each stage.
* `counting_run`, `preparing_run` — the same for a run.
* `initializes_run` — what follows for the callback.
-/

namespace Roster

/-! ## Actions -/

namespace Action

/-- Tells of the health of a host, or asks for a reload. -/
def IsHealthEvent : Action → Prop
  | .check _ _ | .pass _ | .outlier _ | .reload => True
  | _ => False

variable {τ : Type} {act : Action} {ps qs : PrioritySet τ}

theorem silent_install [Quantity τ] {store : HostStore}
    {f : PrioritySet τ → Attempt Fault (PrioritySet τ)} (h : act.install? store = some f)
    (hdone : f ps = .done qs) : PrioritySet.Silent ps qs := by
  cases act with
  | update u => cases h; exact PrioritySet.silent_update hdone
  | batch us => cases h; exact Batch.silent_updateAll hdone
  | updateLevel u => cases h; exact PrioritySet.silent_updateLevel hdone
  | _ => cases h

theorem silent_watching {f : PrioritySet τ → PrioritySet τ} (h : act.watching? = some f)
    (ps : PrioritySet τ) : PrioritySet.Silent ps (f ps) := by
  cases act with
  | watchMembers | watchPriorities => cases h; exact .of_eq rfl
  | watchLevel p drops => cases h; exact PrioritySet.silent_watchLevel ps p drops
  | unwatch number => cases h; exact .of_eq (PrioritySet.journal_dropWatch ps number)
  | _ => cases h

end Action

namespace Cluster

variable {τ : Type} [Quantity τ] {c d e : Cluster τ} {act : Action}

/-- All that an action can do to what a cluster remembers of its initialization. -/
inductive Move : Action → Cluster τ → Cluster τ → Prop where
  | same {act : Action} {c d : Cluster τ} : act.isCheck = false → SameStage c d → Move act c d
  /-- A callback is left that waits for the first delivery. -/
  | ask {c : Cluster τ} : c.started = false → Move .start c { c with waiting := true }
  | setChecker {c : Cluster τ} :
      c.checker? = none → Move .setChecker c { c with checker? := some [.reload] }
  | check {act : Action} {c d : Cluster τ} {transition : Transition} : act.isCheck = true →
      SameStage c d → d.priorities = c.priorities → Move act c (d.completeCheck transition)
  | finish {act : Action} {c d : Cluster τ} : act.isCheck = false → act ≠ .start →
      SameStage c d → Move act c d.preInitDone
  /-- A callback is left, and the work before initialization is done. -/
  | start {c d : Cluster τ} : c.started = false → SameStage { c with waiting := true } d →
      Move .start c d.preInitDone

variable {asked : Prop} {n k : Nat}

/-- Until the work before initialization ends nothing is counted. -/
theorem Preparing.move (h : c.Preparing) (hmove : Move act c d) :
    d.Preparing ∨ d.Counting (c.waiting = true ∨ act = .start) d.firstChecks 0 := by
  cases hmove with
  | same _ hd => exact .inl (h.sameStage hd)
  | ask hstarted => exact .inl ⟨hstarted, h.awaited, h.announcements, h.checker?⟩
  | setChecker _ => exact .inl ⟨h.started, h.awaited, h.announcements, .inr rfl⟩
  | check _ hd _ =>
    have hprepared := h.sameStage hd
    exact .inl (hprepared.sameStage (sameStage_completeCheck hprepared.awaited _))
  | @finish _ _ e _ hact hd =>
    have hcounting := (h.sameStage hd).counting_preInitDone
    rw [← (sameMembers_preInitDone e).firstChecks, hd.waiting] at hcounting
    exact .inr (hcounting.congr (by simp [hact]))
  | @start _ e hstarted hd =>
    have hasked : ({ c with waiting := true } : Cluster τ).Preparing :=
      ⟨hstarted, h.awaited, h.announcements, h.checker?⟩
    have hcounting := (hasked.sameStage hd).counting_preInitDone
    rw [← (sameMembers_preInitDone e).firstChecks, hd.waiting] at hcounting
    exact .inr (hcounting.congr (by simp))

/-- From then on every check counts, and nothing else does. -/
theorem Counting.move (h : c.Counting asked n k) (hmove : Move act c d) :
    d.Counting asked n (k + if act.isCheck then 1 else 0) := by
  have hstarted : ¬ c.started = false := by simp [h.started]
  cases hmove with
  | same hact hd =>
    rw [hact]
    exact h.sameStage hd
  | ask hnot => exact absurd hnot hstarted
  | setChecker hnone =>
    refine ⟨h.started, h.awaited, h.waiting, h.announced, h.unannounced, fun hpos => ?_⟩
    have hsome := h.checker? hpos
    rw [hnone] at hsome
    cases hsome
  | check hact hd _ =>
    rw [hact]
    exact (h.sameStage hd).completeCheck _
  | @finish _ _ e hact _ hd =>
    have he : e.preInitDone = e := if_pos (hd.started.trans h.started)
    rw [hact, he]
    exact h.sameStage hd
  | start hnot => exact absurd hnot hstarted

theorem announces_of_move (h : c.Preparing ∨ ∃ asked n k, c.Counting asked n k) (hmove : Move act c d)
    (hmore : d.announcements ≠ c.announcements) : Announces c d := by
  cases hmove with
  | same _ hd => exact absurd hd.announcements hmore
  | ask _ => exact absurd rfl hmore
  | setChecker _ => exact absurd rfl hmore
  | check _ hd _ =>
    rw [← hd.announcements] at hmore
    rcases h with h | ⟨asked, n, k, h⟩
    · exact absurd (sameStage_completeCheck (h.sameStage hd).awaited _).announcements hmore
    · exact ((h.sameStage hd).announces_completeCheck _ hmore).congr hd.announcements
  | @finish _ _ e _ _ hd =>
    rw [← hd.announcements] at hmore
    rcases h with h | ⟨asked, n, k, h⟩
    · exact ((h.sameStage hd).announces_preInitDone hmore).congr hd.announcements
    · have he : e.preInitDone = e := if_pos (hd.started.trans h.started)
      exact absurd (congrArg announcements he) hmore
  | @start _ e hstarted hd =>
    have hcount : e.announcements = c.announcements := hd.announcements
    rcases h with h | ⟨asked, n, k, h⟩
    · have hasked : ({ c with waiting := true } : Cluster τ).Preparing :=
        ⟨hstarted, h.awaited, h.announcements, h.checker?⟩
      rw [← hcount] at hmore
      exact ((hasked.sameStage hd).announces_preInitDone hmore).congr hcount
    · rw [h.started] at hstarted
      cases hstarted

end Cluster

namespace DynamicCluster

variable {τ : Type} [Quantity τ] {dc t : DynamicCluster τ} {a : Assignment}

theorem deliver_eq_done (h : dc.deliver a = .done t) :
    ∃ d, dc.cluster.SameStage d ∧ t.cluster = d.preInitDone := by
  simp only [deliver] at h
  split at h
  · cases h
  · simp only [rollout] at h
    split at h
    · cases h
    · case h_2 r heach =>
      cases h
      have hr : PrioritySet.Silent dc.cluster.priorities r.batch.priorities := silent_rollout heach
      exact ⟨dc.concluding r, ⟨rfl, rfl, rfl, rfl, hr.trans (PrioritySet.silent_notifyMembers _ _ _)⟩,
        cluster_complete dc r⟩

end DynamicCluster

namespace Service

variable {τ : Type} [Quantity τ] {s t : Service τ} {act : Action}

/-- Every action is one of these moves. -/
theorem move_perform (h : perform act s = .done t) : s.cluster.Move act t.cluster := by
  cases effect_perform h with
  | void hvoid => exact .same hvoid.isCheck (.refl _)
  | ask _ hstarted => exact .ask hstarted
  | launch _ hstarted hinstall =>
    obtain ⟨d, hd, rfl⟩ := Cluster.sameStage_installConfigured hinstall
    exact .start hstarted hd
  | startPreInit _ hinstall =>
    obtain ⟨d, hd, rfl⟩ := Cluster.sameStage_installConfigured hinstall
    exact .finish rfl (by simp) hd
  | preInitDone => exact .finish rfl (by simp) (.refl _)
  | emptyUpdate _ => exact .finish rfl (by simp) ⟨rfl, rfl, rfl, rfl, .refl _⟩
  | setChecker hnone => exact .setChecker hnone
  | check _ _ => exact .check rfl (.refl _) rfl
  | pass _ => exact .check rfl ⟨rfl, rfl, rfl, rfl, .refl _⟩ rfl
  | outlier _ _ | reload => exact .same rfl (Cluster.sameStage_reload _)
  | deliver _ hbody =>
    obtain ⟨d, hd, hdone⟩ := DynamicCluster.deliver_eq_done hbody
    show Cluster.Move _ _ (DynamicCluster.cluster _)
    rw [hdone]
    exact .finish rfl (by simp) hd
  | setDetector | introduce _ | reconcile _ _ _ _ | choose _ _ =>
    exact .same rfl ⟨rfl, rfl, rfl, rfl, .of_eq rfl⟩
  | edit hedit => exact .same (Action.isCheck_of_edit? hedit) ⟨rfl, rfl, rfl, rfl, .of_eq rfl⟩
  | getOrCreate _ _ =>
    exact .same rfl ⟨rfl, rfl, rfl, rfl, .of_eq (PrioritySet.journal_ensureLevel _ _ _)⟩
  | install hact hinstall =>
    exact .same (Action.isCheck_of_install? hact)
      ⟨rfl, rfl, rfl, rfl, Action.silent_install hact hinstall⟩
  | watching hact =>
    exact .same (Action.isCheck_of_watching? hact) ⟨rfl, rfl, rfl, rfl, Action.silent_watching hact _⟩

/-! ## Runs -/

/-- As long as the callback waits for more than one check, news of the health of hosts changes no level
and is told to nobody. -/
theorem priorities_of_waiting
    (h : s.cluster.Preparing ∨ ∃ asked n k, s.cluster.Counting asked n k)
    (hask : s.cluster.waiting = true) (hact : act.IsHealthEvent)
    (hmore : act.isCheck = true → s.cluster.awaited ≠ 1) (hstep : perform act s = .done t) :
    t.cluster.priorities = s.cluster.priorities := by
  have hcheck : ∀ (c : Cluster τ) (transition : Transition), s.cluster.SameStage c →
      c.priorities = s.cluster.priorities → act.isCheck = true →
      (c.completeCheck transition).priorities = s.cluster.priorities := by
    intro c transition hc hpriorities hact
    have hwaiting := hc.waiting.trans hask
    rcases h with h | ⟨asked, n, k, h⟩
    · rw [(h.sameStage hc).completeCheck hwaiting transition, hpriorities]
    · rw [(h.sameStage hc).priorities_completeCheck hwaiting (by rw [hc.awaited]; exact hmore hact),
        hpriorities]
  have hreload : s.cluster.reload = s.cluster := if_pos hask
  cases act with
  | check id transition =>
    cases hstep
    exact hcheck s.cluster transition (.refl _) rfl rfl
  | pass id =>
    cases hstep
    exact hcheck _ _ ⟨rfl, rfl, rfl, rfl, .refl _⟩ rfl rfl
  | outlier id =>
    cases hstep
    show s.cluster.outlierChanged.priorities = _
    rw [Cluster.outlierChanged, hreload, ite_self]
  | reload =>
    cases hstep
    exact congrArg Cluster.priorities hreload
  | _ => exact absurd hact id

variable {asked : Prop} {n k : Nat} {as : List Action}

theorem counting_run (h : s.cluster.Counting asked n k) (hrun : run as s = .done t) :
    t.cluster.Counting asked n (k + as.countP Action.isCheck) := by
  induction as generalizing s k with
  | nil =>
    cases hrun
    exact h
  | cons a as ih =>
    obtain ⟨u, hu, hrun⟩ := Attempt.andThen_eq_done hrun
    have ht := ih (h.move (move_perform hu)) hrun
    rw [List.countP_cons, Nat.add_comm (as.countP _), ← Nat.add_assoc]
    exact ht

/-- A run either never ends the work before initialization, or one of its actions does. -/
theorem preparing_run (h : s.cluster.Preparing) (hrun : run as s = .done t) :
    t.cluster.Preparing ∨ ∃ before act after r v, as = before ++ act :: after ∧
      run before s = .done r ∧ r.cluster.Preparing ∧ perform act r = .done v ∧
      v.cluster.Counting (r.cluster.waiting = true ∨ act = .start) v.cluster.firstChecks 0 ∧
      run after v = .done t := by
  induction as generalizing s with
  | nil =>
    cases hrun
    exact .inl h
  | cons a as ih =>
    obtain ⟨u, hu, hrun⟩ := Attempt.andThen_eq_done hrun
    rcases h.move (move_perform hu) with hprepared | hcounting
    · refine (ih hprepared hrun).imp_right ?_
      rintro ⟨before, act, after, r, v, rfl, hbefore, hr, hact, hv, hafter⟩
      refine ⟨a :: before, act, after, r, v, rfl, ?_, hr, hact, hv, hafter⟩
      simp only [run, Attempt.each, hu, Attempt.andThen_done]
      exact hbefore
    · exact .inr ⟨[], a, as, s, u, rfl, rfl, h, hu, hcounting, hrun⟩

theorem preparing_opened (source : Source) (config : ClusterConfig) :
    (opened τ source config).cluster.Preparing := by
  refine ⟨rfl, rfl, ?_, .inl rfl⟩
  have hjournal : ((PrioritySet.main : PrioritySet τ).ensureLevel 0 none).takeCensus.journal =
      (PrioritySet.main : PrioritySet τ).journal := PrioritySet.journal_ensureLevel _ 0 none
  exact congrArg (fun j => j.events.count .initialized) hjournal

theorem preparing_of_run {source : Source} {config : ClusterConfig}
    (hrun : run as (opened τ source config) = .done s) (hnot : s.cluster.started = false) :
    s.cluster.Preparing := by
  rcases preparing_run (preparing_opened source config) hrun with h | ⟨_, _, _, _, _, _, _, _, _, hv, hafter⟩
  · exact h
  · rw [(counting_run hv hafter).started] at hnot
    cases hnot

theorem counting_of_started (h : s.cluster.Preparing) (hact : perform act s = .done t)
    (hstarted : t.cluster.started = true) :
    t.cluster.Counting (s.cluster.waiting = true ∨ act = .start) t.cluster.firstChecks 0 := by
  rcases h.move (move_perform hact) with h | h
  · rw [h.started] at hstarted
    cases hstarted
  · exact h

/-- What is known of the initialization of `s`, which a run `as` from `o` led to. -/
structure Initializes (o : Service τ) (as : List Action) (s : Service τ) : Prop where
  /-- The callback runs at most once, -/
  once : s.cluster.announcements ≤ 1
  /-- and not before the work before initialization has ended; until then nothing is awaited. -/
  early : s.cluster.started = false → s.cluster.announcements = 0 ∧ s.cluster.awaited = 0
  /-- One action of the run has ended that work, if it has ended. -/
  ended : s.cluster.started = true → ∃ before act after r t, as = before ++ act :: after ∧
    run before o = .done r ∧ r.cluster.started = false ∧ perform act r = .done t ∧
    t.cluster.started = true ∧ run after t = .done s
  /-- If an action ends it, the callback runs at the last of the checks that are awaited then, or at
  once; neither the end nor checks that come later matter any more. -/
  counted : s.cluster.started = false → ∀ act t, perform act s = .done t → t.cluster.started = true →
    ∀ after u, run after t = .done u →
      u.cluster.Counting (s.cluster.waiting = true ∨ act = .start) t.cluster.firstChecks
        (after.countP Action.isCheck)
  /-- Before that, news of the health of hosts changes no level and is told to nobody. -/
  suppressed : s.cluster.waiting = true → ∀ act t, act.IsHealthEvent →
    (act.isCheck = true → s.cluster.awaited ≠ 1) → perform act s = .done t →
    t.cluster.priorities = s.cluster.priorities
  /-- When the callback runs, every level of a checked cluster was split anew. -/
  announces : ∀ act t, perform act s = .done t → t.cluster.announcements ≠ s.cluster.announcements →
    s.cluster.Announces t.cluster

/-- Over every run, the callback runs at most once, exactly when the checks that were awaited at the end
of the work before initialization are made, or at once without any. -/
theorem initializes_run {source : Source} {config : ClusterConfig}
    (hrun : run as (opened τ source config) = .done s) :
    (opened τ source config).Initializes as s := by
  have hopened := preparing_opened (τ := τ) source config
  have hstage : s.cluster.Preparing ∨ ∃ asked n k, s.cluster.Counting asked n k := by
    refine (preparing_run hopened hrun).imp_right ?_
    rintro ⟨_, _, after, _, _, _, _, _, _, hv, hafter⟩
    exact ⟨_, _, _, counting_run hv hafter⟩
  have hprepared : s.cluster.started = false → s.cluster.Preparing := preparing_of_run hrun
  refine ⟨?_, fun hnot => ⟨(hprepared hnot).announcements, (hprepared hnot).awaited⟩, ?_, ?_, ?_, ?_⟩
  · rcases hstage with h | ⟨asked, n, k, h⟩
    · rw [h.announcements]
      exact Nat.zero_le 1
    · by_cases hover : asked ∧ n ≤ k
      · exact Nat.le_of_eq (h.announced hover.1 hover.2)
      · rw [h.unannounced hover]
        exact Nat.zero_le 1
  · intro hstarted
    rcases preparing_run hopened hrun with h | ⟨before, act, after, r, v, has, hbefore, hr, hact, hv, hafter⟩
    · rw [h.started] at hstarted
      cases hstarted
    · exact ⟨before, act, after, r, v, has, hbefore, hr.started, hact, hv.started, hafter⟩
  · intro hnot act t hact hstarted after u hafter
    have hu := counting_run (counting_of_started (hprepared hnot) hact hstarted) hafter
    rwa [Nat.zero_add] at hu
  · exact fun hask act t hact hmore hstep => priorities_of_waiting hstage hask hact hmore hstep
  · exact fun act t hact hmore => Cluster.announces_of_move hstage (move_perform hact) hmore

/-- The two regions, and at the next priority a host that is not checked. -/
def threeRegions : ClusterConfig :=
  { twoRegions with
    assignment? := some
      { groups :=
          [{ locality := { region := "east" }, endpoints := [endpointOf 1] },
           { locality := { region := "west" }, endpoints := [endpointOf 2] },
           { locality := { region := "north" }, priority := 1
             endpoints := [{ endpointOf 3 with disableActiveCheck := true }] }] } }

/-- The callback waits for the checks of two hosts out of three, and runs at the second check. -/
theorem initializes_threeRegions :
    ∃ s t u : Service Rat, run [.setChecker, .start] (opened Rat .configured threeRegions) = .done s ∧
      s.cluster.awaitedHosts = [0, 1] ∧ run [.pass 0, .reload, .preInitDone] s = .done t ∧
      t.cluster.announcements = 0 ∧ perform (.pass 1) t = .done u ∧ u.cluster.announcements = 1 ∧
      (opened Rat .configured threeRegions).Initializes
        [.setChecker, .start, .pass 0, .reload, .preInitDone, .pass 1] u :=
  ⟨_, _, _, rfl, rfl, rfl, rfl, rfl, rfl, initializes_run rfl⟩

end Service

end Roster
