import Roster.Proofs.Awaiting
import Roster.Proofs.Choosing
import Roster.Proofs.Stepping

/-!
# Roster.Proofs.Faultless

What a cluster of a valid configuration is told by its discovery source, by its health checker and by
those who balance load breaks no rule of use, whatever it is.

* `Sturdy`        — every generation has a positive factor, and its schedules can be picked from; kept
  by every course.
* `exists_endure` — no action breaks a rule that asks for a single start and a single checker.
* `Careful`       — what is asked of the caller.
* `exists_conduct` — so no rule is broken along a run, by induction on what is still to come.
-/

namespace Roster

/-! ## Levels -/

/-- Every generation has a positive factor, and its schedules can be picked from. -/
def PrioritySet.Sturdy (ps : PrioritySet Rat) : Prop :=
  ∀ p g, ps.generation? p = some g → g.Ready ∧ 0 < g.factor

namespace PrioritySet

variable {ps qs : PrioritySet Rat} {u : Update} {ms : List (Moment Rat)}

theorem Sturdy.of_installation (h : ps.Sturdy) (heq : qs.installation = ps.installation) : qs.Sturdy :=
  fun p g hg => h p g ((generation?_congr heq p).symm.trans hg)

theorem factor_pos {factor? : Option Nat} (h : factor? ≠ some 0) {other : Nat} (hother : 0 < other) :
    0 < factor?.getD other := by
  cases factor? with
  | none => exact hother
  | some factor => exact Nat.pos_of_ne_zero fun hzero => h (congrArg some hzero)

theorem Sturdy.ensureLevel (h : ps.Sturdy) (p : Nat) {factor? : Option Nat}
    (hfactor : factor? ≠ some 0) : (ps.ensureLevel p factor?).Sturdy := by
  intro q g hg
  rcases Nat.lt_or_ge q ps.levels.length with hq | hq
  · rw [generation?_ensureLevel_of_lt hq] at hg
    exact h q g hg
  · obtain ⟨l, hl, rfl⟩ := Option.map_eq_some_iff.1 hg
    rw [level?_ensureLevel_of_le hq hl]
    refine ⟨Generation.ready_build _ _ _ _, ?_⟩
    show 0 < if q = p then factor?.getD defaultFactor else defaultFactor
    split
    · exact factor_pos hfactor (by decide)
    · decide

theorem Sturdy.install (h : ps.Sturdy) (hfactor : u.factor? ≠ some 0) : (ps.install u).Sturdy := by
  intro q g hg
  by_cases hq : q = u.priority
  · subst hq
    simp only [generation?, level?_install, if_true, Option.map_map] at hg
    obtain ⟨l, hl, rfl⟩ := Option.map_eq_some_iff.1 hg
    have hpos : 0 < l.factor := (h u.priority l.generation (by rw [generation?, hl]; rfl)).2
    exact ⟨Generation.ready_build _ _ _ _, factor_pos hfactor hpos⟩
  · rw [generation?_install_of_ne ps hq] at hg
    exact h q g hg

theorem Sturdy.putLevel (h : ps.Sturdy) (hfactor : u.factor? ≠ some 0) : (ps.putLevel u).Sturdy :=
  (h.install hfactor).of_installation (installation_notifyLevel _ _ _ _)

theorem Sturdy.pass (h : ps.Sturdy) (hpass : Pass ps qs) : qs.Sturdy := by
  cases hpass with
  | reindex store u => exact h
  | readMap => exact h
  | ensureLevel p hfactor => exact h.ensureLevel p hfactor
  | stray hu =>
    rw [putLevel_stray hu]
    exact h
  | notifyMembers added removed =>
    exact h.of_installation (hears_notifyMembers added removed ps).installation
  | announce => exact h
  | @choose p l kind n answers g hl hchoose =>
    intro q k hk
    simp only [generation?, level?_share, Option.map_map] at hk
    obtain ⟨j, hj, rfl⟩ := Option.map_eq_some_iff.1 hk
    obtain ⟨hready, hpos⟩ := h p l.generation (by rw [generation?, hl]; rfl)
    simp only [Function.comp]
    split
    · -- the generation that was chosen from
      rw [Generation.chooseMany_eq_chooseEach] at hchoose
      obtain ⟨_, t, heach, ht, _⟩ := hready.chooseEach (List.replicate n kind)
      rw [heach] at hchoose
      cases hchoose
      rw [← Generation.chooseMany_eq_chooseEach] at heach
      exact ⟨ht, by rw [(reschedules_chooseMany heach).factor]; exact hpos⟩
    · exact h q j.generation (by rw [generation?, hj]; rfl)
  | watchMembers drops => exact h
  | watchPriorities drops => exact h
  | watchLevel p drops => exact h.of_installation (installation_watchLevel ps p drops)
  | dropWatch number => exact h.of_installation (installation_dropWatch ps number)

theorem Sturdy.course (h : ps.Sturdy) (hcourse : Course ps ms qs) : qs.Sturdy := by
  induction hcourse with
  | refl => exact h
  | pass _ hpass ih => exact ih.pass hpass
  | install _ _ hfactor ih => exact ih.putLevel hfactor

end PrioritySet

/-! ## Steps that break no rule -/

namespace Attempt

theorem exists_each {ε σ α : Type} {step : α → σ → Attempt ε σ} {P : σ → Prop} {as : List α}
    (hstep : ∀ a ∈ as, ∀ s, P s → ∃ t, step a s = .done t ∧ P t) {s : σ} (hs : P s) :
    ∃ t, each step as s = .done t ∧ P t := by
  induction as generalizing s with
  | nil => exact ⟨s, rfl, hs⟩
  | cons a as ih =>
    obtain ⟨u, hu, hPu⟩ := hstep a List.mem_cons_self s hs
    obtain ⟨t, ht, hPt⟩ := ih (fun b hb => hstep b (List.mem_cons_of_mem a hb)) hPu
    exact ⟨t, by rw [each, hu, andThen_done, ht], hPt⟩

end Attempt

namespace Cluster

variable {τ : Type} [Quantity τ] {c : Cluster τ} {config : ClusterConfig}

theorem configuredFactor_ne_zero (h : config.validate = .ok ()) : configuredFactor config ≠ 0 := by
  cases ha : config.assignment? with
  | none =>
    simp only [configuredFactor, ha]
    intro hzero
    have hzero : config.overprovisioningFactor = 0 := UInt32.toNat_inj.1 hzero
    rw [ClusterConfig.validate, if_pos hzero] at h
    cases h
  | some a =>
    simp only [configuredFactor, ha]
    exact ClusterConfig.factorFor_ne_zero h (ClusterConfig.validateAssignment_of_validate h ha)

theorem exists_installConfigured (h : c.config.validate = .ok ()) :
    ∃ d, c.installConfigured = .done d := by
  let drafted := Draft.registerGroups (configuredGroups c.config) (c.hosts, {})
  have hdraft : ∀ p ∈ List.range drafted.2.levels.length, ∀ e : Cluster τ, e.config = c.config →
      ∃ f, installDraft drafted.2 p e = .done f ∧ f.config = c.config := by
    intro p _ e he
    have hfactor : (Draft.composed e.config (drafted.2.weightsAt p) (e.flagConfigured drafted.2 p).hosts
        (configuredPlan drafted.2 p e)).factor? ≠ some 0 := by
      show some (configuredFactor e.config) ≠ some 0
      rw [he]
      exact fun hzero => configuredFactor_ne_zero h (Option.some.inj hzero)
    rw [installDraft_eq, PrioritySet.update, PrioritySet.putChecked, if_neg hfactor]
    exact ⟨_, rfl, he⟩
  obtain ⟨e, heach, _⟩ := Attempt.exists_each hdraft (s := { c with hosts := drafted.1 }) rfl
  exact ⟨e.preInitDone,
    congrArg (fun a : Attempt Fault (Cluster τ) => a.andThen fun f => .done f.preInitDone) heach⟩

end Cluster

/-! ## Actions -/

namespace Action

/-- Installs or makes levels as a caller says. -/
def IsRaw : Action → Prop
  | .getOrCreate _ _ | .update _ | .batch _ | .updateLevel _ => True
  | _ => False

theorem isRaw_of_isInstall {act : Action} (h : act.IsInstall) : act.IsRaw := by
  cases act <;> trivial

def asksInit : Action → Bool
  | .start => true
  | _ => false

theorem asksInit_iff {act : Action} : act.asksInit = true ↔ act = .start := by
  cases act <;> simp [asksInit]

end Action

namespace Cluster

variable {τ : Type} [Quantity τ] {c d : Cluster τ} {act : Action}

theorem waiting_reload (c : Cluster τ) : c.reload.waiting = c.waiting := by
  unfold reload
  split <;> rfl

theorem waiting_finishInit (c : Cluster τ) : c.finishInit.waiting = false := by
  simp only [finishInit]
  split <;> split <;> simp only [announce, waiting_reload]

theorem waiting_preInitDone (h : c.waiting = false) : c.preInitDone.waiting = false := by
  have hbegun : ({ c with started := true } : Cluster τ).beginChecks.waiting = false := by
    unfold beginChecks
    split
    · exact h
    · split <;> exact h
  simp only [preInitDone]
  split
  · exact h
  · split
    · exact waiting_finishInit _
    · exact hbegun

theorem waiting_completeCheck (h : c.waiting = false) (transition : Transition) :
    (c.completeCheck transition).waiting = false := by
  rw [completeCheck]
  generalize c.checker?.getD [] = observers
  induction observers generalizing c with
  | nil => exact h
  | cons o observers ih =>
    refine ih ?_
    cases o with
    | reload =>
      simp only [onCheck]
      split
      · rw [waiting_reload, h]
      · exact h
    | countdown =>
      simp only [onCheck, countCheck]
      split
      · exact h
      · split
        · exact waiting_finishInit _
        · exact h

theorem waiting_of_move (h : c.waiting = false) (hact : act.asksInit = false) (hmove : Move act c d) :
    d.waiting = false := by
  cases hmove with
  | same _ hd => exact hd.waiting.trans h
  | ask _ => cases hact
  | setChecker _ => exact h
  | check _ hd _ => exact waiting_completeCheck (hd.waiting.trans h) _
  | finish _ _ hd => exact waiting_preInitDone (hd.waiting.trans h)
  | start _ _ => cases hact

end Cluster

/-! ## Runs -/

namespace Service

variable {s t : Service Rat} {act : Action} {as : List Action} {config : ClusterConfig}
  {source : Source}

/-- What a run of a cluster of the configuration keeps. -/
structure Intact (config : ClusterConfig) (s : Service Rat) : Prop where
  composed : s.cluster.Composed config
  sturdy : s.cluster.priorities.Sturdy

theorem intact_opened (source : Source) (config : ClusterConfig) :
    (opened Rat source config).Intact config := by
  have hmain : (PrioritySet.main : PrioritySet Rat).Sturdy := by
    intro p g hg
    cases hg
  exact ⟨composed_opened source config, hmain.ensureLevel 0 (by simp)⟩

theorem Intact.endure (h : s.Intact config) (hconfig : config.validate = .ok ())
    (hact : ¬ act.IsRaw) (hstep : endure act s = .done t) : t.Intact config := by
  rcases endure_eq_done hstep with hstep | ⟨rfl, _⟩
  · have hinstall : ¬ act.IsInstall := fun hinstall => hact (Action.isRaw_of_isInstall hinstall)
    have hcourse := course_perform hstep
    exact ⟨(composed_perform hconfig h.composed hinstall hstep).2, h.sturdy.course hcourse⟩
  · exact h

theorem exists_choose (h : s.cluster.priorities.Sturdy) (p : Nat) (kind : Eligibility) :
    ∃ t, s.choose p kind = .done t := by
  simp only [choose, Readers.chooseAt?]
  cases hl : s.cluster.priorities.level? p with
  | none => exact ⟨s, by simp only [Option.map_none]⟩
  | some l =>
    have hready := (h p l.generation (by rw [PrioritySet.generation?, hl]; rfl)).1
    obtain ⟨answers, g, heach, _⟩ := hready.chooseEach (List.replicate 1 kind)
    rw [← Generation.chooseMany_eq_chooseEach] at heach
    simp only [Option.map_some, Readers.chooseFrom, heach]
    exact ⟨_, rfl⟩

/-- No assignment breaks a rule, valid or not. -/
theorem exists_endure_deliver (h : s.Intact config) (hconfig : config.validate = .ok ())
    (a : Assignment) : ∃ t, endure (.deliver a) s = .done t := by
  cases hsource : s.source with
  | configured => exact ⟨s, by simp only [endure, perform, deliver, hsource]⟩
  | discovered =>
    cases ha : config.validateAssignment a with
    | ok _ =>
      have hs : Sound config s := ⟨hsource, h.composed.config, h.composed.toSound⟩
      obtain ⟨_, body, hdone, _⟩ := exists_deliver hconfig hs ha
      exact ⟨{ s with body }, by simp only [endure, perform, hdone]⟩
    | error e =>
      have hcheck : s.body.deliver a = .failed (.refused e) s.body := by
        have hconfig : s.body.cluster.config = config := h.composed.config
        simp only [DynamicCluster.deliver, DynamicCluster.check, hconfig, ha]
      refine ⟨s, ?_⟩
      simp only [endure, perform, deliver, hsource, hcheck, Attempt.map]
      rw [← hsource]

/-- Nothing breaks a rule but a second start, a late one, and a second checker. -/
theorem exists_endure (h : s.Intact config) (hconfig : config.validate = .ok ())
    (hact : ¬ act.IsRaw)
    (hstart : act.asksInit = true → s.cluster.started = false ∧ s.cluster.waiting = false)
    (hchecker : act.setsChecker = true → s.cluster.hasChecker = false) :
    ∃ t, endure act s = .done t := by
  have hvalid : s.cluster.config.validate = .ok () := by rw [h.composed.config, hconfig]
  cases act with
  | start =>
    obtain ⟨hstarted, hwaiting⟩ := hstart rfl
    have hawait : s.cluster.awaitInit = .done { s.cluster with waiting := true } := by
      rw [Cluster.awaitInit, if_neg (by simp [hstarted, hwaiting])]
    cases hsource : s.source with
    | configured =>
      obtain ⟨d, hd⟩ := Cluster.exists_installConfigured
        (c := { s.cluster with waiting := true }) hvalid
      exact ⟨s.withCluster d, by
        simp only [endure, perform, start, hsource, attempt, Cluster.initializeStatic, hawait,
          Attempt.andThen_done, hd, Attempt.mapError, Attempt.map]⟩
    | discovered =>
      exact ⟨s.withCluster { s.cluster with waiting := true }, by
        simp only [endure, perform, start, hsource, attempt, hawait, Attempt.mapError, Attempt.map]⟩
  | startPreInit =>
    cases hsource : s.source with
    | configured =>
      obtain ⟨d, hd⟩ := Cluster.exists_installConfigured hvalid
      exact ⟨s.withCluster d, by
        simp only [endure, perform, startPreInit, hsource, attempt, hd, Attempt.mapError,
          Attempt.map]⟩
    | discovered => exact ⟨s, by simp only [endure, perform, startPreInit, hsource]⟩
  | setChecker =>
    have hnone : s.cluster.checker? = none := by simpa [Cluster.hasChecker] using hchecker rfl
    exact ⟨s.withCluster { s.cluster with checker? := some [.reload] }, by
      simp only [endure, perform, attempt, Cluster.setChecker, hnone, Attempt.mapError, Attempt.map]⟩
  | deliver a => exact exists_endure_deliver h hconfig a
  | choose p kind =>
    obtain ⟨t, ht⟩ := exists_choose h.sturdy p kind
    exact ⟨t, by simp only [endure, perform, ht]⟩
  | getOrCreate p factor? => exact absurd trivial hact
  | update u => exact absurd trivial hact
  | batch us => exact absurd trivial hact
  | updateLevel u => exact absurd trivial hact
  | _ => exact ⟨_, rfl⟩

theorem hasChecker_of_endure (h : s.cluster.hasChecker = false) (hact : act.setsChecker = false)
    (hstep : endure act s = .done t) : t.cluster.hasChecker = false := by
  rcases endure_eq_done hstep with hstep | ⟨rfl, _⟩
  · exact Cluster.hasChecker_of_move h hact (move_perform hstep)
  · exact h

theorem waiting_of_endure (h : s.cluster.waiting = false) (hact : act.asksInit = false)
    (hstep : endure act s = .done t) : t.cluster.waiting = false := by
  rcases endure_eq_done hstep with hstep | ⟨rfl, _⟩
  · exact Cluster.waiting_of_move h hact (move_perform hstep)
  · exact h

/-- What is asked of those who use a cluster: they install nothing themselves, set a checker once at
most, and start it once at most, before the work before initialization has ended. -/
structure Careful (s : Service Rat) (as : List Action) : Prop where
  cooked : ∀ act ∈ as, ¬ act.IsRaw
  checker : as.countP Action.setsChecker ≤ 1
  start : as.countP Action.asksInit ≤ 1
  early : ∀ i, as[i]? = some .start → (conduct (as.take i) s).state.cluster.started = false

/-- What happens once at most: twice is too often, and so is once when it happened before. -/
structure Once (asks : Action → Bool) (happened : Bool) (as : List Action) : Prop where
  most : as.countP asks ≤ 1
  spent : happened = true → as.countP asks = 0

namespace Once

variable {asks : Action → Bool} {happened later : Bool}

theorem first (h : Once asks happened (act :: as)) (hact : asks act = true) : happened = false := by
  have hcount : (act :: as).countP asks ≠ 0 := by simp [hact]
  exact Bool.eq_false_iff.2 fun hbefore => hcount (h.spent hbefore)

theorem rest (h : Once asks happened (act :: as))
    (hkept : happened = false → asks act = false → later = false) : Once asks later as := by
  have hmost := h.most
  have hspent := h.spent
  rw [List.countP_cons] at hmost hspent
  refine ⟨by omega, fun hlater => ?_⟩
  cases hact : asks act with
  | true =>
    rw [hact, if_pos rfl] at hmost
    omega
  | false =>
    cases hbefore : happened with
    | false =>
      rw [hkept hbefore hact] at hlater
      cases hlater
    | true =>
      have hnone := hspent hbefore
      omega

end Once

/-- A run breaks no rule, as long as what is still to come starts and sets a checker only where that
has not happened yet. -/
theorem exists_conduct (hconfig : config.validate = .ok ()) (h : s.Intact config)
    (hcooked : ∀ act ∈ as, ¬ act.IsRaw)
    (hearly : ∀ i, as[i]? = some .start → (conduct (as.take i) s).state.cluster.started = false)
    (hchecker : Once Action.setsChecker s.cluster.hasChecker as)
    (hstart : Once Action.asksInit s.cluster.waiting as) :
    ∃ t, conduct as s = .done t ∧ t.Intact config := by
  induction as generalizing s with
  | nil => exact ⟨s, rfl, h⟩
  | cons act as ih =>
    have hraw := hcooked act List.mem_cons_self
    have hfirst : act.asksInit = true → s.cluster.started = false ∧ s.cluster.waiting = false :=
      fun hact => ⟨hearly 0 (by rw [Action.asksInit_iff.1 hact]; rfl), hstart.first hact⟩
    obtain ⟨u, hu⟩ := exists_endure h hconfig hraw hfirst hchecker.first
    have hconduct : ∀ bs, conduct (act :: bs) s = conduct bs u := fun bs => by
      rw [conduct, Attempt.each, hu, Attempt.andThen_done, conduct]
    have hlater : ∀ i, as[i]? = some .start →
        (conduct (as.take i) u).state.cluster.started = false := by
      intro i hi
      have hstarted := hearly (i + 1) (by simpa using hi)
      rwa [List.take_succ_cons, hconduct] at hstarted
    obtain ⟨t, ht, hintact⟩ := ih (h.endure hconfig hraw hu)
      (fun b hb => hcooked b (List.mem_cons_of_mem act hb)) hlater
      (hchecker.rest fun hset hact => hasChecker_of_endure hset hact hu)
      (hstart.rest fun hwaiting hact => waiting_of_endure hwaiting hact hu)
    exact ⟨t, (hconduct as).trans ht, hintact⟩

/-- Whatever is assigned, checked, reloaded and chosen, no rule of use is broken; every generation has a
positive factor, and can be chosen from without end. -/
theorem conduct_faultless (hconfig : config.validate = .ok ())
    (has : (opened Rat source config).Careful as) :
    ∃ t, conduct as (opened Rat source config) = .done t ∧
      ∀ p g, t.cluster.priorities.generation? p = some g →
        0 < g.factor ∧ ∀ kinds, ∃ r, g.chooseEach kinds = .ok r := by
  obtain ⟨t, ht, hintact⟩ := exists_conduct hconfig (intact_opened source config) has.cooked has.early
    ⟨has.checker, by intro h; cases h⟩ ⟨has.start, by intro h; cases h⟩
  refine ⟨t, ht, fun p g hg => ?_⟩
  obtain ⟨hready, hpos⟩ := hintact.sturdy p g hg
  refine ⟨hpos, fun kinds => ?_⟩
  obtain ⟨answers, k, heach, _⟩ := hready.chooseEach kinds
  exact ⟨_, heach⟩

def loneWeighted : Assignment :=
  { groups :=
      [{ locality := { region := "east" }
         weight? := some 3
         endpoints := [{ address := ⟨.ipv4 ⟨10, 0, 0, 1⟩, 80⟩ }] }] }

/-- A start between an assignment that is refused and one that is installed, and choices after it. -/
def refusedOnce : List Action :=
  [.setChecker, .deliver (lone 0), .start, .deliver loneWeighted, .pass 0, .choose 0 .healthy, .reload,
    .choose 0 .degraded]

theorem conduct_refusedOnce :
    let o := opened Rat .discovered { localityWeighted := true }
    ({ localityWeighted := true } : ClusterConfig).validate = .ok () ∧ o.Careful refusedOnce ∧
      (perform (.deliver (lone 0)) o).error?.isSome ∧
      ∃ t, conduct refusedOnce o = .done t ∧
        ∀ p g, t.cluster.priorities.generation? p = some g →
          0 < g.factor ∧ ∀ kinds, ∃ r, g.chooseEach kinds = .ok r := by
  intro o
  have hcareful : o.Careful refusedOnce := by
    refine ⟨by simp [refusedOnce, Action.IsRaw], by decide, by decide, fun i hi => ?_⟩
    rcases i with _ | _ | _ | i
    · cases hi
    · cases hi
    · rfl
    · rcases i with _ | _ | _ | _ | _ | i <;> cases hi
  exact ⟨rfl, hcareful, rfl, conduct_faultless rfl hcareful⟩

end Service

end Roster
