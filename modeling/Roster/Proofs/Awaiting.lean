import Mathlib.Data.List.Perm.Subperm
import Mathlib.Data.List.TakeWhile
import Roster.Proofs.Lifecycle

/-!
# Roster.Proofs.Awaiting

Which hosts were heard of when a cluster says that it is initialized. Every check counts, whichever host
it is of, so that the checks of one host may stand in for those of another.

* `reported`     — the hosts whose checks were reported in a run.
* `Punctual`     — the callback does not run before all awaited hosts were heard of.
* `punctual_iff` — what the last awaited check has to find for that.
-/

namespace Roster

namespace Action

def setsChecker : Action → Bool
  | .setChecker => true
  | _ => false

/-- The hosts whose checks are reported in a run; there are no checks before there is a checker. -/
def reported (as : List Action) : List HostId :=
  (as.dropWhile fun act => !act.setsChecker).filterMap checkedHost?

theorem length_filterMap_checkedHost? (as : List Action) :
    (as.filterMap checkedHost?).length = as.countP isCheck :=
  List.length_filterMap_eq_countP

theorem reported_append {as : List Action} (h : .setChecker ∈ as) (bs : List Action) :
    reported (as ++ bs) = reported as ++ bs.filterMap checkedHost? := by
  have hne : ¬ (as.dropWhile fun act => !act.setsChecker).isEmpty = true := by
    rw [List.isEmpty_iff, List.dropWhile_eq_nil_iff]
    exact fun hall => absurd (hall _ h) (by simp [setsChecker])
  rw [reported, List.dropWhile_append, if_neg hne, List.filterMap_append, reported]

end Action

namespace Cluster

variable {τ : Type} [Quantity τ] {c d : Cluster τ} {act : Action}

theorem hasChecker_of_move (h : c.hasChecker = false) (hact : act.setsChecker = false)
    (hmove : Move act c d) : d.hasChecker = false := by
  have hnone : c.checker? = none := by simpa [hasChecker] using h
  cases hmove with
  | same _ hd => rw [hasChecker, hd.checker?, hnone]; rfl
  | ask _ => exact h
  | setChecker _ => cases hact
  | @check _ _ e transition _ hd _ =>
    have he : e.completeCheck transition = e := by
      simp only [completeCheck, hd.checker?, hnone, Option.getD_none, List.foldl_nil]
    rw [he, hasChecker, hd.checker?, hnone]
    rfl
  | @finish _ _ e _ _ hd =>
    rw [(sameMembers_preInitDone e).hasChecker, hasChecker, hd.checker?, hnone]
    rfl
  | @start _ e _ hd =>
    rw [(sameMembers_preInitDone e).hasChecker, hasChecker, hd.checker?.trans hnone]
    rfl

end Cluster

namespace Service

variable {τ : Type} [Quantity τ] {s t u v w : Service τ} {act : Action} {as before after : List Action}
  {source : Source} {config : ClusterConfig}

theorem setChecker_mem_of_run (hrun : run as s = .done t) (hs : s.cluster.hasChecker = false)
    (ht : t.cluster.hasChecker = true) : .setChecker ∈ as := by
  induction as generalizing s with
  | nil =>
    cases hrun
    rw [hs] at ht
    cases ht
  | cons a as ih =>
    obtain ⟨u, hu, hrun⟩ := Attempt.andThen_eq_done hrun
    cases hact : a.setsChecker with
    | true =>
      cases a with
      | setChecker => exact List.mem_cons_self
      | _ => cases hact
    | false =>
      exact List.mem_cons_of_mem a (ih hrun (Cluster.hasChecker_of_move hs hact (move_perform hu)))

/-- The hosts that were awaited in `t`, and are installed in `w`, are among those reported in `as`. -/
def Heard (t w : Service τ) (as : List Action) : Prop :=
  ∀ i ∈ t.cluster.awaitedHosts, (∃ p, i ∈ w.cluster.priorities.hostsAt p) → i ∈ Action.reported as

/-- From `t` on, which `before` led to, the callback does not run before every host that was awaited in
`t`, and is installed still, was heard of: it has not run in `t` itself, or else they were, and at every
later action that makes it run they are. -/
structure Punctual (t : Service τ) (before after : List Action) : Prop where
  first : t.cluster.announcements ≠ 0 → t.Heard t before
  later : ∀ mid act rest v w, after = mid ++ act :: rest → run mid t = .done v →
    perform act v = .done w → w.cluster.announcements ≠ v.cluster.announcements →
    t.Heard w (before ++ mid ++ [act])

/-- The last of the checks that were awaited in `t` finds every awaited host reported. -/
def HeardLast (t : Service τ) (before after : List Action) : Prop :=
  ∀ mid act rest w, after = mid ++ act :: rest → act.isCheck = true →
    mid.countP Action.isCheck + 1 = t.cluster.awaitedHosts.length → run (mid ++ [act]) t = .done w →
    t.Heard w (before ++ mid ++ [act])

theorem run_append (as bs : List Action) (s : Service τ) :
    run (as ++ bs) s = (run as s).andThen (run bs) := Attempt.each_append as bs s

/-- The callback runs at an action exactly if that is the last of the awaited checks. -/
theorem announced_iff {asked : Prop} {n k : Nat} (hv : v.cluster.Counting asked n k) (hasked : asked)
    (hact : perform act v = .done w) :
    w.cluster.announcements ≠ v.cluster.announcements ↔ act.isCheck = true ∧ k + 1 = n := by
  have hw := hv.move (move_perform hact)
  cases hcheck : act.isCheck with
  | false =>
    rw [hcheck] at hw
    simp only [Bool.false_eq_true, if_false, Nat.add_zero, false_and, iff_false, ne_eq, not_not] at hw ⊢
    by_cases hn : n ≤ k
    · rw [hw.announced hasked hn, hv.announced hasked hn]
    · rw [hw.unannounced fun h => hn h.2, hv.unannounced fun h => hn h.2]
  | true =>
    rw [hcheck] at hw
    simp only [if_true, true_and] at hw ⊢
    rcases Nat.lt_trichotomy (k + 1) n with hlt | heq | hgt
    · rw [hw.unannounced fun h => by omega, hv.unannounced fun h => by omega]
      exact ⟨fun h => absurd rfl h, fun h => by omega⟩
    · rw [hw.announced hasked (by omega), hv.unannounced fun h => by omega]
      exact ⟨fun _ => heq, fun _ => by omega⟩
    · rw [hw.announced hasked (by omega), hv.announced hasked (by omega)]
      exact ⟨fun h => absurd rfl h, fun h => by omega⟩

/-- If the checks that were awaited in `t` are of different awaited hosts, they are of all of them. -/
theorem heardLast_of_nodup (hchecker : .setChecker ∈ before)
    (hnodup : ((after.filterMap Action.checkedHost?).take t.cluster.awaitedHosts.length).Nodup)
    (hsub : ∀ i ∈ (after.filterMap Action.checkedHost?).take t.cluster.awaitedHosts.length,
      i ∈ t.cluster.awaitedHosts) : t.HeardLast before after := by
  intro mid act rest w hafter hcheck hlast _ i hi _
  let heard := (mid ++ [act]).filterMap Action.checkedHost?
  have hlength : heard.length = t.cluster.awaitedHosts.length := by
    rw [Action.length_filterMap_checkedHost?, List.countP_append, List.countP_singleton, if_pos hcheck,
      hlast]
  have hfirst : (after.filterMap Action.checkedHost?).take t.cluster.awaitedHosts.length = heard := by
    rw [hafter, List.append_cons, List.filterMap_append, ← hlength, List.take_left]
  rw [hfirst] at hnodup hsub
  have hperm : heard.Perm t.cluster.awaitedHosts :=
    (List.subperm_of_subset hnodup hsub).perm_of_length_le (Nat.le_of_eq hlength.symm)
  rw [List.append_assoc, Action.reported_append hchecker]
  exact List.mem_append_right _ (hperm.mem_iff.2 hi)

/-- A cluster that is checked when the work before initialization ends in `t`, and for which a callback
waits, never says too early that it is initialized exactly if the last of the awaited checks finds every
awaited host reported; so it is whenever the awaited checks are of different awaited hosts. -/
theorem punctual_iff (hrun : run before (opened τ source config) = .done s)
    (hnot : s.cluster.started = false) (hact : perform act s = .done t)
    (hstarted : t.cluster.started = true) (hasked : s.cluster.waiting = true ∨ act = .start)
    (hchecker : t.cluster.hasChecker = true) (after : List Action) :
    (t.Punctual (before ++ [act]) after ↔ t.HeardLast (before ++ [act]) after) ∧
      (((after.filterMap Action.checkedHost?).take t.cluster.awaitedHosts.length).Nodup →
        (∀ i ∈ (after.filterMap Action.checkedHost?).take t.cluster.awaitedHosts.length,
          i ∈ t.cluster.awaitedHosts) →
        t.Punctual (before ++ [act]) after) := by
  have hcounting := counting_of_started (preparing_of_run hrun hnot) hact hstarted
  have hchecks : t.cluster.firstChecks = t.cluster.awaitedHosts.length := if_pos hchecker
  rw [hchecks] at hcounting
  have hiff : t.Punctual (before ++ [act]) after ↔ t.HeardLast (before ++ [act]) after := by
    constructor
    · intro h mid b rest w hafter hcheck hlast hw
      rw [run_append] at hw
      obtain ⟨v, hv, hb⟩ := Attempt.andThen_eq_done hw
      have hb : perform b v = .done w := (Attempt.each_singleton b v).symm.trans hb
      refine h.later mid b rest v w hafter hv hb ?_
      exact (announced_iff (counting_run hcounting hv) hasked hb).2 ⟨hcheck, by omega⟩
    · intro h
      refine ⟨fun hran i hi _ => ?_, fun mid b rest v w hafter hv hb hran => ?_⟩
      · -- the callback has run at once, so nothing was awaited
        have hzero : t.cluster.awaitedHosts.length = 0 := by
          by_contra hpos
          exact hran (hcounting.unannounced fun hboth => hpos (Nat.le_zero.1 hboth.2))
        rw [List.length_eq_zero_iff] at hzero
        rw [hzero] at hi
        cases hi
      · obtain ⟨hcheck, hlast⟩ := (announced_iff (counting_run hcounting hv) hasked hb).1 hran
        refine h mid b rest w hafter hcheck (by omega) ?_
        rw [run_append, hv]
        exact (Attempt.each_singleton b v).trans hb
  refine ⟨hiff, fun hnodup hsub => hiff.2 (heardLast_of_nodup ?_ hnodup hsub)⟩
  have ht : run (before ++ [act]) (opened τ source config) = .done t := by
    rw [run_append, hrun]
    exact (Attempt.each_singleton act s).trans hact
  exact setChecker_mem_of_run ht rfl hchecker

/-- The regions, once they wait for their first checks. -/
def waitingRegions : Service Rat :=
  (run [.setChecker, .start] (opened Rat .configured twoRegions)).state

/-- Both hosts pass a check, and the first of them one more. -/
theorem punctual_waitingRegions :
    waitingRegions.Punctual [.setChecker, .start] [.pass 1, .pass 0, .pass 0] := by
  have hrun : run [.setChecker] (opened Rat .configured twoRegions) =
      .done (run [.setChecker] (opened Rat .configured twoRegions)).state := rfl
  have hstart : perform .start (run [.setChecker] (opened Rat .configured twoRegions)).state =
      .done waitingRegions := rfl
  obtain ⟨_, hpunctual⟩ :=
    punctual_iff hrun rfl hstart rfl (.inr rfl) rfl [.pass 1, .pass 0, .pass 0]
  refine hpunctual ?_ ?_
  · show [1, 0].Nodup
    decide
  · show ∀ i ∈ [1, 0], i ∈ [0, 1]
    decide

/-- The first host passes two checks, and the second none. -/
theorem unpunctual_waitingRegions :
    perform .start (run [.setChecker] (opened Rat .configured twoRegions)).state =
        .done waitingRegions ∧ waitingRegions.cluster.hasChecker = true ∧
      ¬ waitingRegions.Punctual [.setChecker, .start] [.pass 0, .pass 0] := by
  refine ⟨rfl, rfl, fun h => ?_⟩
  have hran : (run [.pass 0, .pass 0] waitingRegions).state.cluster.announcements ≠
      (run [.pass 0] waitingRegions).state.cluster.announcements := by decide
  have hheard := h.later [.pass 0] (.pass 0) [] _ _ rfl rfl rfl hran 1
  have hreported : 1 ∈ [0, 0] := hheard (show 1 ∈ [0, 1] by decide) ⟨0, show 1 ∈ [0, 1] by decide⟩
  exact absurd hreported (by decide)

end Service

end Roster
