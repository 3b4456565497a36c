import Roster.Proofs.Current
import Roster.Proofs.Localities
import Roster.Proofs.Silence

/-!
# Roster.Proofs.Initializing

What a cluster remembers of its initialization, and what a check and the end of the work before
initialization make of it.

* `announcements` — how often the initialization callback ran.
* `awaitedHosts` — the installed hosts that are checked actively; `firstChecks` — how many checks the
  callback waits for.
* `Announces`  — the callback has just run, after every level was split anew.
* `Preparing`  — the work before initialization has not ended.
* `Counting`   — it has, and the first checks are counted.
* `counting_preInitDone`, `Counting.completeCheck` — how counting begins, and what a check does to it.
-/

namespace Roster

namespace PrioritySet

variable {τ : Type} [Quantity τ]

/-! ## Members -/

def hostLists (ps : PrioritySet τ) : List (List HostId) := ps.levels.map Level.hosts

omit [Quantity τ] in
theorem hostLists_getElem? (ps : PrioritySet τ) (p : Nat) :
    ps.hostLists[p]? = (ps.generation? p).map Generation.hosts := by
  simp only [hostLists, generation?, level?, List.getElem?_map, Option.map_map]
  rfl

theorem hostLists_reloadLevel (ps : PrioritySet τ) (store : HostStore) (p : Nat) :
    (Cluster.reloadLevel store ps p).hostLists = ps.hostLists := by
  refine List.ext_getElem? fun q => ?_
  rw [hostLists_getElem?, hostLists_getElem?]
  unfold Cluster.reloadLevel
  cases hl : ps.level? p with
  | none => rfl
  | some l =>
    have hp : p < ps.levels.length := (List.getElem?_eq_some_iff.1 hl).1
    rw [generation?_congr (hears_notifyMembers [] [] _).installation, generation?_put hp]
    by_cases hq : q = p
    · subst hq
      rw [generation?_install_self hl, generation?, hl]
      rfl
    · rw [generation?_install_of_ne ps hq]

theorem hostLists_reloadAll (ps : PrioritySet τ) (store : HostStore) (levels : List Nat) :
    (levels.foldl (Cluster.reloadLevel store) ps).hostLists = ps.hostLists := by
  induction levels generalizing ps with
  | nil => rfl
  | cons p levels ih => exact (ih _).trans (hostLists_reloadLevel ps store p)

end PrioritySet

/-! ## What a cluster remembers -/

namespace Cluster

variable {τ : Type} {c d e : Cluster τ}

/-- How often the initialization callback ran. -/
def announcements (c : Cluster τ) : Nat := c.priorities.journal.events.count .initialized

theorem announcements_announce (c : Cluster τ) : c.announce.announcements = c.announcements + 1 := by
  simp only [announcements, announce, PrioritySet.writeEvent, List.count_append,
    List.count_singleton_self]

/-- The installed hosts that are checked actively, by ascending priority. -/
def awaitedHosts (c : Cluster τ) : List HostId :=
  c.priorities.levels.flatMap fun l => l.hosts.filter fun id => !(c.hosts.get id).disableActiveCheck

theorem length_awaitedHosts (c : Cluster τ) : c.awaitedHosts.length = c.checkedHosts := rfl

/-- How many first checks initialization would wait for if the work before it ended now: one for each
installed host that is checked actively, as long as there is a checker. -/
def firstChecks (c : Cluster τ) : Nat := if c.hasChecker then c.awaitedHosts.length else 0

/-- Nothing about initialization is different. -/
structure SameStage (c d : Cluster τ) : Prop where
  started : d.started = c.started
  waiting : d.waiting = c.waiting
  awaited : d.awaited = c.awaited
  checker? : d.checker? = c.checker?
  silent : PrioritySet.Silent c.priorities d.priorities

namespace SameStage

theorem refl (c : Cluster τ) : SameStage c c := ⟨rfl, rfl, rfl, rfl, .refl _⟩

theorem trans (h₁ : SameStage c d) (h₂ : SameStage d e) : SameStage c e :=
  ⟨h₂.started.trans h₁.started, h₂.waiting.trans h₁.waiting, h₂.awaited.trans h₁.awaited,
    h₂.checker?.trans h₁.checker?, h₁.silent.trans h₂.silent⟩

theorem announcements (h : SameStage c d) : d.announcements = c.announcements := h.silent.count

end SameStage

/-- The work before initialization has not ended. -/
structure Preparing (c : Cluster τ) : Prop where
  started : c.started = false
  awaited : c.awaited = 0
  announcements : c.announcements = 0
  checker? : c.checker? = none ∨ c.checker? = some [.reload]

/-- The work before initialization has ended, with `n` first checks to wait for, of which `k` or more
were made; `asked` says that a callback was to run. -/
structure Counting (asked : Prop) (n k : Nat) (c : Cluster τ) : Prop where
  started : c.started = true
  awaited : c.awaited = n - k
  waiting : c.waiting = true ↔ asked ∧ k < n
  announced : asked → n ≤ k → c.announcements = 1
  unannounced : ¬ (asked ∧ n ≤ k) → c.announcements = 0
  checker? : 0 < n → c.checker? = some [.reload, .countdown]

namespace Preparing

theorem sameStage (h : c.Preparing) (hd : SameStage c d) : d.Preparing :=
  ⟨hd.started.trans h.started, hd.awaited.trans h.awaited, hd.announcements.trans h.announcements,
    hd.checker? ▸ h.checker?⟩

end Preparing

namespace Counting

variable {asked : Prop} {n k : Nat}

theorem sameStage (h : c.Counting asked n k) (hd : SameStage c d) : d.Counting asked n k :=
  ⟨hd.started.trans h.started, hd.awaited.trans h.awaited, by rw [hd.waiting]; exact h.waiting,
    by rw [hd.announcements]; exact h.announced, by rw [hd.announcements]; exact h.unannounced,
    by rw [hd.checker?]; exact h.checker?⟩

theorem congr {asked' : Prop} (h : c.Counting asked n k) (hasked : asked ↔ asked') :
    c.Counting asked' n k :=
  propext hasked ▸ h

theorem succ_of_awaited (h : c.Counting asked n k) (hc : c.awaited = 0) :
    c.Counting asked n (k + 1) := by
  have hn : n ≤ k := by
    have := h.awaited
    omega
  refine ⟨h.started, by omega, h.waiting.trans ?_, fun ha _ => h.announced ha hn, fun ha => ?_,
    h.checker?⟩
  · constructor <;> rintro ⟨_, hlt⟩ <;> omega
  · exact h.unannounced fun hboth => ha ⟨hboth.1, by omega⟩

end Counting

variable [Quantity τ]

theorem sameStage_reload (c : Cluster τ) : SameStage c c.reload := by
  unfold reload
  split
  · exact .refl c
  · exact ⟨rfl, rfl, rfl, rfl, PrioritySet.silent_reloadAll _ _ _⟩

theorem sameStage_onReload (c : Cluster τ) (transition : Transition) :
    SameStage c (onCheck transition c .reload) := by
  simp only [onCheck]
  split
  · exact sameStage_reload c
  · exact .refl c

theorem sameStage_installDraft {draft : Draft} {p : Nat} (h : installDraft draft p c = .done d) :
    SameStage c d := by
  rw [installDraft_eq] at h
  obtain ⟨ps, hps, rfl⟩ := Attempt.map_eq_done h
  exact ⟨rfl, rfl, rfl, rfl, PrioritySet.silent_update hps⟩

theorem sameStage_installConfigured (h : c.installConfigured = .done d) :
    ∃ e, SameStage c e ∧ d = e.preInitDone := by
  obtain ⟨store, _, e, _, heach, rfl⟩ := installConfigured_eq_done h
  have hstart : SameStage c { c with hosts := store } := ⟨rfl, rfl, rfl, rfl, .refl _⟩
  exact ⟨e, Attempt.each_keeps (fun _ _ _ _ hc hp => hc.trans (sameStage_installDraft hp)) hstart heach,
    rfl⟩

/-- The hosts, and who is installed where, are the same. -/
structure SameMembers (c d : Cluster τ) : Prop where
  hosts : d.hosts = c.hosts
  hasChecker : d.hasChecker = c.hasChecker
  lists : d.priorities.hostLists = c.priorities.hostLists

namespace SameMembers

omit [Quantity τ] in
theorem trans (h₁ : SameMembers c d) (h₂ : SameMembers d e) : SameMembers c e :=
  ⟨h₂.hosts.trans h₁.hosts, h₂.hasChecker.trans h₁.hasChecker, h₂.lists.trans h₁.lists⟩

omit [Quantity τ] in
theorem checkedHosts (h : SameMembers c d) : d.checkedHosts = c.checkedHosts := by
  have heq : ∀ e : Cluster τ, e.checkedHosts = (e.priorities.hostLists.flatMap fun ids =>
      ids.filter fun id => !(e.hosts.get id).disableActiveCheck).length := fun e => by
    simp only [Cluster.checkedHosts, PrioritySet.hostLists, List.flatMap_map]
  rw [heq, heq, h.hosts, h.lists]

omit [Quantity τ] in
theorem firstChecks (h : SameMembers c d) : d.firstChecks = c.firstChecks := by
  rw [Cluster.firstChecks, Cluster.firstChecks, length_awaitedHosts, length_awaitedHosts, h.hasChecker,
    h.checkedHosts]

end SameMembers

theorem sameMembers_reload (c : Cluster τ) : SameMembers c c.reload := by
  unfold reload
  split
  · exact ⟨rfl, rfl, rfl⟩
  · exact ⟨rfl, rfl, PrioritySet.hostLists_reloadAll _ _ _⟩

theorem sameMembers_finishInit (c : Cluster τ) : SameMembers c c.finishInit := by
  have hreload := sameMembers_reload ({ c with waiting := false } : Cluster τ)
  simp only [finishInit]
  split <;> split
  · exact ⟨hreload.hosts, hreload.hasChecker, hreload.lists⟩
  · exact ⟨rfl, rfl, rfl⟩
  · exact ⟨hreload.hosts, hreload.hasChecker, hreload.lists⟩
  · exact ⟨rfl, rfl, rfl⟩

omit [Quantity τ] in
theorem sameMembers_beginChecks (c : Cluster τ) : SameMembers c c.beginChecks := by
  have hquiet := quiet_beginChecks c
  exact ⟨hquiet.hosts, hquiet.hasChecker, congrArg PrioritySet.hostLists (priorities_beginChecks c)⟩

theorem sameMembers_preInitDone (c : Cluster τ) : SameMembers c c.preInitDone := by
  have hbegin := sameMembers_beginChecks ({ c with started := true } : Cluster τ)
  have hbegin : SameMembers c ({ c with started := true } : Cluster τ).beginChecks :=
    ⟨hbegin.hosts, hbegin.hasChecker, hbegin.lists⟩
  simp only [preInitDone]
  split
  · exact ⟨rfl, rfl, rfl⟩
  · split
    · exact hbegin.trans (sameMembers_finishInit _)
    · exact hbegin

/-! ## The end of initialization -/

/-- In `d` the callback has just run; with a checker every level was split anew before that. -/
structure Announces (c d : Cluster τ) : Prop where
  once : d.announcements = c.announcements + 1
  last : d.priorities.journal.events.getLast? = some .initialized
  waiting : d.waiting = false
  split : d.hasChecker = true →
    ∀ p g, d.priorities.generation? p = some g → g.Sorted d.hosts

theorem sameStage_finishInit (h : c.waiting = false) : SameStage c c.finishInit := by
  have hover : ({ c with waiting := false } : Cluster τ) = c := by rw [← h]
  simp only [finishInit, hover, h, Bool.false_eq_true, if_false]
  split
  · exact sameStage_reload c
  · exact .refl c

theorem announces_finishInit (h : c.waiting = true) :
    Announces c c.finishInit ∧ c.finishInit.started = c.started ∧
      c.finishInit.awaited = c.awaited ∧ c.finishInit.checker? = c.checker? := by
  let ended : Cluster τ := { c with waiting := false }
  have hreload : SameStage ended (if ended.hasChecker then ended.reload else ended) := by
    split
    · exact sameStage_reload ended
    · exact .refl ended
  have hsplit : ended.hasChecker = true → ∀ p g,
      (if ended.hasChecker then ended.reload else ended).priorities.generation? p = some g →
        g.Sorted (if ended.hasChecker then ended.reload else ended).hosts := by
    intro hchecker p g hg
    rw [if_pos hchecker] at hg ⊢
    exact Generation.isSplit_iff.1 (isSplit_reload rfl hg)
  have hdone : c.finishInit = (if ended.hasChecker then ended.reload else ended).announce := by
    simp only [finishInit, h, if_true]
    rfl
  have hchecker : c.finishInit.checker? = c.checker? := by
    rw [hdone]
    exact hreload.checker?
  refine ⟨⟨?_, ?_, ?_, fun hhas => ?_⟩, ?_, ?_, hchecker⟩
  · have hcount : ended.announcements = c.announcements := rfl
    rw [← hcount, ← hreload.announcements, hdone, announcements_announce]
  · rw [hdone]
    simp only [announce, PrioritySet.writeEvent, List.getLast?_concat]
  · rw [hdone]
    exact hreload.waiting
  · have hover : ended.hasChecker = true := by
      rw [← hhas, hasChecker, hasChecker, hchecker]
    rw [hdone]
    exact hsplit hover
  · rw [hdone]
    exact hreload.started
  · rw [hdone]
    exact hreload.awaited

theorem sameStage_completeCheck (h : c.awaited = 0) (transition : Transition) :
    SameStage c (c.completeCheck transition) := by
  have hone : ∀ d o, SameStage c d → SameStage c (onCheck transition d o) := by
    intro d o hd
    cases o with
    | reload => exact hd.trans (sameStage_onReload d transition)
    | countdown => simpa only [onCheck, countCheck, hd.awaited.trans h] using hd
  rw [completeCheck]
  generalize c.checker?.getD [] = observers
  suffices ∀ d, SameStage c d → SameStage c (observers.foldl (onCheck transition) d) from
    this c (.refl c)
  induction observers with
  | nil => exact fun d hd => hd
  | cons o observers ih => exact fun d hd => ih _ (hone d o hd)

omit [Quantity τ] in
theorem Announces.congr (h : Announces d e) (hcd : d.announcements = c.announcements) :
    Announces c e :=
  ⟨h.once.trans (congrArg (· + 1) hcd), h.last, h.waiting, h.split⟩

theorem announces_of_ne (h : c.finishInit.announcements ≠ c.announcements) :
    Announces c c.finishInit := by
  cases hask : c.waiting with
  | true => exact (announces_finishInit hask).1
  | false => exact absurd (sameStage_finishInit hask).announcements h

theorem onReload_of_waiting (h : c.waiting = true) (transition : Transition) :
    onCheck transition c .reload = c := by
  simp only [onCheck, reload, h, if_true, ite_self]

/-! ## Counting -/

variable {asked : Prop} {n k : Nat}

theorem counting_finishInit (hstarted : c.started = true) (hawaited : c.awaited = 0)
    (hwaiting : c.waiting = true ↔ asked) (hnone : c.announcements = 0) (hn : n ≤ k)
    (hchecker : 0 < n → c.checker? = some [.reload, .countdown]) :
    c.finishInit.Counting asked n k := by
  have hover : ¬ (asked ∧ k < n) := fun hboth => by omega
  cases hask : c.waiting with
  | true =>
    obtain ⟨hdone, hstarted', hawaited', hchecker'⟩ := announces_finishInit hask
    refine ⟨hstarted'.trans hstarted, by omega, ?_, ?_, ?_, fun hpos => hchecker'.trans (hchecker hpos)⟩
    · rw [hdone.waiting]
      exact ⟨fun h => (by cases h), fun h => absurd h hover⟩
    · intro _ _
      rw [hdone.once, hnone]
    · exact fun hnot => absurd ⟨hwaiting.1 hask, hn⟩ hnot
  | false =>
    have hdone := sameStage_finishInit hask
    have hnot : ¬ asked := fun hasked => by
      rw [hwaiting.2 hasked] at hask
      cases hask
    refine ⟨hdone.started.trans hstarted, by rw [hdone.awaited]; omega, ?_, fun h => absurd h hnot,
      fun _ => hdone.announcements.trans hnone, fun hpos => hdone.checker?.trans (hchecker hpos)⟩
    rw [hdone.waiting, hask]
    exact ⟨fun h => (by cases h), fun h => absurd h hover⟩

/-- What a check does: the levels are reloaded, unless the callback waits, and then the check is
counted; the last one that is awaited ends initialization. -/
theorem Counting.completeCheck_cases (h : c.Counting asked n k) (transition : Transition) :
    ∃ d, SameStage c d ∧ (c.waiting = true → d = c) ∧
      (c.awaited = 0 ∧ c.completeCheck transition = d ∨
        c.awaited = 1 ∧ c.completeCheck transition = ({ d with awaited := 0 } : Cluster τ).finishInit ∨
        ∃ m, c.awaited = m + 2 ∧ c.completeCheck transition = { d with awaited := m + 1 }) := by
  have hawaited := h.awaited
  cases hleft : c.awaited with
  | zero =>
    refine ⟨_, sameStage_completeCheck hleft transition, fun hask => ?_, .inl ⟨rfl, rfl⟩⟩
    have := h.waiting.1 hask
    omega
  | succ m =>
    have hd := sameStage_onReload c transition
    have hcheck : c.completeCheck transition = (onCheck transition c .reload).countCheck := by
      rw [Cluster.completeCheck, h.checker? (by omega)]
      rfl
    rw [countCheck, hd.awaited, hleft] at hcheck
    refine ⟨_, hd, fun hask => onReload_of_waiting hask transition, .inr ?_⟩
    cases m with
    | zero => exact .inl ⟨rfl, hcheck⟩
    | succ m => exact .inr ⟨m, rfl, hcheck⟩

theorem Counting.completeCheck (h : c.Counting asked n k) (transition : Transition) :
    (c.completeCheck transition).Counting asked n (k + 1) := by
  have hawaited := h.awaited
  obtain ⟨d, hd, _, ⟨hleft, hcheck⟩ | ⟨hleft, hcheck⟩ | ⟨m, hleft, hcheck⟩⟩ :=
    h.completeCheck_cases transition
  · rw [hcheck]
    exact (h.succ_of_awaited hleft).sameStage hd
  · have hcounting : d.Counting asked n k := h.sameStage hd
    rw [hcheck]
    refine counting_finishInit hcounting.started rfl (hcounting.waiting.trans ?_)
      (hcounting.unannounced fun hboth => by omega) (by omega) hcounting.checker?
    exact ⟨fun hboth => hboth.1, fun hasked => ⟨hasked, by omega⟩⟩
  · have hcounting : d.Counting asked n k := h.sameStage hd
    rw [hcheck]
    refine ⟨hcounting.started, show m + 1 = _ by omega, hcounting.waiting.trans ?_, fun _ hn => by omega,
      fun _ => hcounting.unannounced fun hboth => by omega, hcounting.checker?⟩
    constructor <;> rintro ⟨hasked, _⟩ <;> exact ⟨hasked, by omega⟩

theorem Counting.announces_completeCheck (h : c.Counting asked n k) (transition : Transition)
    (hmore : (c.completeCheck transition).announcements ≠ c.announcements) :
    Announces c (c.completeCheck transition) := by
  obtain ⟨d, hd, _, ⟨_, hcheck⟩ | ⟨_, hcheck⟩ | ⟨m, _, hcheck⟩⟩ := h.completeCheck_cases transition
  · rw [hcheck] at hmore
    exact absurd hd.announcements hmore
  · have hover : ({ d with awaited := 0 } : Cluster τ).announcements = c.announcements :=
      hd.announcements
    rw [hcheck] at hmore ⊢
    exact (announces_of_ne fun h => hmore (h.trans hover)).congr hover
  · rw [hcheck] at hmore
    exact absurd hd.announcements hmore

/-- As long as the callback waits for more than one check, a check changes no level and tells nobody. -/
theorem Counting.priorities_completeCheck (h : c.Counting asked n k) (hask : c.waiting = true)
    (hmore : c.awaited ≠ 1) (transition : Transition) :
    (c.completeCheck transition).priorities = c.priorities := by
  obtain ⟨d, _, hsame, ⟨_, hcheck⟩ | ⟨hleft, _⟩ | ⟨m, _, hcheck⟩⟩ := h.completeCheck_cases transition
  · rw [hcheck, hsame hask]
  · exact absurd hleft hmore
  · rw [hcheck, hsame hask]

omit [Quantity τ] in
theorem stage_beginChecks (hawaited : c.awaited = 0)
    (hchecker : c.checker? = none ∨ c.checker? = some [.reload]) :
    c.beginChecks.started = c.started ∧ c.beginChecks.waiting = c.waiting ∧
      c.beginChecks.awaited = c.firstChecks ∧ c.beginChecks.announcements = c.announcements ∧
      (0 < c.firstChecks → c.beginChecks.checker? = some [.reload, .countdown]) := by
  rcases hchecker with hchecker | hchecker
  · have hchecks : c.firstChecks = 0 := by simp [firstChecks, hasChecker, hchecker]
    have hbegin : c.beginChecks = c := by simp only [beginChecks, hchecker]
    rw [hbegin, hchecks]
    exact ⟨rfl, rfl, hawaited, rfl, fun hpos => absurd hpos (Nat.lt_irrefl 0)⟩
  · have hchecks : c.firstChecks = c.checkedHosts := by
      simp [firstChecks, hasChecker, hchecker, length_awaitedHosts]
    have hbegin : c.beginChecks =
        { c with awaited := c.checkedHosts, checker? := some [.reload, .countdown] } := by
      simp only [beginChecks, hchecker, hawaited, if_true]
      rfl
    rw [hbegin, hchecks]
    exact ⟨rfl, rfl, rfl, rfl, fun _ => rfl⟩

/-- How counting begins. -/
theorem Preparing.counting_preInitDone (h : c.Preparing) :
    c.preInitDone.Counting (c.waiting = true) c.firstChecks 0 := by
  obtain ⟨hstarted, hwaiting, hawaited, hnone, hchecker⟩ :=
    stage_beginChecks (c := { c with started := true }) h.awaited h.checker?
  have hnone := hnone.trans h.announcements
  have hawaited : _ = c.firstChecks := hawaited
  simp only [preInitDone, if_neg (Bool.eq_false_iff.1 h.started)]
  split
  · rename_i hzero
    exact counting_finishInit hstarted hzero (by rw [hwaiting]) hnone
      (Nat.le_of_eq (hawaited.symm.trans hzero)) hchecker
  · rename_i hpos
    have hpos : 0 < c.firstChecks := by omega
    refine ⟨hstarted, hawaited, ?_, fun _ hn => absurd hpos (by omega), fun _ => hnone, hchecker⟩
    rw [hwaiting]
    exact ⟨fun hask => ⟨hask, hpos⟩, fun hboth => hboth.1⟩

/-- With a checker that only reloads, a check changes no level and tells nobody as long as the callback
waits. -/
theorem Preparing.completeCheck (h : c.Preparing) (hask : c.waiting = true) (transition : Transition) :
    c.completeCheck transition = c := by
  rcases h.checker? with hchecker | hchecker
  · simp only [Cluster.completeCheck, hchecker, Option.getD_none, List.foldl_nil]
  · simp only [Cluster.completeCheck, hchecker, Option.getD_some, List.foldl_cons, List.foldl_nil,
      onReload_of_waiting hask]

theorem Preparing.announces_preInitDone (h : c.Preparing)
    (hmore : c.preInitDone.announcements ≠ c.announcements) : Announces c c.preInitDone := by
  obtain ⟨_, _, _, hnone, _⟩ :=
    stage_beginChecks (c := { c with started := true }) h.awaited h.checker?
  have hnone : _ = c.announcements := hnone
  simp only [preInitDone, if_neg (Bool.eq_false_iff.1 h.started)] at hmore ⊢
  split at hmore
  · rename_i hzero
    rw [if_pos hzero]
    exact (announces_of_ne fun h => hmore (h.trans hnone)).congr hnone
  · exact absurd hnone hmore

end Cluster

end Roster
