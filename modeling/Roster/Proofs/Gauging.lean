import Mathlib.Algebra.GroupWithZero.Nat
import Roster.Proofs.Leading
import Roster.Proofs.Stepping

/-!
# Roster.Proofs.Gauging

The gauges of the members are exact, since whatever installs, tells, and the census is told first.

* `tally`  — what the census has to be.
* `Aside`  — a change that neither installs nor counts; every pass is one.
* `Exact`  — the census is what it has to be; kept by every pass, and by every installation.
* `Counts` — so after each installation of a course, and for everyone who is told of it.
* `Gauges` — so in a run of a cluster.
-/

namespace Roster

/-- Whether an installation reports that somebody was added or removed. -/
def Moment.isChange {τ : Type} (m : Moment τ) : Bool :=
  m.update.added ≠ [] ∨ m.update.removed ≠ []

namespace PrioritySet

variable {τ : Type} {ps qs : PrioritySet τ}

/-! ## Counting -/

def partitions (ps : PrioritySet τ) : List Partition := ps.levels.map fun l => l.generation.partition

/-- What the census has to be: the members that are installed, and the changes so far. -/
def tally (ps : PrioritySet τ) (changes : Nat) : Census :=
  { total := (ps.partitions.map fun q => q.hosts.length).sum
    healthy := (ps.partitions.map fun q => q.healthy.length).sum
    degraded := (ps.partitions.map fun q => q.degraded.length).sum
    excluded := (ps.partitions.map fun q => q.excluded.length).sum
    changes }

theorem recount_eq (ps : PrioritySet τ) (added removed : List HostId) :
    ps.recount added removed =
      ps.tally (ps.journal.census.changes + if added = [] ∧ removed = [] then 0 else 1) := by
  simp only [recount, tally, partitions, List.length_flatMap, List.map_map]
  rfl

theorem tally_congr (h : qs.partitions = ps.partitions) (changes : Nat) :
    qs.tally changes = ps.tally changes := by
  simp only [tally, h]

theorem partitions_of_installation (h : qs.installation = ps.installation) :
    qs.partitions = ps.partitions := by
  have hgenerations := congrArg
    (fun i : Installation τ => i.generations.map fun g => g.2.partition) h
  simpa only [installation, partitions, List.map_map, Function.comp_def] using hgenerations

variable [Quantity τ]

theorem tally_ensureLevel (ps : PrioritySet τ) (p : Nat) (factor? : Option Nat) (changes : Nat) :
    (ps.ensureLevel p factor?).tally changes = ps.tally changes := by
  have hmade : ∃ n, (ps.ensureLevel p factor?).partitions =
      ps.partitions ++ List.replicate n ({} : Partition) := by
    unfold ensureLevel
    split
    · exact ⟨0, (List.append_nil _).symm⟩
    · refine ⟨p + 1 - ps.levels.length, ?_⟩
      simp only [partitions, List.map_append, List.map_map]
      refine congrArg _ (List.eq_replicate_iff.2 ⟨by simp, fun q hq => ?_⟩)
      obtain ⟨i, _, rfl⟩ := List.mem_map.1 hq
      rfl
  obtain ⟨n, hmade⟩ := hmade
  simp [tally, hmade]

omit [Quantity τ] in
theorem partitions_share (h : ps.Regular) {p : Nat} {l : Level τ} (hl : ps.level? p = some l)
    {g : Generation τ} (hmoved : l.generation.Reschedules g) :
    (({ priorities := ps } : Readers τ).share g).priorities.partitions = ps.partitions := by
  simp only [partitions, Readers.share, List.map_map]
  refine List.map_congr_left fun k hk => ?_
  simp only [Function.comp]
  split
  · case isTrue hsame =>
    obtain ⟨q, hq⟩ := List.mem_iff_getElem?.1 hk
    rw [eq_of_stamp_eq h hl hq (hsame.trans hmoved.stamp)]
    exact hmoved.partition
  · rfl

/-! ## Passes -/

theorem Regular.putLevel (h : ps.Regular) (u : Update) : (ps.putLevel u).Regular :=
  (rests_notifyLevel (h.install u).forwards u.priority u.added u.removed).regular (h.install u)

/-- A change that neither installs nor counts. -/
structure Aside (ps qs : PrioritySet τ) : Prop where
  tally : ∀ changes, qs.tally changes = ps.tally changes
  census : qs.journal.census = ps.journal.census
  events : ∃ new, qs.journal.events = ps.journal.events ++ new ∧
    ∀ e ∈ new, ∀ n p added removed c, e ≠ .level n p added removed c
  led : ps.enrollment.Led → qs.enrollment.Led
  regular : qs.Regular

omit [Quantity τ] in
theorem aside_of_partitions (hpartitions : qs.partitions = ps.partitions)
    (hjournal : qs.journal = ps.journal) (hled : ps.enrollment.Led → qs.enrollment.Led)
    (hregular : qs.Regular) : Aside ps qs :=
  ⟨tally_congr hpartitions, by rw [hjournal], ⟨[], by rw [hjournal, List.append_nil], by simp⟩, hled,
    hregular⟩

theorem led_ensureLevel (hled : ps.enrollment.Led) (p : Nat) (factor? : Option Nat) :
    (ps.ensureLevel p factor?).enrollment.Led := by
  rw [enrollment_ensureLevel]
  refine ⟨hled.priorities, fun o ho => ?_, hled.priorityTokens, hled.levelTokens⟩
  rcases List.mem_append.1 ho with ho | ho
  · exact hled.levels o ho
  · rw [List.eq_of_mem_replicate ho]
    exact Observers.LedBy.single LevelObserver.forward

theorem aside_pass (h : ps.Regular) (hpass : Pass ps qs) : Aside ps qs := by
  cases hpass with
  | reindex store u =>
    exact aside_of_partitions rfl rfl (fun hled => hled.mono rfl rfl fun _ hk => hk)
      (h.reindex store u)
  | readMap =>
    exact aside_of_partitions rfl rfl (fun hled => hled.mono rfl rfl fun _ hk => hk)
      ((hears_readMap ps).regular h)
  | @ensureLevel p factor? _ =>
    exact ⟨tally_ensureLevel ps p factor?, by rw [journal_ensureLevel],
      ⟨[], by rw [journal_ensureLevel, List.append_nil], by simp⟩,
      fun hled => led_ensureLevel hled p factor?, h.ensureLevel p factor?⟩
  | @stray u hu =>
    have hregular := h.putLevel u
    rw [putLevel_stray hu] at hregular ⊢
    exact aside_of_partitions rfl rfl (fun hled => hled.mono rfl rfl fun _ hk => hk) hregular
  | notifyMembers added removed =>
    obtain ⟨new, hnew, hmembers⟩ := minds_notifyMembers ps added removed
    refine ⟨tally_congr (partitions_of_installation hnew.installation), hnew.census,
      ⟨new, hnew.events, fun e he => ?_⟩, hnew.led, hnew.toHears.regular h⟩
    obtain ⟨n, size, rfl⟩ := hmembers e he
    simp
  | announce =>
    exact ⟨fun _ => rfl, rfl, ⟨[.initialized], rfl, by simp⟩,
      fun hled => hled.mono rfl rfl fun _ hk => hk, (hears_writeEvent ps .initialized).regular h⟩
  | @choose p l kind n answers g hl hchoose =>
    exact aside_of_partitions (partitions_share h hl (reschedules_chooseMany hchoose)) rfl
      (fun hled => (enrollment_share ps g).symm ▸ hled) (regular_share h g)
  | watchMembers drops =>
    exact aside_of_partitions rfl rfl (fun hled => led_watchMembers hled drops)
      ((rests_watchMembers ps drops).regular h)
  | watchPriorities drops =>
    exact aside_of_partitions rfl rfl (fun hled => led_watchPriorities hled drops)
      ((rests_watchPriorities ps drops).regular h)
  | watchLevel p drops =>
    refine aside_of_partitions (partitions_of_installation (installation_watchLevel ps p drops)) ?_
      (fun hled => led_watchLevel hled p drops) ((rests_watchLevel ps p drops).regular h)
    unfold watchLevel
    split <;> rfl
  | dropWatch number =>
    exact aside_of_partitions (partitions_of_installation (installation_dropWatch ps number))
      (journal_dropWatch ps number) (fun hled => led_dropWatch hled number)
      ((rests_dropWatch ps number).regular h)

/-- The census is what it has to be, and will be taken first. -/
structure Exact (ps : PrioritySet τ) (changes : Nat) : Prop where
  census : ps.journal.census = ps.tally changes
  led : ps.enrollment.Led
  regular : ps.Regular

theorem Exact.pass {changes : Nat} (h : ps.Exact changes) (hpass : Pass ps qs) : qs.Exact changes := by
  have haside := aside_pass h.regular hpass
  exact ⟨by rw [haside.census, h.census, haside.tally], haside.led h.led, haside.regular⟩

end PrioritySet

/-! ## Installations -/

namespace Moment

variable {τ : Type} [Quantity τ]

/-- The levels with what is installed, when those who are told of it are told. -/
def installed (m : Moment τ) : PrioritySet τ := m.before.install m.update

/-- What watch `n` writes of an installation. -/
def report (m : Moment τ) (changes n : Nat) : Event :=
  .level n m.update.priority m.update.added m.update.removed (m.installed.tally changes)

/-- The census is exact after an installation, and for everyone who is told of it. -/
structure Gauged (m : Moment τ) (changes : Nat) : Prop where
  after : m.after.journal.census = m.after.tally changes
  told : ∃ new, m.after.journal.events = m.before.journal.events ++ new ∧
    ∀ e ∈ new, ∃ n, e = m.report changes n

end Moment

namespace PrioritySet

variable {τ : Type} [Quantity τ] {ps qs : PrioritySet τ} {ms : List (Moment τ)} {changes : Nat}

theorem Exact.putLevel (h : ps.Exact changes) {u : Update} (hu : u.priority < ps.levels.length) :
    (ps.putLevel u).Exact (changes + [(⟨ps, u⟩ : Moment τ)].countP Moment.isChange) ∧
      (⟨ps, u⟩ : Moment τ).Gauged (changes + [(⟨ps, u⟩ : Moment τ)].countP Moment.isChange) := by
  have hled : (ps.install u).enrollment.Led := (enrollment_install ps u).symm ▸ h.led
  have hlength : u.priority < (ps.install u).levels.length := by
    rw [length_install]
    exact hu
  obtain ⟨new, hnew, hevents⟩ := minds_notifyLevel u.priority u.added u.removed hled hlength
  have hchanges : (ps.install u).journal.census.changes = changes :=
    congrArg Census.changes h.census
  have hcount : (ps.install u).recount u.added u.removed =
      (ps.install u).tally (changes + [(⟨ps, u⟩ : Moment τ)].countP Moment.isChange) := by
    rw [recount_eq, hchanges, List.countP_singleton]
    by_cases hnone : u.added = [] ∧ u.removed = []
    · simp [Moment.isChange, hnone.1, hnone.2]
    · have hsome : u.added ≠ [] ∨ u.removed ≠ [] := not_and_or.1 hnone
      simp [Moment.isChange, hnone, hsome]
  have hpartitions : (ps.putLevel u).partitions = (ps.install u).partitions :=
    partitions_of_installation (installation_notifyLevel _ _ _ _)
  have hcensus : (ps.putLevel u).journal.census =
      (ps.putLevel u).tally (changes + [(⟨ps, u⟩ : Moment τ)].countP Moment.isChange) := by
    rw [tally_congr hpartitions, ← hcount]
    exact hnew.census
  refine ⟨⟨hcensus, hnew.led (hled.mono rfl rfl fun _ hk => hk), h.regular.putLevel u⟩, hcensus,
    new, hnew.events, fun e he => ?_⟩
  obtain ⟨n, rfl⟩ := hevents e he
  exact ⟨n, by rw [hcount]; rfl⟩

/-- What is known of a course of installations that began with `changes` changes. -/
structure Counts (ps : PrioritySet τ) (changes : Nat) (ms : List (Moment τ)) (qs : PrioritySet τ) :
    Prop where
  exact : qs.Exact (changes + ms.countP Moment.isChange)
  each : ∀ before m after, ms = before ++ m :: after →
    m.Gauged (changes + (before ++ [m]).countP Moment.isChange)
  heard : ∀ n p added removed c, Event.level n p added removed c ∈ qs.journal.events →
    Event.level n p added removed c ∈ ps.journal.events ∨
      ∃ before m after, ms = before ++ m :: after ∧ Event.level n p added removed c =
        m.report (changes + (before ++ [m]).countP Moment.isChange) n

theorem Counts.pass {rs : PrioritySet τ} (h : Counts ps changes ms qs) (hpass : Pass qs rs) :
    Counts ps changes ms rs := by
  refine ⟨h.exact.pass hpass, h.each, fun n p added removed c he => ?_⟩
  obtain ⟨new, hevents, hnew⟩ := (aside_pass h.exact.regular hpass).events
  rw [hevents] at he
  rcases List.mem_append.1 he with he | he
  · exact h.heard n p added removed c he
  · exact absurd rfl (hnew _ he n p added removed c)

theorem Counts.install (h : Counts ps changes ms qs) {u : Update}
    (hu : u.priority < qs.levels.length) :
    Counts ps changes (ms ++ [⟨qs, u⟩]) (qs.putLevel u) := by
  obtain ⟨hexact, hgauged⟩ := h.exact.putLevel hu
  rw [Nat.add_assoc, ← List.countP_append] at hexact hgauged
  refine ⟨hexact, fun before m after hsplit => ?_, fun n p added removed c he => ?_⟩
  · rcases List.eq_nil_or_concat after with rfl | ⟨after', m', rfl⟩
    · obtain ⟨rfl, hm⟩ := List.append_inj' hsplit rfl
      cases hm
      exact hgauged
    · rw [List.concat_eq_append, ← List.cons_append, ← List.append_assoc] at hsplit
      exact h.each before m after' (List.append_inj' hsplit rfl).1
  · obtain ⟨new, hevents, hnew⟩ := hgauged.told
    have he : Event.level n p added removed c ∈ qs.journal.events ++ new := hevents ▸ he
    rcases List.mem_append.1 he with he | he
    · refine (h.heard n p added removed c he).imp_right ?_
      rintro ⟨before, m, after, rfl, hreport⟩
      exact ⟨before, m, after ++ [⟨qs, u⟩], by simp, hreport⟩
    · obtain ⟨k, hreport⟩ := hnew _ he
      have hk : n = k := (Event.level.inj hreport).1
      exact .inr ⟨ms, ⟨qs, u⟩, [], rfl, by rw [hreport, hk]⟩

theorem Course.counts (h : ps.Exact changes) (hcourse : Course ps ms qs) :
    Counts ps changes ms qs := by
  induction hcourse with
  | refl =>
    refine ⟨h, fun before m after hsplit => ?_, fun n p added removed c he => .inl he⟩
    exact absurd hsplit.symm (by simp)
  | pass _ hpass ih => exact ih.pass hpass
  | install _ hu _ ih => exact ih.install hu

end PrioritySet

/-! ## Runs -/

/-- The gauges of a cluster that counted so many changes. -/
structure Cluster.Gauged {τ : Type} (c : Cluster τ) (changes : Nat) : Prop where
  total : c.sample .membershipTotal =
    (c.priorities.levels.map fun l => l.generation.partition.hosts.length).sum
  healthy : c.sample .membershipHealthy =
    (c.priorities.levels.map fun l => l.generation.partition.healthy.length).sum
  degraded : c.sample .membershipDegraded =
    (c.priorities.levels.map fun l => l.generation.partition.degraded.length).sum
  excluded : c.sample .membershipExcluded =
    (c.priorities.levels.map fun l => l.generation.partition.excluded.length).sum
  changes : c.sample .membershipChange = changes

namespace Service

variable {τ : Type} [Quantity τ] {s : Service τ} {as : List Action} {source : Source}
  {config : ClusterConfig}

/-- What the gauges of a cluster show along the installations that led to it. -/
structure Gauges (s : Service τ) (ms : List (Moment τ)) : Prop where
  /-- They are exact now, -/
  now : s.cluster.Gauged (ms.countP Moment.isChange)
  /-- after each installation and for those who were told of it, -/
  each : ∀ before m after, ms = before ++ m :: after →
    m.Gauged ((before ++ [m]).countP Moment.isChange)
  /-- and nobody was told of a level otherwise. -/
  heard : ∀ n p added removed c,
    Event.level n p added removed c ∈ s.cluster.priorities.journal.events →
      ∃ before m after, ms = before ++ m :: after ∧
        Event.level n p added removed c = m.report ((before ++ [m]).countP Moment.isChange) n

omit [Quantity τ] in
theorem gauged_of_exact {c : Cluster τ} {changes : Nat} (h : c.priorities.Exact changes) :
    c.Gauged changes := by
  have hcensus := h.census
  refine ⟨?_, ?_, ?_, ?_, ?_⟩
  all_goals
    simp only [Cluster.sample, hcensus, PrioritySet.tally, PrioritySet.partitions, List.map_map,
      Function.comp_def]

theorem exact_opened (source : Source) (config : ClusterConfig) :
    (opened τ source config).cluster.priorities.Exact 0 := by
  have hmade : ((PrioritySet.main : PrioritySet τ).ensureLevel 0 none).Regular :=
    PrioritySet.regular_main.ensureLevel 0 none
  refine ⟨rfl, ⟨.single _, ?_, ?_, ?_⟩, hmade.installed, hmade.forwards.level, hmade.forwards.handles⟩
  · intro o ho
    rw [List.mem_singleton.1 ho]
    exact .single _
  · intro n token hm
    cases hm
  · intro n p token hm
    cases hm

theorem gauges_of_course {ms : List (Moment τ)}
    (hcourse : (opened τ source config).cluster.priorities.Course ms s.cluster.priorities) :
    s.Gauges ms := by
  have hcounts := hcourse.counts (exact_opened source config)
  refine ⟨gauged_of_exact ?_, fun before m after hsplit => ?_, fun n p added removed c he => ?_⟩
  · simpa using hcounts.exact
  · simpa using hcounts.each before m after hsplit
  · rcases hcounts.heard n p added removed c he with hnone | hsome
    · cases hnone
    · simpa using hsome

/-- Whatever happens to a cluster, its gauges are exact after every installation that was made, and for
everyone who was told of it. The installations of the run lead to the state it ends in; so the gauges are
exact along any others that lead there. -/
theorem gauges_conduct (h : conduct as (opened τ source config) = .done s) :
    (opened τ source config).cluster.priorities.Course ((opened τ source config).momentsOf as)
        s.cluster.priorities ∧
      s.Gauges ((opened τ source config).momentsOf as) ∧
      ∀ ms, (opened τ source config).cluster.priorities.Course ms s.cluster.priorities →
        s.Gauges ms :=
  ⟨course_conduct h, gauges_of_course (course_conduct h), fun _ => gauges_of_course⟩

/-- Deliveries, one of them refused, and a caller who makes a level and installs at another. -/
def mingled : List Action :=
  [.start, .watchPriorities [], .deliver (lone 1), .deliver (lone 0), .getOrCreate 1 none,
    .update { priority := 2, partition := { hosts := [0], healthy := [0] }, added := [0] }, .reload]

def mingledState : Service Rat :=
  (conduct mingled (opened Rat .discovered {})).state

/-- The delivery and the caller install one generation each, and the reload one at each of three levels. -/
theorem gauges_mingled :
    conduct mingled (opened Rat .discovered {}) = .done mingledState ∧
      mingledState.cluster.sample .membershipTotal = 2 ∧
      mingledState.cluster.sample .membershipChange = 2 ∧
      ((opened Rat .discovered {}).momentsOf mingled).map (fun m => (m.update.priority, m.isChange)) =
        [(0, true), (2, true), (0, false), (1, false), (2, false)] ∧
      mingledState.Gauges ((opened Rat .discovered {}).momentsOf mingled) := by
  have hrun : conduct mingled (opened Rat .discovered {}) = .done mingledState := rfl
  exact ⟨hrun, rfl, rfl, rfl, (gauges_conduct hrun).2.1⟩

end Service

end Roster
