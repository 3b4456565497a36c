import Roster.Cluster
import Roster.PrioritySet.Readers
import Roster.Proofs.Arranging
import Roster.Proofs.Levels

/-!
# Roster.Proofs.Settling

What happens to a cluster between deliveries: reloads, checks, choices and registrations. None of it
changes which hosts a level has or what the index holds.

* `Rests`  — every level has its hosts, at most split by health anew, and the index its entries.
* `Quiet`  — moreover nobody is told of a host that was added or removed.
* `Steady` — the same for a cluster, whose hosts change in their flags and counters only.
-/

namespace Roster

/-- What only a delivery changes is the same. -/
structure Host.Steady (h k : Host) : Prop extends Host.Alike h k where
  priority : k.priority = h.priority
  metadata : k.metadata = h.metadata
  canary : k.canary = h.canary
  weight : k.weight = h.weight

namespace Host.Steady

theorem refl (h : Host) : Host.Steady h h := ⟨.refl h, rfl, rfl, rfl, rfl⟩

theorem trans {h k l : Host} (h₁ : Host.Steady h k) (h₂ : Host.Steady k l) : Host.Steady h l :=
  ⟨h₁.toAlike.trans h₂.toAlike, h₂.priority.trans h₁.priority, h₂.metadata.trans h₁.metadata,
    h₂.canary.trans h₁.canary, h₂.weight.trans h₁.weight⟩

end Host.Steady

namespace Host

theorem steady_setFlags (h : Host) (fs : List HealthFlag) : Steady h (h.setFlags fs) := by
  induction fs generalizing h with
  | nil => exact .refl h
  | cons f fs ih =>
    have hf : Steady h (h.setFlag f) := ⟨alike_setFlag h f, rfl, rfl, rfl, rfl⟩
    exact hf.trans (ih (h.setFlag f))

theorem steady_clearFlags (h : Host) (fs : List HealthFlag) : Steady h (h.clearFlags fs) := by
  induction fs generalizing h with
  | nil => exact .refl h
  | cons f fs ih =>
    have hf : Steady h (h.clearFlag f) := ⟨alike_clearFlag h f, rfl, rfl, rfl, rfl⟩
    exact hf.trans (ih (h.clearFlag f))

end Host

/-- A generation with the hosts, groups, weights and factor of another, maybe split by health anew. -/
structure Generation.Resplits {τ : Type} (g h : Generation τ) : Prop where
  weights : h.weights? = g.weights?
  factor : h.factor = g.factor
  partition : h.partition = g.partition ∨
    ∃ store, h.partition = .of store g.partition.hosts g.partition.groups

namespace Generation.Resplits

variable {τ : Type} {g h k : Generation τ}

theorem refl (g : Generation τ) : g.Resplits g := ⟨rfl, rfl, .inl rfl⟩

theorem hosts (h₁ : g.Resplits h) : h.partition.hosts = g.partition.hosts := by
  rcases h₁.partition with h₁ | ⟨_, h₁⟩ <;> rw [h₁]
  rfl

theorem groups (h₁ : g.Resplits h) : h.partition.groups = g.partition.groups := by
  rcases h₁.partition with h₁ | ⟨_, h₁⟩ <;> rw [h₁]
  rfl

theorem trans (h₁ : g.Resplits h) (h₂ : h.Resplits k) : g.Resplits k := by
  refine ⟨h₂.weights.trans h₁.weights, h₂.factor.trans h₁.factor, ?_⟩
  rcases h₂.partition with h₂ | ⟨store, h₂⟩
  · rw [h₂]
    exact h₁.partition
  · rw [h₁.hosts, h₁.groups] at h₂
    exact .inr ⟨store, h₂⟩

theorem vacant (h₁ : g.Resplits h) (hg : g.Vacant) : h.Vacant := by
  refine ⟨?_, h₁.weights.trans hg.weights⟩
  rcases h₁.partition with h₁ | ⟨store, h₁⟩ <;> rw [h₁, hg.partition]
  exact Partition.of_nil store

end Generation.Resplits

/-- Generations that differ in their schedules only. -/
structure Generation.Reschedules {τ : Type} (g h : Generation τ) : Prop where
  stamp : h.stamp = g.stamp
  partition : h.partition = g.partition
  weights : h.weights? = g.weights?
  factor : h.factor = g.factor

namespace Generation.Reschedules

variable {τ : Type} {g h k : Generation τ}

theorem refl (g : Generation τ) : g.Reschedules g := ⟨rfl, rfl, rfl, rfl⟩

theorem trans (h₁ : g.Reschedules h) (h₂ : h.Reschedules k) : g.Reschedules k :=
  ⟨h₂.stamp.trans h₁.stamp, h₂.partition.trans h₁.partition, h₂.weights.trans h₁.weights,
    h₂.factor.trans h₁.factor⟩

theorem resplits (h₁ : g.Reschedules h) : g.Resplits h := ⟨h₁.weights, h₁.factor, .inl h₁.partition⟩

end Generation.Reschedules

namespace PrioritySet

variable {τ : Type} {ps qs rs : PrioritySet τ}

/-! ## Levels -/

structure Rests (ps qs : PrioritySet τ) : Prop where
  hostsAt : ∀ p, qs.hostsAt p = ps.hostsAt p
  generations : ∀ p g, qs.generation? p = some g →
    (∃ h, ps.generation? p = some h ∧ h.Resplits g) ∨ g.Vacant
  map : qs.addressMap = ps.addressMap
  regular : ps.Regular → qs.Regular

namespace Rests

theorem refl (ps : PrioritySet τ) : Rests ps ps :=
  ⟨fun _ => rfl, fun _ g hg => .inl ⟨g, hg, .refl g⟩, rfl, id⟩

theorem trans (h₁ : Rests ps qs) (h₂ : Rests qs rs) : Rests ps rs := by
  refine ⟨fun p => (h₂.hostsAt p).trans (h₁.hostsAt p), ?_, h₂.map.trans h₁.map,
    fun h => h₂.regular (h₁.regular h)⟩
  intro p g hg
  rcases h₂.generations p g hg with ⟨h, hh, hgh⟩ | hvacant
  · rcases h₁.generations p h hh with ⟨k, hk, hhk⟩ | hvacant
    · exact .inl ⟨k, hk, hhk.trans hgh⟩
    · exact .inr (hgh.vacant hvacant)
  · exact .inr hvacant

end Rests

def IsVacant : Event → Prop
  | .level _ _ added removed _ => added = [] ∧ removed = []
  | .members _ added removed _ => added = [] ∧ removed = []
  | .initialized => True

structure Quiet (ps qs : PrioritySet τ) : Prop extends Rests ps qs where
  length : qs.levels.length = ps.levels.length
  resplits : ∀ p g, qs.generation? p = some g → ∃ h, ps.generation? p = some h ∧ h.Resplits g
  fewer : Fewer ps qs
  events : ∃ new, qs.journal.events = ps.journal.events ++ new ∧ ∀ e ∈ new, IsVacant e

namespace Quiet

theorem refl (ps : PrioritySet τ) : Quiet ps ps :=
  ⟨.refl ps, rfl, fun _ g hg => ⟨g, hg, .refl g⟩, .refl ps, [], (List.append_nil _).symm, by simp⟩

theorem trans (h₁ : Quiet ps qs) (h₂ : Quiet qs rs) : Quiet ps rs := by
  obtain ⟨new, hnew, hvacant⟩ := h₁.events
  obtain ⟨more, hmore, hvacant'⟩ := h₂.events
  refine ⟨h₁.toRests.trans h₂.toRests, h₂.length.trans h₁.length, ?_, h₁.fewer.trans h₂.fewer,
    new ++ more, ?_, ?_⟩
  · intro p g hg
    obtain ⟨h, hh, hgh⟩ := h₂.resplits p g hg
    obtain ⟨k, hk, hhk⟩ := h₁.resplits p h hh
    exact ⟨k, hk, hhk.trans hgh⟩
  · rw [hmore, hnew, List.append_assoc]
  · intro e he
    exact (List.mem_append.1 he).elim (hvacant e) (hvacant' e)

end Quiet

theorem rests_of_installation (h : qs.installation = ps.installation)
    (hf : ps.Forwards → qs.Forwards) : Rests ps qs := by
  refine ⟨hostsAt_congr h, ?_, addressMap_congr h, fun hps => ⟨h ▸ hps.installed, hf hps.forwards⟩⟩
  intro p g hg
  rw [generation?_congr h] at hg
  exact .inl ⟨g, hg, .refl g⟩

theorem Hears.rests {new : List Event} (h : Hears ps new qs) : Rests ps qs :=
  rests_of_installation h.installation h.forwards

theorem Hears.quiet {new : List Event} (h : Hears ps new qs) (hvacant : ∀ e ∈ new, IsVacant e) :
    Quiet ps qs :=
  ⟨h.rests, length_congr h.installation,
    fun p g hg => ⟨g, (generation?_congr h.installation p).symm.trans hg, .refl g⟩, h.fewer, new,
    h.events, hvacant⟩

theorem quiet_notifyMembers (ps : PrioritySet τ) : Quiet ps (ps.notifyMembers [] []) := by
  refine (hears_notifyMembers [] [] ps).quiet ?_
  intro e he
  obtain ⟨w, _, rfl⟩ := List.mem_map.1 he
  exact ⟨rfl, rfl⟩

theorem quiet_writeInitialized (ps : PrioritySet τ) : Quiet ps (ps.writeEvent .initialized) := by
  refine (hears_writeEvent ps .initialized).quiet ?_
  intro e he
  obtain rfl := List.mem_singleton.1 he
  trivial

section Install

variable [Quantity τ]

theorem quiet_reloadLevel (hps : ps.Regular) (store : HostStore) (p : Nat) :
    Quiet ps (Cluster.reloadLevel store ps p) := by
  unfold Cluster.reloadLevel
  cases hl : ps.level? p with
  | none => exact .refl ps
  | some l =>
    let u : Update :=
      { priority := p
        partition := .of store l.generation.partition.hosts l.generation.partition.groups
        weights? := l.generation.weights? }
    obtain ⟨new, hputs⟩ := puts_put hps store u
    have hhosts : ps.hostsAt p = l.generation.partition.hosts := hostsAt_of_level? hl
    have hgeneration : ps.generation? p = some l.generation := by rw [generation?, hl]; rfl
    have hp : u.priority < ps.levels.length := (List.getElem?_eq_some_iff.1 hl).1
    have hresplits : ∀ q g, (ps.put store u).generation? q = some g →
        ∃ h, ps.generation? q = some h ∧ h.Resplits g := by
      intro q g hg
      by_cases hq : q = p
      · obtain ⟨stamp, hhere⟩ := hputs.here
        rw [hq, hhere, hgeneration] at hg
        cases hg
        exact ⟨l.generation, hq ▸ hgeneration, rfl, rfl, .inr ⟨store, rfl⟩⟩
      · rw [hputs.others q hq, ensureLevel_of_lt hp] at hg
        exact ⟨g, hg, .refl g⟩
    have hput : Quiet ps (ps.put store u) := by
      refine ⟨⟨?_, fun q g hg => .inl (hresplits q g hg), hputs.map, fun _ => hputs.regular⟩, ?_,
        hresplits, hputs.fewer, new, hputs.events, ?_⟩
      · intro q
        rw [hputs.hostsAt q]
        by_cases hq : q = p
        · rw [if_pos hq, hq, hhosts]; rfl
        · rw [if_neg hq]
      · rw [hputs.length]
        omega
      · intro e he
        obtain ⟨n, c, rfl⟩ := hputs.reports e he
        exact ⟨rfl, rfl⟩
    exact hput.trans (quiet_notifyMembers _)

theorem quiet_reloadAll (hps : ps.Regular) (store : HostStore) (levels : List Nat) :
    Quiet ps (levels.foldl (Cluster.reloadLevel store) ps) := by
  induction levels generalizing ps with
  | nil => exact .refl ps
  | cons p levels ih =>
    have hp := quiet_reloadLevel hps store p
    exact hp.trans (ih (hp.regular hps))

theorem rests_ensureLevel (ps : PrioritySet τ) (p : Nat) (factor? : Option Nat) :
    Rests ps (ps.ensureLevel p factor?) := by
  refine ⟨hostsAt_ensureLevel ps p factor?, ?_, addressMap_ensureLevel ps p factor?,
    fun h => h.ensureLevel p factor?⟩
  intro q g hg
  rcases Nat.lt_or_ge q ps.levels.length with hq | hq
  · rw [generation?_ensureLevel_of_lt hq] at hg
    exact .inl ⟨g, hg, .refl g⟩
  · exact .inr (generation?_ensureLevel_of_le hq hg).1

end Install

/-! ## Registering -/

theorem rests_dropWatch (ps : PrioritySet τ) (number : Nat) : Rests ps (ps.dropWatch number) :=
  rests_of_installation (installation_dropWatch ps number) fun h => h.dropWatch number

theorem rests_watchMembers (ps : PrioritySet τ) (drops : List Nat) :
    Rests ps (ps.watchMembers drops) := by
  refine rests_of_installation rfl fun h => ⟨h.level, ?_⟩
  intro n p token hm
  rcases List.mem_append.1 hm with hm | hm
  · exact h.handles n p token hm
  · cases List.mem_singleton.1 hm

theorem rests_watchPriorities (ps : PrioritySet τ) (drops : List Nat) :
    Rests ps (ps.watchPriorities drops) := by
  refine rests_of_installation rfl fun h => ⟨h.level, ?_⟩
  intro n p token hm
  rcases List.mem_append.1 hm with hm | hm
  · exact h.handles n p token hm
  · cases List.mem_singleton.1 hm

theorem installation_watchLevel (ps : PrioritySet τ) (p : Nat) (drops : List Nat) :
    (ps.watchLevel p drops).installation = ps.installation := by
  unfold watchLevel
  cases hl : ps.level? p with
  | none => rfl
  | some l =>
    have hl' : ps.levels[p]? = some l := hl
    simp only [installation, Installation.mk.injEq, and_true]
    refine List.ext_getElem? ?_
    intro i
    simp only [List.getElem?_map, List.getElem?_modify]
    by_cases hi : p = i
    · subst hi
      simp only [if_true, hl']
      rfl
    · simp only [hi, if_false, Option.map_eq_map, Option.map_id_fun', id_eq]

theorem rests_watchLevel (ps : PrioritySet τ) (p : Nat) (drops : List Nat) :
    Rests ps (ps.watchLevel p drops) := by
  refine rests_of_installation (installation_watchLevel ps p drops) fun h => ?_
  unfold watchLevel
  cases hl : ps.level? p with
  | none => exact h
  | some l =>
    have hl' : ps.levels[p]? = some l := hl
    refine ⟨?_, ?_⟩
    · intro k hk
      obtain ⟨hforward, hnext⟩ := h.level l (List.mem_of_getElem? hl')
      obtain ⟨i, hi⟩ := List.mem_iff_getElem?.1 hk
      simp only [List.getElem?_modify] at hi
      obtain ⟨j, hj, hjk⟩ := Option.map_eq_some_iff.1 hi
      by_cases hp : p = i
      · simp only [hp, if_true] at hjk
        subst hjk
        exact ⟨List.mem_append_left _ hforward, Nat.lt_succ_of_lt hnext⟩
      · simp only [hp, if_false] at hjk
        subst hjk
        exact h.level j (List.mem_of_getElem? hj)
    · intro n q token hm
      rcases List.mem_append.1 hm with hm | hm
      · exact h.handles n q token hm
      · cases List.mem_singleton.1 hm
        exact (h.level l (List.mem_of_getElem? hl')).2

/-! ## Choosing -/

theorem reschedules_choose [Quantity τ] {kind : Eligibility} {g g' : Generation τ}
    {choice : Option Nat} (h : g.choose kind = .ok (choice, g')) : g.Reschedules g' := by
  simp only [Generation.choose] at h
  split at h
  · cases h
    exact .refl _
  · split at h
    · cases h
    · split at h
      · cases h
        cases kind <;> exact ⟨rfl, rfl, rfl, rfl⟩
      · cases h

theorem reschedules_chooseMany [Quantity τ] {kind : Eligibility} {n : Nat} {g g' : Generation τ}
    {choices : List (Option Nat)} (h : Generation.chooseMany kind n g = .ok (choices, g')) :
    g.Reschedules g' := by
  induction n generalizing g choices with
  | zero =>
    cases h
    exact .refl _
  | succ n ih =>
    simp only [Generation.chooseMany] at h
    cases hone : g.choose kind with
    | error e => rw [hone] at h; cases h
    | ok r =>
      rw [hone] at h
      cases hmany : Generation.chooseMany kind n r.2 with
      | error e => simp only [hmany] at h; cases h
      | ok q =>
        simp only [hmany] at h
        cases h
        exact (reschedules_choose hone).trans (ih hmany)

section Share

variable {p : Nat} {l : Level τ} {g : Generation τ}

theorem level?_share (ps : PrioritySet τ) (g : Generation τ) (q : Nat) :
    (({ priorities := ps } : Readers τ).share g).priorities.level? q =
      (ps.level? q).map fun k => if k.generation.stamp = g.stamp then { k with generation := g } else k := by
  simp only [Readers.share, level?, List.getElem?_map]

theorem eq_of_stamp_eq (hps : ps.Regular) (hl : ps.level? p = some l) {q : Nat} {k : Level τ}
    (hk : ps.level? q = some k) (hstamp : k.generation.stamp = l.generation.stamp) : k = l := by
  have hqp : q = p := hps.installed.distinct q p (k.priority, k.generation) (l.priority, l.generation)
    (by rw [generations_getElem?, hk]; rfl) (by rw [generations_getElem?, hl]; rfl) hstamp
  subst hqp
  rw [hl] at hk
  cases hk
  rfl

theorem regular_share (hps : ps.Regular) (g : Generation τ) :
    (({ priorities := ps } : Readers τ).share g).priorities.Regular := by
  have hwhere : ∀ (q : Nat) (x : Nat × Generation τ),
      (({ priorities := ps } : Readers τ).share g).priorities.installation.generations[q]? = some x →
      ∃ y : Nat × Generation τ, ps.installation.generations[q]? = some y ∧ x.1 = y.1 ∧
        x.2.stamp = y.2.stamp := by
    intro q x hx
    rw [generations_getElem?, level?_share, Option.map_map] at hx
    obtain ⟨k, hk, rfl⟩ := Option.map_eq_some_iff.1 hx
    refine ⟨(k.priority, k.generation), by rw [generations_getElem?, hk]; rfl, ?_⟩
    simp only [Function.comp]
    split
    · rename_i hks
      exact ⟨rfl, hks.symm⟩
    · exact ⟨rfl, rfl⟩
  refine ⟨⟨?_, hps.installed.mapped, ?_, ?_⟩, ?_, hps.forwards.handles⟩
  · intro q x hx
    obtain ⟨y, hy, hxy, _⟩ := hwhere q x hx
    rw [hxy, hps.installed.indexed q y hy]
  · intro q x hx
    obtain ⟨y, hy, _, hxy⟩ := hwhere q x hx
    rw [hxy]
    exact hps.installed.fresh q y hy
  · intro q r x y hx hy hxy
    obtain ⟨x', hx', _, hsx⟩ := hwhere q x hx
    obtain ⟨y', hy', _, hsy⟩ := hwhere r y hy
    exact hps.installed.distinct q r x' y' hx' hy' (by rw [← hsx, ← hsy]; exact hxy)
  · intro k hk
    obtain ⟨q, hq⟩ := List.mem_iff_getElem?.1 hk
    have hq : (({ priorities := ps } : Readers τ).share g).priorities.level? q = some k := hq
    rw [level?_share] at hq
    obtain ⟨j, hj, rfl⟩ := Option.map_eq_some_iff.1 hq
    have := hps.forwards.level j (List.mem_of_getElem? hj)
    split <;> exact this

theorem rests_share (hps : ps.Regular) (hl : ps.level? p = some l)
    (hstamp : g.stamp = l.generation.stamp) (hresplits : l.generation.Resplits g) :
    Rests ps (({ priorities := ps } : Readers τ).share g).priorities := by
  refine ⟨?_, ?_, rfl, fun _ => regular_share hps g⟩
  · intro q
    simp only [PrioritySet.hostsAt, level?_share]
    cases hk : ps.level? q with
    | none => rfl
    | some k =>
      simp only [Option.map_some]
      split
      · rename_i hks
        rw [eq_of_stamp_eq hps hl hk (hks.trans hstamp)]
        exact hresplits.hosts
      · rfl
  · intro q g' hg'
    simp only [generation?, level?_share, Option.map_map] at hg'
    obtain ⟨k, hk, rfl⟩ := Option.map_eq_some_iff.1 hg'
    refine .inl ⟨k.generation, by rw [generation?, hk]; rfl, ?_⟩
    simp only [Function.comp]
    split
    · rename_i hks
      rw [eq_of_stamp_eq hps hl hk (hks.trans hstamp)]
      exact hresplits
    · exact .refl _

end Share

end PrioritySet

/-! ## Clusters -/

namespace Cluster

variable {τ : Type} {c d e : Cluster τ}

/-- A cluster that at most told its observers that nothing was added or removed. -/
structure Quiet (c d : Cluster τ) : Prop where
  config : d.config = c.config
  hosts : d.hosts = c.hosts
  hasChecker : d.hasChecker = c.hasChecker
  noRebuild : d.noRebuild = c.noRebuild
  priorities : PrioritySet.Quiet c.priorities d.priorities

structure Steady (c d : Cluster τ) : Prop where
  config : d.config = c.config
  size : d.hosts.size = c.hosts.size
  hosts : ∀ i, Host.Steady (c.hosts.get i) (d.hosts.get i)
  priorities : PrioritySet.Rests c.priorities d.priorities

namespace Quiet

theorem refl (c : Cluster τ) : Quiet c c := ⟨rfl, rfl, rfl, rfl, .refl _⟩

theorem trans (h₁ : Quiet c d) (h₂ : Quiet d e) : Quiet c e :=
  ⟨h₂.config.trans h₁.config, h₂.hosts.trans h₁.hosts, h₂.hasChecker.trans h₁.hasChecker,
    h₂.noRebuild.trans h₁.noRebuild, h₁.priorities.trans h₂.priorities⟩

theorem regular (h : Quiet c d) (hc : c.priorities.Regular) : d.priorities.Regular :=
  h.priorities.regular hc

theorem steady (h : Quiet c d) : Steady c d :=
  ⟨h.config, by rw [h.hosts], fun i => by rw [h.hosts]; exact .refl _, h.priorities.toRests⟩

end Quiet

namespace Steady

theorem refl (c : Cluster τ) : Steady c c := ⟨rfl, rfl, fun _ => .refl _, .refl _⟩

theorem trans (h₁ : Steady c d) (h₂ : Steady d e) : Steady c e :=
  ⟨h₂.config.trans h₁.config, h₂.size.trans h₁.size, fun i => (h₁.hosts i).trans (h₂.hosts i),
    h₁.priorities.trans h₂.priorities⟩

theorem of_rests {ps : PrioritySet τ} (h : PrioritySet.Rests c.priorities ps) :
    Steady c { c with priorities := ps } := ⟨rfl, rfl, fun _ => .refl _, h⟩

end Steady

theorem steady_modifyHost (c : Cluster τ) (id : HostId) {f : Host → Host}
    (hf : ∀ h, Host.Steady h (f h)) : Steady c (c.modifyHost id f) := by
  refine ⟨rfl, HostStore.size_modify _ _ _, ?_, .refl _⟩
  intro i
  by_cases hi : i = id
  · rcases Nat.lt_or_ge id c.hosts.size with hlt | hle
    · simp only [modifyHost, hi, HostStore.get_modify_self _ _ hlt]
      exact hf _
    · simp only [modifyHost, HostStore.modify_of_size_le _ _ hle]
      exact .refl _
  · simp only [modifyHost, HostStore.get_modify_of_ne _ _ hi]
    exact .refl _

variable [Quantity τ]

theorem quiet_reload (hc : c.priorities.Regular) : Quiet c c.reload := by
  unfold reload
  split
  · exact .refl c
  · exact ⟨rfl, rfl, rfl, rfl, PrioritySet.quiet_reloadAll hc c.hosts _⟩

omit [Quantity τ] in
theorem quiet_announce (c : Cluster τ) : Quiet c c.announce :=
  ⟨rfl, rfl, rfl, rfl, PrioritySet.quiet_writeInitialized c.priorities⟩

theorem quiet_finishInit (hc : c.priorities.Regular) : Quiet c c.finishInit := by
  have hstart : Quiet c { c with waiting := false } := ⟨rfl, rfl, rfl, rfl, .refl _⟩
  have hreload : Quiet c (if ({ c with waiting := false } : Cluster τ).hasChecker then
      ({ c with waiting := false } : Cluster τ).reload else { c with waiting := false }) := by
    split
    · exact hstart.trans (quiet_reload (c := { c with waiting := false }) hc)
    · exact hstart
  unfold finishInit
  split
  · exact hreload.trans (quiet_announce _)
  · exact hreload

omit [Quantity τ] in
theorem priorities_beginChecks (c : Cluster τ) : c.beginChecks.priorities = c.priorities := by
  unfold beginChecks
  split
  · rfl
  · split <;> rfl

omit [Quantity τ] in
theorem quiet_beginChecks (c : Cluster τ) : Quiet c c.beginChecks := by
  unfold beginChecks
  split
  · exact .refl c
  · rename_i observers hobservers
    split
    · exact ⟨rfl, rfl, by simp [hasChecker, hobservers], rfl, .refl _⟩
    · exact .refl c

theorem quiet_preInitDone (hc : c.priorities.Regular) : Quiet c c.preInitDone := by
  simp only [preInitDone]
  split
  · exact .refl c
  · have hstart : Quiet c { c with started := true } := ⟨rfl, rfl, rfl, rfl, .refl _⟩
    have hbegin := hstart.trans (quiet_beginChecks { c with started := true })
    split
    · exact hbegin.trans (quiet_finishInit (hbegin.regular hc))
    · exact hbegin

theorem started_reload (c : Cluster τ) : c.reload.started = c.started := by
  unfold reload
  split <;> rfl

theorem started_finishInit (c : Cluster τ) : c.finishInit.started = c.started := by
  simp only [finishInit]
  split <;> split <;> simp only [announce, started_reload]

omit [Quantity τ] in
theorem started_beginChecks (c : Cluster τ) : c.beginChecks.started = c.started := by
  unfold beginChecks
  split
  · rfl
  · split <;> rfl

theorem started_preInitDone (c : Cluster τ) : c.preInitDone.started = true := by
  simp only [preInitDone]
  split
  · assumption
  · split
    · rw [started_finishInit, started_beginChecks]
    · rw [started_beginChecks]

theorem quiet_countCheck (hc : c.priorities.Regular) : Quiet c c.countCheck := by
  unfold countCheck
  split
  · exact .refl c
  · rename_i n _
    have hcount : Quiet c { c with awaited := n } := ⟨rfl, rfl, rfl, rfl, .refl _⟩
    split
    · exact hcount.trans (quiet_finishInit (hcount.regular hc))
    · exact hcount

theorem quiet_completeCheck (hc : c.priorities.Regular) (transition : Transition) :
    Quiet c (c.completeCheck transition) := by
  rw [completeCheck]
  generalize c.checker?.getD [] = observers
  induction observers generalizing c with
  | nil => exact .refl c
  | cons o observers ih =>
    have ho : Quiet c (onCheck transition c o) := by
      cases o with
      | reload =>
        simp only [onCheck]
        split
        · exact quiet_reload hc
        · exact .refl c
      | countdown => exact quiet_countCheck hc
    exact ho.trans (ih (ho.regular hc))

theorem steady_passCheck (hc : c.priorities.Regular) (id : HostId) : Steady c (c.passCheck id) := by
  have hclear : Steady c (c.modifyHost id fun h =>
      (h.clearFlag .failedActiveCheck).clearFlag .pendingActiveCheck) :=
    steady_modifyHost c id fun h => Host.steady_clearFlags h [.failedActiveCheck, .pendingActiveCheck]
  exact hclear.trans (quiet_completeCheck (hclear.priorities.regular hc) _).steady

end Cluster

end Roster
