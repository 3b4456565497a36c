import Roster.Proofs.Current
import Roster.Proofs.Gauging

/-!
# Roster.Proofs.Reloading

A reload installs every level again with the hosts, groups, weights and factor it has, split by the
flags of now, and reports that nobody was added or removed. So it changes how the hosts are split, what
is scheduled by it and what is counted of it, and nothing else.

* `Generation.reinstalled` — a generation installed again; `Resorts` says what it has of the one before.
* `generation?_reloadAll_of_mem` — what becomes of each level.
* `KeepsIndex`   — the index and the count of changes, which telling of nothing leaves as they are.
* `Repartitions` — what a reload does to a cluster.
* `repartitions_conduct` — so it does in every state that a cluster gets into.
-/

namespace Roster

/-- The generation that installing the hosts of another again makes, in its groups and with its weights
and factor, split by the flags of now and with new schedules. -/
def Generation.reinstalled {τ : Type} [Quantity τ] (store : HostStore) (stamp : Nat)
    (g : Generation τ) : Generation τ :=
  .build stamp (.of store g.partition.hosts g.partition.groups) g.weights? g.factor

/-- The generation `k` has the hosts, groups, weights and factor of `g`, split by the flags of now. -/
structure Generation.Resorts {τ : Type} (store : HostStore) (g k : Generation τ) : Prop
    extends k.Sorted store where
  hosts : k.hosts = g.hosts
  groups : k.partition.groups = g.partition.groups
  weights? : k.weights? = g.weights?
  factor : k.factor = g.factor

theorem Generation.resorts_reinstalled {τ : Type} [Quantity τ] (store : HostStore) (stamp : Nat)
    (g : Generation τ) : g.Resorts store (g.reinstalled store stamp) := by
  have hsplit : (g.reinstalled store stamp).IsSplit store := rfl
  exact { Generation.isSplit_iff.1 hsplit with hosts := rfl, groups := rfl, weights? := rfl, factor := rfl }

theorem foldl_keeps {α β γ : Type} {call : β → α → β} (view : β → γ)
    (h : ∀ b a, view (call b a) = view b) (as : List α) (b : β) :
    view (as.foldl call b) = view b := by
  induction as generalizing b with
  | nil => rfl
  | cons a as ih => exact (ih _).trans (h b a)

namespace PrioritySet

variable {τ : Type} {ps qs rs : PrioritySet τ}

/-! ## Levels -/

section Levels

variable [Quantity τ] {store : HostStore} {q : Nat} {g : Generation τ}

theorem generation?_reloadLevel_eq (store : HostStore) (ps : PrioritySet τ) (p q : Nat) :
    (Cluster.reloadLevel store ps p).generation? q =
      if q = p then (ps.generation? q).map (·.reinstalled store ps.nextStamp)
      else ps.generation? q := by
  rw [Cluster.reloadLevel]
  cases hl : ps.level? p with
  | none =>
    by_cases hq : q = p
    · simp [hq, generation?, hl]
    · rw [if_neg hq]
  | some l =>
    have hp : p < ps.levels.length := (List.getElem?_eq_some_iff.1 hl).1
    simp only []
    rw [generation?_congr (hears_notifyMembers [] [] _).installation, generation?_put hp]
    split
    case isTrue hq =>
      subst hq
      rw [generation?_install_self hl, generation?, hl]
      rfl
    case isFalse hq => rw [generation?_install_of_ne ps hq]

theorem generation?_reloadAll_again (levels : List Nat) (ps : PrioritySet τ)
    (h : ∃ stamp, ps.generation? q = some (g.reinstalled store stamp)) :
    ∃ stamp, (levels.foldl (Cluster.reloadLevel store) ps).generation? q =
      some (g.reinstalled store stamp) := by
  induction levels generalizing ps with
  | nil => exact h
  | cons p levels ih =>
    obtain ⟨stamp, hstamp⟩ := h
    refine ih _ ?_
    rw [generation?_reloadLevel_eq, hstamp]
    split
    · exact ⟨ps.nextStamp, rfl⟩
    · exact ⟨stamp, rfl⟩

theorem generation?_reloadAll_of_mem {levels : List Nat} (hq : q ∈ levels)
    (hg : ps.generation? q = some g) :
    ∃ stamp, (levels.foldl (Cluster.reloadLevel store) ps).generation? q =
      some (g.reinstalled store stamp) := by
  induction levels generalizing ps with
  | nil => cases hq
  | cons p levels ih =>
    have hstep := generation?_reloadLevel_eq store ps p q
    by_cases hp : q = p
    · rw [if_pos hp, hg] at hstep
      exact generation?_reloadAll_again levels _ ⟨ps.nextStamp, hstep⟩
    · rw [if_neg hp, hg] at hstep
      exact ih ((List.mem_cons.1 hq).resolve_left hp) hstep

end Levels

theorem Exact.census_eq {m n : Nat} (hps : ps.Exact m) (hqs : qs.Exact n)
    (hpartitions : qs.partitions = ps.partitions)
    (hchanges : qs.journal.census.changes = ps.journal.census.changes) :
    qs.journal.census = ps.journal.census := by
  have hm : ps.journal.census.changes = m := congrArg Census.changes hps.census
  have hn : qs.journal.census.changes = n := congrArg Census.changes hqs.census
  rw [hqs.census, hps.census, tally_congr hpartitions, ← hm, ← hn, hchanges]

theorem partitions_ext (hlength : qs.levels.length = ps.levels.length)
    (h : ∀ p g, ps.generation? p = some g → ∃ k, qs.generation? p = some k ∧ k.partition = g.partition) :
    qs.partitions = ps.partitions := by
  refine List.ext_getElem? fun p => ?_
  have hview : ∀ rs : PrioritySet τ, rs.partitions[p]? = (rs.generation? p).map Generation.partition := by
    intro rs
    simp only [partitions, generation?, level?, List.getElem?_map, Option.map_map]
    rfl
  rw [hview, hview]
  cases hg : ps.generation? p with
  | some g =>
    obtain ⟨k, hk, hpartition⟩ := h p g hg
    rw [hk, Option.map_some, Option.map_some, hpartition]
  | none =>
    have hnone : qs.generation? p = none := by
      simpa [generation?, level?, hlength] using hg
    rw [hnone]

/-! ## The index -/

/-- The index, and how many changes were counted. -/
def standing (ps : PrioritySet τ) : Option AddressIndex × Nat :=
  (ps.index?, ps.journal.census.changes)

theorem standing_dropWatch (ps : PrioritySet τ) (number : Nat) :
    (ps.dropWatch number).standing = ps.standing := by
  unfold dropWatch
  split
  · rfl
  · rename_i handle _
    cases handle <;> rfl

theorem standing_record (ps : PrioritySet τ) (w : Watch) (e : Event) :
    (ps.record w e).standing = ps.standing :=
  (foldl_keeps standing standing_dropWatch w.drops (ps.writeEvent e)).trans rfl

theorem standing_callPriority (p : Nat) (ps : PrioritySet τ) (o : PriorityObserver) :
    (callPriority p [] [] ps o).standing = ps.standing := by
  cases o with
  | census => rfl
  | watch w => exact standing_record ps w _

theorem standing_callLevel (p : Nat) (ps : PrioritySet τ) (o : LevelObserver) :
    (callLevel p [] [] ps o).standing = ps.standing := by
  cases o with
  | forward => exact foldl_keeps standing (standing_callPriority p) _ ps
  | watch w => exact standing_record ps w _

theorem standing_notifyLevel (ps : PrioritySet τ) (p : Nat) :
    (ps.notifyLevel p [] []).standing = ps.standing := by
  unfold notifyLevel
  split
  · rfl
  · exact foldl_keeps standing (standing_callLevel p) _ ps

/-- A reader gets the same map, no other was published for it, and none at all unless somebody read; and
no change was counted. -/
structure KeepsIndex (ps qs : PrioritySet τ) : Prop where
  read : qs.readMap.index? = ps.readMap.index?
  unread : ps.memberObservers.entries = [] → qs.memberObservers.entries = [] ∧ qs.index? = ps.index?
  changes : qs.journal.census.changes = ps.journal.census.changes

namespace KeepsIndex

theorem refl (ps : PrioritySet τ) : KeepsIndex ps ps := ⟨rfl, fun h => ⟨h, rfl⟩, rfl⟩

theorem trans (h₁ : KeepsIndex ps qs) (h₂ : KeepsIndex qs rs) : KeepsIndex ps rs := by
  refine ⟨h₂.read.trans h₁.read, fun h => ?_, h₂.changes.trans h₁.changes⟩
  obtain ⟨hnone, hindex⟩ := h₁.unread h
  obtain ⟨hnone', hindex'⟩ := h₂.unread hnone
  exact ⟨hnone', hindex'.trans hindex⟩

theorem of_standing (h : qs.standing = ps.standing) (hfewer : Fewer ps qs) : KeepsIndex ps qs := by
  obtain ⟨hindex, hchanges⟩ := Prod.mk.inj h
  refine ⟨by rw [readMap, readMap, hindex], fun hnone => ⟨?_, hindex⟩, hchanges⟩
  exact List.sublist_nil.1 (hnone ▸ hfewer.members)

end KeepsIndex

theorem AddressIndex.read_read (x : AddressIndex) : x.read.read = x.read := by
  cases h : x.pending? <;> simp [AddressIndex.read, h]

theorem index?_readMap_readMap (ps : PrioritySet τ) : ps.readMap.readMap.index? = ps.readMap.index? := by
  simp only [readMap, Option.map_map]
  cases ps.index? with
  | none => rfl
  | some x => exact congrArg some (AddressIndex.read_read x)

theorem keepsIndex_notifyMembers (ps : PrioritySet τ) : KeepsIndex ps (ps.notifyMembers [] []) := by
  have hread : ∀ (ps : PrioritySet τ) (w : Watch),
      (callMembers [] [] ps w).readMap.index? = ps.readMap.index? := by
    intro ps w
    have hrecord := (Prod.mk.inj (standing_record ps.readMap w
      (.members w.number [] [] ps.readMap.publishedMap.length))).1
    rw [← index?_readMap_readMap ps]
    exact congrArg (Option.map AddressIndex.read) hrecord
  have hchanges : ∀ (ps : PrioritySet τ) (w : Watch),
      (callMembers [] [] ps w).journal.census.changes = ps.journal.census.changes :=
    fun ps w => (Prod.mk.inj (standing_record ps.readMap w _)).2
  refine ⟨foldl_keeps (fun ps => ps.readMap.index?) hread _ ps, fun hnone => ?_,
    foldl_keeps (fun ps => ps.journal.census.changes) hchanges _ ps⟩
  have hsame : ps.notifyMembers [] [] = ps := by
    rw [notifyMembers, Observers.callbacks, hnone]
    rfl
  rw [hsame]
  exact ⟨hnone, rfl⟩

section Reload

variable [Quantity τ]

theorem keepsIndex_reloadLevel (hps : ps.Regular) (store : HostStore) (p : Nat) :
    KeepsIndex ps (Cluster.reloadLevel store ps p) := by
  rw [Cluster.reloadLevel]
  cases hl : ps.level? p with
  | none => exact .refl ps
  | some l =>
    let u : Update :=
      { priority := p
        partition := .of store l.generation.partition.hosts l.generation.partition.groups
        weights? := l.generation.weights? }
    have hp : u.priority < (ps.reindex store u).levels.length := (List.getElem?_eq_some_iff.1 hl).1
    have hstanding : (ps.put store u).standing = ps.standing := by
      rw [put, ensureLevel_of_lt hp, putLevel, standing_notifyLevel]
      simp only [standing, install, reindex]
      cases ps.index? <;> rfl
    obtain ⟨new, hputs⟩ := puts_put hps store u
    exact (KeepsIndex.of_standing hstanding hputs.fewer).trans (keepsIndex_notifyMembers _)

theorem keepsIndex_reloadAll (hps : ps.Regular) (store : HostStore) (levels : List Nat) :
    KeepsIndex ps (levels.foldl (Cluster.reloadLevel store) ps) := by
  induction levels generalizing ps with
  | nil => exact .refl ps
  | cons p levels ih =>
    exact (keepsIndex_reloadLevel hps store p).trans (ih ((quiet_reloadLevel hps store p).regular hps))

end Reload

end PrioritySet

/-! ## Clusters -/

namespace Service

variable {τ : Type} [Quantity τ] {s t u : Service τ} {as : List Action} {source : Source}
  {config : ClusterConfig}

/-- `t` is `s` with every level split by health anew. -/
structure Repartitions (s t : Service τ) : Prop where
  /-- The levels apart, nothing changed: no host, no remembered weights, no other gauge. -/
  rest : t = s.withPriorities t.cluster.priorities
  length : t.cluster.priorities.levels.length = s.cluster.priorities.levels.length
  /-- Each level has the hosts, groups, weights and factor it had, split and scheduled as when they are
  installed with the flags of now. -/
  generation : ∀ p g, s.cluster.priorities.generation? p = some g →
    ∃ stamp, t.cluster.priorities.generation? p = some (g.reinstalled s.cluster.hosts stamp)
  resorts : ∀ p g k, s.cluster.priorities.generation? p = some g →
    t.cluster.priorities.generation? p = some k → g.Resorts t.cluster.hosts k
  map : t.cluster.priorities.addressMap = s.cluster.priorities.addressMap
  index : s.cluster.priorities.KeepsIndex t.cluster.priorities
  change : t.cluster.sample .membershipChange = s.cluster.sample .membershipChange

theorem repartitions_reload (hs : s.cluster.priorities.Regular) (h : s.cluster.waiting = false) :
    s.Repartitions (s.withCluster s.cluster.reload) := by
  have hreload : s.cluster.reload = s.cluster.reloadLevels := by
    rw [Cluster.reload, h, if_neg Bool.false_ne_true]
  have hquiet := (Cluster.quiet_reload hs).priorities
  rw [hreload] at hquiet ⊢
  have hindex := PrioritySet.keepsIndex_reloadAll hs s.cluster.hosts
    (List.range s.cluster.priorities.levels.length)
  have hgeneration : ∀ p g, s.cluster.priorities.generation? p = some g →
      ∃ stamp, (s.withCluster s.cluster.reloadLevels).cluster.priorities.generation? p =
        some (g.reinstalled s.cluster.hosts stamp) := fun p g hg =>
    PrioritySet.generation?_reloadAll_of_mem (List.mem_range.2 (PrioritySet.lt_of_generation? hg)) hg
  exact
    { rest := rfl
      length := hquiet.length
      generation := hgeneration
      resorts := fun p g k hg hk => by
        obtain ⟨stamp, hstamp⟩ := hgeneration p g hg
        cases hstamp.symm.trans hk
        exact g.resorts_reinstalled s.cluster.hosts stamp
      map := hquiet.map
      index := hindex
      change := hindex.changes }

theorem Repartitions.again (h₁ : s.Repartitions t) (h₂ : t.Repartitions u) {p : Nat}
    {g : Generation τ} (hg : t.cluster.priorities.generation? p = some g) :
    ∃ stamp, u.cluster.priorities.generation? p = some { g with stamp } := by
  have hhosts : t.cluster.hosts = s.cluster.hosts := by
    rw [h₁.rest]
    rfl
  have hlt : p < s.cluster.priorities.levels.length := h₁.length ▸ PrioritySet.lt_of_generation? hg
  obtain ⟨k, hk⟩ : ∃ k, s.cluster.priorities.generation? p = some k :=
    ⟨_, congrArg (Option.map Level.generation) (List.getElem?_eq_getElem hlt)⟩
  obtain ⟨m, hm⟩ := h₁.generation p k hk
  obtain ⟨n, hn⟩ := h₂.generation p g hg
  cases hm.symm.trans hg
  exact ⟨n, hhosts ▸ hn⟩

theorem exact_reload {n : Nat} (h : s.cluster.priorities.Exact n) :
    ∃ n, (s.withCluster s.cluster.reload).cluster.priorities.Exact n :=
  ⟨_, ((Cluster.course_reload s.cluster).counts h).exact⟩

theorem Repartitions.sample_again (h₁ : s.Repartitions t) (h₂ : t.Repartitions u) {m n : Nat}
    (ht : t.cluster.priorities.Exact m) (hu : u.cluster.priorities.Exact n) (metric : Metric) :
    u.cluster.sample metric = t.cluster.sample metric := by
  have hpartitions : u.cluster.priorities.partitions = t.cluster.priorities.partitions :=
    PrioritySet.partitions_ext h₂.length fun p g hg =>
      (h₁.again h₂ hg).elim fun stamp hk => ⟨_, hk, rfl⟩
  have hcensus : u.cluster.priorities.journal.census = t.cluster.priorities.journal.census :=
    ht.census_eq hu hpartitions h₂.index.changes
  cases metric
  case maxHostWeight | updateNoRebuild | updateEmpty =>
    rw [h₂.rest]
    rfl
  all_goals simp only [Cluster.sample, hcensus]

/-- In every state that a cluster gets into, by whatever actions, a reload repartitions the levels, and
a second reload repartitions nothing further: each level has what it had, and new schedules are the ones
it had. While an initialization callback waits, a reload does nothing. -/
theorem repartitions_conduct (h : conduct as (opened τ source config) = .done s) :
    ∃ t u, perform .reload s = .done t ∧ perform .reload t = .done u ∧
      (s.cluster.waiting = true → t = s) ∧
      (s.cluster.waiting = false →
        s.Repartitions t ∧ t.Repartitions u ∧
        (∀ p g, t.cluster.priorities.generation? p = some g →
          ∃ stamp, u.cluster.priorities.generation? p = some { g with stamp }) ∧
        ∀ m, u.cluster.sample m = t.cluster.sample m) := by
  refine ⟨s.withCluster s.cluster.reload, _, rfl, rfl, fun hwaiting => ?_, fun hwaiting => ?_⟩
  · rw [Cluster.reload, hwaiting, if_pos rfl]
    rfl
  · have hs := ((course_conduct h).counts (exact_opened source config)).exact
    obtain ⟨m, ht⟩ := exact_reload hs
    obtain ⟨n, hu⟩ := exact_reload ht
    have hfirst := repartitions_reload hs.regular hwaiting
    have hwaiting' : (s.withCluster s.cluster.reload).cluster.waiting = false := by
      rw [hfirst.rest]
      exact hwaiting
    have hsecond := repartitions_reload ht.regular hwaiting'
    exact ⟨hfirst, hsecond, fun _ _ => hfirst.again hsecond, hfirst.sample_again hsecond ht hu⟩

/-- A host is delivered and then fails a check, which nobody reloads for. -/
def unheeded : List Action := [.deliver (lone 1), .setFlags 0 [.failedActiveCheck] []]

def unheededState : Service Rat := (conduct unheeded (opened Rat .discovered {})).state

theorem repartitions_unheeded :
    conduct unheeded (opened Rat .discovered {}) = .done unheededState ∧
      unheededState.cluster.waiting = false ∧
      unheededState.cluster.sample .membershipHealthy = 1 ∧
      ∃ t u, perform .reload unheededState = .done t ∧ perform .reload t = .done u ∧
        unheededState.Repartitions t ∧ t.Repartitions u ∧ u.cluster.sample .membershipHealthy = 0 := by
  have hrun : conduct unheeded (opened Rat .discovered {}) = .done unheededState := rfl
  obtain ⟨t, u, ht, hu, -, hparts⟩ := repartitions_conduct hrun
  obtain ⟨hfirst, hsecond, -, hsample⟩ := hparts rfl
  refine ⟨hrun, rfl, rfl, t, u, ht, hu, hfirst, hsecond, (hsample _).trans ?_⟩
  cases ht
  rfl

end Service

end Roster
