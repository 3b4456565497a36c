import Mathlib.Data.List.Forall2
import Mathlib.Logic.Equiv.Defs
import Roster.PrioritySet.Batch
import Roster.Proofs.Reconciling
import Roster.Proofs.Settling

/-!
# Roster.Proofs.Mirroring

Clusters that differ in the names of hosts and in the order of hosts within lists. Installing, counting
and reporting hosts keep it so: none of them looks at a name or at the order.

* `Shuffles` — a list names the hosts of another one anew, in any order but at one address.
* `HostStore.Mirrors`, `Partition.Mirrors`, `Generation.Mirrors`, `PrioritySet.Mirrors` — the same hosts,
  parts, levels and journals up to that.
* `PrioritySet.Mirrors.put` — installing the same update at a level.
* `Draft.mirrors_composed`  — the same hosts make the same update, grouped by the same localities.
* `Cluster.Mirrors`         — the same cluster; `Cluster.Mirrors.preInitDone`.
-/

namespace Roster

namespace Batch

theorem filter_extend (f : HostId → Bool) (seen ids : List HostId) :
    (extend seen ids).filter f = extend (seen.filter f) (ids.filter f) := by
  induction ids generalizing seen with
  | nil => rfl
  | cons i ids ih =>
    rw [extend, ih]
    cases hi : f i with
    | true => by_cases hseen : i ∈ seen <;> simp [hseen, hi, extend, List.filter_append]
    | false => by_cases hseen : i ∈ seen <;> simp [hseen, hi, List.filter_append]

theorem map_extend {f : HostId → HostId} (hf : f.Injective) (seen ids : List HostId) :
    (extend seen ids).map f = extend (seen.map f) (ids.map f) := by
  induction ids generalizing seen with
  | nil => rfl
  | cons i ids ih =>
    rw [extend, ih, List.map_cons, extend]
    by_cases hseen : i ∈ seen <;> simp [hseen, hf.eq_iff]

end Batch

/-! ## Lists of hosts -/

/-- `l'` has the hosts of `l` under their new names. The order may be another, but not among the hosts
of one address. -/
def Shuffles (text : HostId → String) (ρ : Equiv.Perm HostId) (l l' : List HostId) : Prop :=
  ∀ b, (l'.filter fun i => text i = b) = (l.map ρ).filter fun i => text i = b

namespace Shuffles

variable {text : HostId → String} {ρ : Equiv.Perm HostId} {l l' m m' : List HostId} {i : HostId}

theorem perm (h : Shuffles text ρ l l') : l'.Perm (l.map ρ) := by
  refine List.perm_iff_count.2 fun i => ?_
  have hcount : ∀ ids : List HostId,
      ids.count i = (ids.filter fun j => text j = text i).count i := fun ids =>
    (List.count_filter (by simp)).symm
  rw [hcount l', hcount (l.map ρ), h]

theorem length_eq (h : Shuffles text ρ l l') : l'.length = l.length := by
  rw [h.perm.length_eq, List.length_map]

theorem eq_nil_iff (h : Shuffles text ρ l l') : l' = [] ↔ l = [] := by
  rw [← List.length_eq_zero_iff, h.length_eq, List.length_eq_zero_iff]

theorem mem_iff (h : Shuffles text ρ l l') : ρ i ∈ l' ↔ i ∈ l := by
  rw [h.perm.mem_iff, List.mem_map_of_injective ρ.injective]

theorem of_fixed (h : ∀ i ∈ l, ρ i = i) : Shuffles text ρ l l := fun b => by
  rw [List.map_congr_left h, List.map_id']

theorem nil : Shuffles text ρ [] [] := of_fixed (by simp)

theorem append (h : Shuffles text ρ l l') (hm : Shuffles text ρ m m') :
    Shuffles text ρ (l ++ m) (l' ++ m') := fun b => by
  rw [List.filter_append, h, hm, List.map_append, List.filter_append]

theorem filter (h : Shuffles text ρ l l') {f g : HostId → Bool} (hf : ∀ i ∈ l, g (ρ i) = f i) :
    Shuffles text ρ (l.filter f) (l'.filter g) := fun b => by
  have hmap : (l.filter f).map ρ = (l.map ρ).filter g := by
    rw [List.filter_map]
    exact congrArg (List.map ρ) (List.filter_congr fun i hi => (hf i hi).symm)
  rw [hmap, List.filter_comm, h, List.filter_comm]

theorem map (h : Shuffles text ρ l l') {f g : HostId → HostId} (hf : ∀ i ∈ l, g (ρ i) = ρ (f i))
    (htext : ∀ j ∈ l', text (g j) = text j) : Shuffles text ρ (l.map f) (l'.map g) := fun b => by
  have hkeep : ∀ ids : List HostId, (∀ j ∈ ids, j ∈ l') →
      (ids.map g).filter (fun i => text i = b) = (ids.filter fun i => text i = b).map g := by
    intro ids hids
    rw [List.filter_map]
    refine congrArg (List.map g) (List.filter_congr fun j hj => ?_)
    rw [Function.comp_apply, htext j (hids j hj)]
  have hmap : (l.map f).map ρ = (l.map ρ).map g := by
    rw [List.map_map, List.map_map]
    exact List.map_congr_left fun i hi => (hf i hi).symm
  rw [hmap, hkeep l' fun _ hj => hj, hkeep _ fun j hj => h.perm.mem_iff.2 hj, h]

/-- Hosts of one address stand in the same order. -/
theorem eq_map (h : Shuffles text ρ l l') {b : String} (htext : ∀ j ∈ l', text j = b) :
    l' = l.map ρ := by
  have hall : ∀ ids : List HostId, (∀ j ∈ ids, j ∈ l') →
      ids.filter (fun i => text i = b) = ids := fun ids hids =>
    List.filter_eq_self.2 fun j hj => decide_eq_true (htext j (hids j hj))
  rw [← hall l' fun _ hj => hj, h, hall _ fun j hj => h.perm.mem_iff.2 hj]

theorem of_mem (hl : l.Nodup) (hl' : (l'.map text).Nodup) (hmem : ∀ i, ρ i ∈ l' ↔ i ∈ l) :
    Shuffles text ρ l l' := fun b => by
  have hperm : l'.Perm (l.map ρ) := by
    refine (List.perm_ext_iff_of_nodup hl'.of_map (hl.map ρ.injective)).2 fun i => ?_
    obtain ⟨j, rfl⟩ := ρ.surjective i
    rw [hmem, List.mem_map_of_injective ρ.injective]
  have hnodup : ((l'.filter fun i => text i = b).map text).Nodup :=
    hl'.sublist (List.filter_sublist.map text)
  cases hlist : l'.filter fun i => text i = b with
  | nil => exact ((hlist ▸ hperm.filter fun i => text i = b).nil_eq)
  | cons i rest =>
    have hat : ∀ j ∈ i :: rest, text j = b := fun j hj => by
      rw [← hlist] at hj
      exact of_decide_eq_true (List.mem_filter.1 hj).2
    rw [hlist, List.map_cons, List.nodup_cons] at hnodup
    have hrest : rest = [] := List.eq_nil_iff_forall_not_mem.2 fun j hj =>
      hnodup.1 (List.mem_map.2 ⟨j, hj, (hat j (List.mem_cons_of_mem i hj)).trans
        (hat i List.mem_cons_self).symm⟩)
    have hfiltered := hperm.filter fun i => text i = b
    rw [hlist, hrest] at hfiltered
    rw [hrest]
    exact (List.singleton_perm.1 hfiltered)

theorem extend (h : Shuffles text ρ l l') (hm : Shuffles text ρ m m') :
    Shuffles text ρ (Batch.extend l m) (Batch.extend l' m') := fun b => by
  rw [Batch.filter_extend, h, hm, Batch.map_extend ρ.injective, Batch.filter_extend]

theorem without (h : Shuffles text ρ l l') (hm : Shuffles text ρ m m') :
    Shuffles text ρ (Batch.without l m) (Batch.without l' m') :=
  h.filter fun i _ => by simp only [hm.mem_iff]

end Shuffles

/-- The same hosts under new names. -/
structure HostStore.Mirrors (ρ : Equiv.Perm HostId) (s t : HostStore) : Prop where
  size : t.size = s.size
  known : ∀ i, ρ i < s.size ↔ i < s.size
  get : ∀ i, t.get (ρ i) = s.get i

namespace HostStore.Mirrors

variable {ρ : Equiv.Perm HostId} {s t : HostStore} {l l' : List HostId}

theorem addressText (h : s.Mirrors ρ t) (i : HostId) : t.addressText (ρ i) = s.addressText i := by
  rw [HostStore.addressText, h.get, HostStore.addressText]

theorem located_map (h : s.Mirrors ρ t) (b : String) (ids : List HostId) :
    t.located b (ids.map ρ) = (s.located b ids).map ρ := by
  rw [located, List.filter_map, located]
  exact congrArg (List.map ρ) (List.filter_congr fun i _ => by rw [Function.comp_apply, h.addressText])

/-- Hosts that are told by their addresses shuffle each other if they do at every address. -/
theorem shuffles_iff (h : s.Mirrors ρ t) :
    Shuffles t.addressText ρ l l' ↔ ∀ b, t.located b l' = (s.located b l).map ρ :=
  forall_congr' fun b => by rw [← h.located_map, located, located]

end HostStore.Mirrors

/-! ## Levels -/

section Levels

variable (text : HostId → String) (ρ : Equiv.Perm HostId)

/-- As many groups, each with the same hosts. -/
structure Grouping.Mirrors (g h : Grouping HostId) : Prop where
  hasLocal : h.hasLocal = g.hasLocal
  groups : List.Forall₂ (Shuffles text ρ) g.groups h.groups

structure Partition.Mirrors (k l : Partition) : Prop where
  hosts : Shuffles text ρ k.hosts l.hosts
  healthy : Shuffles text ρ k.healthy l.healthy
  degraded : Shuffles text ρ k.degraded l.degraded
  excluded : Shuffles text ρ k.excluded l.excluded
  groups : k.groups.Mirrors text ρ l.groups
  healthyGroups : k.healthyGroups.Mirrors text ρ l.healthyGroups
  degradedGroups : k.degradedGroups.Mirrors text ρ l.degradedGroups
  excludedGroups : k.excludedGroups.Mirrors text ρ l.excludedGroups

/-- The same weights, factor and schedules over the same hosts. -/
structure Generation.Mirrors {τ : Type} (g h : Generation τ) : Prop where
  stamp : h.stamp = g.stamp
  partition : g.partition.Mirrors text ρ h.partition
  weights : h.weights? = g.weights?
  factor : h.factor = g.factor
  healthySchedule : h.healthySchedule? = g.healthySchedule?
  degradedSchedule : h.degradedSchedule? = g.degradedSchedule?

structure Level.Mirrors {τ : Type} (k l : Level τ) : Prop where
  priority : l.priority = k.priority
  generation : k.generation.Mirrors text ρ l.generation
  observers : l.observers = k.observers

/-- The same watch was told of the same hosts and counts. -/
inductive Event.Mirrors : Event → Event → Prop where
  | level {n p : Nat} {added added' removed removed' : List HostId} {c : Census} :
      Shuffles text ρ added added' → Shuffles text ρ removed removed' →
      Mirrors (.level n p added removed c) (.level n p added' removed' c)
  | members {n k : Nat} {added added' removed removed' : List HostId} :
      Shuffles text ρ added added' → Shuffles text ρ removed removed' →
      Mirrors (.members n added removed k) (.members n added' removed' k)
  | initialized : Mirrors .initialized .initialized

/-- The same addresses, with the hosts under their new names. -/
def AddressMap.rename (ρ : Equiv.Perm HostId) (m : AddressMap) : AddressMap :=
  m.map fun e => (e.1, ρ e.2)

/-- Indexes that publish the same. `P` says what is known of the maps that are gathered. -/
structure AddressIndex.Mirrors (P : AddressMap → AddressMap → Prop) (x y : AddressIndex) : Prop where
  published : y.published = AddressMap.rename ρ x.published
  stamp : y.stamp = x.stamp
  pending : Option.Rel P x.pending? y.pending?

/-- The same levels, observers and counts. The watches wrote the same since the journal was `old`. -/
structure PrioritySet.Mirrors {τ : Type} (P : AddressMap → AddressMap → Prop) (old : List Event)
    (ps qs : PrioritySet τ) : Prop where
  levels : List.Forall₂ (Level.Mirrors text ρ) ps.levels qs.levels
  index : Option.Rel (AddressIndex.Mirrors ρ P) ps.index? qs.index?
  memberObservers : qs.memberObservers = ps.memberObservers
  priorityObservers : qs.priorityObservers = ps.priorityObservers
  handles : qs.handles = ps.handles
  nextWatch : qs.nextWatch = ps.nextWatch
  nextStamp : qs.nextStamp = ps.nextStamp
  census : qs.journal.census = ps.journal.census
  events : ∃ new new', ps.journal.events = old ++ new ∧ qs.journal.events = old ++ new' ∧
    List.Forall₂ (Event.Mirrors text ρ) new new'

end Levels

variable {text : HostId → String} {ρ : Equiv.Perm HostId}

namespace Grouping.Mirrors

variable {g h : Grouping HostId}

theorem size (hgh : g.Mirrors text ρ h) : h.size = g.size := hgh.groups.length_eq.symm

theorem sizeAt (hgh : g.Mirrors text ρ h) (i : Nat) : h.sizeAt i = g.sizeAt i := by
  have hread : ∀ k : Grouping HostId, k.sizeAt i = ((k.groups.map List.length)[i]?).getD 0 := by
    intro k
    rw [Grouping.sizeAt, List.getElem?_map]
    cases k.groups[i]? <;> rfl
  have hlengths : g.groups.map List.length = h.groups.map List.length := by
    rw [← List.forall₂_eq_eq_eq, List.forall₂_map_left_iff, List.forall₂_map_right_iff]
    exact hgh.groups.imp fun _ _ hm => hm.length_eq.symm
  rw [hread h, hread g, hlengths]

theorem kept (hgh : g.Mirrors text ρ h) {f f' : HostId → Bool} (hf : ∀ i, f' (ρ i) = f i) :
    (g.kept f).Mirrors text ρ (h.kept f') where
  hasLocal := hgh.hasLocal
  groups := by
    rw [Grouping.kept, Grouping.kept, List.forall₂_map_left_iff, List.forall₂_map_right_iff]
    exact hgh.groups.imp fun _ _ hm => hm.filter fun i _ => hf i

end Grouping.Mirrors

theorem LocalityShare.schedule?_congr {τ : Type} [Quantity τ]
    {eligible eligible' all all' excluded excluded' : Grouping HostId} {hosts hosts' : List HostId}
    (heligible : eligible.Mirrors text ρ eligible') (hall : all.Mirrors text ρ all')
    (hexcluded : excluded.Mirrors text ρ excluded') (hhosts : Shuffles text ρ hosts hosts')
    (weights? : Option (List Nat)) (factor : Nat) :
    (schedule? eligible' hosts' all' excluded' weights? factor : Option (Schedule τ Nat)) =
      schedule? eligible hosts all excluded weights? factor := by
  have hempty : hosts'.isEmpty = hosts.isEmpty := by
    rw [Bool.eq_iff_iff, List.isEmpty_iff, List.isEmpty_iff, hhosts.eq_nil_iff]
  have hweight : ∀ weights, (effectiveWeight eligible' excluded' all' weights factor : Nat → τ) =
      effectiveWeight eligible excluded all weights factor := fun weights => by
    funext i
    simp only [effectiveWeight, heligible.sizeAt, hall.sizeAt, hexcluded.sizeAt]
  cases weights? with
  | none => rfl
  | some weights => simp only [schedule?, hempty, hweight, hall.size]

theorem Partition.mirrors_of {s t : HostStore} (hst : ∀ i, t.get (ρ i) = s.get i)
    {hosts hosts' : List HostId} (hhosts : Shuffles text ρ hosts hosts')
    {groups groups' : Grouping HostId} (hgroups : groups.Mirrors text ρ groups') :
    (Partition.of s hosts groups).Mirrors text ρ (.of t hosts' groups') := by
  have hhealthy : ∀ i, isHealthy t (ρ i) = isHealthy s i := fun i => by simp only [isHealthy, hst]
  have hdegraded : ∀ i, isDegraded t (ρ i) = isDegraded s i := fun i => by
    simp only [isDegraded, hst]
  have hexcluded : ∀ i, isExcluded t (ρ i) = isExcluded s i := fun i => by
    simp only [isExcluded, hst]
  simp only [Partition.of, byHealth_eq, groupsByHealth_eq]
  exact ⟨hhosts, hhosts.filter fun i _ => hhealthy i, hhosts.filter fun i _ => hdegraded i,
    hhosts.filter fun i _ => hexcluded i, hgroups, hgroups.kept hhealthy, hgroups.kept hdegraded,
    hgroups.kept hexcluded⟩

theorem Generation.mirrors_build {τ : Type} [Quantity τ] {k l : Partition} (h : k.Mirrors text ρ l)
    (stamp : Nat) (weights? : Option (List Nat)) (factor : Nat) :
    (build stamp k weights? factor : Generation τ).Mirrors text ρ
      (build stamp l weights? factor) where
  stamp := rfl
  partition := h
  weights := rfl
  factor := rfl
  healthySchedule :=
    LocalityShare.schedule?_congr h.healthyGroups h.groups h.excludedGroups h.healthy weights? factor
  degradedSchedule :=
    LocalityShare.schedule?_congr h.degradedGroups h.groups h.excludedGroups h.degraded weights? factor

theorem Partition.mirrors_empty : ({} : Partition).Mirrors text ρ {} :=
  have hnone : ({} : Grouping HostId).Mirrors text ρ {} := ⟨rfl, .nil⟩
  ⟨.nil, .nil, .nil, .nil, hnone, hnone, hnone, hnone⟩

/-! ## Telling observers -/

theorem forall₂_modify {α β : Type} {R : α → β → Prop} {l : List α} {m : List β}
    (h : List.Forall₂ R l m) {f : α → α} {g : β → β} (hfg : ∀ a b, R a b → R (f a) (g b)) (n : Nat) :
    List.Forall₂ R (l.modify n f) (m.modify n g) := by
  induction h generalizing n with
  | nil => simp
  | cons hab h ih =>
    cases n with
    | zero => exact .cons (hfg _ _ hab) h
    | succ n => exact .cons hab (ih n)

theorem rel_getElem? {α β : Type} {R : α → β → Prop} {l : List α} {m : List β}
    (h : List.Forall₂ R l m) (n : Nat) : Option.Rel R l[n]? m[n]? := by
  induction h generalizing n with
  | nil => exact .none
  | cons hab _ ih =>
    cases n with
    | zero => exact .some hab
    | succ n => simpa using ih n

namespace PrioritySet.Mirrors

variable {τ : Type} {P : AddressMap → AddressMap → Prop} {old : List Event} {ps qs : PrioritySet τ}
  {added added' removed removed' : List HostId}

theorem length_eq (h : ps.Mirrors text ρ P old qs) : qs.levels.length = ps.levels.length :=
  h.levels.length_eq.symm

theorem level? (h : ps.Mirrors text ρ P old qs) (p : Nat) :
    Option.Rel (Level.Mirrors text ρ) (ps.level? p) (qs.level? p) := rel_getElem? h.levels p

theorem length_flatMap (h : ps.Mirrors text ρ P old qs) {f f' : Level τ → List HostId}
    (hf : ∀ k l, Level.Mirrors text ρ k l → Shuffles text ρ (f k) (f' l)) :
    (qs.levels.flatMap f').length = (ps.levels.flatMap f).length := by
  have hlevels := h.levels
  generalize ps.levels = ks at hlevels
  generalize qs.levels = ls at hlevels
  induction hlevels with
  | nil => rfl
  | cons hkl _ ih =>
    rw [List.flatMap_cons, List.flatMap_cons, List.length_append, List.length_append, ih,
      (hf _ _ hkl).length_eq]

theorem foldl {α : Type} {f g : PrioritySet τ → α → PrioritySet τ}
    (hstep : ∀ ps qs a, ps.Mirrors text ρ P old qs → (f ps a).Mirrors text ρ P old (g qs a))
    (as : List α) (h : ps.Mirrors text ρ P old qs) :
    (as.foldl f ps).Mirrors text ρ P old (as.foldl g qs) := by
  induction as generalizing ps qs with
  | nil => exact h
  | cons a as ih => exact ih (hstep ps qs a h)

theorem dropWatch (h : ps.Mirrors text ρ P old qs) (number : Nat) :
    (ps.dropWatch number).Mirrors text ρ P old (qs.dropWatch number) := by
  simp only [PrioritySet.dropWatch, h.handles]
  cases ps.handles.lookup number with
  | none => exact h
  | some handle =>
    cases handle with
    | members token =>
      exact { h with
        memberObservers := congrArg (Observers.remove · token) h.memberObservers
        handles := rfl }
    | priorities token =>
      exact { h with
        priorityObservers := congrArg (Observers.remove · token) h.priorityObservers
        handles := rfl }
    | level p token =>
      let remove : Level τ → Level τ := fun l => { l with observers := l.observers.remove token }
      have hremove : ∀ k l : Level τ, k.Mirrors text ρ l → (remove k).Mirrors text ρ (remove l) :=
        fun k l hkl => ⟨hkl.priority, hkl.generation, congrArg (Observers.remove · token) hkl.observers⟩
      exact { h with
        levels := forall₂_modify h.levels hremove p
        handles := rfl }

theorem writeEvent (h : ps.Mirrors text ρ P old qs) {e f : Event} (hef : e.Mirrors text ρ f) :
    (ps.writeEvent e).Mirrors text ρ P old (qs.writeEvent f) := by
  obtain ⟨new, new', hps, hqs, hnew⟩ := h.events
  refine { h with events := ⟨new ++ [e], new' ++ [f], ?_, ?_, List.rel_append hnew (.cons hef .nil)⟩ }
  · simp only [PrioritySet.writeEvent, hps, List.append_assoc]
  · simp only [PrioritySet.writeEvent, hqs, List.append_assoc]

theorem record (h : ps.Mirrors text ρ P old qs) (w : Watch) {e f : Event} (hef : e.Mirrors text ρ f) :
    (ps.record w e).Mirrors text ρ P old (qs.record w f) :=
  (h.writeEvent hef).foldl (fun _ _ number hps => hps.dropWatch number) w.drops

section Change

variable (hadded : Shuffles text ρ added added') (hremoved : Shuffles text ρ removed removed')

include hadded hremoved

theorem recount (h : ps.Mirrors text ρ P old qs) :
    qs.recount added' removed' = ps.recount added removed := by
  have hhosts := h.length_flatMap (f := fun l => l.generation.partition.hosts)
    fun k l hkl => hkl.generation.partition.hosts
  have hhealthy := h.length_flatMap (f := fun l => l.generation.partition.healthy)
    fun k l hkl => hkl.generation.partition.healthy
  have hdegraded := h.length_flatMap (f := fun l => l.generation.partition.degraded)
    fun k l hkl => hkl.generation.partition.degraded
  have hexcluded := h.length_flatMap (f := fun l => l.generation.partition.excluded)
    fun k l hkl => hkl.generation.partition.excluded
  simp only [PrioritySet.recount, hhosts, hhealthy, hdegraded, hexcluded, h.census,
    hadded.eq_nil_iff, hremoved.eq_nil_iff]

theorem callPriority (h : ps.Mirrors text ρ P old qs) (p : Nat) (o : PriorityObserver) :
    (PrioritySet.callPriority p added removed ps o).Mirrors text ρ P old
      (PrioritySet.callPriority p added' removed' qs o) := by
  cases o with
  | census => exact { h with census := h.recount hadded hremoved }
  | watch w =>
    simp only [PrioritySet.callPriority, h.census]
    exact h.record w (.level hadded hremoved)

theorem notifyPriority (h : ps.Mirrors text ρ P old qs) (p : Nat) :
    (ps.notifyPriority p added removed).Mirrors text ρ P old (qs.notifyPriority p added' removed') := by
  simp only [PrioritySet.notifyPriority, h.priorityObservers]
  exact h.foldl (fun _ _ o hps => hps.callPriority hadded hremoved p o) _

theorem callLevel (h : ps.Mirrors text ρ P old qs) (p : Nat) (o : LevelObserver) :
    (PrioritySet.callLevel p added removed ps o).Mirrors text ρ P old
      (PrioritySet.callLevel p added' removed' qs o) := by
  cases o with
  | forward => exact h.notifyPriority hadded hremoved p
  | watch w =>
    simp only [PrioritySet.callLevel, h.census]
    exact h.record w (.level hadded hremoved)

theorem notifyLevel (h : ps.Mirrors text ρ P old qs) (p : Nat) :
    (ps.notifyLevel p added removed).Mirrors text ρ P old (qs.notifyLevel p added' removed') := by
  simp only [PrioritySet.notifyLevel]
  cases hps : ps.level? p with
  | none =>
    have hrel := h.level? p
    rw [hps] at hrel
    cases hqs : qs.level? p with
    | none => exact h
    | some l => rw [hqs] at hrel; cases hrel
  | some k =>
    have hrel := h.level? p
    rw [hps] at hrel
    cases hqs : qs.level? p with
    | none => rw [hqs] at hrel; cases hrel
    | some l =>
      rw [hqs] at hrel
      cases hrel with
      | some hkl =>
        simp only [hkl.observers]
        exact h.foldl (fun _ _ o hps => hps.callLevel hadded hremoved p o) _

end Change

end PrioritySet.Mirrors

/-! ## The index -/

theorem rel_map {α β γ δ : Type} {R : α → β → Prop} {S : γ → δ → Prop} {x : Option α}
    {y : Option β} (h : Option.Rel R x y) {f : α → γ} {g : β → δ}
    (hfg : ∀ a b, R a b → S (f a) (g b)) : Option.Rel S (x.map f) (y.map g) := by
  cases h with
  | some hab => exact .some (hfg _ _ hab)
  | none => exact .none

namespace AddressIndex.Mirrors

variable {P Q : AddressMap → AddressMap → Prop} {x y : AddressIndex}

theorem read (h : x.Mirrors ρ P y) (hP : ∀ m m', P m m' → m' = m.rename ρ) :
    x.read.Mirrors ρ Q y.read := by
  obtain ⟨published, stamp, pending?⟩ := x
  obtain ⟨published', stamp', pending?'⟩ := y
  have hpublished : published' = AddressMap.rename ρ published := h.published
  have hstamp : stamp' = stamp := h.stamp
  have hpending : Option.Rel P pending? pending?' := h.pending
  cases hpending with
  | some hm => exact ⟨hP _ _ hm, congrArg (· + 1) hstamp, .none⟩
  | none => exact ⟨hpublished, hstamp, .none⟩

/-- What is known of the maps that a reader gets is known of those that are gathered. -/
theorem sharpen (h : x.Mirrors ρ P y) (hcurrent : y.current = AddressMap.rename ρ x.current) :
    x.Mirrors ρ (fun m m' => m' = m.rename ρ) y := by
  obtain ⟨published, stamp, pending?⟩ := x
  obtain ⟨published', stamp', pending?'⟩ := y
  refine ⟨h.published, h.stamp, ?_⟩
  have hpending : Option.Rel P pending? pending?' := h.pending
  cases hpending with
  | some _ => exact .some hcurrent
  | none => exact .none

end AddressIndex.Mirrors

namespace PrioritySet.Mirrors

variable {τ : Type} {P Q : AddressMap → AddressMap → Prop} {old : List Event}
  {ps qs : PrioritySet τ} {added added' removed removed' : List HostId}

theorem readMap (h : ps.Mirrors text ρ P old qs) (hP : ∀ m m', P m m' → m' = m.rename ρ) :
    ps.readMap.Mirrors text ρ Q old qs.readMap :=
  { h with index := rel_map h.index fun _ _ hxy => hxy.read hP }

theorem publishedMap (h : ps.Mirrors text ρ P old qs) :
    qs.publishedMap = AddressMap.rename ρ ps.publishedMap := by
  have hindex := h.index
  simp only [PrioritySet.publishedMap]
  generalize ps.index? = x? at hindex
  generalize qs.index? = y? at hindex
  cases hindex with
  | some hxy => exact hxy.published
  | none => rfl

theorem sharpen (h : ps.Mirrors text ρ P old qs)
    (hmap : qs.addressMap = AddressMap.rename ρ ps.addressMap) :
    ps.Mirrors text ρ (fun m m' => m' = m.rename ρ) old qs := by
  rw [addressMap_eq, addressMap_eq] at hmap
  have hindex := h.index
  refine { h with index := ?_ }
  simp only [installation] at hmap
  generalize ps.index? = x? at hindex hmap
  generalize qs.index? = y? at hindex hmap
  cases hindex with
  | some hxy => exact .some (hxy.sharpen hmap)
  | none => exact .none

theorem callMembers (h : ps.Mirrors text ρ P old qs) (hP : ∀ m m', P m m' → m' = m.rename ρ)
    (hadded : Shuffles text ρ added added') (hremoved : Shuffles text ρ removed removed') (w : Watch) :
    (PrioritySet.callMembers added removed ps w).Mirrors text ρ P old
      (PrioritySet.callMembers added' removed' qs w) := by
  have hread : ps.readMap.Mirrors text ρ P old qs.readMap := h.readMap hP
  have hlength : qs.readMap.publishedMap.length = ps.readMap.publishedMap.length := by
    rw [hread.publishedMap, AddressMap.rename, List.length_map]
  simp only [PrioritySet.callMembers, hlength]
  exact hread.record w (.members hadded hremoved)

theorem notifyMembers (h : ps.Mirrors text ρ P old qs) (hP : ∀ m m', P m m' → m' = m.rename ρ)
    (hadded : Shuffles text ρ added added') (hremoved : Shuffles text ρ removed removed') :
    (ps.notifyMembers added removed).Mirrors text ρ P old (qs.notifyMembers added' removed') := by
  simp only [PrioritySet.notifyMembers, h.memberObservers]
  exact h.foldl (fun _ _ w hps => hps.callMembers hP hadded hremoved w) _

end PrioritySet.Mirrors

/-! ## Installing -/

/-- The same hosts to install and to report. -/
structure Update.Mirrors (text : HostId → String) (ρ : Equiv.Perm HostId) (u v : Update) : Prop where
  priority : v.priority = u.priority
  partition : u.partition.Mirrors text ρ v.partition
  weights : v.weights? = u.weights?
  added : Shuffles text ρ u.added v.added
  removed : Shuffles text ρ u.removed v.removed
  factor : v.factor? = u.factor?

namespace PrioritySet.Mirrors

variable {τ : Type} [Quantity τ] {P : AddressMap → AddressMap → Prop} {old : List Event}
  {ps qs : PrioritySet τ} {u v : Update}

theorem ensureLevel (h : ps.Mirrors text ρ P old qs) (p : Nat) (factor? : Option Nat) :
    (ps.ensureLevel p factor?).Mirrors text ρ P old (qs.ensureLevel p factor?) := by
  have hnew : ∀ stamp q factor, (newLevel stamp q factor : Level τ).Mirrors text ρ
      (newLevel stamp q factor) := fun stamp q factor =>
    ⟨rfl, Generation.mirrors_build Partition.mirrors_empty stamp none factor, rfl⟩
  simp only [PrioritySet.ensureLevel, h.length_eq, h.nextStamp]
  split
  · exact h
  · refine { h with
      levels := List.rel_append h.levels (List.forall₂_same.2 fun l hl => ?_)
      nextStamp := rfl }
    obtain ⟨i, _, rfl⟩ := List.mem_map.1 hl
    exact hnew _ _ _

theorem install (h : ps.Mirrors text ρ P old qs) (hu : u.Mirrors text ρ v) :
    (ps.install u).Mirrors text ρ P old (qs.install v) := by
  let build (stamp : Nat) (u : Update) (l : Level τ) : Level τ :=
    { l with generation := .build stamp u.partition u.weights? (u.factor?.getD l.factor) }
  have hlevel : ∀ k l : Level τ, k.Mirrors text ρ l →
      (build ps.nextStamp u k).Mirrors text ρ (build qs.nextStamp v l) := by
    intro k l hkl
    have hfactor : l.factor = k.factor := hkl.generation.factor
    simp only [build, hfactor, hu.factor, hu.weights, h.nextStamp]
    exact ⟨hkl.priority, Generation.mirrors_build hu.partition _ _ _, hkl.observers⟩
  simp only [PrioritySet.install, hu.priority]
  exact { h with
    levels := forall₂_modify h.levels hlevel u.priority
    nextStamp := congrArg (· + 1) h.nextStamp }

theorem putLevel (h : ps.Mirrors text ρ P old qs) (hu : u.Mirrors text ρ v) :
    (ps.putLevel u).Mirrors text ρ P old (qs.putLevel v) := by
  simp only [PrioritySet.putLevel, hu.priority]
  exact (h.install hu).notifyLevel hu.added hu.removed u.priority

omit [Quantity τ] in
/-- Nothing needs to be known of a map that is gathered, or nothing is reported. -/
theorem reindex (h : ps.Mirrors text ρ P old qs) (hu : u.Mirrors text ρ v) (s t : HostStore)
    (hP : (∀ m m', P m m') ∨ (u.added = [] ∧ u.removed = [])) :
    (ps.reindex s u).Mirrors text ρ P old (qs.reindex t v) := by
  have hnone : (v.added = [] ∧ v.removed = []) ↔ (u.added = [] ∧ u.removed = []) := by
    rw [hu.added.eq_nil_iff, hu.removed.eq_nil_iff]
  refine { h with index := rel_map h.index fun x y hxy => ?_ }
  simp only [AddressIndex.update, hnone]
  split
  · exact hxy
  · rename_i hsome
    exact ⟨hxy.published, hxy.stamp, .some (hP.resolve_right hsome _ _)⟩

theorem put (h : ps.Mirrors text ρ P old qs) (hu : u.Mirrors text ρ v) (s t : HostStore)
    (hP : (∀ m m', P m m') ∨ (u.added = [] ∧ u.removed = [])) :
    (ps.put s u).Mirrors text ρ P old (qs.put t v) := by
  simp only [PrioritySet.put, hu.priority, hu.factor]
  exact ((h.reindex hu s t hP).ensureLevel u.priority u.factor?).putLevel hu

end PrioritySet.Mirrors

/-! ## Composing -/

namespace Draft

theorem Arranged.mem_keys {local? : Option Locality} {store : HostStore} {hosts : List HostId}
    {localFirst : Bool} {m : List (Locality × List HostId)}
    (h : Arranged local? store hosts localFirst m) {l : Locality} :
    l ∈ m.map Prod.fst ↔ ∃ i ∈ hosts, (store.get i).locality = l := by
  rw [← HostStore.inLocality_ne_nil, List.mem_map]
  constructor
  · rintro ⟨g, hg, rfl⟩
    obtain ⟨hids, hne⟩ := (h.mem g).1 hg
    exact hids ▸ hne
  · intro hne
    exact ⟨(l, store.inLocality l hosts), (h.mem _).2 ⟨rfl, hne⟩, rfl⟩

theorem Arranged.keys_eq {local? : Option Locality} {store store' : HostStore}
    {hosts hosts' : List HostId} {localFirst : Bool} {m m' : List (Locality × List HostId)}
    (h : Arranged local? store hosts localFirst m) (h' : Arranged local? store' hosts' localFirst m')
    (hperm : (m'.map Prod.fst).Perm (m.map Prod.fst)) : m'.map Prod.fst = m.map Prod.fst := by
  have hantisymm : ∀ k l : Locality, compare k l = .lt → compare l k = .lt → k = l :=
    fun k l hkl hlk => absurd rfl (Assoc.ne_of_compare_lt (Std.TransCmp.lt_trans hkl hlk))
  cases localFirst with
  | false =>
    exact hperm.eq_of_pairwise (fun k l _ _ => hantisymm k l) (List.pairwise_map.2 h'.sorted)
      (List.pairwise_map.2 h.sorted)
  | true =>
    -- the local locality stands first in both, and the rest is in order
    have hheads := (h'.first rfl).trans (h.first rfl).symm
    have hsorted := h.sorted
    have hsorted' := h'.sorted
    cases m with
    | nil => exact hperm.eq_nil
    | cons g m =>
      cases m' with
      | nil => cases hheads
      | cons g' m' =>
        have hkey : g'.1 = g.1 := Option.some.inj hheads
        simp only [List.map_cons, hkey] at hperm ⊢
        exact congrArg _ ((List.perm_cons _).1 hperm |>.eq_of_pairwise (fun k l _ _ => hantisymm k l)
          (List.pairwise_map.2 hsorted') (List.pairwise_map.2 hsorted))

variable {s t : HostStore} {hosts hosts' : List HostId} (hst : s.Mirrors ρ t)
  (hhosts : Shuffles text ρ hosts hosts')

include hst hhosts

theorem exists_inLocality (l : Locality) :
    (∃ i ∈ hosts', (t.get i).locality = l) ↔ ∃ i ∈ hosts, (s.get i).locality = l := by
  constructor
  · rintro ⟨i, hi, hl⟩
    obtain ⟨j, rfl⟩ := ρ.surjective i
    exact ⟨j, hhosts.mem_iff.1 hi, hst.get j ▸ hl⟩
  · rintro ⟨i, hi, hl⟩
    exact ⟨ρ i, hhosts.mem_iff.2 hi, by rw [hst.get, hl]⟩

theorem keys_arrange (config : ClusterConfig) :
    (arrange config t hosts').1 = (arrange config s hosts).1 ∧
      (arrange config t hosts').2.map Prod.fst = (arrange config s hosts).2.map Prod.fst := by
  have h := arranged_arrange config s hosts
  have h' := arranged_arrange config t hosts'
  have hlocal : (arrange config t hosts').1 = (arrange config s hosts).1 := by
    rw [Bool.eq_iff_iff, h'.hasLocal, h.hasLocal]
    simp only [exists_inLocality hst hhosts]
  refine ⟨hlocal, ?_⟩
  have hperm : ((arrange config t hosts').2.map Prod.fst).Perm
      ((arrange config s hosts).2.map Prod.fst) :=
    (List.perm_ext_iff_of_nodup h'.distinct h.distinct).2 fun l => by
      rw [h'.mem_keys, h.mem_keys, exists_inLocality hst hhosts]
  exact h.keys_eq (hlocal ▸ h') hperm

theorem mirrors_grouping (config : ClusterConfig) :
    (grouping config s hosts).Mirrors text ρ (grouping config t hosts') := by
  obtain ⟨hlocal, hkeys⟩ := keys_arrange hst hhosts config
  refine ⟨hlocal, ?_⟩
  simp only [grouping, (arranged_arrange config s hosts).groups_eq,
    (arranged_arrange config t hosts').groups_eq, hkeys]
  rw [List.forall₂_map_left_iff, List.forall₂_map_right_iff, List.forall₂_same]
  exact fun l _ => hhosts.filter fun i _ => by rw [hst.get]

/-- The same hosts to install and to report make the same update. -/
theorem mirrors_composed (config : ClusterConfig) (weights : LocalityWeights) {plan plan' : Plan}
    (hplan : plan.hosts = hosts) (hplan' : plan'.hosts = hosts')
    (hpriority : plan'.priority = plan.priority) (hfactor : plan'.factor? = plan.factor?)
    (hadded : Shuffles text ρ (plan.added?.getD hosts) (plan'.added?.getD hosts'))
    (hremoved : Shuffles text ρ (plan.removed?.getD []) (plan'.removed?.getD [])) :
    (composed config weights s plan).Mirrors text ρ (composed config weights t plan') := by
  subst hplan hplan'
  obtain ⟨_, hkeys⟩ := keys_arrange hst hhosts config
  have hweights : ∀ m : List (Locality × List HostId),
      (m.map fun g => (Assoc.find? g.1 weights).getD 0) =
        (m.map Prod.fst).map fun l => (Assoc.find? l weights).getD 0 := fun m => by
    rw [List.map_map]
    rfl
  refine ⟨hpriority, Partition.mirrors_of hst.get hhosts (mirrors_grouping hst hhosts config), ?_,
    hadded, hremoved, hfactor⟩
  simp only [composed, hweights, hkeys]

end Draft

/-! ## Clusters -/

/-- The same cluster, but for the names of hosts and the order of hosts within lists. -/
structure Cluster.Mirrors {τ : Type} (text : HostId → String) (ρ : Equiv.Perm HostId)
    (old : List Event) (c d : Cluster τ) : Prop where
  config : d.config = c.config
  hosts : c.hosts.Mirrors ρ d.hosts
  priorities : c.priorities.Mirrors text ρ (fun m m' => m' = m.rename ρ) old d.priorities
  checker : d.checker? = c.checker?
  detectors : d.detectors = c.detectors
  started : d.started = c.started
  waiting : d.waiting = c.waiting
  awaited : d.awaited = c.awaited
  maxHostWeight : d.maxHostWeight = c.maxHostWeight
  noRebuild : d.noRebuild = c.noRebuild
  emptyUpdates : d.emptyUpdates = c.emptyUpdates

theorem PrioritySet.Mirrors.reloadLevel {τ : Type} [Quantity τ] {old : List Event}
    {ps qs : PrioritySet τ} (h : ps.Mirrors text ρ (fun m m' => m' = m.rename ρ) old qs)
    {s t : HostStore} (hst : s.Mirrors ρ t) (p : Nat) :
    (Cluster.reloadLevel s ps p).Mirrors text ρ (fun m m' => m' = m.rename ρ) old
      (Cluster.reloadLevel t qs p) := by
  have hrel := h.level? p
  simp only [Cluster.reloadLevel]
  generalize ps.level? p = k? at hrel
  generalize qs.level? p = l? at hrel
  cases hrel with
  | none => exact h
  | @some k l hkl =>
    have hpartition := hkl.generation.partition
    have hput := h.put
      (u :=
        { priority := p
          partition := .of s k.generation.partition.hosts k.generation.partition.groups
          weights? := k.generation.weights? })
      (v :=
        { priority := p
          partition := .of t l.generation.partition.hosts l.generation.partition.groups
          weights? := l.generation.weights? })
      ⟨rfl, Partition.mirrors_of hst.get hpartition.hosts hpartition.groups, hkl.generation.weights,
        .nil, .nil, rfl⟩ s t (.inr ⟨rfl, rfl⟩)
    exact hput.notifyMembers (fun _ _ hm => hm) .nil .nil

namespace Cluster.Mirrors

variable {τ : Type} {old : List Event} {c d : Cluster τ}

theorem hasChecker (h : c.Mirrors text ρ old d) : d.hasChecker = c.hasChecker := by
  rw [Cluster.hasChecker, h.checker, Cluster.hasChecker]

theorem announce (h : c.Mirrors text ρ old d) : c.announce.Mirrors text ρ old d.announce :=
  { h with priorities := h.priorities.writeEvent .initialized }

theorem checkedHosts (h : c.Mirrors text ρ old d) : d.checkedHosts = c.checkedHosts :=
  h.priorities.length_flatMap fun k l hkl => hkl.generation.partition.hosts.filter fun i _ => by
    rw [h.hosts.get i]

theorem beginChecks (h : c.Mirrors text ρ old d) : c.beginChecks.Mirrors text ρ old d.beginChecks := by
  simp only [Cluster.beginChecks, h.checker, h.awaited]
  cases c.checker? with
  | none => exact h
  | some observers =>
    simp only
    split
    · exact { h with
        awaited := h.checkedHosts
        checker := rfl }
    · exact h

variable [Quantity τ]

theorem reload (h : c.Mirrors text ρ old d) : c.reload.Mirrors text ρ old d.reload := by
  simp only [Cluster.reload, h.waiting]
  split
  · exact h
  · have hfold := h.priorities.foldl
      (fun _ _ p hps => hps.reloadLevel h.hosts p) (List.range c.priorities.levels.length)
    simp only [Cluster.reloadLevels, h.priorities.length_eq]
    exact { h with priorities := hfold }

theorem finishInit (h : c.Mirrors text ρ old d) : c.finishInit.Mirrors text ρ old d.finishInit := by
  have hended : Mirrors text ρ old { c with waiting := false } { d with waiting := false } :=
    { h with waiting := rfl }
  have hdone : Mirrors text ρ old
      (if c.hasChecker then Cluster.reload { c with waiting := false } else { c with waiting := false })
      (if c.hasChecker then Cluster.reload { d with waiting := false }
        else { d with waiting := false }) := by
    split
    · exact hended.reload
    · exact hended
  have hd : ({ d with waiting := false } : Cluster τ).hasChecker = c.hasChecker := h.hasChecker
  have hc : ({ c with waiting := false } : Cluster τ).hasChecker = c.hasChecker := rfl
  simp only [Cluster.finishInit, hc, hd, h.waiting]
  split
  · exact hdone.announce
  · exact hdone

theorem preInitDone (h : c.Mirrors text ρ old d) : c.preInitDone.Mirrors text ρ old d.preInitDone := by
  have hbegun : Mirrors text ρ old (Cluster.beginChecks { c with started := true })
      (Cluster.beginChecks { d with started := true }) :=
    Mirrors.beginChecks { h with started := rfl }
  simp only [Cluster.preInitDone, h.started, hbegun.awaited]
  split
  · exact h
  · split
    · exact hbegun.finishInit
    · exact hbegun

end Cluster.Mirrors

end Roster
