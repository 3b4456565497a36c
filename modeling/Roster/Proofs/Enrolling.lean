import Mathlib.Data.List.Nodup
import Roster.Proofs.Telling

/-!
# Roster.Proofs.Enrolling

Who is to be told of the changes of a set of levels. A watch has a number, which its handle is dropped
by, and a token at the place where it is registered; here the two are tied together.

* `Enrollment`        — all that a set knows of its observers.
* `Register`          — the numbers of the watches, as plain lists in the order of registration.
* `Enrollment.Follows` — the watches that are enrolled are those of the register, and drop no handles.
* `follows_dropWatch` — a dropped handle takes its watch off every list, and no other.
-/

namespace Roster

/-- All that a set of levels knows of its observers. -/
@[ext] structure Enrollment where
  nextWatch : Nat
  handles : List (Nat × Handle)
  members : Observers Watch
  priorities : Observers PriorityObserver
  levels : List (Observers LevelObserver)

/-- The numbers of those who watch a set of levels, in the order of registration. -/
structure Register where
  next : Nat := 0
  members : List Nat := []
  priorities : List Nat := []
  levels : List (List Nat) := []

/-- A watch that only writes what it sees. -/
def Watch.quiet (number : Nat) : Watch := ⟨number, []⟩

def Watch.number? (w : Watch) : Option Nat := some w.number

def PriorityObserver.number? : PriorityObserver → Option Nat
  | .census => none
  | .watch w => some w.number

def LevelObserver.number? : LevelObserver → Option Nat
  | .forward => none
  | .watch w => some w.number

namespace Register

def grow (r : Register) (p : Nat) : Register :=
  { r with levels := r.levels ++ List.replicate (p + 1 - r.levels.length) [] }

def watchMembers (r : Register) : Register :=
  { r with members := r.members ++ [r.next], next := r.next + 1 }

def watchPriorities (r : Register) : Register :=
  { r with priorities := r.priorities ++ [r.next], next := r.next + 1 }

def watchLevel (r : Register) (p : Nat) : Register :=
  if p < r.levels.length then
    { r with levels := r.levels.modify p (· ++ [r.next]), next := r.next + 1 }
  else r

def drop (r : Register) (number : Nat) : Register :=
  { r with
    members := r.members.filter (· ≠ number)
    priorities := r.priorities.filter (· ≠ number)
    levels := r.levels.map fun ns => ns.filter (· ≠ number) }

end Register

/-! ## Tokens and numbers -/

namespace Observers

variable {α : Type} {o : Observers α} {number? : α → Option Nat} {handles : List (Nat × Handle)}
  {place : Nat → Handle}

def without (o : Observers α) (number? : α → Option Nat) (n : Nat) : Observers α :=
  { o with entries := o.entries.filter fun e => number? e.2 ≠ some n }

/-- The handles to this place lead to the observers that have a number, each by its token. -/
structure Tracked (o : Observers α) (number? : α → Option Nat) (handles : List (Nat × Handle))
    (place : Nat → Handle) : Prop where
  fresh : o.Fresh
  handle : ∀ n token, (n, place token) ∈ handles ↔
    ∃ a, (token, a) ∈ o.entries ∧ number? a = some n

theorem Fresh.eq_of_token (ho : o.Fresh) {token : Nat} {a b : α} (ha : (token, a) ∈ o.entries)
    (hb : (token, b) ∈ o.entries) : a = b := by
  have hdistinct : (o.entries.map Prod.fst).Nodup :=
    List.Pairwise.map Prod.fst (fun _ _ => Nat.ne_of_lt) ho.distinct
  exact congrArg Prod.snd (List.inj_on_of_nodup_map hdistinct ha hb rfl)

namespace Tracked

theorem append_of_ne (h : o.Tracked number? handles place) {n : Nat} {other : Handle}
    (hne : ∀ token, place token ≠ other) : o.Tracked number? (handles ++ [(n, other)]) place := by
  refine ⟨h.fresh, fun m token => ?_⟩
  rw [List.mem_append, List.mem_singleton, Prod.mk.injEq, h.handle]
  exact or_iff_left fun heq => hne token heq.2

theorem add (h : o.Tracked number? handles place) (hplace : Function.Injective place) {a : α}
    {n : Nat} (ha : number? a = some n) :
    (o.add a).2.Tracked number? (handles ++ [(n, place o.nextToken)]) place := by
  refine ⟨h.fresh.add a, fun m token => ?_⟩
  simp only [Observers.add, List.mem_append, List.mem_singleton, Prod.mk.injEq, h.handle,
    hplace.eq_iff]
  constructor
  · rintro (⟨b, hb, hm⟩ | ⟨rfl, rfl⟩)
    · exact ⟨b, .inl hb, hm⟩
    · exact ⟨a, .inr ⟨rfl, rfl⟩, ha⟩
  · rintro ⟨b, hb | ⟨rfl, rfl⟩, hm⟩
    · exact .inl ⟨b, hb, hm⟩
    · exact .inr ⟨Option.some.inj (hm.symm.trans ha), rfl⟩

theorem add_none (h : o.Tracked number? handles place) {a : α} (ha : number? a = none) :
    (o.add a).2.Tracked number? handles place := by
  refine ⟨h.fresh.add a, fun m token => ?_⟩
  simp only [Observers.add, List.mem_append, List.mem_singleton, Prod.mk.injEq, h.handle]
  constructor
  · rintro ⟨b, hb, hm⟩
    exact ⟨b, .inl hb, hm⟩
  · rintro ⟨b, hb | ⟨rfl, rfl⟩, hm⟩
    · exact ⟨b, hb, hm⟩
    · rw [ha] at hm
      cases hm

theorem without (h : o.Tracked number? handles place) (n : Nat) :
    (o.without number? n).Tracked number? (handles.filter fun e => e.1 ≠ n) place := by
  refine ⟨⟨fun e he => h.fresh.below e (List.mem_filter.1 he).1, h.fresh.distinct.filter _⟩,
    fun m token => ?_⟩
  simp only [Observers.without, List.mem_filter, h.handle, decide_eq_true_eq]
  constructor
  · rintro ⟨⟨a, ha, hm⟩, hne⟩
    exact ⟨a, ⟨ha, fun hn => hne (Option.some.inj (hm.symm.trans hn))⟩, hm⟩
  · rintro ⟨a, ⟨ha, hne⟩, hm⟩
    exact ⟨⟨a, ha, hm⟩, fun hn => hne (hn ▸ hm)⟩

theorem without_eq (h : o.Tracked number? handles place) {n : Nat}
    (hn : ∀ token, (n, place token) ∉ handles) : o.without number? n = o := by
  have hall : ∀ e ∈ o.entries, decide (number? e.2 ≠ some n) = true := fun e he =>
    decide_eq_true fun hne => hn e.1 ((h.handle n e.1).2 ⟨e.2, he, hne⟩)
  rw [Observers.without, List.filter_eq_self.2 hall]

/-- As no number has two handles, ending the registration takes off what has the number. -/
theorem remove_eq (h : o.Tracked number? handles place) (hplace : Function.Injective place)
    {n token : Nat} (hn : (n, place token) ∈ handles)
    (hsingle : ∀ other, (n, other) ∈ handles → other = place token) :
    o.remove token = o.without number? n := by
  obtain ⟨a, ha, hnumber⟩ := (h.handle n token).1 hn
  have hiff : ∀ e ∈ o.entries, e.1 ≠ token ↔ number? e.2 ≠ some n := by
    rintro ⟨t, b⟩ hb
    refine not_congr ⟨?_, fun hm => hplace (hsingle _ ((h.handle n t).2 ⟨b, hb, hm⟩))⟩
    rintro rfl
    rw [h.fresh.eq_of_token hb ha]
    exact hnumber
  simp only [Observers.remove, Observers.without]
  rw [List.filter_congr fun e he => decide_eq_decide.2 (hiff e he)]

end Tracked

theorem callbacks_add (o : Observers α) (a : α) : (o.add a).2.callbacks = o.callbacks ++ [a] := by
  simp [callbacks, add]

theorem callbacks_without (o : Observers α) (number? : α → Option Nat) (n : Nat) :
    (o.without number? n).callbacks = o.callbacks.filter fun a => number? a ≠ some n := by
  simp only [callbacks, without, List.filter_map]
  rfl

end Observers

/-! ## Enrollments -/

namespace Enrollment

def levelAt (e : Enrollment) (p : Nat) : Observers LevelObserver := (e.levels[p]?).getD {}

/-- Every number has at most one handle, and every handle leads to the watch of its number. -/
structure Ordered (e : Enrollment) : Prop where
  below : ∀ h ∈ e.handles, h.1 < e.nextWatch
  single : ∀ n h k, (n, h) ∈ e.handles → (n, k) ∈ e.handles → h = k
  members : e.members.Tracked Watch.number? e.handles .members
  priorities : e.priorities.Tracked PriorityObserver.number? e.handles .priorities
  level : ∀ p, (e.levelAt p).Tracked LevelObserver.number? e.handles (.level p)

/-- Those enrolled are those of the register. They drop no handles; every level forwards to the
observers of all levels before it tells its own. -/
structure Lists (e : Enrollment) (r : Register) : Prop where
  next : e.nextWatch = r.next
  members : e.members.callbacks = r.members.map Watch.quiet
  priorities : e.priorities.callbacks.filter (· ≠ .census) =
    r.priorities.map fun n => .watch (.quiet n)
  levels : e.levels.map Observers.callbacks =
    r.levels.map fun ns => .forward :: ns.map fun n => .watch (.quiet n)

structure Follows (e : Enrollment) (r : Register) : Prop where
  ordered : e.Ordered
  lists : e.Lists r

/-- The enrollment past a number that was given up. -/
def without (e : Enrollment) (n : Nat) : Enrollment :=
  { e with
    handles := e.handles.filter fun h => h.1 ≠ n
    members := e.members.without Watch.number? n
    priorities := e.priorities.without PriorityObserver.number? n
    levels := e.levels.map fun o => o.without LevelObserver.number? n }

variable {e : Enrollment} {r : Register}

theorem levelAt_without (e : Enrollment) (n p : Nat) :
    (e.without n).levelAt p = (e.levelAt p).without LevelObserver.number? n := by
  simp only [levelAt, without, List.getElem?_map]
  cases e.levels[p]? <;> rfl

theorem Ordered.without (h : e.Ordered) (n : Nat) : (e.without n).Ordered where
  below k hk := h.below k (List.mem_filter.1 hk).1
  single m k l hk hl := h.single m k l (List.mem_filter.1 hk).1 (List.mem_filter.1 hl).1
  members := h.members.without n
  priorities := h.priorities.without n
  level p := by
    rw [levelAt_without]
    exact (h.level p).without n

theorem Lists.without (h : e.Lists r) (n : Nat) : (e.without n).Lists (r.drop n) where
  next := h.next
  members := by
    simp only [Enrollment.without, Register.drop, Observers.callbacks_without, h.members,
      List.filter_map]
    refine congrArg (List.map Watch.quiet) (List.filter_congr fun m _ => decide_eq_decide.2 ?_)
    simp only [Watch.number?, Watch.quiet, ne_eq, Option.some.injEq]
  priorities := by
    simp only [Enrollment.without, Register.drop, Observers.callbacks_without]
    rw [List.filter_filter, List.filter_congr fun a _ => Bool.and_comm _ _, ← List.filter_filter,
      h.priorities, List.filter_map]
    refine congrArg (List.map _) (List.filter_congr fun m _ => decide_eq_decide.2 ?_)
    simp only [PriorityObserver.number?, Watch.quiet, ne_eq, Option.some.injEq]
  levels := by
    have hcallbacks : (e.levels.map fun o => o.without LevelObserver.number? n).map
        Observers.callbacks = (e.levels.map Observers.callbacks).map
          fun os => os.filter fun a => LevelObserver.number? a ≠ some n := by
      simp only [List.map_map]
      exact List.map_congr_left fun o _ => Observers.callbacks_without o _ n
    simp only [Enrollment.without, Register.drop, hcallbacks, h.levels, List.map_map]
    refine List.map_congr_left fun ns _ => ?_
    rw [Function.comp_apply, List.filter_cons_of_pos (by rfl), List.filter_map]
    refine congrArg (List.cons _) (congrArg (List.map _) (List.filter_congr fun m _ =>
      decide_eq_decide.2 ?_))
    simp only [LevelObserver.number?, Watch.quiet, ne_eq, Option.some.injEq]

theorem Follows.without (h : e.Follows r) (n : Nat) : (e.without n).Follows (r.drop n) :=
  ⟨h.ordered.without n, h.lists.without n⟩

theorem Lists.length_levels (h : e.Lists r) : e.levels.length = r.levels.length := by
  simpa using congrArg List.length h.levels

theorem Ordered.addHandle (h : e.Ordered) (k : Handle) :
    (∀ l ∈ e.handles ++ [(e.nextWatch, k)], l.1 < e.nextWatch + 1) ∧
      ∀ n l m, (n, l) ∈ e.handles ++ [(e.nextWatch, k)] → (n, m) ∈ e.handles ++ [(e.nextWatch, k)] →
        l = m := by
  refine ⟨fun l hl => ?_, fun n l m hl hm => ?_⟩
  · rcases List.mem_append.1 hl with hl | hl
    · exact Nat.lt_succ_of_lt (h.below l hl)
    · rw [List.mem_singleton.1 hl]
      exact Nat.lt_succ_self _
  · have hold : ∀ j, (e.nextWatch, j) ∉ e.handles := fun j hj => Nat.lt_irrefl _ (h.below _ hj)
    simp only [List.mem_append, List.mem_singleton, Prod.mk.injEq] at hl hm
    rcases hl with hl | ⟨rfl, rfl⟩ <;> rcases hm with hm | ⟨hn, rfl⟩
    · exact h.single n l m hl hm
    · exact absurd (hn ▸ hl) (hold l)
    · exact absurd hm (hold m)
    · rfl

end Enrollment

/-! ## Registering -/

namespace PrioritySet

variable {τ : Type} {ps : PrioritySet τ} {r : Register}

def enrollment (ps : PrioritySet τ) : Enrollment :=
  { nextWatch := ps.nextWatch
    handles := ps.handles
    members := ps.memberObservers
    priorities := ps.priorityObservers
    levels := ps.levels.map Level.observers }

theorem follows_watchMembers (h : ps.enrollment.Follows r) :
    (ps.watchMembers []).enrollment.Follows r.watchMembers := by
  obtain ⟨ho, hl⟩ := h
  obtain ⟨hbelow, hsingle⟩ := ho.addHandle (.members ps.memberObservers.nextToken)
  have hnext : ps.nextWatch = r.next := hl.next
  have hcallbacks : (ps.watchMembers []).enrollment.members.callbacks =
      ps.enrollment.members.callbacks ++ [.quiet ps.nextWatch] := Observers.callbacks_add _ _
  refine ⟨⟨hbelow, hsingle, ho.members.add (fun _ _ => Handle.members.inj) rfl,
    ho.priorities.append_of_ne (by simp), fun p => (ho.level p).append_of_ne (by simp)⟩,
    ⟨congrArg (· + 1) hl.next, ?_, hl.priorities, hl.levels⟩⟩
  rw [hcallbacks, hl.members, Register.watchMembers, List.map_append, List.map_singleton, hnext]

theorem follows_watchPriorities (h : ps.enrollment.Follows r) :
    (ps.watchPriorities []).enrollment.Follows r.watchPriorities := by
  obtain ⟨ho, hl⟩ := h
  obtain ⟨hbelow, hsingle⟩ := ho.addHandle (.priorities ps.priorityObservers.nextToken)
  have hnext : ps.nextWatch = r.next := hl.next
  have hcallbacks : (ps.watchPriorities []).enrollment.priorities.callbacks =
      ps.enrollment.priorities.callbacks ++ [.watch (.quiet ps.nextWatch)] :=
    Observers.callbacks_add _ _
  refine ⟨⟨hbelow, hsingle, ho.members.append_of_ne (by simp),
    ho.priorities.add (fun _ _ => Handle.priorities.inj) rfl,
    fun p => (ho.level p).append_of_ne (by simp)⟩,
    ⟨congrArg (· + 1) hl.next, hl.members, ?_, hl.levels⟩⟩
  rw [hcallbacks, List.filter_append, hl.priorities, Register.watchPriorities, List.map_append,
    List.map_singleton, hnext]
  rfl

theorem follows_takeCensus (h : ps.enrollment.Follows r) : ps.takeCensus.enrollment.Follows r := by
  obtain ⟨ho, hl⟩ := h
  have hcallbacks : ps.takeCensus.enrollment.priorities.callbacks =
      ps.enrollment.priorities.callbacks ++ [.census] := Observers.callbacks_add _ _
  refine ⟨⟨ho.below, ho.single, ho.members, ho.priorities.add_none rfl, ho.level⟩,
    ⟨hl.next, hl.members, ?_, hl.levels⟩⟩
  rw [hcallbacks, List.filter_append, hl.priorities]
  exact List.append_nil _

theorem levels_modify_observers (ps : PrioritySet τ) (p : Nat)
    (f : Observers LevelObserver → Observers LevelObserver) :
    (ps.levels.modify p fun l => { l with observers := f l.observers }).map Level.observers =
      (ps.levels.map Level.observers).modify p f := by
  refine List.ext_getElem? fun i => ?_
  simp only [List.getElem?_map, List.getElem?_modify]
  by_cases hi : p = i
  · simp only [hi, if_true]
    cases ps.levels[i]? <;> rfl
  · simp [hi]

theorem enrollment_watchLevel {p : Nat} {l : Level τ} (hl : ps.level? p = some l) :
    (ps.watchLevel p []).enrollment =
      { ps.enrollment with
        nextWatch := ps.nextWatch + 1
        handles := ps.handles ++ [(ps.nextWatch, .level p l.observers.nextToken)]
        levels := ps.enrollment.levels.modify p fun _ =>
          (l.observers.add (.watch (.quiet ps.nextWatch))).2 } := by
  simp only [watchLevel, hl]
  exact Enrollment.ext rfl rfl rfl rfl (levels_modify_observers ps p fun _ => _)

theorem follows_watchLevel (h : ps.enrollment.Follows r) (p : Nat) :
    (ps.watchLevel p []).enrollment.Follows (r.watchLevel p) := by
  obtain ⟨ho, hl⟩ := h
  have hlength : ps.levels.length = r.levels.length := by
    rw [← hl.length_levels, enrollment, List.length_map]
  cases hlevel : ps.level? p with
  | none =>
    have hp : ¬ p < r.levels.length :=
      hlength ▸ Nat.not_lt.2 (List.getElem?_eq_none_iff.1 hlevel)
    rw [watchLevel, hlevel, Register.watchLevel, if_neg hp]
    exact ⟨ho, hl⟩
  | some l =>
    have hp : p < ps.levels.length := (List.getElem?_eq_some_iff.1 hlevel).1
    have hnext : ps.nextWatch = r.next := hl.next
    have hget : ps.enrollment.levels[p]? = some l.observers := by
      rw [enrollment, List.getElem?_map]
      exact congrArg (Option.map Level.observers) hlevel
    obtain ⟨hbelow, hsingle⟩ := ho.addHandle (.level p l.observers.nextToken)
    rw [enrollment_watchLevel hlevel, Register.watchLevel, if_pos (hlength ▸ hp)]
    refine ⟨⟨hbelow, hsingle, ho.members.append_of_ne (by simp),
      ho.priorities.append_of_ne (by simp), fun q => ?_⟩,
      ⟨congrArg (· + 1) hl.next, hl.members, hl.priorities, ?_⟩⟩
    · have hq := ho.level q
      simp only [Enrollment.levelAt, List.getElem?_modify] at hq ⊢
      by_cases hpq : p = q
      · subst hpq
        rw [hget, Option.getD_some] at hq
        simp only [hget, if_true, Option.map_eq_map, Option.map_some, Option.getD_some]
        exact hq.add (fun _ _ heq => (Handle.level.inj heq).2) rfl
      · simp only [hpq, if_false, Option.map_eq_map, Option.map_id_fun', id_eq]
        exact hq.append_of_ne fun token heq => hpq (Handle.level.inj heq).1.symm
    · refine List.ext_getElem? fun i => ?_
      have hi := congrArg (fun os => os[i]?) hl.levels
      simp only [List.getElem?_map] at hi
      simp only [List.getElem?_map, List.getElem?_modify]
      by_cases hpi : p = i
      · subst hpi
        obtain ⟨ns, hns, hcallbacks⟩ := Option.map_eq_some_iff.1 (hi.symm.trans (by rw [hget]; rfl))
        simp only [hget, hns, if_true, Option.map_some, Option.map_eq_map, Observers.callbacks_add,
          ← hcallbacks, List.map_append, List.map_singleton, List.cons_append, hnext]
      · simp only [hpi, if_false, Option.map_eq_map, Option.map_id_fun', id_eq, hi]

/-! ## Dropping a handle -/

section Lookup

variable {α : Type} {e : Enrollment} {o : Observers α} {number? : α → Option Nat}
  {place : Nat → Handle} {n : Nat}

theorem lookup_eq_some_iff (h : e.Ordered) {k : Handle} :
    e.handles.lookup n = some k ↔ (n, k) ∈ e.handles := by
  constructor
  · intro hk
    obtain ⟨before, after, heq, _⟩ := List.lookup_eq_some_iff.1 hk
    exact heq ▸ List.mem_append_right _ List.mem_cons_self
  · intro hk
    cases hn : e.handles.lookup n with
    | none => simpa using List.lookup_eq_none_iff.1 hn _ hk
    | some l =>
      obtain ⟨before, after, heq, _⟩ := List.lookup_eq_some_iff.1 hn
      have hl : (n, l) ∈ e.handles := heq ▸ List.mem_append_right _ List.mem_cons_self
      rw [h.single n l k hl hk]

theorem without_eq_of_lookup (h : e.Ordered) (ho : o.Tracked number? e.handles place)
    (hne : ∀ token, e.handles.lookup n ≠ some (place token)) : o.without number? n = o :=
  ho.without_eq fun token htoken => hne token ((lookup_eq_some_iff h).2 htoken)

theorem remove_eq_of_lookup (h : e.Ordered) (ho : o.Tracked number? e.handles place)
    (hplace : Function.Injective place) {token : Nat}
    (hlookup : e.handles.lookup n = some (place token)) :
    o.remove token = o.without number? n :=
  have hmem := (lookup_eq_some_iff h).1 hlookup
  ho.remove_eq hplace hmem fun k hk => h.single n k _ hk hmem

theorem tracked_of_get (h : e.Ordered) {p : Nat} {os : Observers LevelObserver}
    (hp : e.levels[p]? = some os) : os.Tracked LevelObserver.number? e.handles (.level p) := by
  simpa only [Enrollment.levelAt, hp, Option.getD_some] using h.level p

theorem levels_without_eq (h : e.Ordered) (hne : ∀ p token, e.handles.lookup n ≠ some (.level p token)) :
    (e.without n).levels = e.levels := by
  refine (List.map_congr_left fun os hos => ?_).trans (List.map_id _)
  obtain ⟨p, hp⟩ := List.mem_iff_getElem?.1 hos
  exact without_eq_of_lookup h (tracked_of_get h hp) (hne p)

theorem modify_levels_eq (h : e.Ordered) {p token : Nat}
    (hlookup : e.handles.lookup n = some (.level p token)) :
    e.levels.modify p (·.remove token) = (e.without n).levels := by
  refine List.ext_getElem? fun i => ?_
  rw [List.getElem?_modify, Enrollment.without, List.getElem?_map]
  cases hi : e.levels[i]? with
  | none => rfl
  | some os =>
    have hos := tracked_of_get h hi
    by_cases hpi : p = i
    · subst hpi
      simp only [if_true, Option.map_eq_map, Option.map_some, remove_eq_of_lookup h hos
        (fun _ _ heq => (Handle.level.inj heq).2) hlookup]
    · have hsame : os.without LevelObserver.number? n = os :=
        without_eq_of_lookup h hos (by simp [hlookup, hpi])
      simp only [hpi, if_false, Option.map_eq_map, Option.map_some, hsame]

end Lookup

/-- Whatever place a handle leads to, the others do not have its number. -/
theorem enrollment_dropWatch (h : ps.enrollment.Ordered) (n : Nat) :
    (ps.dropWatch n).enrollment = ps.enrollment.without n := by
  have hmembers := without_eq_of_lookup (n := n) h h.members
  have hpriorities := without_eq_of_lookup (n := n) h h.priorities
  have hlevels := levels_without_eq (n := n) h
  unfold dropWatch
  cases hlookup : ps.handles.lookup n with
  | none =>
    have hnone : ps.enrollment.handles.lookup n = none := hlookup
    have hkept : (ps.enrollment.without n).handles = ps.handles := by
      refine List.filter_eq_self.2 fun k hk => decide_eq_true fun hne => ?_
      have hsome := (lookup_eq_some_iff h).2 (hne ▸ hk : (n, k.2) ∈ ps.enrollment.handles)
      rw [hnone] at hsome
      cases hsome
    exact Enrollment.ext rfl hkept.symm (hmembers (by simp [hnone])).symm
      (hpriorities (by simp [hnone])).symm (hlevels (by simp [hnone])).symm
  | some handle =>
    have hsome : ps.enrollment.handles.lookup n = some handle := hlookup
    cases handle with
    | members token =>
      have hremove := remove_eq_of_lookup h h.members (fun _ _ => Handle.members.inj) hsome
      exact Enrollment.ext rfl rfl hremove (hpriorities (by simp [hsome])).symm
        (hlevels (by simp [hsome])).symm
    | priorities token =>
      have hremove := remove_eq_of_lookup h h.priorities (fun _ _ => Handle.priorities.inj) hsome
      exact Enrollment.ext rfl rfl (hmembers (by simp [hsome])).symm hremove
        (hlevels (by simp [hsome])).symm
    | level p token =>
      refine Enrollment.ext rfl rfl (hmembers (by simp [hsome])).symm
        (hpriorities (by simp [hsome])).symm ?_
      exact (levels_modify_observers ps p (·.remove token)).trans (modify_levels_eq h hsome)

theorem follows_dropWatch (h : ps.enrollment.Follows r) (n : Nat) :
    (ps.dropWatch n).enrollment.Follows (r.drop n) := by
  rw [enrollment_dropWatch h.ordered]
  exact h.without n

end PrioritySet

end Roster
