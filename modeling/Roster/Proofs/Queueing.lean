import Roster.Proofs.Scheduling
import Mathlib.Data.List.Nodup

/-!
# Roster.Proofs.Queueing

A schedule that is used in any order: entries are added at any time between picks. Of the numbers no
more is asked than `Quantity.Monotone`, so all of this holds of numbers that are rounded, too.

* `Use`, `after`    — uses of a schedule one after another; `number` tells entries apart by when they
  were added, and `item?` is the numbered entry that is picked next.
* `Punctual`        — the queue is in strict order, and every entry is due within a period from now;
  kept by every use.
* `picked_between`  — who is before another in the queue is picked before it.
* `Steady`          — what holds at any two moments of any course of uses.
-/

namespace Roster

/-! ## Numbers -/

/-- `a` is no more than `b`. -/
def Quantity.AtMost {τ : Type} [Quantity τ] (a b : τ) : Prop := (Quantity.order a b).isLE = true

/-- Numbers in a total order, in which a sum grows with its parts, the period falls as the weight grows,
and a period later is no earlier. Nothing says that sums or periods are exact. -/
class Quantity.Monotone (τ : Type) [Quantity τ] : Prop extends
    Std.TransCmp (Quantity.order : τ → τ → Ordering) where
  add_le : ∀ {a b c d : τ}, AtMost a b → AtMost c d → AtMost (add a c) (add b d)
  period_le : ∀ {v w : τ}, positive v = true → AtMost v w → AtMost (period w) (period v)
  le_add_period : ∀ (a : τ) {w : τ}, positive w = true → AtMost a (add a (period w))

namespace Quantity

theorem atMost_rat {x y : Rat} : AtMost x y ↔ x ≤ y := by
  simp only [AtMost, Schedule.order_rat]
  split
  case isTrue hlt => simp [hlt.le]
  case isFalse hlt =>
    split
    case isTrue heq => simp [heq]
    case isFalse hne => simpa using lt_of_le_of_ne (not_lt.1 hlt) (Ne.symm hne)

theorem positive_rat_iff {x : Rat} : positive x = true ↔ 0 < x := decide_eq_true_iff

/-- Exact numbers are in order, and add and divide as they should. -/
instance : Monotone Rat where
  eq_swap {x y} := by
    simp only [Schedule.order_rat]
    rcases lt_trichotomy x y with h | h | h
    · simp [h, h.not_gt, h.ne']
    · simp [h]
    · simp [h, h.not_gt, h.ne']
  isLE_trans hxy hyz := atMost_rat.2 ((atMost_rat.1 hxy).trans (atMost_rat.1 hyz))
  add_le hab hcd := atMost_rat.2 (add_le_add (atMost_rat.1 hab) (atMost_rat.1 hcd))
  period_le hv hvw :=
    atMost_rat.2 (one_div_le_one_div_of_le (positive_rat_iff.1 hv) (atMost_rat.1 hvw))
  le_add_period a _ hw :=
    atMost_rat.2 (le_add_of_nonneg_right (one_div_pos.2 (positive_rat_iff.1 hw)).le)

variable {τ : Type} [Quantity τ] [Monotone τ] {a b c : τ}

theorem AtMost.refl (a : τ) : AtMost a a := Std.ReflCmp.isLE_rfl

theorem AtMost.trans (hab : AtMost a b) (hbc : AtMost b c) : AtMost a c :=
  Std.TransCmp.isLE_trans hab hbc

end Quantity

open Quantity

namespace Schedule

/-! ## Uses -/

/-- What is done with a schedule. -/
inductive Use (τ ε : Type) where
  | add (weight : τ) (entry : ε)
  | pick

namespace Use

variable {τ ε δ : Type}

def map (f : ε → δ) : Use τ ε → Use τ δ
  | .add weight entry => .add weight (f entry)
  | .pick => .pick

def added? : Use τ ε → Option (ε × τ)
  | .add weight entry => some (entry, weight)
  | .pick => none

def Weighted [Quantity τ] : Use τ ε → Prop
  | .add weight _ => positive weight = true
  | .pick => True

end Use

section Uses

variable {τ ε δ : Type}

/-- The entries that are added, each with its weight. -/
def added (us : List (Use τ ε)) : List (ε × τ) := us.filterMap Use.added?

/-- Each entry with the number of its addition, from `n` on. -/
def number : Nat → List (Use τ ε) → List (Use τ (Nat × ε))
  | _, [] => []
  | n, .add weight entry :: us => .add weight (n, entry) :: number (n + 1) us
  | n, .pick :: us => .pick :: number n us

theorem added_append (us vs : List (Use τ ε)) : added (us ++ vs) = added us ++ added vs :=
  List.filterMap_append

theorem number_append (n : Nat) (us vs : List (Use τ ε)) :
    number n (us ++ vs) = number n us ++ number (n + (added us).length) vs := by
  induction us generalizing n with
  | nil => rfl
  | cons u us ih =>
    cases u with
    | add weight entry =>
      rw [List.cons_append, number, number, ih, List.cons_append]
      simp only [added, List.filterMap_cons, Use.added?, List.length_cons]
      rw [Nat.add_right_comm, Nat.add_assoc]
    | pick =>
      rw [List.cons_append, number, number, ih, List.cons_append]
      rfl

theorem added_number (n : Nat) (us : List (Use τ ε)) :
    added (number n us) = ((added us).zipIdx n).map fun p => ((p.2, p.1.1), p.1.2) := by
  induction us generalizing n with
  | nil => rfl
  | cons u us ih =>
    cases u with
    | add weight entry => exact congrArg (((n, entry), weight) :: ·) (ih (n + 1))
    | pick => exact ih n

theorem map_number (n : Nat) (us : List (Use τ ε)) : (number n us).map (Use.map Prod.snd) = us := by
  induction us generalizing n with
  | nil => rfl
  | cons u us ih =>
    cases u with
    | add weight entry => exact congrArg (Use.add weight entry :: ·) (ih (n + 1))
    | pick => exact congrArg (Use.pick :: ·) (ih n)

theorem length_number (n : Nat) (us : List (Use τ ε)) : (number n us).length = us.length := by
  rw [← List.length_map (f := Use.map Prod.snd), map_number]

theorem number_eq_append {n : Nat} {us : List (Use τ ε)} {vs ws : List (Use τ (Nat × ε))}
    (h : number n us = vs ++ .pick :: ws) :
    ∃ before later, us = before ++ .pick :: later ∧ vs = number n before := by
  have hus : us = vs.map (Use.map Prod.snd) ++ .pick :: ws.map (Use.map Prod.snd) := by
    rw [← map_number n us, h, List.map_append, List.map_cons]
    rfl
  refine ⟨_, _, hus, ?_⟩
  rw [hus, number_append] at h
  exact (List.append_inj h (by rw [length_number, List.length_map])).1.symm

theorem mem_added_number {i : Nat} {e : ε} {w : τ} {us : List (Use τ ε)} :
    ((i, e), w) ∈ added (number 0 us) ↔ (added us)[i]? = some (e, w) := by
  rw [added_number, List.mem_map]
  constructor
  · rintro ⟨⟨p, j⟩, hmem, heq⟩
    cases heq
    exact List.mk_mem_zipIdx_iff_getElem?.1 hmem
  · intro h
    exact ⟨((e, w), i), List.mk_mem_zipIdx_iff_getElem?.2 h, rfl⟩

theorem nodup_places {α : Type} (l : List α) : (l.zipIdx.map Prod.snd).Nodup := by
  rw [List.zipIdx_map_snd]
  exact List.nodup_range'

theorem nodup_added_number (us : List (Use τ ε)) : ((added (number 0 us)).map Prod.fst).Nodup := by
  refine List.Nodup.of_map Prod.fst ?_
  rw [added_number, List.map_map, List.map_map]
  exact nodup_places (added us)

theorem weighted_number [Quantity τ] {n : Nat} {us : List (Use τ ε)} (h : ∀ u ∈ us, u.Weighted) :
    ∀ u ∈ number n us, u.Weighted := by
  have hmap : ∀ u : Use τ (Nat × ε), (u.map Prod.snd).Weighted → u.Weighted := fun u hu => by
    cases u <;> exact hu
  intro u hu
  refine hmap u (h _ ?_)
  rw [← map_number n us]
  exact List.mem_map_of_mem hu

theorem mem_of_first {s : Schedule τ ε} {u : Turn τ ε} {rest : List (Turn τ ε)}
    (h : s.queue = u :: rest) : u ∈ s.queue := by
  rw [h]
  exact List.mem_cons_self

theorem mem_of_rest {s : Schedule τ ε} {t u : Turn τ ε} {rest : List (Turn τ ε)}
    (h : s.queue = u :: rest) (ht : t ∈ rest) : t ∈ s.queue := by
  rw [h]
  exact List.mem_cons_of_mem u ht

theorem eq_of_entry_eq {s : Schedule τ ε} {t u : Turn τ ε}
    (hdistinct : (s.members.map Prod.fst).Nodup) (ht : t ∈ s.queue) (hu : u ∈ s.queue)
    (h : t.entry = u.entry) : t = u := by
  rw [members, List.map_map] at hdistinct
  exact List.inj_on_of_nodup_map hdistinct ht hu h

end Uses

section Course

variable {τ ε δ : Type} [Quantity τ] {s t : Schedule τ ε}

def use (s : Schedule τ ε) : Use τ ε → Schedule τ ε
  | .add weight entry => s.add weight entry
  | .pick =>
    match s.pick with
    | none => s
    | some (_, t) => t

def after (us : List (Use τ ε)) : Schedule τ ε := us.foldl use .empty

theorem after_append (us vs : List (Use τ ε)) : after (us ++ vs) = vs.foldl use (after us) :=
  List.foldl_append

/-- When the next pick is due. -/
def due? (s : Schedule τ ε) : Option τ := s.queue.head?.map Turn.deadline

theorem mem_push {t : Turn τ ε} {deadline weight : τ} {entry : ε} :
    t ∈ (s.push deadline weight entry).queue ↔
      t = ⟨deadline, s.nextOrder, weight, entry⟩ ∨ t ∈ s.queue :=
  (perm_insert _ s.queue).mem_iff.trans List.mem_cons

theorem mem_afterTurn {t u : Turn τ ε} {rest : List (Turn τ ε)} :
    t ∈ (s.afterTurn u rest).queue ↔
      t = ⟨Quantity.add u.deadline (period u.weight), s.nextOrder, u.weight, u.entry⟩ ∨ t ∈ rest :=
  mem_push

theorem use_pick_of_cons {u : Turn τ ε} {rest : List (Turn τ ε)} (h : s.queue = u :: rest) :
    s.use .pick = s.afterTurn u rest := by
  simp only [use, pick_of_cons h]

theorem mem_use_pick {t u : Turn τ ε} {rest : List (Turn τ ε)} (h : s.queue = u :: rest)
    (ht : t ∈ s.queue) (hne : t ≠ u) : t ∈ (s.use .pick).queue := by
  rw [h] at ht
  rw [use_pick_of_cons h]
  exact mem_afterTurn.2 (.inr ((List.mem_cons.1 ht).resolve_left hne))

theorem peek_of_pick {p : ε × τ} (h : s.pick = some (p, t)) : s.peek = some p.1 := by
  obtain ⟨u, rest, hqueue, rfl, _⟩ := pick_eq_some h
  rw [peek, hqueue]
  rfl

/-! ### Nothing is lost -/

theorem perm_members_use (s : Schedule τ ε) (u : Use τ ε) :
    (s.use u).members.Perm (u.added?.toList ++ s.members) := by
  cases u with
  | add weight entry => exact perm_members_add s weight entry
  | pick =>
    cases h : s.pick with
    | none => simp only [use, h]; exact .refl _
    | some r => simp only [use, h]; exact perm_members_pick h

theorem perm_members_foldl (us : List (Use τ ε)) (s : Schedule τ ε) :
    (us.foldl use s).members.Perm (added us ++ s.members) := by
  induction us generalizing s with
  | nil => exact .refl _
  | cons u us ih =>
    have hadded : added (u :: us) = u.added?.toList ++ added us := by
      cases u <;> rfl
    rw [List.foldl_cons, hadded, List.append_assoc]
    refine (ih _).trans (((perm_members_use s u).append_left _).trans ?_)
    rw [← List.append_assoc, ← List.append_assoc]
    exact List.perm_append_comm.append_right _

theorem perm_members_after (us : List (Use τ ε)) : (after us).members.Perm (added us) := by
  have hperm := perm_members_foldl us (.empty : Schedule τ ε)
  rwa [members_empty, List.append_nil] at hperm

theorem pick_eq_none_iff : s.pick = none ↔ s.members = [] := by
  cases h : s.queue with
  | nil => simp [pick, members, h]
  | cons u rest => simp [pick_of_cons h, members, h]

/-! ### Entries do not decide -/

def map (f : ε → δ) (s : Schedule τ ε) : Schedule τ δ :=
  { s with queue := s.queue.map fun t => ⟨t.deadline, t.order, t.weight, f t.entry⟩ }

theorem map_push (f : ε → δ) (s : Schedule τ ε) (deadline weight : τ) (entry : ε) :
    (s.push deadline weight entry).map f = (s.map f).push deadline weight (f entry) := by
  have hinsert : ∀ (t : Turn τ ε) (queue : List (Turn τ ε)),
      (insert t queue).map (fun t => (⟨t.deadline, t.order, t.weight, f t.entry⟩ : Turn τ δ)) =
        insert ⟨t.deadline, t.order, t.weight, f t.entry⟩
          (queue.map fun t => ⟨t.deadline, t.order, t.weight, f t.entry⟩) := by
    intro t queue
    induction queue with
    | nil => rfl
    | cons u queue ih =>
      have hbefore : before (⟨t.deadline, t.order, t.weight, f t.entry⟩ : Turn τ δ)
          ⟨u.deadline, u.order, u.weight, f u.entry⟩ = before t u := rfl
      simp only [insert, List.map_cons, hbefore]
      split
      · rfl
      · rw [List.map_cons, ih]
  simp only [push, map, hinsert]

theorem pick_map (f : ε → δ) (s : Schedule τ ε) :
    (s.map f).pick = s.pick.map fun r => ((f r.1.1, r.1.2), r.2.map f) := by
  cases h : s.queue with
  | nil => simp [pick, map, h]
  | cons u rest =>
    have hmap : (s.map f).queue = ⟨u.deadline, u.order, u.weight, f u.entry⟩ ::
        rest.map fun t => ⟨t.deadline, t.order, t.weight, f t.entry⟩ := by
      rw [map, h, List.map_cons]
    rw [pick_of_cons h, pick_of_cons hmap, Option.map_some, afterTurn, afterTurn, map_push]
    rfl

theorem use_map (f : ε → δ) (s : Schedule τ ε) (u : Use τ ε) :
    (s.map f).use (u.map f) = (s.use u).map f := by
  cases u with
  | add weight entry => exact (map_push f s _ weight entry).symm
  | pick =>
    simp only [Use.map, use, pick_map]
    cases s.pick <;> rfl

theorem foldl_map (f : ε → δ) (s : Schedule τ ε) (us : List (Use τ ε)) :
    (us.map (Use.map f)).foldl use (s.map f) = (us.foldl use s).map f := by
  induction us generalizing s with
  | nil => rfl
  | cons u us ih => rw [List.map_cons, List.foldl_cons, List.foldl_cons, use_map, ih]

theorem after_map (f : ε → δ) (us : List (Use τ ε)) : after (us.map (Use.map f)) = (after us).map f :=
  foldl_map f .empty us

/-- The entry that is picked next, with its number. -/
def item? (us : List (Use τ ε)) : Option ((Nat × ε) × τ) :=
  (after (number 0 us)).pick.map Prod.fst

theorem pick_after (us : List (Use τ ε)) :
    (after us).pick.map Prod.fst = (item? us).map fun p => (p.1.2, p.2) := by
  conv_lhs => rw [← map_number 0 us, after_map, pick_map]
  rw [item?, Option.map_map, Option.map_map]
  rfl

theorem item?_eq_some {us : List (Use τ ε)} {i : Nat} {e : ε} {w : τ} (h : item? us = some ((i, e), w)) :
    (added us)[i]? = some (e, w) := by
  obtain ⟨r, hpick, hr⟩ := Option.map_eq_some_iff.1 h
  have hmem := mem_members_of_pick (p := r.1) hpick
  rw [hr] at hmem
  exact mem_added_number.1 ((perm_members_after _).mem_iff.1 hmem)

theorem after_number_append (us vs : List (Use τ ε)) :
    after (number 0 (us ++ .pick :: vs)) =
      (Use.pick :: number (added us).length vs).foldl use (after (number 0 us)) := by
  rw [number_append, after_append, Nat.zero_add]
  rfl

theorem nodup_added_append_members (us vs : List (Use τ ε)) :
    ((added (number (added us).length vs) ++ (after (number 0 us)).members).map Prod.fst).Nodup := by
  have hadded : added (number 0 (us ++ vs)) =
      added (number 0 us) ++ added (number (added us).length vs) := by
    rw [number_append, added_append, Nat.zero_add]
  have hperm : (added (number (added us).length vs) ++ (after (number 0 us)).members).Perm
      (added (number 0 (us ++ vs))) := by
    rw [hadded]
    exact ((perm_members_after _).append_left _).trans List.perm_append_comm
  exact (hperm.map Prod.fst).nodup_iff.2 (nodup_added_number _)

/-- A number stands for the same entry at all times. -/
theorem entry_eq_of_item? {us vs : List (Use τ ε)} {i : Nat} {e e' : ε} {w w' : τ}
    (hfirst : item? us = some ((i, e), w)) (hlast : item? (us ++ vs) = some ((i, e'), w')) : e' = e := by
  have hi := item?_eq_some hfirst
  have hlater := item?_eq_some hlast
  rw [added_append, List.getElem?_append_left (List.getElem?_eq_some_iff.1 hi).1, hi] at hlater
  cases hlater
  rfl

end Course

/-! ## Order -/

section Order

variable {τ ε : Type} [Quantity τ] {s : Schedule τ ε} {t u v : Turn τ ε}

theorem before_iff : before t u = true ↔
    order t.deadline u.deadline = .lt ∨ order t.deadline u.deadline = .eq ∧ t.order < u.order := by
  rw [before, decide_eq_true_iff, Ordering.then_eq_lt, Nat.compare_eq_lt]

theorem before_of_atMost (hdue : AtMost t.deadline u.deadline) (hlt : t.order < u.order) :
    before t u = true := by
  rw [before_iff]
  rcases Ordering.isLE_iff_eq_lt_or_eq_eq.1 hdue with hdue | hdue
  · exact .inl hdue
  · exact .inr ⟨hdue, hlt⟩

/-- The queue is in strict order, and every entry has weight and is due from now on, within one period of
its weight. -/
structure Punctual (s : Schedule τ ε) : Prop where
  ordered : s.queue.Pairwise fun t u => before t u = true
  queued : ∀ t ∈ s.queue, t.order < s.nextOrder
  weighted : ∀ t ∈ s.queue, positive t.weight = true
  pending : ∀ t ∈ s.queue, AtMost s.now t.deadline
  due : ∀ t ∈ s.queue, AtMost t.deadline (Quantity.add s.now (period t.weight))

theorem Punctual.empty : (Schedule.empty : Schedule τ ε).Punctual := by
  refine ⟨.nil, ?_, ?_, ?_, ?_⟩ <;> simp [Schedule.empty]

variable [Quantity.Monotone τ]

theorem before_trans (htu : before t u = true) (huv : before u v = true) : before t v = true := by
  rw [before_iff] at htu huv ⊢
  rcases htu with htu | ⟨htu, hlt⟩
  · rcases huv with huv | ⟨huv, _⟩
    · exact .inl (Std.TransCmp.lt_trans htu huv)
    · exact .inl (Std.TransCmp.lt_of_lt_of_eq htu huv)
  · rcases huv with huv | ⟨huv, hlt'⟩
    · exact .inl (Std.TransCmp.lt_of_eq_of_lt htu huv)
    · exact .inr ⟨Std.TransCmp.eq_trans htu huv, hlt.trans hlt'⟩

theorem not_before_self (t : Turn τ ε) : ¬ before t t = true := by
  rw [before_iff, @Std.ReflCmp.compare_self τ order]
  simp

theorem before_of_not_before (h : ¬ before t u = true) (hlt : u.order < t.order) :
    before u t = true := by
  refine before_of_atMost ?_ hlt
  rw [AtMost, @Std.OrientedCmp.eq_swap τ order, Ordering.isLE_swap]
  cases horder : order t.deadline u.deadline with
  | lt => exact absurd (before_iff.2 (.inl horder)) h
  | eq => rfl
  | gt => rfl

theorem pairwise_insert {queue : List (Turn τ ε)} (h : queue.Pairwise fun u v => before u v = true)
    (hnew : ∀ u ∈ queue, u.order < t.order) :
    (insert t queue).Pairwise fun u v => before u v = true := by
  induction queue with
  | nil => exact List.pairwise_singleton _ t
  | cons u queue ih =>
    obtain ⟨hu, hqueue⟩ := List.pairwise_cons.1 h
    have hrest := ih hqueue fun v hv => hnew v (List.mem_cons_of_mem u hv)
    simp only [insert]
    split
    case isTrue htu =>
      refine List.pairwise_cons.2 ⟨fun v hv => ?_, h⟩
      rcases List.mem_cons.1 hv with rfl | hv
      · exact htu
      · exact before_trans htu (hu v hv)
    case isFalse htu =>
      refine List.pairwise_cons.2 ⟨fun v hv => ?_, hrest⟩
      rcases List.mem_cons.1 ((perm_insert t queue).mem_iff.1 hv) with rfl | hv
      · exact before_of_not_before htu (hnew u List.mem_cons_self)
      · exact hu v hv

namespace Punctual

theorem push (h : s.Punctual) {weight : τ} (hw : positive weight = true) (entry : ε) :
    (s.push (Quantity.add s.now (period weight)) weight entry).Punctual := by
  refine ⟨pairwise_insert h.ordered h.queued, fun t ht => ?_, fun t ht => ?_, fun t ht => ?_,
    fun t ht => ?_⟩
  · rcases mem_push.1 ht with rfl | ht
    · exact Nat.lt_succ_self _
    · exact (h.queued t ht).trans (Nat.lt_succ_self _)
  · rcases mem_push.1 ht with rfl | ht
    · exact hw
    · exact h.weighted t ht
  · rcases mem_push.1 ht with rfl | ht
    · exact Monotone.le_add_period _ hw
    · exact h.pending t ht
  · rcases mem_push.1 ht with rfl | ht
    · exact .refl _
    · exact h.due t ht

theorem moved {rest : List (Turn τ ε)} (h : s.Punctual) (hqueue : s.queue = u :: rest) :
    ({ s with queue := rest, now := u.deadline } : Schedule τ ε).Punctual := by
  have hmem : ∀ v ∈ rest, v ∈ s.queue := fun v hv => mem_of_rest hqueue hv
  have hordered := h.ordered
  rw [hqueue] at hordered
  obtain ⟨hfirst, hrest⟩ := List.pairwise_cons.1 hordered
  refine ⟨hrest, fun v hv => h.queued v (hmem v hv), fun v hv => h.weighted v (hmem v hv),
    fun v hv => ?_, fun v hv => ?_⟩
  · rcases before_iff.1 (hfirst v hv) with hlt | ⟨heq, _⟩
    · exact Ordering.isLE_of_eq_lt hlt
    · exact Ordering.isLE_of_eq_eq heq
  · exact (h.due v (hmem v hv)).trans
      (Monotone.add_le (h.pending u (mem_of_first hqueue)) (.refl _))

theorem afterTurn {rest : List (Turn τ ε)} (h : s.Punctual) (hqueue : s.queue = u :: rest) :
    (s.afterTurn u rest).Punctual :=
  (h.moved hqueue).push (h.weighted u (mem_of_first hqueue)) u.entry

theorem use (h : s.Punctual) {u : Use τ ε} (hu : u.Weighted) : (s.use u).Punctual := by
  cases u with
  | add weight entry => exact h.push hu entry
  | pick =>
    cases hqueue : s.queue with
    | nil => simpa only [Schedule.use, pick, hqueue] using h
    | cons u rest =>
      rw [use_pick_of_cons hqueue]
      exact h.afterTurn hqueue

theorem foldl (h : s.Punctual) {us : List (Use τ ε)} (hus : ∀ u ∈ us, u.Weighted) :
    (us.foldl Schedule.use s).Punctual := by
  induction us generalizing s with
  | nil => exact h
  | cons u us ih =>
    exact ih (h.use (hus u List.mem_cons_self)) fun v hv => hus v (List.mem_cons_of_mem u hv)

/-- The clock never goes back. -/
theorem now_le_foldl (h : s.Punctual) {us : List (Use τ ε)} (hus : ∀ u ∈ us, u.Weighted) :
    AtMost s.now (us.foldl Schedule.use s).now := by
  induction us generalizing s with
  | nil => exact .refl _
  | cons u us ih =>
    have hu := hus u List.mem_cons_self
    refine AtMost.trans ?_ (ih (h.use hu) fun v hv => hus v (List.mem_cons_of_mem u hv))
    cases u with
    | add weight entry => exact .refl _
    | pick =>
      cases hqueue : s.queue with
      | nil =>
        simp only [Schedule.use, pick, hqueue]
        exact .refl _
      | cons u rest =>
        rw [use_pick_of_cons hqueue]
        exact h.pending u (mem_of_first hqueue)

theorem due_le_due (h : s.Punctual) {us : List (Use τ ε)} (hus : ∀ u ∈ us, u.Weighted) {d d' : τ}
    (hd : s.due? = some d) (hd' : ((Use.pick :: us).foldl Schedule.use s).due? = some d') :
    AtMost d d' := by
  obtain ⟨t, ht, rfl⟩ := Option.map_eq_some_iff.1 hd
  obtain ⟨u, hu, rfl⟩ := Option.map_eq_some_iff.1 hd'
  obtain ⟨rest, hqueue⟩ := List.head?_eq_some_iff.1 ht
  rw [List.foldl_cons, use_pick_of_cons hqueue] at hu
  have hlater := (h.afterTurn hqueue).foldl hus
  exact ((h.afterTurn hqueue).now_le_foldl hus).trans (hlater.pending u (List.mem_of_mem_head? hu))

end Punctual

/-! ## No bursts -/

/-- Of two queued entries the one behind is not picked while the other is there. -/
theorem Punctual.first_ne {rest : List (Turn τ ε)} (h : s.Punctual) (hqueue : s.queue = v :: rest)
    (ht : t ∈ s.queue) (htu : before t u = true) : v ≠ u := by
  rintro rfl
  have hordered := h.ordered
  rw [hqueue] at hordered ht
  rcases List.mem_cons.1 ht with rfl | ht
  · exact not_before_self t htu
  · exact not_before_self v (before_trans ((List.pairwise_cons.1 hordered).1 t ht) htu)

/-- Who is before another in the queue is picked before it. -/
theorem picked_between {us : List (Use τ ε)} (h : s.Punctual) (hus : ∀ u ∈ us, u.Weighted)
    (hdistinct : ((added us ++ s.members).map Prod.fst).Nodup) (ht : t ∈ s.queue) (hu : u ∈ s.queue)
    (htu : before t u = true) {p : ε × τ} (hlast : (us.foldl use s).pick.map Prod.fst = some p)
    (hp : p.1 = u.entry) :
    ∃ vs ws, us = vs ++ .pick :: ws ∧
      (vs.foldl use s).pick.map Prod.fst = some (t.entry, t.weight) := by
  induction us generalizing s with
  | nil =>
    obtain ⟨r, hpick, rfl⟩ := Option.map_eq_some_iff.1 hlast
    obtain ⟨v, rest, hqueue, hv, _⟩ := pick_eq_some (p := r.1) hpick
    rw [hv] at hp
    exact absurd (eq_of_entry_eq hdistinct (mem_of_first hqueue) hu hp) (h.first_ne hqueue ht htu)
  | cons use us ih =>
    have hrest : ∀ v ∈ us, v.Weighted := fun v hv => hus v (List.mem_cons_of_mem use hv)
    have hsplit : ((added us ++ (s.use use).members).map Prod.fst).Nodup := by
      refine (List.Perm.nodup_iff (List.Perm.map Prod.fst ?_)).1 hdistinct
      exact (perm_members_foldl (use :: us) s).symm.trans (perm_members_foldl us (s.use use))
    -- While both stay queued, the pick that is looked for is among the later uses.
    have hlater : t ∈ (s.use use).queue → u ∈ (s.use use).queue → ∃ vs ws,
        use :: us = vs ++ .pick :: ws ∧
          (vs.foldl Schedule.use s).pick.map Prod.fst = some (t.entry, t.weight) := by
      intro ht hu
      obtain ⟨vs, ws, rfl, hpick⟩ :=
        ih (h.use (hus use List.mem_cons_self)) hrest hsplit ht hu hlast
      exact ⟨use :: vs, ws, rfl, hpick⟩
    cases use with
    | add weight entry => exact hlater (mem_push.2 (.inr ht)) (mem_push.2 (.inr hu))
    | pick =>
      obtain ⟨v, rest, hqueue, hpick⟩ := exists_pick (List.ne_nil_of_mem ht)
      by_cases htv : t = v
      · exact ⟨[], us, rfl, by rw [htv, List.foldl_nil, hpick]; rfl⟩
      · exact hlater (mem_use_pick hqueue ht htv)
          (mem_use_pick hqueue hu (h.first_ne hqueue ht htu).symm)

/-! ## Any course of uses -/

/-- What holds of a new schedule after the uses `before`, and when it is then picked from and used
`between` times more. -/
structure Steady (before between : List (Use τ ε)) : Prop where
  /-- What is queued is what was added, each with its weight. -/
  kept : (after before).members.Perm (added before)
  /-- There is something to pick as soon as something was added. -/
  empty_iff : (after before).pick = none ↔ added before = []
  announced : ∀ p s, (after before).pick = some (p, s) → (after before).peek = some p.1
  numbered : (after before).pick.map Prod.fst = (item? before).map fun p => (p.1.2, p.2)
  /-- A pick has the weight that its item was added with. -/
  weighed : ∀ i e w, item? before = some ((i, e), w) → (added before)[i]? = some (e, w)
  later : ∀ d d', (after before).due? = some d →
    (after (before ++ .pick :: between)).due? = some d' → AtMost d d'
  /-- Between two picks of one item, any other that was there and weighs no less is picked, too. -/
  fair : ∀ i e w e' w', item? before = some ((i, e), w) →
    item? (before ++ .pick :: between) = some ((i, e'), w') →
      ∀ j f v, (added before)[j]? = some (f, v) → j ≠ i → AtMost w v →
        ∃ vs ws, between = vs ++ .pick :: ws ∧ item? (before ++ .pick :: vs) = some ((j, f), v)

/-- An entry that was just picked is behind every other that weighs no less. -/
theorem before_of_weight_le {rest : List (Turn τ ε)} (h : s.Punctual) (hqueue : s.queue = u :: rest)
    (ht : t ∈ rest) (hweight : AtMost u.weight t.weight) :
    before t ⟨Quantity.add u.deadline (period u.weight), s.nextOrder, u.weight, u.entry⟩ = true := by
  have htqueue := mem_of_rest hqueue ht
  have hu := mem_of_first hqueue
  refine before_of_atMost ?_ (h.queued t htqueue)
  exact (h.due t htqueue).trans
    (Monotone.add_le (h.pending u hu) (Monotone.period_le (h.weighted u hu) hweight))

theorem picked_again {us : List (Use τ ε)} {x y : ε × τ} (h : s.Punctual) (hus : ∀ u ∈ us, u.Weighted)
    (hdistinct : ((added us ++ s.members).map Prod.fst).Nodup)
    (hfirst : s.pick.map Prod.fst = some x) (hy : y ∈ s.members) (hne : y.1 ≠ x.1)
    (hweight : AtMost x.2 y.2) {p : ε × τ}
    (hlast : ((Use.pick :: us).foldl use s).pick.map Prod.fst = some p) (hp : p.1 = x.1) :
    ∃ vs ws, us = vs ++ .pick :: ws ∧
      ((Use.pick :: vs).foldl use s).pick.map Prod.fst = some y := by
  obtain ⟨r, hpick, rfl⟩ := Option.map_eq_some_iff.1 hfirst
  obtain ⟨u, rest, hqueue, hu, _⟩ := pick_eq_some (p := r.1) hpick
  rw [hu] at hne hweight hp
  obtain ⟨t, ht, rfl⟩ := List.mem_map.1 hy
  have hrest : t ∈ rest := by
    rw [hqueue] at ht
    refine (List.mem_cons.1 ht).resolve_left ?_
    rintro rfl
    exact hne rfl
  have hperm : (s.afterTurn u rest).members.Perm s.members := perm_members_pick (pick_of_cons hqueue)
  rw [List.foldl_cons, use_pick_of_cons hqueue] at hlast
  obtain ⟨vs, ws, rfl, hpicked⟩ := picked_between (h.afterTurn hqueue) hus
    ((((hperm.append_left _).map _).nodup_iff).2 hdistinct)
    (mem_afterTurn.2 (.inr hrest)) (mem_afterTurn.2 (.inl rfl))
    (before_of_weight_le h hqueue hrest hweight) hlast hp
  refine ⟨vs, ws, rfl, ?_⟩
  rwa [List.foldl_cons, use_pick_of_cons hqueue]

theorem exists_item?_between {us between : List (Use τ ε)} {i j : Nat} {e e' f : ε} {w w' v : τ}
    (hbefore : ∀ u ∈ us, u.Weighted) (hbetween : ∀ u ∈ between, u.Weighted)
    (hfirst : item? us = some ((i, e), w))
    (hlast : item? (us ++ .pick :: between) = some ((i, e'), w'))
    (hj : (added us)[j]? = some (f, v)) (hne : j ≠ i) (hweight : AtMost w v) :
    ∃ vs ws, between = vs ++ .pick :: ws ∧ item? (us ++ .pick :: vs) = some ((j, f), v) := by
  have hsame := entry_eq_of_item? hfirst hlast
  rw [item?, after_number_append] at hlast
  obtain ⟨vs, ws, hcut, hpicked⟩ := picked_again (Punctual.empty.foldl (weighted_number hbefore))
    (weighted_number hbetween) (nodup_added_append_members us between) hfirst
    ((perm_members_after _).mem_iff.2 (mem_added_number.2 hj)) (fun heq => hne (congrArg Prod.fst heq))
    hweight hlast (by rw [hsame])
  obtain ⟨vs, ws, hus, rfl⟩ := number_eq_append hcut
  refine ⟨vs, ws, hus, ?_⟩
  rw [item?, after_number_append]
  exact hpicked

/-- Adding and picking in any order loses nothing and makes no bursts. -/
theorem steady_of_weighted (before between : List (Use τ ε))
    (h : ∀ u ∈ before ++ between, u.Weighted) : Steady before between := by
  have hbefore : ∀ u ∈ before, u.Weighted := fun u hu => h u (List.mem_append_left _ hu)
  have hbetween : ∀ u ∈ between, u.Weighted := fun u hu => h u (List.mem_append_right _ hu)
  refine ⟨perm_members_after before, ?_, fun p s hpick => peek_of_pick hpick, pick_after before,
    fun i e w => item?_eq_some, fun d d' hd hd' => ?_, fun i e w e' w' hfirst hlast j f v hj hne hv =>
      exists_item?_between hbefore hbetween hfirst hlast hj hne hv⟩
  · rw [pick_eq_none_iff, ← List.nil_perm, ← List.nil_perm]
    exact (perm_members_after before).congr_right _ |>.trans Iff.rfl
  · rw [after_append] at hd'
    exact (Punctual.empty.foldl hbefore).due_le_due hbetween hd hd'

/-- `a` and `b` weigh the same; `b` was there when `a` was picked, and comes before `a` again, though `c`
was added in between and weighs more. -/
theorem steady_mixed :
    let before : List (Use Rat Char) := [.add 1 'a', .add 1 'b']
    let between : List (Use Rat Char) := [.add 2 'c', .pick, .pick]
    item? before = some ((0, 'a'), 1) ∧ item? (before ++ .pick :: between) = some ((0, 'a'), 1) ∧
      ∃ vs ws, between = vs ++ .pick :: ws ∧ item? (before ++ .pick :: vs) = some ((1, 'b'), 1) := by
  intro before between
  have hfirst : item? before = some ((0, 'a'), 1) := by decide +kernel
  have hlast : item? (before ++ .pick :: between) = some ((0, 'a'), 1) := by decide +kernel
  have hweighted : ∀ u ∈ before ++ between, u.Weighted := by
    simp [before, between, Use.Weighted, positive_rat_iff]
  exact ⟨hfirst, hlast, (steady_of_weighted before between hweighted).fair 0 'a' 1 'a' 1 hfirst hlast
    1 'b' 1 (by decide +kernel) (by decide) (.refl _)⟩

end Order

end Schedule

end Roster
