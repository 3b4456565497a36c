import Roster.Schedule
import Mathlib.Algebra.Order.Floor.Ring
import Mathlib.Data.Rat.Floor
import Mathlib.Data.List.Perm.Basic
import Mathlib.Algebra.Order.BigOperators.Group.List
import Mathlib.Tactic.Linarith
import Mathlib.Tactic.FieldSimp
import Mathlib.Tactic.Ring

/-!
# Roster.Proofs.Scheduling

What a schedule picks, and how long a queued entry waits for its turn.

* `perm_members_pick` — picking loses no entry and adds none.
* `Timely`            — over exact numbers: the queue is in order, and every entry is due within one
  period of its weight; kept by adding and picking.
* `debt`              — how many picks may still come before a deadline; each such pick pays one.
* `mem_picks`         — so an entry is picked within a number of picks that the weights bound.
-/

namespace Roster.Schedule

/-! ## Members -/

section Members

variable {τ ε : Type} [Quantity τ] {s t : Schedule τ ε} {p : ε × τ}

def members (s : Schedule τ ε) : List (ε × τ) :=
  s.queue.map fun t => (t.entry, t.weight)

theorem members_empty : (empty : Schedule τ ε).members = [] := rfl

theorem perm_insert (t : Turn τ ε) (queue : List (Turn τ ε)) : (insert t queue).Perm (t :: queue) := by
  induction queue with
  | nil => exact .refl _
  | cons u queue ih =>
    simp only [insert]
    split
    · exact .refl _
    · exact (ih.cons u).trans (.swap t u queue)

theorem perm_members_push (s : Schedule τ ε) (deadline weight : τ) (entry : ε) :
    (s.push deadline weight entry).members.Perm ((entry, weight) :: s.members) :=
  (perm_insert _ s.queue).map _

theorem perm_members_add (s : Schedule τ ε) (weight : τ) (entry : ε) :
    (s.add weight entry).members.Perm ((entry, weight) :: s.members) :=
  perm_members_push s _ weight entry

def afterTurn (s : Schedule τ ε) (t : Turn τ ε) (rest : List (Turn τ ε)) : Schedule τ ε :=
  push { s with queue := rest, now := t.deadline }
    (Quantity.add t.deadline (Quantity.period t.weight)) t.weight t.entry

theorem pick_of_cons {u : Turn τ ε} {rest : List (Turn τ ε)} (h : s.queue = u :: rest) :
    s.pick = some ((u.entry, u.weight), s.afterTurn u rest) := by
  simp only [pick, h, afterTurn]

theorem exists_pick (h : s.queue ≠ []) :
    ∃ u rest, s.queue = u :: rest ∧ s.pick = some ((u.entry, u.weight), s.afterTurn u rest) := by
  obtain ⟨u, rest, hqueue⟩ := List.exists_cons_of_ne_nil h
  exact ⟨u, rest, hqueue, pick_of_cons hqueue⟩

theorem pick_eq_some (h : s.pick = some (p, t)) :
    ∃ u rest, s.queue = u :: rest ∧ p = (u.entry, u.weight) ∧ t = s.afterTurn u rest := by
  cases hqueue : s.queue with
  | nil => simp [pick, hqueue] at h
  | cons u rest =>
    rw [pick_of_cons hqueue] at h
    cases h
    exact ⟨u, rest, rfl, rfl, rfl⟩

theorem perm_members_pick (h : s.pick = some (p, t)) : t.members.Perm s.members := by
  obtain ⟨u, rest, hqueue, _, rfl⟩ := pick_eq_some h
  refine (perm_members_push _ _ u.weight u.entry).trans ?_
  rw [members, members, hqueue, List.map_cons]

theorem mem_members_of_pick (h : s.pick = some (p, t)) : p ∈ s.members := by
  obtain ⟨u, rest, hqueue, rfl, _⟩ := pick_eq_some h
  rw [members, hqueue]
  exact List.mem_cons_self

theorem queue_ne_nil_of_pick (h : s.pick = some (p, t)) : t.queue ≠ [] := by
  intro hnil
  have hperm := perm_members_pick h
  rw [members, hnil, List.map_nil] at hperm
  exact absurd (mem_members_of_pick h) (by simp [hperm.symm.eq_nil])

theorem perm_members_picks (n : Nat) (s : Schedule τ ε) : (picks n s).2.members.Perm s.members := by
  induction n generalizing s with
  | zero => exact .refl _
  | succ n ih =>
    cases hpick : s.pick with
    | none => simp only [picks, hpick]; exact .refl _
    | some r => simp only [picks, hpick]; exact (ih r.2).trans (perm_members_pick hpick)

theorem mem_members_of_mem_picks {n : Nat} (h : p ∈ (picks n s).1) : p ∈ s.members := by
  induction n generalizing s with
  | zero => cases h
  | succ n ih =>
    cases hpick : s.pick with
    | none => simp [picks, hpick] at h
    | some r =>
      simp only [picks, hpick, List.mem_cons] at h
      rcases h with rfl | h
      · exact mem_members_of_pick hpick
      · exact (perm_members_pick hpick).mem_iff.1 (ih h)

theorem length_picks {n : Nat} (h : s.queue ≠ []) : (picks n s).1.length = n := by
  induction n generalizing s with
  | zero => rfl
  | succ n ih =>
    obtain ⟨u, rest, _, hpick⟩ := exists_pick h
    simp only [picks, hpick, List.length_cons, ih (queue_ne_nil_of_pick hpick)]

theorem picks_add (m n : Nat) (s : Schedule τ ε) :
    (picks (m + n) s).1 = (picks m s).1 ++ (picks n (picks m s).2).1 := by
  induction m generalizing s with
  | zero => rw [Nat.zero_add]; rfl
  | succ m ih =>
    rw [Nat.succ_add]
    cases hpick : s.pick with
    | none =>
      cases n with
      | zero => simp [picks, hpick]
      | succ n => simp [picks, hpick]
    | some r => simp only [picks, hpick, ih, List.cons_append]

theorem drop_take_picks {m n k : Nat} (h : s.queue ≠ []) (hk : m + n ≤ k) :
    ((picks k s).1.drop m).take n = (picks n (picks m s).2).1 := by
  have hlater : (picks m s).2.queue ≠ [] := by
    intro hnil
    have hperm := perm_members_picks m s
    rw [members, hnil, List.map_nil] at hperm
    exact h (List.map_eq_nil_iff.1 hperm.symm.eq_nil)
  obtain ⟨r, rfl⟩ := Nat.exists_eq_add_of_le hk
  rw [Nat.add_assoc, picks_add, List.drop_left' (length_picks h), picks_add,
    List.take_left' (length_picks hlater)]

end Members

/-! ## Deadlines in exact numbers -/

variable {ε : Type} {s t : Schedule Rat ε}

theorem order_rat (x y : Rat) :
    Quantity.order x y = if x < y then .lt else if x = y then .eq else .gt := rfl

theorem deadline_le_of_before {t u : Turn Rat ε} (h : before t u = true) : t.deadline ≤ u.deadline := by
  simp only [before, order_rat] at h
  split at h
  case isTrue hlt => exact hlt.le
  case isFalse hlt =>
    split at h
    case isTrue heq => exact heq.le
    case isFalse => simp at h

theorem deadline_le_of_not_before {t u : Turn Rat ε} (h : ¬ before t u = true) :
    u.deadline ≤ t.deadline := by
  by_contra hlt
  have hlt := not_le.1 hlt
  simp [before, order_rat, if_pos hlt] at h

/-- The queue is in the order the entries are due. -/
def Ordered (queue : List (Turn Rat ε)) : Prop :=
  queue.Pairwise fun t u => t.deadline ≤ u.deadline

theorem Ordered.insert {queue : List (Turn Rat ε)} (h : Ordered queue) (t : Turn Rat ε) :
    Ordered (insert t queue) := by
  induction queue with
  | nil => exact List.pairwise_singleton _ t
  | cons u queue ih =>
    obtain ⟨hu, hqueue⟩ := List.pairwise_cons.1 h
    simp only [Schedule.insert]
    split
    case isTrue hbefore =>
      have htu := deadline_le_of_before hbefore
      refine List.pairwise_cons.2 ⟨fun v hv => ?_, h⟩
      rcases List.mem_cons.1 hv with rfl | hv
      · exact htu
      · exact htu.trans (hu v hv)
    case isFalse hbefore =>
      refine List.pairwise_cons.2 ⟨fun v hv => ?_, ih hqueue⟩
      rcases List.mem_cons.1 ((perm_insert t queue).mem_iff.1 hv) with rfl | hv
      · exact deadline_le_of_not_before hbefore
      · exact hu v hv

/-- Every entry has weight and is due from now on, within one period of its weight. -/
structure Timely (s : Schedule Rat ε) : Prop where
  ordered : Ordered s.queue
  weighted : ∀ t ∈ s.queue, 0 < t.weight
  pending : ∀ t ∈ s.queue, s.now ≤ t.deadline
  due : ∀ t ∈ s.queue, t.deadline ≤ s.now + 1 / t.weight

theorem Timely.empty : (Schedule.empty : Schedule Rat ε).Timely :=
  ⟨.nil, by simp [Schedule.empty], by simp [Schedule.empty], by simp [Schedule.empty]⟩

theorem Timely.push (h : s.Timely) {weight : Rat} (hw : 0 < weight) (entry : ε) :
    (s.push (s.now + 1 / weight) weight entry).Timely := by
  have hmem : ∀ t, t ∈ (s.push (s.now + 1 / weight) weight entry).queue →
      t = ⟨s.now + 1 / weight, s.nextOrder, weight, entry⟩ ∨ t ∈ s.queue := fun t ht =>
    List.mem_cons.1 ((perm_insert _ s.queue).mem_iff.1 ht)
  refine ⟨h.ordered.insert _, fun t ht => ?_, fun t ht => ?_, fun t ht => ?_⟩
  · rcases hmem t ht with rfl | ht
    · exact hw
    · exact h.weighted t ht
  · rcases hmem t ht with rfl | ht
    · exact le_add_of_nonneg_right (one_div_pos.2 hw).le
    · exact h.pending t ht
  · rcases hmem t ht with rfl | ht
    · exact le_rfl
    · exact h.due t ht

theorem Timely.add (h : s.Timely) {weight : Rat} (hw : 0 < weight) (entry : ε) :
    (s.add weight entry).Timely :=
  h.push hw entry

theorem Timely.pick {p : ε × Rat} (h : s.Timely) (hpick : s.pick = some (p, t)) : t.Timely := by
  obtain ⟨u, rest, hqueue, _, rfl⟩ := pick_eq_some hpick
  have hmem : ∀ v ∈ u :: rest, v ∈ s.queue := fun v hv => by rwa [hqueue]
  have hordered := h.ordered
  rw [hqueue] at hordered
  obtain ⟨hfirst, hrest⟩ := List.pairwise_cons.1 hordered
  -- The clock moves on to the deadline of the first entry, which is the least of all.
  have hmoved : ({ s with queue := rest, now := u.deadline } : Schedule Rat ε).Timely := by
    refine ⟨hrest, fun v hv => h.weighted v (hmem v (List.mem_cons_of_mem u hv)), hfirst,
      fun v hv => ?_⟩
    have hdue := h.due v (hmem v (List.mem_cons_of_mem u hv))
    have hpending := h.pending u (hmem u List.mem_cons_self)
    linarith
  exact hmoved.push (h.weighted u (hmem u List.mem_cons_self)) u.entry

theorem Timely.picks (h : s.Timely) (n : Nat) : (picks n s).2.Timely := by
  induction n generalizing s with
  | zero => exact h
  | succ n ih =>
    cases hpick : s.pick with
    | none => simp only [Schedule.picks, hpick]; exact h
    | some r => simp only [Schedule.picks, hpick]; exact ih (h.pick hpick)

/-! ## Waiting for a turn -/

/-- How many turns an entry can have until it is `x` periods of its weight past its deadline. -/
def turnsIn (x : Rat) : Nat := (⌊x⌋ + 1).toNat

theorem turnsIn_mono {x y : Rat} (h : x ≤ y) : turnsIn x ≤ turnsIn y :=
  Int.toNat_le_toNat (Int.add_le_add_right (Int.floor_le_floor h) 1)

theorem turnsIn_pos {x : Rat} (h : 0 ≤ x) : 0 < turnsIn x := by
  have hfloor := Int.floor_nonneg.2 h
  simp only [turnsIn]
  omega

theorem turnsIn_sub_one {x : Rat} (h : 0 ≤ x) : turnsIn (x - 1) + 1 = turnsIn x := by
  have hfloor := Int.floor_nonneg.2 h
  simp only [turnsIn, Int.floor_sub_one]
  omega

/-- How many picks may come until every entry is due later than `d`. -/
def debt (s : Schedule Rat ε) (d : Rat) : Nat :=
  (s.queue.map fun t => turnsIn ((d - t.deadline) * t.weight)).sum

/-- How many picks an entry of weight `w` has to wait for among entries of these weights. -/
def patience (weights : List Rat) (w : Rat) : Nat :=
  (weights.map fun v => turnsIn (v / w)).sum

theorem debt_pos {u : Turn Rat ε} (hu : u ∈ s.queue) : 0 < s.debt u.deadline := by
  have hown : turnsIn ((u.deadline - u.deadline) * u.weight) ≤ s.debt u.deadline :=
    List.single_le_sum (fun _ _ => Nat.zero_le _) _ (List.mem_map_of_mem hu)
  rw [sub_self, zero_mul] at hown
  exact Nat.lt_of_lt_of_le (turnsIn_pos le_rfl) hown

/-- A pick that is due by `d` pays one. -/
theorem debt_afterTurn {u : Turn Rat ε} {rest : List (Turn Rat ε)} {d : Rat} (h : s.Timely)
    (hqueue : s.queue = u :: rest) (hd : u.deadline ≤ d) :
    (s.afterTurn u rest).debt d + 1 = s.debt d := by
  have hu : u ∈ s.queue := by rw [hqueue]; exact List.mem_cons_self
  have hw := h.weighted u hu
  have hlate : 0 ≤ (d - u.deadline) * u.weight := mul_nonneg (sub_nonneg.2 hd) hw.le
  have hnext : (d - (u.deadline + 1 / u.weight)) * u.weight = (d - u.deadline) * u.weight - 1 := by
    field_simp
    ring
  have hperm : (s.afterTurn u rest).debt d =
      turnsIn ((d - (u.deadline + 1 / u.weight)) * u.weight) +
        (rest.map fun t => turnsIn ((d - t.deadline) * t.weight)).sum :=
    ((perm_insert _ rest).map _).sum_eq
  have hone := turnsIn_sub_one hlate
  rw [hperm, hnext]
  simp only [debt, hqueue, List.map_cons, List.sum_cons]
  omega

/-- What every entry due within its period may still be picked is bounded by the weights. -/
theorem debt_le_patience {u : Turn Rat ε} (h : s.Timely) (hu : u ∈ s.queue) :
    s.debt u.deadline ≤ patience (s.members.map (·.2)) u.weight := by
  simp only [debt, patience, members, List.map_map]
  refine List.sum_le_sum fun t ht => turnsIn_mono ?_
  have hlate : u.deadline - t.deadline ≤ 1 / u.weight := by
    have hdue := h.due u hu
    have hpending := h.pending t ht
    linarith
  calc (u.deadline - t.deadline) * t.weight
      ≤ 1 / u.weight * t.weight := mul_le_mul_of_nonneg_right hlate (h.weighted t ht).le
    _ = t.weight / u.weight := by ring

/-- An entry is picked before the others can be due later than it. -/
theorem mem_picks_of_debt_le {u : Turn Rat ε} {n : Nat} (h : s.Timely) (hu : u ∈ s.queue)
    (hn : s.debt u.deadline ≤ n) : (u.entry, u.weight) ∈ (picks n s).1 := by
  induction n generalizing s with
  | zero => exact absurd hn (Nat.not_le.2 (debt_pos hu))
  | succ n ih =>
    obtain ⟨v, rest, hqueue, hpick⟩ := exists_pick (List.ne_nil_of_mem hu)
    simp only [picks, hpick]
    have hordered := h.ordered
    rw [hqueue] at hordered hu
    rcases List.mem_cons.1 hu with rfl | hu
    · exact List.mem_cons_self
    · have hd : v.deadline ≤ u.deadline := (List.pairwise_cons.1 hordered).1 u hu
      have hpaid := debt_afterTurn h hqueue hd
      have hstill : u ∈ (s.afterTurn v rest).queue :=
        (perm_insert _ rest).mem_iff.2 (List.mem_cons_of_mem _ hu)
      exact List.mem_cons_of_mem _ (ih (h.pick hpick) hstill (by omega))

/-- Every member is picked within as many picks as the weights ask of its patience. -/
theorem mem_picks {p : ε × Rat} {n : Nat} (h : s.Timely) (hp : p ∈ s.members)
    (hn : patience (s.members.map (·.2)) p.2 ≤ n) : p ∈ (picks n s).1 := by
  obtain ⟨u, hu, rfl⟩ := List.mem_map.1 hp
  exact mem_picks_of_debt_le h hu ((debt_le_patience h hu).trans hn)

theorem patience_perm {v w : List Rat} (h : v.Perm w) (x : Rat) : patience v x = patience w x :=
  (h.map _).sum_eq

theorem mem_picks_after {p : ε × Rat} {m n : Nat} (h : s.Timely) (hp : p ∈ s.members)
    (hn : patience (s.members.map (·.2)) p.2 ≤ n) : p ∈ (picks n (picks m s).2).1 := by
  have hperm := perm_members_picks m s
  refine mem_picks (h.picks m) (hperm.mem_iff.2 hp) ?_
  rwa [patience_perm (hperm.map _)]

end Roster.Schedule
