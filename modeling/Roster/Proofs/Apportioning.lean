import Roster.Proofs.Queueing
import Mathlib.Algebra.BigOperators.Fin
import Mathlib.Algebra.Order.BigOperators.Group.Finset

/-!
# Roster.Proofs.Apportioning

How the picks from a new schedule are shared out, in exact numbers.

* `turns`              — at each pick, the place of the picked entry among those that were added.
* `Paced`              — the deadline of an entry, in periods of its weight, is one more than the number
  of times it was picked; kept by every pick.
* `Paced.count_mul_le` — so no entry is a whole turn ahead of another.
* `count_eq_mul`       — and such counts, when they add up to a multiple of the weights, are that
  multiple of each.
-/

namespace Roster.Schedule

/-! ## Turns -/

section Turns

variable {τ ε δ : Type}

def adds (es : List (ε × τ)) : List (Use τ ε) := es.map fun p => .add p.2 p.1

theorem added_adds (es : List (ε × τ)) : added (adds es) = es := by
  rw [added, adds, List.filterMap_map]
  exact List.filterMap_some

theorem weighted_adds [Quantity τ] {es : List (ε × τ)} (h : ∀ p ∈ es, Quantity.positive p.2 = true) :
    ∀ u ∈ adds es, u.Weighted := by
  intro u hu
  obtain ⟨p, hp, rfl⟩ := List.mem_map.1 hu
  exact h p hp

theorem picks_map [Quantity τ] (f : ε → δ) (n : Nat) (s : Schedule τ ε) :
    (picks n (s.map f)).1 = (picks n s).1.map fun p => (f p.1, p.2) := by
  induction n generalizing s with
  | zero => rfl
  | succ n ih =>
    cases hpick : s.pick with
    | none => simp only [picks, pick_map, hpick, Option.map_none, List.map_nil]
    | some r => simp only [picks, pick_map, hpick, Option.map_some, List.map_cons, ih]

/-- The places in `es` of the entries that are picked, at each of `n` picks. -/
def turns [Quantity τ] (es : List (ε × τ)) (n : Nat) : List Nat :=
  (picks n (after (number 0 (adds es)))).1.map fun p => p.1.1

theorem mem_members_number [Quantity τ] {es : List (ε × τ)} {i : Nat} {e : ε} {w : τ} :
    ((i, e), w) ∈ (after (number 0 (adds es))).members ↔ es[i]? = some (e, w) := by
  rw [(perm_members_after _).mem_iff, mem_added_number, added_adds]

theorem picks_after_adds [Quantity τ] (es : List (ε × τ)) (n : Nat) :
    (picks n (after (adds es))).1.map some = (turns es n).map fun i => es[i]? := by
  have hnumber : after (adds es) = (after (number 0 (adds es))).map Prod.snd := by
    rw [← after_map, map_number]
  rw [hnumber, picks_map, turns, List.map_map, List.map_map]
  refine List.map_congr_left fun p hp => ?_
  exact (mem_members_number.1 (mem_members_of_mem_picks hp)).symm

theorem lt_of_mem_turns [Quantity τ] {es : List (ε × τ)} {n i : Nat} (h : i ∈ turns es n) :
    i < es.length := by
  obtain ⟨p, hp, rfl⟩ := List.mem_map.1 h
  exact (List.getElem?_eq_some_iff.1 (mem_members_number.1 (mem_members_of_mem_picks hp))).1

theorem length_turns [Quantity τ] {es : List (ε × τ)} (hne : es ≠ []) (n : Nat) :
    (turns es n).length = n := by
  rw [turns, List.length_map]
  refine length_picks fun hnil => hne ?_
  have hperm := perm_members_after (number 0 (adds es))
  rw [members, hnil, List.map_nil, added_number, added_adds] at hperm
  exact List.zipIdx_eq_nil_iff.1 (List.map_eq_nil_iff.1 hperm.symm.eq_nil)

end Turns

/-! ## The pace of a pick -/

section Pace

variable {ε : Type} [DecidableEq ε] {s t : Schedule Rat ε} {done : List ε}

/-- Entries of which each was picked as often as `done` tells: its deadline, in periods of its weight, is
one more. -/
structure Paced (s : Schedule Rat ε) (done : List ε) : Prop where
  punctual : s.Punctual
  distinct : (s.members.map Prod.fst).Nodup
  counted : ∀ t ∈ s.queue, t.deadline * t.weight = done.count t.entry + 1

theorem Paced.pick {p : ε × Rat} (h : s.Paced done) (hpick : s.pick = some (p, t)) :
    t.Paced (done ++ [p.1]) := by
  obtain ⟨u, rest, hqueue, rfl, rfl⟩ := pick_eq_some hpick
  have hu := mem_of_first hqueue
  refine ⟨h.punctual.afterTurn hqueue, ?_, fun v hv => ?_⟩
  · exact (((perm_members_pick hpick).map Prod.fst).nodup_iff).2 h.distinct
  · rcases mem_afterTurn.1 hv with rfl | hv
    · have hw : u.weight ≠ 0 := (Quantity.positive_rat_iff.1 (h.punctual.weighted u hu)).ne'
      calc (u.deadline + 1 / u.weight) * u.weight
          = u.deadline * u.weight + 1 := by rw [add_mul, one_div_mul_cancel hw]
        _ = ((done ++ [u.entry]).count u.entry : Rat) + 1 := by
          rw [h.counted u hu, List.count_append, List.count_singleton_self, Nat.cast_succ]
    · have hvqueue := mem_of_rest hqueue hv
      have hne : u.entry ≠ v.entry := by
        have hdistinct := h.distinct
        rw [members, List.map_map, hqueue, List.map_cons] at hdistinct
        intro heq
        exact (List.nodup_cons.1 hdistinct).1 (List.mem_map.2 ⟨v, hv, heq.symm⟩)
      rw [h.counted v hvqueue, List.count_append, List.count_singleton, if_neg (by simpa using hne),
        Nat.add_zero]

theorem Paced.picks (h : s.Paced done) (n : Nat) :
    (picks n s).2.Paced (done ++ (picks n s).1.map Prod.fst) := by
  induction n generalizing s done with
  | zero => simpa [Schedule.picks] using h
  | succ n ih =>
    cases hpick : s.pick with
    | none => simpa [Schedule.picks, hpick] using h
    | some r =>
      have hlater := ih (h.pick hpick)
      rw [List.append_assoc] at hlater
      simpa only [Schedule.picks, hpick, List.map_cons, List.singleton_append] using hlater

/-- No entry is a whole turn ahead of another. -/
theorem Paced.count_mul_le (h : s.Paced done) {t u : Turn Rat ε} (ht : t ∈ s.queue) (hu : u ∈ s.queue) :
    (done.count t.entry : Rat) * u.weight ≤ (done.count u.entry + 1) * t.weight := by
  have htpos : 0 < t.weight := Quantity.positive_rat_iff.1 (h.punctual.weighted t ht)
  have hupos : 0 < u.weight := Quantity.positive_rat_iff.1 (h.punctual.weighted u hu)
  have hdue : t.deadline ≤ s.now + 1 / t.weight := Quantity.atMost_rat.1 (h.punctual.due t ht)
  have hpending : s.now ≤ u.deadline := Quantity.atMost_rat.1 (h.punctual.pending u hu)
  have hahead : (done.count t.entry : Rat) ≤ s.now * t.weight := by
    have hperiods := mul_le_mul_of_nonneg_right hdue htpos.le
    rw [h.counted t ht, add_mul, one_div_mul_cancel htpos.ne'] at hperiods
    exact le_of_add_le_add_right hperiods
  have hbehind : s.now * u.weight ≤ done.count u.entry + 1 := by
    rw [← h.counted u hu]
    exact mul_le_mul_of_nonneg_right hpending hupos.le
  calc (done.count t.entry : Rat) * u.weight
      ≤ s.now * t.weight * u.weight := mul_le_mul_of_nonneg_right hahead hupos.le
    _ = s.now * u.weight * t.weight := mul_right_comm _ _ _
    _ ≤ (done.count u.entry + 1) * t.weight := mul_le_mul_of_nonneg_right hbehind htpos.le

end Pace

/-! ## Shares -/

section Shares

variable {ε : Type} {es : List (ε × Rat)}

theorem due_after_adds (es : List (ε × Rat)) :
    ∀ t ∈ (after (adds es)).queue, t.deadline = 1 / t.weight := by
  suffices h : ∀ s : Schedule Rat ε, s.now = 0 → (∀ t ∈ s.queue, t.deadline = 1 / t.weight) →
      ∀ t ∈ ((adds es).foldl use s).queue, t.deadline = 1 / t.weight by
    exact h .empty rfl (by simp [Schedule.empty])
  induction es with
  | nil => exact fun s _ hs => hs
  | cons p es ih =>
    intro s hnow hs
    refine ih _ hnow fun t ht => ?_
    rcases mem_push.1 ht with rfl | ht
    · exact (congrArg (· + 1 / p.2) hnow).trans (zero_add _)
    · exact hs t ht

theorem paced_after_adds [DecidableEq ε] (hw : ∀ p ∈ es, 0 < p.2) (hdistinct : (es.map Prod.fst).Nodup) :
    (after (adds es)).Paced [] := by
  have hpunctual : (after (adds es)).Punctual :=
    Punctual.empty.foldl (weighted_adds fun p hp => Quantity.positive_rat_iff.2 (hw p hp))
  refine ⟨hpunctual, ?_, fun t ht => ?_⟩
  · have hperm := perm_members_after (adds es)
    rw [added_adds] at hperm
    exact ((hperm.map Prod.fst).nodup_iff).2 hdistinct
  · have hpos : 0 < t.weight := Quantity.positive_rat_iff.1 (hpunctual.weighted t ht)
    rw [due_after_adds es t ht, one_div_mul_cancel hpos.ne', List.count_nil, Nat.cast_zero, zero_add]

/-- The places of the entries, each with the weight of its entry. -/
def places (es : List (ε × Rat)) : List (Nat × Rat) := es.zipIdx.map fun p => (p.2, p.1.2)

theorem mem_places {i : Nat} (hi : i < es.length) : (i, es[i].2) ∈ places es :=
  List.mem_map.2 ⟨(es[i], i), List.mk_mem_zipIdx_iff_getElem?.2 (List.getElem?_eq_getElem hi), rfl⟩

theorem pos_of_mem_places (hw : ∀ p ∈ es, 0 < p.2) : ∀ p ∈ places es, 0 < p.2 := by
  intro p hp
  obtain ⟨q, hq, rfl⟩ := List.mem_map.1 hp
  exact hw q.1 (List.fst_mem_of_mem_zipIdx hq)

theorem nodup_fst_places (es : List (ε × Rat)) : ((places es).map Prod.fst).Nodup := by
  rw [places, List.map_map]
  exact nodup_places es

theorem turns_eq (es : List (ε × Rat)) (n : Nat) :
    turns es n = (picks n (after (adds (places es)))).1.map Prod.fst := by
  have hplaces : ∀ n, (number n (adds es)).map (Use.map Prod.fst) =
      adds ((es.zipIdx n).map fun p => (p.2, p.1.2)) := by
    induction es with
    | nil => exact fun n => rfl
    | cons p es ih => exact fun n => congrArg (Use.add p.2 n :: ·) (ih (n + 1))
  rw [places, ← hplaces, after_map, picks_map, List.map_map, turns]
  rfl

theorem count_turns_mul_le (hw : ∀ p ∈ es, 0 < p.2) (n : Nat) {i j : Nat} (hi : i < es.length)
    (hj : j < es.length) :
    ((turns es n).count i : Rat) * es[j].2 ≤ ((turns es n).count j + 1) * es[i].2 := by
  have hpaced := (paced_after_adds (pos_of_mem_places hw) (nodup_fst_places es)).picks n
  have hqueued : ∀ {k : Nat} (hk : k < es.length),
      ∃ t ∈ (picks n (after (adds (places es)))).2.queue, t.entry = k ∧ t.weight = es[k].2 := by
    intro k hk
    have hperm := (perm_members_picks n _).trans (perm_members_after (adds (places es)))
    rw [added_adds] at hperm
    obtain ⟨t, ht, heq⟩ := List.mem_map.1 (hperm.mem_iff.2 (mem_places hk))
    exact ⟨t, ht, congrArg Prod.fst heq, congrArg Prod.snd heq⟩
  obtain ⟨t, ht, rfl, htw⟩ := hqueued hi
  obtain ⟨u, hu, rfl, huw⟩ := hqueued hj
  rw [turns_eq, ← htw, ← huw]
  exact hpaced.count_mul_le ht hu

end Shares

/-- Counts of which none is a whole turn ahead of another, and which add up to `m` times the weights, are
`m` times each. -/
theorem count_eq_mul {l ws : List Nat} {m : Nat} (hl : ∀ i ∈ l, i < ws.length) (hpos : ∀ w ∈ ws, 0 < w)
    (hahead : ∀ i j : Fin ws.length, l.count i.1 * ws[j.1] ≤ (l.count j.1 + 1) * ws[i.1])
    (hlength : l.length = m * ws.sum) (i : Fin ws.length) : l.count i.1 = m * ws[i.1] := by
  have hsum : ∑ j : Fin ws.length, l.count j.1 = ∑ j : Fin ws.length, m * ws[j.1] := by
    rw [← Finset.mul_sum, Fin.sum_univ_getElem, ← hlength,
      Fin.sum_univ_eq_sum_range (fun j => l.count j)]
    simpa using Multiset.sum_count_eq_card (m := (l : Multiset Nat)) fun j hj =>
      Finset.mem_range.2 (hl j hj)
  -- Were one count above its share, every other would be at least at its own, and the sum too large.
  have hle : ∀ j ∈ Finset.univ, l.count j.1 ≤ m * ws[(j : Fin ws.length).1] := by
    intro j _
    by_contra hgt
    have hleast : ∀ k ∈ Finset.univ, m * ws[(k : Fin ws.length).1] ≤ l.count k.1 := by
      intro k _
      have hk := hpos _ (List.getElem_mem k.2)
      have hj := hpos _ (List.getElem_mem j.2)
      refine Nat.lt_succ_iff.1 (Nat.lt_of_mul_lt_mul_right (a := ws[j.1]) ?_)
      calc m * ws[k.1] * ws[j.1] = m * ws[j.1] * ws[k.1] := Nat.mul_right_comm _ _ _
        _ < l.count j.1 * ws[k.1] := Nat.mul_lt_mul_of_pos_right (Nat.lt_of_not_le hgt) hk
        _ ≤ (l.count k.1 + 1) * ws[j.1] := hahead j k
    exact (Finset.sum_lt_sum hleast ⟨j, Finset.mem_univ j, Nat.lt_of_not_le hgt⟩).ne' hsum
  exact (Finset.sum_eq_sum_iff_of_le hle).1 hsum i (Finset.mem_univ i)

theorem count_turns_eq_mul {ε : Type} {es : List (ε × Rat)} {ws : List Nat} (hne : es ≠ [])
    (hw : ∀ p ∈ es, 0 < p.2) (hws : es.map Prod.snd = ws.map Nat.cast) (m : Nat) (i : Fin ws.length) :
    (turns es (m * ws.sum)).count i.1 = m * ws[i.1] := by
  have hlen : es.length = ws.length := by simpa using congrArg List.length hws
  have hweight : ∀ (i : Nat) (hi : i < es.length) (hi' : i < ws.length), es[i].2 = (ws[i] : Rat) := by
    intro i hi hi'
    have hat := congrArg (fun l => l[i]?) hws
    simpa only [List.getElem?_map, List.getElem?_eq_getElem hi, List.getElem?_eq_getElem hi',
      Option.map_some, Option.some.injEq] using hat
  refine count_eq_mul (fun i hi => hlen ▸ lt_of_mem_turns hi) ?_ ?_ (length_turns hne _) i
  · intro w hwmem
    obtain ⟨i, hi, rfl⟩ := List.getElem_of_mem hwmem
    have hpos := hw _ (List.getElem_mem (hi.trans_eq hlen.symm))
    rw [hweight i _ hi] at hpos
    exact Nat.cast_pos.1 hpos
  · intro i j
    have hahead := count_turns_mul_le hw (m * ws.sum) (i.2.trans_eq hlen.symm) (j.2.trans_eq hlen.symm)
    rw [hweight i.1 _ i.2, hweight j.1 _ j.2] at hahead
    exact_mod_cast hahead

/-- Every pick from a new schedule gives one of its entries, and in exact numbers none is ever a whole
turn ahead of another. Where the weights are whole numbers, a round of as many picks as they add up to
gives each entry as many turns as it weighs. -/
theorem proportional_turns {ε : Type} (es : List (ε × Rat)) (hne : es ≠ []) (hw : ∀ p ∈ es, 0 < p.2)
    (n : Nat) :
    (picks n (after (adds es))).1.map some = (turns es n).map (fun i => es[i]?) ∧
      (turns es n).length = n ∧
      (∀ i j : Fin es.length,
        ((turns es n).count i.1 : Rat) * es[j].2 ≤ ((turns es n).count j.1 + 1) * es[i].2) ∧
      ∀ (ws : List Nat) (m : Nat), es.map Prod.snd = ws.map Nat.cast → n = m * ws.sum →
        ∀ i : Fin ws.length, (turns es n).count i.1 = m * ws[i] := by
  refine ⟨picks_after_adds es n, length_turns hne n, fun i j => count_turns_mul_le hw n i.2 j.2, ?_⟩
  rintro ws m hws rfl i
  exact count_turns_eq_mul hne hw hws m i

/-- Two rounds of three entries that weigh 1, 2 and 4. -/
theorem proportional_turns_letters :
    let es : List (Char × Rat) := [('a', 1), ('b', 2), ('c', 4)]
    (turns es 14).count 0 = 2 ∧ (turns es 14).count 1 = 4 ∧ (turns es 14).count 2 = 8 := by
  intro es
  obtain ⟨_, _, _, hround⟩ := proportional_turns es (by simp [es]) (by simp [es]) 14
  have hshare := hround [1, 2, 4] 2 (by simp [es]) rfl
  exact ⟨hshare 0, hshare 1, hshare 2⟩

end Roster.Schedule
