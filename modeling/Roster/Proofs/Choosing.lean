import Roster.Proofs.Arranging
import Roster.Proofs.Scheduling

/-!
# Roster.Proofs.Choosing

Which localities a generation chooses, over any number of choices of both kinds.

* `perm_addEach`        — the schedule holds the localities of positive effective weight.
* `effectiveWeight_pos` — those are the servable ones, whatever hosts are excluded.
* `Ready`               — each schedule there is can be picked from; kept by choosing.
* `Ready.chooseEach`    — the answers of either kind are the picks of its schedule.
* `Serves`              — only servable localities are chosen, and each of them again and again.
-/

namespace Roster

/-! ## Schedules of localities -/

namespace LocalityShare

open Schedule

variable {α : Type} {eligible excluded all : Grouping α} {eligibleHosts : List α}
  {weights? : Option (List Nat)} {weights : List Nat} {factor i : Nat}

theorem positive_rat (x : Rat) : Quantity.positive x = decide (0 < x) := rfl

def shares (weight : Nat → Rat) (is : List Nat) : List (Nat × Rat) :=
  (is.filter fun i => 0 < weight i).map fun i => (i, weight i)

theorem mem_shares {weight : Nat → Rat} {is : List Nat} {p : Nat × Rat} :
    p ∈ shares weight is ↔ p.1 ∈ is ∧ 0 < weight p.1 ∧ p.2 = weight p.1 := by
  obtain ⟨i, w⟩ := p
  simp only [shares, List.mem_map, List.mem_filter, decide_eq_true_eq, Prod.mk.injEq]
  constructor
  · rintro ⟨j, ⟨hj, hpos⟩, rfl, rfl⟩
    exact ⟨hj, hpos, rfl⟩
  · rintro ⟨hi, hpos, rfl⟩
    exact ⟨i, ⟨hi, hpos⟩, rfl, rfl⟩

theorem addEach_timely {weight : Nat → Rat} {s : Schedule Rat Nat} (h : s.Timely) (is : List Nat) :
    (addEach weight s is).Timely := by
  induction is generalizing s with
  | nil => exact h
  | cons i is ih =>
    simp only [addEach, positive_rat, decide_eq_true_eq]
    split
    case isTrue hpos => exact ih (h.add hpos i)
    case isFalse => exact ih h

theorem perm_addEach (weight : Nat → Rat) (s : Schedule Rat Nat) (is : List Nat) :
    (addEach weight s is).members.Perm (shares weight is ++ s.members) := by
  induction is generalizing s with
  | nil => exact .refl _
  | cons i is ih =>
    simp only [addEach, positive_rat, decide_eq_true_eq]
    split
    case isTrue hpos =>
      have hshares : shares weight (i :: is) = (i, weight i) :: shares weight is := by
        simp [shares, hpos]
      rw [hshares]
      exact (ih _).trans (((perm_members_add s (weight i) i).append_left _).trans List.perm_middle)
    case isFalse hpos =>
      have hshares : shares weight (i :: is) = shares weight is := by simp [shares, hpos]
      rw [hshares]
      exact ih s

theorem schedule?_eq_some {s : Schedule Rat Nat}
    (h : schedule? eligible eligibleHosts all excluded weights? factor = some s) :
    s.Timely ∧ s.queue ≠ [] ∧
      s.members.Perm (shares (effectiveWeight eligible excluded all (weights?.getD []) factor)
        (List.range all.size)) := by
  cases weights? with
  | none => cases h
  | some weights =>
    simp only [schedule?] at h
    split at h
    · cases h
    · split at h
      · cases h
      · case isFalse hfull =>
        cases h
        refine ⟨addEach_timely .empty _, fun hnil => hfull ?_, ?_⟩
        · rw [Schedule.isEmpty, hnil, List.isEmpty_nil]
        · have hperm := perm_addEach (effectiveWeight eligible excluded all weights factor) .empty
            (List.range all.size)
          rwa [members_empty, List.append_nil] at hperm

theorem effectiveWeight_nil : (effectiveWeight eligible excluded all [] factor i : Rat) = 0 := by
  simp only [effectiveWeight, List.getElem?_nil, Option.getD_none]
  split
  · rfl
  · exact zero_mul _

theorem exists_schedule (hhosts : eligibleHosts ≠ []) (hi : i < all.size)
    (hpos : 0 < (effectiveWeight eligible excluded all (weights?.getD []) factor i : Rat)) :
    ∃ s : Schedule Rat Nat, schedule? eligible eligibleHosts all excluded weights? factor = some s := by
  cases weights? with
  | none => exact absurd effectiveWeight_nil hpos.ne'
  | some weights =>
    rw [Option.getD_some] at hpos
    have hweights : weights ≠ [] := fun hnil => by
      rw [hnil] at hpos
      exact absurd effectiveWeight_nil hpos.ne'
    have hsome : ¬ (weights = [] ∨ eligibleHosts.isEmpty = true) := by simp [hweights, hhosts]
    have hfull : (addEach (effectiveWeight eligible excluded all weights factor : Nat → Rat) .empty
        (List.range all.size)).isEmpty = false := by
      have hshare : (i, effectiveWeight eligible excluded all weights factor i) ∈
          shares (effectiveWeight eligible excluded all weights factor) (List.range all.size) :=
        mem_shares.2 ⟨List.mem_range.2 hi, hpos, rfl⟩
      have hmem := (perm_addEach _ .empty _).mem_iff.2 (List.mem_append_left _ hshare)
      obtain ⟨t, ht, _⟩ := List.mem_map.1 hmem
      rw [Schedule.isEmpty, List.isEmpty_eq_false_iff]
      exact List.ne_nil_of_mem ht
    refine ⟨addEach (effectiveWeight eligible excluded all weights factor) .empty
      (List.range all.size), ?_⟩
    simp only [schedule?, if_neg hsome, hfull]
    rfl

theorem availability_rat (n count factor : Nat) :
    (availability n count factor : Rat) = min ((factor : Rat) / 100 * (n / count)) 1 := by
  have hshare : (Quantity.mul (Quantity.div (Quantity.ofNat factor) (Quantity.ofNat 100))
      (Quantity.div (Quantity.ofNat n) (Quantity.ofNat count)) : Rat) =
        (factor : Rat) / 100 * (n / count) := rfl
  have hone : (Quantity.ofNat 1 : Rat) = 1 := rfl
  rw [availability, hshare, Quantity.atMostOne, hone, order_rat]
  rcases lt_trichotomy ((factor : Rat) / 100 * (n / count)) 1 with h | h | h
  · simp [if_pos h, min_eq_left h.le]
  · simp [h]
  · simp [if_neg h.not_gt, if_neg h.ne', min_eq_right h.le]

theorem availability_pos {n count : Nat} (hcount : 0 < count) (hfactor : 0 < factor) :
    0 < (availability n count factor : Rat) ↔ 0 < n := by
  have hcount : (0 : Rat) < count := by exact_mod_cast hcount
  have hfactor : (0 : Rat) < (factor : Rat) / 100 := by
    have hfactor : (0 : Rat) < factor := by exact_mod_cast hfactor
    positivity
  rw [availability_rat, lt_min_iff, and_iff_left one_pos, mul_pos_iff_of_pos_left hfactor,
    div_pos_iff_of_pos_right hcount, Nat.cast_pos]

theorem effectiveWeight_pos (hfactor : 0 < factor) :
    0 < (effectiveWeight eligible excluded all weights factor i : Rat) ↔
      0 < weights[i]?.getD 0 ∧ 0 < eligible.sizeAt i ∧ excluded.sizeAt i < all.sizeAt i := by
  simp only [effectiveWeight]
  split
  case isTrue hnone =>
    have hnone : ¬ excluded.sizeAt i < all.sizeAt i := by omega
    have hzero : (Quantity.ofNat 0 : Rat) = 0 := rfl
    simp [hnone, hzero]
  case isFalse hsome =>
    have hsome : 0 < all.sizeAt i - excluded.sizeAt i := by omega
    have hmul : (Quantity.mul (Quantity.ofNat (weights[i]?.getD 0))
        (availability (eligible.sizeAt i) (all.sizeAt i - excluded.sizeAt i) factor) : Rat) =
          ((weights[i]?.getD 0 : Nat) : Rat) *
            availability (eligible.sizeAt i) (all.sizeAt i - excluded.sizeAt i) factor := rfl
    rw [hmul]
    rcases Nat.eq_zero_or_pos (weights[i]?.getD 0) with hzero | hpos
    · simp [hzero]
    · have hcast : (0 : Rat) < (weights[i]?.getD 0 : Nat) := by exact_mod_cast hpos
      rw [mul_pos_iff_of_pos_left hcast, availability_pos hsome hfactor]
      omega

end LocalityShare

/-! ## Choices -/

namespace Generation

variable {τ : Type} {g : Generation Rat} {kind : Eligibility}

@[simp] theorem schedule?_setSchedule_self (g : Generation τ) (kind : Eligibility)
    (s : Schedule τ Nat) : (g.setSchedule kind s).schedule? kind = some s := by
  cases kind <;> rfl

theorem schedule?_setSchedule_of_ne (g : Generation τ) {kind other : Eligibility}
    (s : Schedule τ Nat) (h : other ≠ kind) :
    (g.setSchedule kind s).schedule? other = g.schedule? other := by
  cases kind with
  | healthy =>
    cases other with
    | healthy => exact absurd rfl h
    | degraded => rfl
  | degraded =>
    cases other with
    | healthy => rfl
    | degraded => exact absurd rfl h

/-- Choices of either kind, one after another. -/
def chooseEach [Quantity τ] : List Eligibility → Generation τ →
    Except Fault (List (Option Nat) × Generation τ)
  | [], g => .ok ([], g)
  | kind :: rest, g =>
    match g.choose kind with
    | .error e => .error e
    | .ok (answer, g) =>
      match chooseEach rest g with
      | .error e => .error e
      | .ok (answers, g) => .ok (answer :: answers, g)

theorem chooseMany_eq_chooseEach [Quantity τ] (kind : Eligibility) (n : Nat) (g : Generation τ) :
    chooseMany kind n g = chooseEach (List.replicate n kind) g := by
  induction n generalizing g with
  | zero => rfl
  | succ n ih =>
    simp only [chooseMany, List.replicate_succ, chooseEach]
    cases g.choose kind with
    | error e => rfl
    | ok r =>
      cases hrest : chooseEach (List.replicate n kind) r.2 with
      | error e => simp only [ih, hrest]
      | ok q => simp only [ih, hrest]

/-- The answers to the choices of one kind. -/
def answersTo (kind : Eligibility) (kinds : List Eligibility) (answers : List (Option Nat)) :
    List (Option Nat) :=
  ((kinds.zip answers).filter fun p => p.1 = kind).map (·.2)

/-- Each schedule there is can be picked from. -/
def Ready (g : Generation Rat) : Prop :=
  ∀ kind s, g.schedule? kind = some s → s.Timely ∧ s.queue ≠ []

theorem Ready.setSchedule {s : Schedule Rat Nat} (h : g.Ready) (hs : s.Timely ∧ s.queue ≠ []) :
    (g.setSchedule kind s).Ready := by
  intro other t ht
  by_cases he : other = kind
  · rw [he, schedule?_setSchedule_self] at ht
    cases ht
    exact hs
  · rw [schedule?_setSchedule_of_ne g s he] at ht
    exact h other t ht

/-- The first `n` answers of a schedule; none without one. -/
def picked (s? : Option (Schedule Rat Nat)) (n : Nat) : List (Option Nat) :=
  match s? with
  | none => List.replicate n none
  | some s => (s.picks n).1.map fun p => some p.1

theorem Ready.choose (h : g.Ready) (kind : Eligibility) :
    ∃ answer t, g.choose kind = .ok (answer, t) ∧ t.Ready ∧
      (∀ n, picked (g.schedule? kind) (n + 1) = answer :: picked (t.schedule? kind) n) ∧
      ∀ other, other ≠ kind → t.schedule? other = g.schedule? other := by
  cases hs : g.schedule? kind with
  | none =>
    refine ⟨none, g, ?_, h, fun n => ?_, fun _ _ => rfl⟩
    · simp only [Generation.choose, hs]
    · rw [hs]
      rfl
  | some s =>
    obtain ⟨htimely, hqueue⟩ := h kind s hs
    obtain ⟨u, rest, hcons, hpick⟩ := Schedule.exists_pick hqueue
    have hpos : 0 < u.weight := htimely.weighted u (by rw [hcons]; exact List.mem_cons_self)
    refine ⟨some u.entry, g.setSchedule kind (s.afterTurn u rest), ?_, ?_, fun n => ?_,
      fun other hne => schedule?_setSchedule_of_ne g _ hne⟩
    · simp only [Generation.choose, hs, hpick, LocalityShare.positive_rat, decide_eq_true hpos]
      rfl
    · exact h.setSchedule ⟨htimely.pick hpick, Schedule.queue_ne_nil_of_pick hpick⟩
    · rw [schedule?_setSchedule_self]
      simp only [picked, Schedule.picks, hpick, List.map_cons]

/-- The answers of either kind are the picks of its schedule. -/
theorem Ready.chooseEach (h : g.Ready) (kinds : List Eligibility) :
    ∃ answers t, chooseEach kinds g = .ok (answers, t) ∧ t.Ready ∧ answers.length = kinds.length ∧
      ∀ kind, answersTo kind kinds answers = picked (g.schedule? kind) (kinds.count kind) := by
  induction kinds generalizing g with
  | nil =>
    refine ⟨[], g, rfl, h, rfl, fun kind => ?_⟩
    cases g.schedule? kind <;> rfl
  | cons kind kinds ih =>
    obtain ⟨answer, t, hchoose, ht, hself, hothers⟩ := h.choose kind
    obtain ⟨answers, u, heach, hu, hlength, hanswers⟩ := ih ht
    refine ⟨answer :: answers, u, ?_, hu, ?_, fun other => ?_⟩
    · simp only [Generation.chooseEach, hchoose, heach]
    · rw [List.length_cons, List.length_cons, hlength]
    · have hrest := hanswers other
      simp only [answersTo] at hrest ⊢
      by_cases he : kind = other
      · subst he
        rw [List.zip_cons_cons, List.filter_cons_of_pos (by simp), List.map_cons, hrest,
          List.count_cons_self, hself]
      · rw [List.zip_cons_cons, List.filter_cons_of_neg (by simpa using he), hrest,
          List.count_cons_of_ne he, hothers other (Ne.symm he)]

end Generation

/-! ## Servable localities -/

def Eligibility.health : Eligibility → Health
  | .healthy => .healthy
  | .degraded => .degraded

/-- A locality with weight, a host of the kind, and a host that counts. -/
structure Servable (store : HostStore) (groups : List (List HostId)) (weights? : Option (List Nat))
    (kind : Eligibility) (i : Nat) : Prop where
  weighted : 0 < (weights?.getD [])[i]?.getD 0
  eligible : ∃ id ∈ groups[i]?.getD [], (store.get id).health = kind.health
  counted : ∃ id ∈ groups[i]?.getD [], (store.get id).excluded = false

theorem Servable.lt {store : HostStore} {groups : List (List HostId)} {weights? : Option (List Nat)}
    {kind : Eligibility} {i : Nat} (h : Servable store groups weights? kind i) : i < groups.length := by
  obtain ⟨id, hid, _⟩ := h.eligible
  by_contra hge
  rw [List.getElem?_eq_none (Nat.le_of_not_lt hge)] at hid
  cases hid

/-- Answers that serve: only servable localities, each of them again and again. -/
structure Serves (servable : Nat → Prop) (bound : Nat → Nat) (answers : List (Option Nat)) : Prop where
  nobody : (∀ i, ¬ servable i) → ∀ a ∈ answers, a = none
  only : (∃ i, servable i) → ∀ a ∈ answers, ∃ i, servable i ∧ a = some i
  /-- Among any `bound i` answers in a row is one that is `i`. -/
  again : ∀ i, servable i → ∀ m, m + bound i ≤ answers.length →
    some i ∈ (answers.drop m).take (bound i)

namespace Partition

def eligibleGroups (p : Partition) : Eligibility → Grouping HostId
  | .healthy => p.healthyGroups
  | .degraded => p.degradedGroups

def eligible (p : Partition) : Eligibility → List HostId
  | .healthy => p.healthy
  | .degraded => p.degraded

def isEligible (store : HostStore) (kind : Eligibility) (id : HostId) : Bool :=
  (store.get id).health = kind.health

theorem eligible_of (store : HostStore) (hosts : List HostId) (groups : Grouping HostId)
    (kind : Eligibility) : (of store hosts groups).eligible kind = hosts.filter (isEligible store kind) := by
  cases kind <;> simp only [eligible, of, byHealth_eq] <;> rfl

theorem eligibleGroups_of (store : HostStore) (hosts : List HostId) (groups : Grouping HostId)
    (kind : Eligibility) :
    (of store hosts groups).eligibleGroups kind = groups.kept (isEligible store kind) := by
  cases kind <;> simp only [eligibleGroups, of, groupsByHealth_eq] <;> rfl

theorem excludedGroups_of (store : HostStore) (hosts : List HostId) (groups : Grouping HostId) :
    (of store hosts groups).excludedGroups = groups.kept (isExcluded store) := by
  simp only [of, groupsByHealth_eq]

end Partition

namespace Generation

variable {store : HostStore} {groups : Grouping HostId} {weights? : Option (List Nat)}
  {stamp factor i : Nat} {kind : Eligibility} {g : Generation Rat}

/-- The effective weight of a locality. -/
def weightOf (g : Generation Rat) (kind : Eligibility) (i : Nat) : Rat :=
  LocalityShare.effectiveWeight (g.partition.eligibleGroups kind) g.partition.excludedGroups
    g.partition.groups (g.weights?.getD []) g.factor i

/-- How many choices of a kind a locality waits for, by the effective weights. -/
def patience (g : Generation Rat) (kind : Eligibility) (i : Nat) : Nat :=
  Schedule.patience
    ((LocalityShare.shares (g.weightOf kind) (List.range g.partition.groups.size)).map (·.2))
    (g.weightOf kind i)

theorem schedule?_build (stamp : Nat) (p : Partition) (weights? : Option (List Nat)) (factor : Nat)
    (kind : Eligibility) :
    (build stamp p weights? factor : Generation Rat).schedule? kind =
      LocalityShare.schedule? (p.eligibleGroups kind) (p.eligible kind) p.groups p.excludedGroups
        weights? factor := by
  cases kind <;> rfl

theorem ready_build (stamp : Nat) (p : Partition) (weights? : Option (List Nat)) (factor : Nat) :
    (build stamp p weights? factor : Generation Rat).Ready := by
  intro kind s hs
  rw [schedule?_build] at hs
  obtain ⟨htimely, hqueue, _⟩ := LocalityShare.schedule?_eq_some hs
  exact ⟨htimely, hqueue⟩

theorem weightOf_pos (hfactor : 0 < factor) :
    0 < (build stamp (.of store groups.flatten groups) weights? factor : Generation Rat).weightOf kind i ↔
      Servable store groups.groups weights? kind i := by
  have hall : groups.sizeAt i = (groups.groups[i]?.getD []).length := rfl
  simp only [weightOf, build]
  rw [LocalityShare.effectiveWeight_pos hfactor, Partition.eligibleGroups_of,
    Partition.excludedGroups_of, Grouping.sizeAt_kept, Grouping.sizeAt_kept,
    show (Partition.of store groups.flatten groups).groups = groups from rfl, hall,
    List.length_filter_pos_iff, List.length_filter_lt_length_iff_exists]
  simp only [Partition.isEligible, Partition.isExcluded, decide_eq_true_eq, Bool.not_eq_true]
  constructor
  · rintro ⟨hweighted, heligible, hcounted⟩
    exact ⟨hweighted, heligible, hcounted⟩
  · intro h
    exact ⟨h.weighted, h.eligible, h.counted⟩

/-- What a schedule answers: its members, each again within its patience. -/
theorem serves_picked {s : Schedule Rat Nat} {weight : Nat → Rat} {is : List Nat}
    (htimely : s.Timely) (hqueue : s.queue ≠ [])
    (hmembers : s.members.Perm (LocalityShare.shares weight is)) (n : Nat) :
    Serves (fun i => i ∈ is ∧ 0 < weight i)
      (fun i => Schedule.patience ((LocalityShare.shares weight is).map (·.2)) (weight i))
      (picked (some s) n) := by
  refine ⟨fun hnone => ?_, fun _ a ha => ?_, fun i hi m hm => ?_⟩
  · have hfull : s.members ≠ [] := fun h => hqueue (List.map_eq_nil_iff.1 h)
    obtain ⟨p, hp⟩ := List.exists_mem_of_ne_nil _ hfull
    obtain ⟨hmem, hpos, _⟩ := LocalityShare.mem_shares.1 (hmembers.mem_iff.1 hp)
    exact absurd ⟨hmem, hpos⟩ (hnone p.1)
  · obtain ⟨p, hp, rfl⟩ := List.mem_map.1 ha
    obtain ⟨hmem, hpos, _⟩ :=
      LocalityShare.mem_shares.1 (hmembers.mem_iff.1 (Schedule.mem_members_of_mem_picks hp))
    exact ⟨p.1, ⟨hmem, hpos⟩, rfl⟩
  · have hp : (i, weight i) ∈ s.members :=
      hmembers.mem_iff.2 (LocalityShare.mem_shares.2 ⟨hi.1, hi.2, rfl⟩)
    rw [picked, List.length_map, Schedule.length_picks hqueue] at hm
    rw [picked, ← List.map_drop, ← List.map_take, Schedule.drop_take_picks hqueue hm]
    refine List.mem_map.2 ⟨(i, weight i), Schedule.mem_picks_after htimely hp ?_, rfl⟩
    rw [Schedule.patience_perm (hmembers.map _)]

theorem serves_none (n : Nat) {servable : Nat → Prop} (h : ∀ i, ¬ servable i) (bound : Nat → Nat) :
    Serves servable bound (picked none n) :=
  ⟨fun _ _ ha => List.eq_of_mem_replicate ha, fun ⟨i, hi⟩ => absurd hi (h i),
    fun i hi => absurd hi (h i)⟩

theorem servable_iff (stamp : Nat) (hfactor : 0 < factor) :
    Servable store groups.groups weights? kind i ↔
      i ∈ List.range groups.size ∧ 0 < (build stamp (.of store groups.flatten groups) weights? factor :
        Generation Rat).weightOf kind i := by
  rw [weightOf_pos hfactor, List.mem_range]
  exact ⟨fun h => ⟨h.lt, h⟩, And.right⟩

theorem not_servable_of_none (hfactor : 0 < factor)
    (hnone : (build stamp (.of store groups.flatten groups) weights? factor :
      Generation Rat).schedule? kind = none) (i : Nat) :
    ¬ Servable store groups.groups weights? kind i := by
  intro hservable
  obtain ⟨id, hid, hhealth⟩ := hservable.eligible
  obtain ⟨hi, hpos⟩ := (servable_iff stamp hfactor).1 hservable
  have hgroup : groups.groups[i]?.getD [] ∈ groups.groups := by
    rw [List.getElem?_eq_getElem hservable.lt, Option.getD_some]
    exact List.getElem_mem hservable.lt
  have hhost : id ∈ (Partition.of store groups.flatten groups).eligible kind := by
    rw [Partition.eligible_of, List.mem_filter, Grouping.flatten, List.mem_flatten]
    exact ⟨⟨_, hgroup, hid⟩, decide_eq_true hhealth⟩
  rw [schedule?_build] at hnone
  obtain ⟨s, hs⟩ := LocalityShare.exists_schedule (List.ne_nil_of_mem hhost) (List.mem_range.1 hi) hpos
  have hcontra := hs.symm.trans hnone
  cases hcontra

/-- Choices of both kinds serve just the servable localities, whatever is excluded. -/
theorem serves_servable (stamp : Nat) (store : HostStore) (groups : Grouping HostId)
    (weights? : Option (List Nat)) {factor : Nat} (hfactor : 0 < factor) (kinds : List Eligibility) :
    let g : Generation Rat := build stamp (.of store groups.flatten groups) weights? factor
    ∃ answers t, g.chooseEach kinds = .ok (answers, t) ∧ answers.length = kinds.length ∧
      ∀ kind, Serves (Servable store groups.groups weights? kind) (g.patience kind)
        (answersTo kind kinds answers) := by
  intro g
  obtain ⟨answers, t, heach, _, hlength, hanswers⟩ :=
    (ready_build stamp (.of store groups.flatten groups) weights? factor).chooseEach kinds
  refine ⟨answers, t, heach, hlength, fun kind => ?_⟩
  rw [hanswers kind]
  cases hs : g.schedule? kind with
  | none =>
    exact serves_none _ (not_servable_of_none hfactor hs) _
  | some s =>
    have hsome := hs
    rw [schedule?_build] at hsome
    obtain ⟨htimely, hqueue, hmembers⟩ := LocalityShare.schedule?_eq_some hsome
    have hserves := serves_picked htimely hqueue hmembers (kinds.count kind)
    have hservable : Servable store groups.groups weights? kind =
        fun i => i ∈ List.range groups.size ∧ 0 < g.weightOf kind i :=
      funext fun i => propext (servable_iff stamp hfactor)
    rw [hservable]
    exact hserves

def mixedHosts : HostStore :=
  ⟨#[default, (default : Host).setFlag .excludedByFailure, (default : Host).setFlag .degradedDiscovery]⟩

def mixedGroups : Grouping HostId := ⟨false, [[0, 1], [1], [2]]⟩

theorem serves_mixedGroups :
    0 < 140 ∧ Servable mixedHosts mixedGroups.groups (some [3, 2, 1]) .healthy 0 ∧
      ¬ Servable mixedHosts mixedGroups.groups (some [3, 2, 1]) .healthy 1 ∧
      let g : Generation Rat :=
        build 0 (.of mixedHosts mixedGroups.flatten mixedGroups) (some [3, 2, 1]) 140
      ∃ answers t, g.chooseEach [.healthy, .degraded, .healthy] = .ok (answers, t) ∧
        answers.length = 3 ∧
        ∀ kind, Serves (Servable mixedHosts mixedGroups.groups (some [3, 2, 1]) kind) (g.patience kind)
          (answersTo kind [.healthy, .degraded, .healthy] answers) := by
  refine ⟨by decide, ⟨by decide, ⟨0, by decide, by decide⟩, ⟨0, by decide, by decide⟩⟩, fun h => ?_,
    serves_servable 0 mixedHosts mixedGroups (some [3, 2, 1]) (by decide) _⟩
  obtain ⟨id, hid, hcounted⟩ := h.counted
  have hid : id = 1 := List.mem_singleton.1 hid
  rw [hid] at hcounted
  exact absurd hcounted (by decide)

end Generation

end Roster
