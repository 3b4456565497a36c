import Roster.Proofs.Delivering

/-!
# Roster.Proofs.Turns

What the turn of each level does, said of the endpoints of the assignment and of the cluster as it was
before the delivery.

* `hosts_resultAt`, `removed_resultAt`, `mem_added_resultAt` — what the level should have, and what is
  reported of it.
* `located_left`     — at an address, the hosts that no endpoint of the level updates in place.
* `Drains`           — when such a host stays; `stays_iff`.
* `get_reached_succ` — an installed host after the turn; `still_reached` says how long updates leave its
  health alone.
* `get_reached_id`   — a delivered host after its turn.
* `changed_resultAt` — when a level is to be installed again.
* `generation?_of_isAlone`, `generation?_of_not_isAlone` — the generation of a level after its turn, which
  the turns of other levels leave.
-/

namespace Roster

namespace DynamicCluster

variable {τ : Type} {dc : DynamicCluster τ} {a : Assignment}

theorem arrivalsAt_of_span_le {p : Nat} (hp : dc.span (dc.plan a).1 ≤ p) : dc.arrivalsAt a p = [] := by
  refine List.filter_eq_nil_iff.2 ?_
  intro x hx hlevel
  have hlt := (dc.registered_plan a).level x hx
  have hspan : (dc.plan a).1.draft.levels.length ≤ dc.span (dc.plan a).1 := Nat.le_max_left _ _
  have hlevel : x.level = p := of_decide_eq_true hlevel
  omega

theorem level_lt_span {x : Arrival} (hx : x ∈ dc.arrivals a) : x.level < dc.span (dc.plan a).1 :=
  Nat.lt_of_lt_of_le ((dc.registered_plan a).level x hx) (Nat.le_max_left _ _)

theorem hostsAt_of_span_le {p : Nat} (hp : dc.span (dc.plan a).1 ≤ p) :
    dc.cluster.priorities.hostsAt p = [] :=
  PrioritySet.hostsAt_of_length_le (Nat.le_trans (Nat.le_max_right _ _) hp)

theorem lt_span_of_mem {p : Nat} {i : HostId} (hi : i ∈ dc.cluster.priorities.hostsAt p) :
    p < dc.span (dc.plan a).1 := by
  by_contra hp
  rw [hostsAt_of_span_le (a := a) (by omega)] at hi
  cases hi

theorem member_lt (hs : dc.cluster.Sound) {x : Arrival} (hx : x ∈ dc.arrivals a) :
    dc.member x < (dc.plan a).2.size := by
  rw [member]
  cases hheir : dc.heir? x with
  | none => exact (Underway.id_lt hx).2
  | some e =>
    have hfind := (Option.filter_eq_some_iff.1 hheir).1
    exact Nat.lt_of_lt_of_le (hs.mapped _ e hfind).1 size_le_plan

theorem map_text_arrivals (dc : DynamicCluster τ) (a : Assignment) :
    (dc.arrivals a).map Arrival.text = a.texts := by
  rw [Assignment.texts, ← map_arrivals a dc.cluster.hosts.size, List.map_map]
  rfl

theorem text_mem_texts {x : Arrival} (hx : x ∈ dc.arrivals a) : x.text ∈ a.texts :=
  map_text_arrivals dc a ▸ List.mem_map_of_mem hx

theorem exists_arrival_of_text {b : String} (hb : b ∈ a.texts) : ∃ x ∈ dc.arrivals a, x.text = b :=
  List.mem_map.1 ((map_text_arrivals dc a).symm ▸ hb)

theorem text_of_heir? (hs : dc.cluster.Sound) {x : Arrival} {e : HostId} (h : dc.heir? x = some e) :
    dc.cluster.hosts.addressText e = x.text ∧ e < dc.cluster.hosts.size := by
  obtain ⟨hlt, htext⟩ := hs.mapped _ e (Option.filter_eq_some_iff.1 h).1
  exact ⟨htext, hlt⟩

theorem heir?_of_member {x : Arrival} (hx : x ∈ dc.arrivals a) {i : HostId}
    (hi : i < dc.cluster.hosts.size) (h : dc.member x = i) : dc.heir? x = some i := by
  cases hheir : dc.heir? x with
  | none =>
    rw [member_of_fresh hheir] at h
    have hge : dc.cluster.hosts.size ≤ i := h ▸ (Underway.id_lt hx).1
    exact absurd hi (Nat.not_lt.2 hge)
  | some e =>
    rw [member_of_heir? hheir] at h
    exact congrArg some h

variable [Quantity τ]

/-- A host that no endpoint of level `p` updates in place stays there to drain. -/
structure Drains (dc : DynamicCluster τ) (a : Assignment) (p : Nat) (i : HostId) : Prop where
  checker : dc.cluster.hasChecker = true
  respected : dc.cluster.config.ignoreHealthOnRemoval = false
  unmoved : ∀ x ∈ dc.arrivalsAt a p, x.text = dc.cluster.hosts.addressText i →
    ∀ e, Assoc.find? x.text dc.cluster.priorities.addressMap = some e →
      Reconcile.movedLocality (dc.cluster.hosts.get e) x.host = false ∧
        Reconcile.switchedCheck dc.cluster.rules (dc.cluster.hosts.get e) x.host = false
  here : dc.cluster.hosts.addressText i ∈ a.texts →
    dc.Refreshed a p (dc.cluster.hosts.addressText i)
  passing : (dc.cluster.hosts.get i).hasFlag .failedActiveCheck = false
  listed : (dc.after a p i).hasFlag .failedDiscovery = false
  checked : (dc.cluster.hosts.get i).disableActiveCheck = false

theorem left_sublist (p : Nat) : (dc.left a p).Sublist (dc.cluster.priorities.hostsAt p) :=
  Reconcile.left_sublist

theorem lt_size_of_mem_left (hs : dc.cluster.Sound) {p : Nat} {i : HostId} (hi : i ∈ dc.left a p) :
    i < dc.cluster.hosts.size :=
  hs.known p i ((left_sublist p).subset hi)

section Sound

variable (hs : dc.cluster.Sound) (hf : dc.cluster.config.factorFor a ≠ 0)

include hs hf

/-! ## What is known of a delivered host -/

theorem alike_reached {i : HostId} (hi : i < dc.cluster.hosts.size) (n : Nat) :
    Host.Alike (dc.cluster.hosts.get i) ((dc.reached a n).hosts.get i) := by
  have h := (underway_reached (a := a) hs hf n).alike i
  rwa [(dc.registered_plan a).old i hi] at h

theorem alike_reached_id {x : Arrival} (hx : x ∈ dc.arrivals a) (n : Nat) :
    Host.Alike x.host ((dc.reached a n).hosts.get x.id) := by
  have h := (underway_reached (a := a) hs hf n).alike x.id
  rwa [(dc.registered_plan a).new x hx] at h

theorem addressText_reached {i : HostId} (hi : i < dc.cluster.hosts.size) (n : Nat) :
    (dc.reached a n).hosts.addressText i = dc.cluster.hosts.addressText i :=
  congrArg Address.text (alike_reached hs hf hi n).address

theorem addressText_reached_id {x : Arrival} (hx : x ∈ dc.arrivals a) (n : Nat) :
    (dc.reached a n).hosts.addressText x.id = x.text := by
  have h := (alike_reached_id hs hf hx n).address
  rw [x.host_eq] at h
  exact congrArg Address.text h

theorem fits_reached {x : Arrival} (hx : x ∈ dc.arrivals a) {e : HostId}
    (he : e < dc.cluster.hosts.size) (n : Nat) :
    Reconcile.fits dc.cluster.rules ((dc.reached a n).hosts.get e) ((dc.reached a n).hosts.get x.id) =
      Reconcile.fits dc.cluster.rules (dc.cluster.hosts.get e) x.host :=
  Reconcile.fits_congr (alike_reached hs hf he n) (alike_reached_id hs hf hx n)

theorem heir?_reached {x : Arrival} (hx : x ∈ dc.arrivals a) (n : Nat) :
    Reconcile.heir? dc.cluster.rules dc.cluster.priorities.addressMap (dc.reached a n).hosts x.id =
      dc.heir? x := by
  rw [Reconcile.heir?, addressText_reached_id hs hf hx, heir?]
  cases hfind : Assoc.find? x.text dc.cluster.priorities.addressMap with
  | none => rfl
  | some e =>
    simp only [Option.filter_some, fits_reached hs hf hx (hs.mapped _ e hfind).1]

theorem chosen_reached {x : Arrival} (hx : x ∈ dc.arrivals a) (n : Nat) :
    Reconcile.chosen dc.cluster.rules dc.cluster.priorities.addressMap (dc.reached a n).hosts x.id =
      dc.member x := by
  rw [Reconcile.chosen, heir?_reached hs hf hx, member]

theorem located_reached {ids : List HostId} (hids : ∀ i ∈ ids, i < dc.cluster.hosts.size) (n : Nat)
    (b : String) : (dc.reached a n).hosts.located b ids = dc.cluster.hosts.located b ids :=
  HostStore.located_congr fun i hi => addressText_reached hs hf (hids i hi) n

theorem hostsAt_reached (p : Nat) : (dc.reached a p).hostsAt p = dc.cluster.priorities.hostsAt p :=
  (underway_reached (a := a) hs hf p).hostsAt p (Nat.le_refl p)

/-! ## Endpoints for delivered hosts -/

theorem renewed_iff {p : Nat} {b : String} :
    Reconcile.Renewed dc.cluster.rules dc.cluster.priorities.addressMap (dc.reached a p).hosts
      ((dc.plan a).1.draft.hostsAt p) b ↔ dc.Renewed a p b := by
  rw [Reconcile.Renewed, exists_hostsAt, Renewed]
  refine exists_congr fun x => and_congr_right ?_
  intro hx
  have hx := (mem_arrivalsAt.1 hx).1
  rw [addressText_reached_id hs hf hx, heir?_reached hs hf hx]

theorem refreshed_iff {p : Nat} {b : String} :
    Reconcile.Refreshed dc.cluster.rules dc.cluster.priorities.addressMap (dc.reached a p).hosts
      ((dc.plan a).1.draft.hostsAt p) b ↔ dc.Refreshed a p b := by
  rw [Reconcile.Refreshed, exists_hostsAt, Refreshed]
  refine exists_congr fun x => and_congr_right ?_
  intro hx
  have hx := (mem_arrivalsAt.1 hx).1
  rw [addressText_reached_id hs hf hx, heir?_reached hs hf hx]

/-! ## The turn of a level -/

theorem reconciled_resultAt (p : Nat) :
    Reconcile.Reconciled dc.cluster.rules dc.cluster.priorities.addressMap a.texts
      (dc.reached a p).hosts ((dc.plan a).1.draft.hostsAt p) (dc.cluster.priorities.hostsAt p) p
      (dc.resultAt a p) := by
  have h := (underway_reached (a := a) hs hf p).reconciled hs
  rwa [hostsAt_reached hs hf] at h

theorem arrives_reached (p : Nat) :
    Reconcile.Arrives p dc.cluster.priorities.addressMap (dc.reached a p).hosts
      ((dc.plan a).1.draft.hostsAt p) :=
  (underway_reached (a := a) hs hf p).arrives hs

theorem lt_size_reached {i : HostId} (hi : i < dc.cluster.hosts.size) (n : Nat) :
    i < (dc.reached a n).hosts.size := by
  rw [(underway_reached (a := a) hs hf n).size, (dc.registered_plan a).size]
  exact Nat.lt_of_lt_of_le hi (Nat.le_add_right _ _)

theorem located_left (p : Nat) (b : String) [Decidable (dc.Renewed a p b)] :
    dc.cluster.hosts.located b (dc.left a p) =
      if dc.Renewed a p b then (dc.cluster.hosts.located b (dc.cluster.priorities.hostsAt p)).tail
      else dc.cluster.hosts.located b (dc.cluster.priorities.hostsAt p) := by
  classical
  have h : (dc.reached a p).hosts.located b (dc.left a p) = _ :=
    Reconcile.located_left (arrives_reached hs hf p) b
  have hleft : ∀ i ∈ dc.left a p, i < dc.cluster.hosts.size := fun i hi =>
    lt_size_of_mem_left hs hi
  rw [located_reached hs hf hleft, located_reached hs hf (hs.known p)] at h
  rw [h]
  by_cases hr : dc.Renewed a p b
  · rw [if_pos hr, if_pos ((renewed_iff hs hf).2 hr)]
  · rw [if_neg hr, if_neg fun h' => hr ((renewed_iff hs hf).1 h')]

theorem located_left_of_heir? {p : Nat} {x : Arrival} (hx : x ∈ dc.arrivalsAt a p) {e : HostId}
    (he : dc.heir? x = some e) :
    dc.cluster.hosts.located x.text (dc.left a p) =
      (dc.cluster.hosts.located x.text (dc.cluster.priorities.hostsAt p)).tail := by
  classical
  have hrenewed : dc.Renewed a p x.text := ⟨x, hx, rfl, by rw [he]; rfl⟩
  rw [located_left hs hf, if_pos hrenewed]

theorem mem_left_iff {p : Nat} {x : Arrival} (hx : x ∈ dc.arrivalsAt a p) {e i : HostId}
    (he : dc.heir? x = some e) (hi : dc.cluster.hosts.addressText i = x.text) :
    i ∈ dc.left a p ↔
      i ∈ (dc.cluster.hosts.located x.text (dc.cluster.priorities.hostsAt p)).tail := by
  rw [← located_left_of_heir? hs hf hx he, HostStore.mem_located]
  exact ⟨fun h => ⟨h, hi⟩, fun h => h.1⟩

theorem mem_left_of_not_renewed {p : Nat} {i : HostId} (hi : i ∈ dc.cluster.priorities.hostsAt p)
    (hr : ¬ dc.Renewed a p (dc.cluster.hosts.addressText i)) : i ∈ dc.left a p := by
  classical
  have hleft := located_left (a := a) hs hf p (dc.cluster.hosts.addressText i)
  rw [if_neg hr] at hleft
  have hm : i ∈ dc.cluster.hosts.located (dc.cluster.hosts.addressText i)
      (dc.cluster.priorities.hostsAt p) := HostStore.mem_located.2 ⟨hi, rfl⟩
  rw [← hleft] at hm
  exact (HostStore.mem_located.1 hm).1

/-- Nobody at the address of a host asks for a locality or a way of checking that its hosts do not have. -/
theorem unmoved_iff {p : Nat} {i : HostId} (hi : i < dc.cluster.hosts.size) :
    (∀ id ∈ (dc.plan a).1.draft.hostsAt p,
      (dc.reached a p).hosts.addressText id = (dc.reached a p).hosts.addressText i →
      ∀ e, Assoc.find? ((dc.reached a p).hosts.addressText i) dc.cluster.priorities.addressMap = some e →
        Reconcile.movedLocality ((dc.reached a p).hosts.get e) ((dc.reached a p).hosts.get id) = false ∧
          Reconcile.switchedCheck dc.cluster.rules ((dc.reached a p).hosts.get e)
            ((dc.reached a p).hosts.get id) = false) ↔
      ∀ x ∈ dc.arrivalsAt a p, x.text = dc.cluster.hosts.addressText i →
        ∀ e, Assoc.find? x.text dc.cluster.priorities.addressMap = some e →
          Reconcile.movedLocality (dc.cluster.hosts.get e) x.host = false ∧
            Reconcile.switchedCheck dc.cluster.rules (dc.cluster.hosts.get e) x.host = false := by
  rw [forall_hostsAt]
  refine forall₂_congr ?_
  intro x hx
  have hx := (mem_arrivalsAt.1 hx).1
  rw [addressText_reached_id hs hf hx, addressText_reached hs hf hi]
  refine forall_congr' ?_
  intro htext
  rw [htext]
  refine forall₂_congr ?_
  intro e he
  have he := (hs.mapped _ e he).1
  rw [Reconcile.movedLocality_congr (alike_reached hs hf he p) (alike_reached_id hs hf hx p),
    Reconcile.switchedCheck_congr (alike_reached hs hf he p) (alike_reached_id hs hf hx p)]

theorem stays_iff {p : Nat} {i : HostId} (hi : i < dc.cluster.hosts.size) :
    dc.stays a p i = true ↔ dc.Drains a p i := by
  have h : dc.stays a p i = true ↔ _ := Reconcile.stays_iff (arrives_reached hs hf p)
    (lt_size_reached hs hf hi p) (Underway.not_mem_hostsAt hi p)
  have htext := addressText_reached (a := a) hs hf hi p
  have hflag : ((dc.reached a p).hosts.get i).hasFlag .failedActiveCheck =
      (dc.cluster.hosts.get i).hasFlag .failedActiveCheck :=
    (underway_reached (a := a) hs hf p).flags i hi _ (by simp) (by simp) (by simp)
  have hchecked := (alike_reached (a := a) hs hf hi p).disableActiveCheck
  rw [h]
  constructor
  · intro hd
    refine ⟨hd.checker, hd.respected, (unmoved_iff hs hf hi).1 hd.unmoved, ?_,
      hflag.symm.trans hd.passing, hd.listed, hchecked.symm.trans hd.checked⟩
    intro hm
    rw [← refreshed_iff hs hf, ← htext]
    exact hd.here (htext ▸ hm)
  · intro hd
    refine ⟨hd.checker, hd.respected, (unmoved_iff hs hf hi).2 hd.unmoved, ?_, hflag.trans hd.passing,
      hd.listed, hchecked.trans hd.checked⟩
    intro hm
    rw [htext] at hm ⊢
    exact (refreshed_iff hs hf).2 (hd.here hm)

theorem hosts_resultAt (p : Nat) :
    (dc.resultAt a p).hosts =
      (dc.arrivalsAt a p).map dc.member ++ (dc.left a p).filter (dc.stays a p) := by
  have hmember : ((dc.plan a).1.draft.hostsAt p).map (Reconcile.chosen dc.cluster.rules
      dc.cluster.priorities.addressMap (dc.reached a p).hosts) =
        (dc.arrivalsAt a p).map dc.member := by
    rw [hostsAt_draft, List.map_map]
    exact List.map_congr_left fun x hx => chosen_reached hs hf (mem_arrivalsAt.1 hx).1 p
  rw [(reconciled_resultAt hs hf p).hosts, hmember]
  rfl

theorem removed_resultAt (p : Nat) :
    (dc.resultAt a p).removed = (dc.left a p).filter fun i => !dc.stays a p i :=
  (reconciled_resultAt hs hf p).removed

theorem mem_added_resultAt {p : Nat} {i : HostId} :
    i ∈ (dc.resultAt a p).added ↔ ∃ x ∈ dc.arrivalsAt a p, dc.member x = i ∧
      ∀ e, dc.heir? x = some e → ((dc.reached a p).hosts.get e).priority ≠ p := by
  rw [(reconciled_resultAt hs hf p).added, exists_hostsAt]
  refine exists_congr fun x => and_congr_right ?_
  intro hx
  have hx := (mem_arrivalsAt.1 hx).1
  rw [chosen_reached hs hf hx, heir?_reached hs hf hx]

/-! ## Hosts after a turn -/

/-- An installed host meets the endpoints at its address that the index finds it for. -/
theorem after_eq {p : Nat} {i : HostId} :
    dc.after a p i =
      ((dc.arrivalsAt a p).filter fun x =>
          Assoc.find? x.text dc.cluster.priorities.addressMap = some i).foldl
        (fun h x => Reconcile.visit dc.cluster.rules h x.host) ((dc.reached a p).hosts.get i) := by
  have hvisits : Reconcile.visits dc.cluster.priorities.addressMap (dc.reached a p).hosts
      ((dc.plan a).1.draft.hostsAt p) i = ((dc.arrivalsAt a p).filter fun x =>
        Assoc.find? x.text dc.cluster.priorities.addressMap = some i).map Arrival.id := by
    rw [Reconcile.visits, hostsAt_draft, List.filter_map]
    refine congrArg (List.map Arrival.id) (List.filter_congr ?_)
    intro x hx
    simp only [Function.comp, addressText_reached_id hs hf (mem_arrivalsAt.1 hx).1]
  rw [after, Reconcile.after, hvisits, List.foldl_map]
  refine List.foldl_ext _ _ _ ?_
  intro h x hx
  have hx := mem_arrivalsAt.1 (List.mem_filter.1 hx).1
  rw [(underway_reached (a := a) hs hf p).later x hx.1 (Nat.le_of_eq hx.2.symm)]

theorem after_of_unmet {p : Nat} {i : HostId}
    (h : ∀ x ∈ dc.arrivalsAt a p, Assoc.find? x.text dc.cluster.priorities.addressMap ≠ some i) :
    dc.after a p i = (dc.reached a p).hosts.get i := by
  rw [after_eq hs hf, List.filter_eq_nil_iff.2 fun x hx => by simpa using h x hx, List.foldl_nil]

theorem get_reached_succ {p : Nat} {i : HostId} (hi : i < dc.cluster.hosts.size) :
    (dc.reached a (p + 1)).hosts.get i =
      if i ∈ dc.left a p ∧ dc.stays a p i = true then (dc.after a p i).setFlag .pendingRemoval
      else dc.after a p i := by
  rw [(levelStep_reached hs hf p).hosts]
  exact (reconciled_resultAt hs hf p).installed i (lt_size_reached hs hf hi p)
    (Underway.not_mem_hostsAt hi p)

/-- As long as no update shifts an installed host, it keeps its health, and the next update shifts it
exactly if it had from the start. -/
theorem still_reached {i : HostId} (hi : i < dc.cluster.hosts.size) {m n : Nat} (hmn : m ≤ n)
    (hno : ∀ q, m ≤ q → q < n → ∀ x ∈ dc.arrivalsAt a q, dc.heir? x = some i →
      ((dc.reached a q).hosts.get i).shifts x.host = false) :
    Host.SameHealth ((dc.reached a m).hosts.get i) ((dc.reached a n).hosts.get i) ∧
      ∀ d, ((dc.reached a n).hosts.get i).shifts d = ((dc.reached a m).hosts.get i).shifts d := by
  induction n with
  | zero =>
    rw [Nat.le_zero.1 hmn]
    exact ⟨.refl _, fun _ => rfl⟩
  | succ n ih =>
    obtain rfl | hle : m = n + 1 ∨ m ≤ n := by omega
    · exact ⟨.refl _, fun _ => rfl⟩
    · obtain ⟨hhealth, hshifts⟩ : Host.SameHealth ((dc.reached a n).hosts.get i) (dc.after a n i) ∧
          ∀ d, (dc.after a n i).shifts d = ((dc.reached a n).hosts.get i).shifts d := by
        refine Reconcile.still_after (forall_hostsAt.2 fun x hx => ?_)
        have hx' := mem_arrivalsAt.1 hx
        rw [heir?_reached hs hf hx'.1,
          (underway_reached (a := a) hs hf n).later x hx'.1 (Nat.le_of_eq hx'.2.symm)]
        exact hno n hle (Nat.lt_succ_self n) x hx
      obtain ⟨hbefore, hsame⟩ := ih hle fun q hq hlt => hno q hq (by omega)
      have hn := hbefore.trans hhealth
      have hd := fun d => (hshifts d).trans (hsame d)
      rw [get_reached_succ hs hf hi]
      split
      · exact ⟨hn.trans (Host.sameHealth_setPending _), fun d => (Host.shifts_setPending _ d).trans (hd d)⟩
      · exact ⟨hn, hd⟩

/-- An installed host that meets no endpoint of the levels below `n` is as it was, but for the flag it
has if it stays somewhere to drain. -/
theorem get_reached_of_unmet {i : HostId} (hi : i < dc.cluster.hosts.size) {n : Nat}
    (h : ∀ x ∈ dc.arrivals a, x.level < n →
      Assoc.find? x.text dc.cluster.priorities.addressMap ≠ some i) :
    ((dc.reached a n).hosts.get i = dc.cluster.hosts.get i ∧
        ∀ q, q < n → ¬ (i ∈ dc.left a q ∧ dc.stays a q i = true)) ∨
      ((dc.reached a n).hosts.get i = (dc.cluster.hosts.get i).setFlag .pendingRemoval ∧
        ∃ q, q < n ∧ i ∈ dc.left a q ∧ dc.stays a q i = true) := by
  induction n with
  | zero => exact .inl ⟨(dc.registered_plan a).old i hi, fun q hq => by omega⟩
  | succ n ih =>
    have hafter : dc.after a n i = (dc.reached a n).hosts.get i :=
      after_of_unmet hs hf fun x hx => h x (mem_arrivalsAt.1 hx).1 (by
        have := (mem_arrivalsAt.1 hx).2
        omega)
    have hget := get_reached_succ (a := a) hs hf (p := n) hi
    rw [hafter] at hget
    rcases ih fun x hx hlevel => h x hx (by omega) with ⟨hn, hnone⟩ | ⟨hn, q, hq, hdrains⟩
    · by_cases hnow : i ∈ dc.left a n ∧ dc.stays a n i = true
      · rw [if_pos hnow, hn] at hget
        exact .inr ⟨hget, n, by omega, hnow⟩
      · rw [if_neg hnow, hn] at hget
        refine .inl ⟨hget, ?_⟩
        intro q hq
        obtain hlt | rfl : q < n ∨ q = n := by omega
        · exact hnone q hlt
        · exact hnow
    · refine .inr ⟨?_, q, by omega, hdrains⟩
      rw [hget, hn]
      split
      · exact Host.setFlag_setFlag _ _
      · rfl

theorem priority_reached_succ {p : Nat} {i : HostId} (hi : i < dc.cluster.hosts.size)
    [Decidable (∃ x ∈ dc.arrivalsAt a p, dc.heir? x = some i)] :
    ((dc.reached a (p + 1)).hosts.get i).priority =
      if ∃ x ∈ dc.arrivalsAt a p, dc.heir? x = some i then p
      else ((dc.reached a p).hosts.get i).priority := by
  classical
  have hset : ((dc.reached a (p + 1)).hosts.get i).priority = (dc.after a p i).priority := by
    rw [get_reached_succ hs hf hi]
    split <;> rfl
  have harrives := arrives_reached (a := a) hs hf p
  have hpriority : (dc.after a p i).priority = _ :=
    Reconcile.priority_visitAll _ fun id hid => harrives.level id (List.mem_filter.1 hid).1
  have hmet : (∃ id ∈ Reconcile.visits dc.cluster.priorities.addressMap (dc.reached a p).hosts
        ((dc.plan a).1.draft.hostsAt p) i,
      Reconcile.fits dc.cluster.rules ((dc.reached a p).hosts.get i)
        ((dc.reached a p).hosts.get id) = true) ↔ ∃ x ∈ dc.arrivalsAt a p, dc.heir? x = some i := by
    simp only [Reconcile.visits, List.mem_filter, decide_eq_true_eq, and_assoc]
    rw [exists_hostsAt]
    refine exists_congr fun x => and_congr_right ?_
    intro hx
    have hx := (mem_arrivalsAt.1 hx).1
    rw [addressText_reached_id hs hf hx, fits_reached hs hf hx hi, heir?, Option.filter_eq_some_iff]
  rw [hset, hpriority]
  simp only [hmet]

theorem priority_reached {i : HostId} (hi : i < dc.cluster.hosts.size) (n : Nat) :
    ((∃ x ∈ dc.arrivals a, x.level < n ∧ dc.heir? x = some i) ∧
        ((dc.reached a n).hosts.get i).priority < n) ∨
      ((¬ ∃ x ∈ dc.arrivals a, x.level < n ∧ dc.heir? x = some i) ∧
        ((dc.reached a n).hosts.get i).priority = (dc.cluster.hosts.get i).priority) := by
  classical
  induction n with
  | zero =>
    refine .inr ⟨fun ⟨x, _, hlevel, _⟩ => by omega, ?_⟩
    exact congrArg Host.priority ((dc.registered_plan a).old i hi)
  | succ n ih =>
    have hsucc := priority_reached_succ (a := a) hs hf (p := n) hi
    by_cases hnow : ∃ x ∈ dc.arrivalsAt a n, dc.heir? x = some i
    · rw [if_pos hnow] at hsucc
      obtain ⟨x, hx, hheir⟩ := hnow
      obtain ⟨hx, hlevel⟩ := mem_arrivalsAt.1 hx
      exact .inl ⟨⟨x, hx, by omega, hheir⟩, by omega⟩
    · rw [if_neg hnow] at hsucc
      rcases ih with ⟨⟨x, hx, hlevel, hheir⟩, hlt⟩ | ⟨hnone, hsame⟩
      · exact .inl ⟨⟨x, hx, by omega, hheir⟩, by omega⟩
      · refine .inr ⟨?_, hsucc.trans hsame⟩
        rintro ⟨x, hx, hlevel, hheir⟩
        obtain hlt | heq : x.level < n ∨ x.level = n := by omega
        · exact hnone ⟨x, hx, hlt, hheir⟩
        · exact hnow ⟨x, mem_arrivalsAt.2 ⟨hx, heq⟩, hheir⟩

/-- A delivered host that becomes a member is flagged in its turn; nothing else happens to it. -/
theorem get_reached_id {x : Arrival} (hx : x ∈ dc.arrivals a) {n : Nat} (hn : x.level < n) :
    (dc.reached a n).hosts.get x.id =
      if (dc.heir? x).isSome then x.host
      else x.host.setFlags (Reconcile.entryFlags dc.cluster.rules x.host) := by
  induction n with
  | zero => omega
  | succ n ih =>
    rw [(levelStep_reached hs hf n).hosts]
    have hrec := reconciled_resultAt (a := a) hs hf n
    obtain hlt | heq : x.level < n ∨ x.level = n := by omega
    · have hnot : x.id ∉ (dc.plan a).1.draft.hostsAt n := fun hm => by
        rw [hostsAt_draft] at hm
        obtain ⟨y, hy, hyx⟩ := List.mem_map.1 hm
        have hy := mem_arrivalsAt.1 hy
        have hxy := eq_of_id_eq hy.1 hx hyx
        subst hxy
        omega
      have hsize : x.id < (dc.reached a n).hosts.size := by
        rw [(underway_reached (a := a) hs hf n).size]
        exact (Underway.id_lt hx).2
      have hleft : x.id ∉ dc.left a n := fun hm =>
        Nat.not_lt.2 (Underway.id_lt hx).1 (lt_size_of_mem_left hs hm)
      have hget := hrec.installed x.id hsize hnot
      rw [if_neg fun h => hleft h.1, Underway.after_of_id hs hx] at hget
      exact hget.trans (ih hlt)
    · subst heq
      have hid : x.id ∈ (dc.plan a).1.draft.hostsAt x.level := by
        rw [hostsAt_draft]
        exact List.mem_map_of_mem (mem_arrivalsAt.2 ⟨hx, rfl⟩)
      have hget := hrec.arrived x.id hid
      rw [heir?_reached hs hf hx,
        (underway_reached (a := a) hs hf x.level).later x hx (Nat.le_refl _)] at hget
      exact hget

/-- A level is to be installed again unless no update shifts its host, nothing is to be reported, and
where an endpoint updates a host the level has one. -/
theorem changed_resultAt {p : Nat} :
    (dc.resultAt a p).changed = false ↔
      (∀ x ∈ dc.arrivalsAt a p, ∀ e, dc.heir? x = some e →
        ((dc.reached a p).hosts.get e).shifts x.host = false) ∧
      (dc.resultAt a p).added = [] ∧ (dc.resultAt a p).removed = [] ∧
      ∀ b, dc.Renewed a p b →
        dc.cluster.hosts.located b (dc.cluster.priorities.hostsAt p) ≠ [] := by
  rw [(reconciled_resultAt hs hf p).changed, forall_hostsAt]
  refine and_congr (forall₂_congr fun x hx => ?_) (and_congr_right' (and_congr_right' ?_))
  · have hx := mem_arrivalsAt.1 hx
    rw [heir?_reached hs hf hx.1,
      (underway_reached (a := a) hs hf p).later x hx.1 (Nat.le_of_eq hx.2.symm)]
  · simp only [renewed_iff hs hf, located_reached hs hf (hs.known p)]

/-- In a level that is not to be installed again all hosts stay that no endpoint updates in place. -/
theorem stays_of_unchanged {p : Nat} (h : (dc.resultAt a p).changed = false) {i : HostId}
    (hi : i ∈ dc.left a p) : dc.stays a p i = true := by
  have hremoved := ((changed_resultAt hs hf).1 h).2.2.1
  rw [removed_resultAt hs hf] at hremoved
  simpa using List.filter_eq_nil_iff.1 hremoved i hi

theorem heir?_of_unchanged {p : Nat} (h : (dc.resultAt a p).changed = false) {x : Arrival}
    (hx : x ∈ dc.arrivalsAt a p) :
    ∃ e, dc.heir? x = some e ∧ ((dc.reached a p).hosts.get e).priority = p := by
  by_contra hno
  have hin : dc.member x ∈ (dc.resultAt a p).added :=
    (mem_added_resultAt hs hf).2 ⟨x, hx, rfl, fun e he hpriority => hno ⟨e, he, hpriority⟩⟩
  rw [((changed_resultAt hs hf).1 h).2.1] at hin
  cases hin

omit hs hf in
theorem changed_of_isAlone {p : Nat} (h : dc.isAlone a p = true) :
    (dc.resultAt a p).changed = false := by
  simp only [isAlone, Rollout.isAlone, Bool.and_eq_true, Bool.not_eq_true'] at h
  exact h.1.1

theorem quiet_of_isAlone {p : Nat} (h : dc.isAlone a p = true) :
    (dc.resultAt a p).added = [] ∧ (dc.resultAt a p).removed = [] ∧
      ∀ b, dc.Renewed a p b →
        dc.cluster.hosts.located b (dc.cluster.priorities.hostsAt p) ≠ [] :=
  ((changed_resultAt hs hf).1 (changed_of_isAlone h)).2

theorem isAlone_of_added {p : Nat} {i : HostId} (hi : i ∈ (dc.resultAt a p).added) :
    dc.isAlone a p = false := by
  refine Bool.eq_false_iff.2 fun halone => ?_
  rw [(quiet_of_isAlone hs hf halone).1] at hi
  cases hi

theorem isAlone_of_removed {p : Nat} {i : HostId} (hi : i ∈ (dc.resultAt a p).removed) :
    dc.isAlone a p = false := by
  refine Bool.eq_false_iff.2 fun halone => ?_
  rw [(quiet_of_isAlone hs hf halone).2.1] at hi
  cases hi

/-! ## The levels of a delivery under way -/

theorem hostsAt_reached_of_lt {p n : Nat} (hp : p < n) :
    (dc.reached a n).hostsAt p =
      if dc.isAlone a p = true then dc.cluster.priorities.hostsAt p else (dc.resultAt a p).hosts := by
  induction n with
  | zero => omega
  | succ n ih =>
    rw [(levelStep_reached hs hf n).hostsAt p]
    obtain hlt | rfl : p < n ∨ p = n := by omega
    · rw [if_neg fun h => by omega]
      exact ih hlt
    · have halone : (dc.reached a p).isAlone (dc.plan a).1 p = dc.isAlone a p := rfl
      rw [halone, hostsAt_reached hs hf]
      cases dc.isAlone a p with
      | true => simp
      | false => simp [resultAt]

theorem resultAt_of_span_le {p : Nat} (hp : dc.span (dc.plan a).1 ≤ p) :
    (dc.resultAt a p).hosts = [] ∧ (dc.resultAt a p).added = [] ∧ (dc.resultAt a p).removed = [] := by
  have harrivals := arrivalsAt_of_span_le (a := a) hp
  have hleft : dc.left a p = [] := by
    have hsub : (dc.left a p).Sublist (dc.cluster.priorities.hostsAt p) := left_sublist p
    rw [hostsAt_of_span_le hp] at hsub
    exact List.sublist_nil.1 hsub
  refine ⟨?_, List.eq_nil_iff_forall_not_mem.2 ?_, ?_⟩
  · rw [hosts_resultAt hs hf, harrivals, hleft]
    rfl
  · intro i hi
    obtain ⟨x, hx, _⟩ := (mem_added_resultAt hs hf).1 hi
    rw [harrivals] at hx
    cases hx
  · rw [removed_resultAt hs hf, hleft]
    rfl

theorem length_reached (n : Nat) :
    (dc.reached a n).batch.priorities.levels.length =
      max dc.cluster.priorities.levels.length n := by
  induction n with
  | zero =>
    have hread := PrioritySet.hears_readMap dc.cluster.priorities
    exact (PrioritySet.length_congr hread.installation).trans (Nat.max_eq_left (Nat.zero_le _)).symm
  | succ n ih =>
    rw [(levelStep_reached hs hf n).length, ih]
    omega

theorem length_reached_span : (dc.reached a (dc.span (dc.plan a).1)).batch.priorities.levels.length =
    dc.span (dc.plan a).1 := by
  rw [length_reached hs hf]
  exact Nat.max_eq_right (Nat.le_max_right _ _)

theorem generation?_reached_of_le {n p : Nat} (hp : n ≤ p) :
    (dc.reached a n).batch.priorities.generation? p = dc.cluster.priorities.generation? p := by
  induction n with
  | zero =>
    exact PrioritySet.generation?_congr
      (PrioritySet.hears_readMap dc.cluster.priorities).installation p
  | succ n ih =>
    rw [(levelStep_reached hs hf n).others p (by omega)]
    exact (PrioritySet.generation?_ensureLevel_of_gt (by omega) _).trans (ih (by omega))

theorem generation?_reached_of_lt {n p : Nat} (hp : p < n) :
    (dc.reached a n).batch.priorities.generation? p =
      (dc.reached a (p + 1)).batch.priorities.generation? p := by
  induction n with
  | zero => omega
  | succ n ih =>
    obtain hlt | rfl : p < n ∨ p = n := by omega
    · have hlevel : p < (dc.reached a n).batch.priorities.levels.length := by
        rw [length_reached hs hf]
        omega
      rw [(levelStep_reached hs hf n).others p (by omega)]
      exact (PrioritySet.generation?_ensureLevel_of_lt hlevel n _).trans (ih hlt)
    · rfl

/-- A level that is left as it is keeps its generation; a level that is missing is made. -/
theorem generation?_of_isAlone {p : Nat} (h : dc.isAlone a p = true) :
    (p < dc.cluster.priorities.levels.length →
      (dc.reached a (p + 1)).batch.priorities.generation? p =
        dc.cluster.priorities.generation? p) ∧
    (dc.cluster.priorities.levels.length ≤ p → ∀ g,
      (dc.reached a (p + 1)).batch.priorities.generation? p = some g →
        g.Vacant ∧ g.factor = (dc.plan a).1.factor) := by
  have hlength := length_reached (a := a) hs hf p
  rw [(levelStep_reached hs hf p).alone h]
  simp only [Rollout.made]
  constructor
  · intro hp
    refine (PrioritySet.generation?_ensureLevel_of_lt ?_ p _).trans
      (generation?_reached_of_le hs hf (Nat.le_refl p))
    omega
  · intro hp g hg
    obtain ⟨hvacant, hfactor⟩ := PrioritySet.generation?_ensureLevel_of_le (by omega) hg
    rw [if_pos rfl] at hfactor
    exact ⟨hvacant, hfactor⟩

theorem generation?_of_not_isAlone {p : Nat} (h : dc.isAlone a p = false) :
    ∃ stamp, (dc.reached a (p + 1)).batch.priorities.generation? p =
      some (.build stamp (dc.updateAt a p).partition (dc.updateAt a p).weights?
        (dc.plan a).1.factor) :=
  (levelStep_reached hs hf p).installed h

/-- It is installed with what was composed of the hosts as they are after its turn. -/
theorem updateAt_eq (p : Nat) :
    dc.updateAt a p = Draft.composed dc.cluster.config ((dc.plan a).1.draft.weightsAt p)
      (dc.reached a (p + 1)).hosts
      { priority := p
        hosts := (dc.resultAt a p).hosts
        added? := some (dc.resultAt a p).added
        removed? := some (dc.resultAt a p).removed
        factor? := some (dc.plan a).1.factor } := by
  rw [(levelStep_reached hs hf p).hosts]
  rfl

omit hs hf in
theorem factor_of_isAlone {p : Nat} (h : dc.isAlone a p = true) {g : Generation τ}
    (hg : (dc.reached a p).batch.priorities.generation? p = some g) :
    g.factor = dc.cluster.config.factorFor a := by
  have hfactor : (dc.reached a p).factorAt? p = some g.factor := by
    obtain ⟨l, hl, rfl⟩ := Option.map_eq_some_iff.1 hg
    rw [Rollout.factorAt?, hl]
    rfl
  simp only [isAlone, Rollout.isAlone, Bool.and_eq_true, decide_eq_true_eq, hfactor,
    Option.getD_some] at h
  exact h.1.2

theorem factor_reached {p n : Nat} (hp : p < n) {g : Generation τ}
    (hg : (dc.reached a n).batch.priorities.generation? p = some g) :
    g.factor = dc.cluster.config.factorFor a := by
  rw [generation?_reached_of_lt hs hf hp] at hg
  cases halone : dc.isAlone a p with
  | true =>
    obtain ⟨hold, hmade⟩ := generation?_of_isAlone hs hf halone
    rcases Nat.lt_or_ge p dc.cluster.priorities.levels.length with hlt | hge
    · rw [hold hlt, ← generation?_reached_of_le hs hf (Nat.le_refl p)] at hg
      exact factor_of_isAlone halone hg
    · exact (hmade hge g hg).2
  | false =>
    obtain ⟨stamp, hbuilt⟩ := generation?_of_not_isAlone hs hf halone
    rw [hbuilt] at hg
    cases hg
    rfl

theorem weights_reached (n q : Nat) :
    (dc.reached a n).weights[q]?.getD [] =
      if q < n then (dc.plan a).1.draft.weightsAt q else dc.weights[q]?.getD [] := by
  induction n with
  | zero => rfl
  | succ n ih =>
    rw [(levelStep_reached hs hf n).weights]
    by_cases hq : q = n
    · rw [if_pos hq, if_pos (by omega), hq]
    · rw [if_neg hq, ih]
      exact if_congr (by omega) rfl rfl

theorem rebuilt_reached (n : Nat) :
    (dc.reached a n).rebuilt = false ↔ ∀ p, p < n → dc.isAlone a p = true := by
  induction n with
  | zero => exact iff_of_true rfl fun p hp => by omega
  | succ n ih =>
    have halone : (dc.reached a n).isAlone (dc.plan a).1 n = dc.isAlone a n := rfl
    rw [(levelStep_reached hs hf n).rebuilt, Bool.or_eq_false_iff, ih, halone, Bool.not_eq_false',
      Nat.forall_lt_succ_right]

/-- As long as levels that are there are left as they are, nothing happens to the levels. -/
theorem batch_reached {n : Nat} (hn : n ≤ dc.cluster.priorities.levels.length)
    (halone : ∀ p, p < n → dc.isAlone a p = true) :
    (dc.reached a n).batch = .start dc.cluster.priorities.readMap := by
  induction n with
  | zero => rfl
  | succ n ih =>
    have hlt : n < (dc.reached a n).batch.priorities.levels.length := by
      rw [length_reached hs hf]
      omega
    rw [(levelStep_reached hs hf n).alone (halone n (Nat.lt_succ_self n)), Rollout.made,
      PrioritySet.ensureLevel_of_lt hlt]
    exact ih (by omega) fun p hp => halone p (by omega)

theorem reported_reached (n : Nat) :
    (∀ i, i ∈ (dc.reached a n).batch.added ↔ ∃ p, p < n ∧ i ∈ (dc.resultAt a p).added) ∧
      (∀ i, i ∈ (dc.reached a n).batch.removed ↔ ∃ p, p < n ∧ i ∈ (dc.resultAt a p).removed) ∧
      (dc.reached a n).batch.added.Nodup ∧ (dc.reached a n).batch.removed.Nodup := by
  induction n with
  | zero =>
    have hstart : (dc.reached a 0).batch.added = [] ∧ (dc.reached a 0).batch.removed = [] := ⟨rfl, rfl⟩
    rw [hstart.1, hstart.2]
    simp
  | succ n ih =>
    obtain ⟨hadded, hremoved, hnodup⟩ := ih
    have hstep := levelStep_reached (a := a) hs hf n
    refine ⟨fun i => ?_, fun i => ?_, hstep.nodup hnodup⟩
    · rw [hstep.added, hadded, Nat.exists_lt_succ_right]
      exact or_congr_right (and_iff_right_of_imp (isAlone_of_added hs hf))
    · rw [hstep.removed, hremoved, Nat.exists_lt_succ_right]
      exact or_congr_right (and_iff_right_of_imp (isAlone_of_removed hs hf))

/-- What was written while the levels below `n` had their turns. -/
theorem events_reached (n : Nat) :
    ∃ new, (dc.reached a n).batch.priorities.journal.events =
        dc.cluster.priorities.journal.events ++ new ∧
      (∀ e ∈ new, ∃ p, p < n ∧ dc.isAlone a p = false ∧
        PrioritySet.IsReport p (dc.resultAt a p).added (dc.resultAt a p).removed e) ∧
      ∀ p, p < n → dc.isAlone a p = false → ∀ w, (dc.reached a n).batch.priorities.Watches p w →
        PrioritySet.WasTold p (dc.resultAt a p).added (dc.resultAt a p).removed w new := by
  induction n with
  | zero =>
    exact ⟨[], (PrioritySet.hears_readMap dc.cluster.priorities).events, by simp,
      fun p hp => by omega⟩
  | succ n ih =>
    obtain ⟨new, hnew, hreports, htold⟩ := ih
    have hstep := levelStep_reached (a := a) hs hf n
    obtain ⟨more, hmore, hturn⟩ := hstep.told
    have halone : (dc.reached a n).isAlone (dc.plan a).1 n = dc.isAlone a n := rfl
    rw [halone] at hturn
    refine ⟨new ++ more, by rw [hmore, hnew, List.append_assoc], ?_,
      ?_⟩
    · intro e he
      rcases List.mem_append.1 he with he | he
      · obtain ⟨p, hp, hrest⟩ := hreports e he
        exact ⟨p, by omega, hrest⟩
      · by_cases ha : dc.isAlone a n = true
        · rw [if_pos ha] at hturn
          rw [hturn] at he
          cases he
        · rw [if_neg ha] at hturn
          exact ⟨n, by omega, by simpa using ha, hturn.1 e he⟩
    · intro p hp hp' w hw
      obtain hlt | rfl : p < n ∨ p = n := by omega
      · obtain ⟨c, hc⟩ := htold p hlt hp' w (hstep.fewer.watches hw)
        exact ⟨c, List.mem_append_left _ hc⟩
      · rw [if_neg (by simp [hp'])] at hturn
        obtain ⟨c, hc⟩ := hturn.2 w hw
        exact ⟨c, List.mem_append_right _ hc⟩

end Sound

end DynamicCluster

end Roster
