import Roster.Proofs.Members

/-!
# Roster.Proofs.Indexing

The index during the delivery of a clean assignment. What it finds at an address is followed turn by
turn: at an address that is not delivered always the first host that is there, at a delivered one the
member from the turn of its level on.

* `survivor?_eq` — the survivor of a host is the first other host at its address.
* `mapAt`        — the index once the levels below have had their turns; `mapAt_succ`.
* `find?_mapAt_of_unnamed`, `find?_mapAt_of_named` — what it finds at the two kinds of addresses.
-/

namespace Roster

namespace PrioritySet

variable {τ : Type} {ps : PrioritySet τ} {store : HostStore} {p : Nat} {hosts : List HostId}
  {removed : HostId}

theorem find?_isTwin (hproper : ∀ i, (store.get i).address.host.Proper) (hnot : removed ∉ hosts) :
    hosts.find? (isTwin store removed) =
      (store.located (store.addressText removed) hosts).head? := by
  have hsame : hosts.filter (isTwin store removed) =
      store.located (store.addressText removed) hosts := by
    refine List.filter_congr ?_
    intro i hi
    rw [Bool.eq_iff_iff, isTwin_iff, decide_eq_true_eq]
    constructor
    · intro h
      exact congrArg Address.text h.1
    · intro h
      refine ⟨Address.text_inj (hproper i) (hproper removed) h, ?_⟩
      rintro rfl
      exact hnot hi
  rw [← hsame, List.head?_filter]

/-- The survivor of a host is the first of the new hosts of its level at its address, when no other
level has one. -/
theorem survivor?_eq (hps : ps.Regular) (hproper : ∀ i, (store.get i).address.host.Proper)
    (hnot : removed ∉ hosts)
    (hothers : ∀ q, q ≠ p → ∀ k ∈ ps.hostsAt q, store.addressText k ≠ store.addressText removed) :
    ps.survivor? store p hosts removed =
      (store.located (store.addressText removed) hosts).head? := by
  have hfind := find?_isTwin hproper hnot
  cases hl : store.located (store.addressText removed) hosts with
  | cons k rest =>
    rw [hl] at hfind
    exact survivor?_of_find? hfind
  | nil =>
    refine survivor?_eq_none hps ?_ hothers
    intro k hk htext
    have hmem : k ∈ store.located (store.addressText removed) hosts :=
      HostStore.mem_located.2 ⟨hk, htext⟩
    rw [hl] at hmem
    cases hmem

end PrioritySet

namespace DynamicCluster

variable {τ : Type} [Quantity τ] {dc : DynamicCluster τ} {a : Assignment}

/-- The index once the turns of the levels below `n` are over. -/
def mapAt (dc : DynamicCluster τ) (a : Assignment) (n : Nat) : AddressMap :=
  (dc.reached a n).batch.priorities.addressMap

section Sound

variable (hs : dc.cluster.Sound) (hf : dc.cluster.config.factorFor a ≠ 0)

include hs hf

theorem mapAt_succ (n : Nat) :
    dc.mapAt a (n + 1) =
      if dc.isAlone a n = true then dc.mapAt a n
      else AddressIndex.revised (dc.reached a (n + 1)).hosts n (dc.resultAt a n).added
        (dc.resultAt a n).removed
        (((dc.reached a n).made (dc.plan a).1 n).survivor? (dc.reached a (n + 1)).hosts n
          (dc.resultAt a n).hosts) (dc.mapAt a n) := by
  have hstep := levelStep_reached (a := a) hs hf n
  rw [mapAt, hstep.map, hstep.hosts]
  rfl

theorem find?_mapAt_of_not_at {n : Nat} {b : String}
    (hadded : ∀ i ∈ (dc.resultAt a n).added, (dc.plan a).2.addressText i ≠ b)
    (hremoved : ∀ i ∈ (dc.resultAt a n).removed, (dc.plan a).2.addressText i = b →
      ((dc.reached a (n + 1)).hosts.get i).priority = n →
      Assoc.find? b (dc.mapAt a n) ≠ some i) :
    Assoc.find? b (dc.mapAt a (n + 1)) = Assoc.find? b (dc.mapAt a n) := by
  rw [mapAt_succ hs hf]
  split
  · rfl
  · refine AddressIndex.find?_revised_of_not_at ?_ ?_
    · intro i hi
      rw [addressText_reached_plan hs hf]
      exact hadded i hi
    · intro i hi hib hp
      rw [addressText_reached_plan hs hf] at hib
      exact hremoved i hi hib hp

end Sound

section Clean

variable (hc : dc.cluster.Orderly) (hf : dc.cluster.config.factorFor a ≠ 0) (ha : a.Clean)

include ha

omit [Quantity τ] in
theorem proper_host {x : Arrival} (hx : x ∈ dc.arrivals a) : x.host.address.host.Proper := by
  rw [x.host_eq]
  exact ha.proper _ (mem_members_of_arrival hx)

include hc

omit [Quantity τ] in
theorem proper_plan (i : HostId) : ((dc.plan a).2.get i).address.host.Proper := by
  rcases Nat.lt_or_ge i dc.cluster.hosts.size with hi | hi
  · rw [(dc.registered_plan a).old i hi]
    exact hc.proper i
  · rcases Nat.lt_or_ge i (dc.plan a).2.size with hlt | hge
    · obtain ⟨x, hx, rfl⟩ := exists_arrival hi hlt
      rw [(dc.registered_plan a).new x hx]
      exact proper_host ha hx
    · rw [(dc.plan a).2.get_of_size_le hge]
      trivial

include hf

theorem proper_reached (n : Nat) (i : HostId) :
    ((dc.reached a n).hosts.get i).address.host.Proper := by
  rw [((underway_reached (a := a) hc.toSound hf n).alike i).address]
  exact proper_plan hc ha i

theorem located_hostsAt_reached (n p : Nat) (b : String) :
    (dc.plan a).2.located b ((dc.reached a n).hostsAt p) =
      if p < n then ((dc.arrivalsAt a p).filter fun x => x.text = b).map dc.member ++ dc.remains a p b
      else dc.cluster.hosts.located b (dc.cluster.priorities.hostsAt p) := by
  have hold : (dc.plan a).2.located b (dc.cluster.priorities.hostsAt p) =
      dc.cluster.hosts.located b (dc.cluster.priorities.hostsAt p) :=
    HostStore.located_congr fun i hi => addressText_plan (hc.known p i hi)
  by_cases hp : p < n
  · rw [if_pos hp, hostsAt_reached_of_lt hc.toSound hf hp, ← located_resultAt hc hf ha]
    split
    · rename_i halone
      rw [hold, located_of_isAlone hc hf ha halone]
    · rfl
  · rw [if_neg hp, (underway_reached (a := a) hc.toSound hf n).hostsAt p (by omega), hold]

omit ha in
theorem mem_removed {n : Nat} {b : String} {i : HostId} (hi : i ∈ (dc.resultAt a n).removed)
    (hib : (dc.plan a).2.addressText i = b) :
    i ∈ dc.cluster.hosts.located b (dc.left a n) ∧ dc.stays a n i = false := by
  rw [removed_resultAt hc.toSound hf] at hi
  obtain ⟨hleft, hgoes⟩ := List.mem_filter.1 hi
  have hlt := lt_size_of_mem_left hc.toSound hleft
  exact ⟨HostStore.mem_located.2 ⟨hleft, (addressText_plan hlt).symm.trans hib⟩, by simpa using hgoes⟩

omit ha in
theorem located_of_removed {n : Nat} {b : String} {i : HostId} (hi : i ∈ (dc.resultAt a n).removed)
    (hib : (dc.plan a).2.addressText i = b) :
    i ∈ dc.cluster.hosts.located b (dc.cluster.priorities.hostsAt n) := by
  obtain ⟨hleft, hib⟩ := HostStore.mem_located.1 (mem_removed hc hf hi hib).1
  exact HostStore.mem_located.2 ⟨(left_sublist n).subset hleft, hib⟩

/-! ## Addresses that are not delivered -/

section Unnamed

variable {b : String} (hb : b ∉ a.texts)

include hb

omit [Quantity τ] hc hf ha in
theorem filter_text_of_unnamed (p : Nat) :
    (dc.arrivalsAt a p).filter (fun x => x.text = b) = [] := by
  refine List.filter_eq_nil_iff.2 fun x hx hxb => hb ?_
  have hxb : x.text = b := by simpa using hxb
  exact hxb ▸ text_mem_texts (mem_arrivalsAt.1 hx).1

omit ha in
theorem not_added_of_unnamed (n : Nat) :
    ∀ i ∈ (dc.resultAt a n).added, (dc.plan a).2.addressText i ≠ b := by
  intro i hi hib
  obtain ⟨x, hx, rfl, _⟩ := (mem_added_resultAt hc.toSound hf).1 hi
  have hx := (mem_arrivalsAt.1 hx).1
  rw [addressText_member hc.toSound hx] at hib
  exact hb (hib ▸ text_mem_texts hx)

theorem survivor?_of_unnamed {n : Nat} {e : HostId} (hin : e ∈ dc.cluster.priorities.hostsAt n)
    (heb : dc.cluster.hosts.addressText e = b) (hleaves : dc.stays a n e = false) :
    ((dc.reached a n).made (dc.plan a).1 n).survivor? (dc.reached a (n + 1)).hosts n
      (dc.resultAt a n).hosts e = (dc.remains a n b).head? := by
  have htext : ∀ i, (dc.reached a (n + 1)).hosts.addressText i = (dc.plan a).2.addressText i :=
    addressText_reached_plan hc.toSound hf (n + 1)
  have heplan : (dc.reached a (n + 1)).hosts.addressText e = b := by
    rw [htext, addressText_plan (hc.known n e hin), heb]
  have hresult : (dc.reached a (n + 1)).hosts.located b (dc.resultAt a n).hosts =
      dc.remains a n b := by
    rw [HostStore.located_congr fun i _ => htext i, located_resultAt hc hf ha,
      filter_text_of_unnamed hb]
    rfl
  have hmade : ((dc.reached a n).made (dc.plan a).1 n).Regular :=
    (underway_reached (a := a) hc.toSound hf n).regular.ensureLevel n _
  have hgone : e ∉ (dc.resultAt a n).hosts := by
    intro hm
    have hm : e ∈ dc.remains a n b := hresult ▸ HostStore.mem_located.2 ⟨hm, heplan⟩
    rw [(mem_remains.1 hm).2.2] at hleaves
    cases hleaves
  have hmem : e ∈ dc.cluster.hosts.located b (dc.cluster.priorities.hostsAt n) :=
    HostStore.mem_located.2 ⟨hin, heb⟩
  have hothers : ∀ q, q ≠ n → ∀ k ∈ ((dc.reached a n).made (dc.plan a).1 n).hostsAt q,
      (dc.reached a (n + 1)).hosts.addressText k ≠ (dc.reached a (n + 1)).hosts.addressText e := by
    intro q hq k hk hkb
    rw [Rollout.hostsAt_made] at hk
    rw [heplan, htext] at hkb
    have hk : k ∈ (dc.plan a).2.located b ((dc.reached a n).hostsAt q) :=
      HostStore.mem_located.2 ⟨hk, hkb⟩
    have hempty := hc.located_of_ne (List.ne_nil_of_mem hmem) hq
    rw [located_hostsAt_reached hc hf ha, filter_text_of_unnamed hb, remains, hempty] at hk
    simp at hk
  have hsurvivor := PrioritySet.survivor?_eq hmade (proper_reached hc hf ha (n + 1)) hgone hothers
  rw [hsurvivor, heplan, hresult]

omit ha in
theorem find?_mapAt_succ_of_nil {n : Nat}
    (hl : dc.cluster.hosts.located b (dc.cluster.priorities.hostsAt n) = []) :
    Assoc.find? b (dc.mapAt a (n + 1)) = Assoc.find? b (dc.mapAt a n) := by
  refine find?_mapAt_of_not_at hc.toSound hf (not_added_of_unnamed hc hf hb n) ?_
  intro i hi hib _ _
  have hmem := located_of_removed hc hf hi hib
  rw [hl] at hmem
  cases hmem

omit ha in
/-- The first host at the address stays, and so does its entry. -/
theorem find?_mapAt_succ_of_stays {n : Nat} {e : HostId} (hfind : Assoc.find? b (dc.mapAt a n) = some e)
    (hstays : dc.stays a n e = true) : Assoc.find? b (dc.mapAt a (n + 1)) = some e := by
  rw [← hfind]
  refine find?_mapAt_of_not_at hc.toSound hf (not_added_of_unnamed hc hf hb n) ?_
  intro i hi hib _ hfindi
  rw [hfind] at hfindi
  cases hfindi
  rw [(mem_removed hc hf hi hib).2] at hstays
  cases hstays

/-- The first host at the address leaves, and hands its entry over to the first that stays. -/
theorem find?_mapAt_succ_of_leaves {n : Nat} {e : HostId} (hin : e ∈ dc.cluster.priorities.hostsAt n)
    (heb : dc.cluster.hosts.addressText e = b) (hfind : Assoc.find? b (dc.mapAt a n) = some e)
    (hleaves : dc.stays a n e = false) :
    Assoc.find? b (dc.mapAt a (n + 1)) = (dc.remains a n b).head? := by
  have hlt := hc.known n e hin
  have hunnamed : dc.cluster.hosts.addressText e ∉ a.texts := heb ▸ hb
  have hnotrenewed : ¬ dc.Renewed a n (dc.cluster.hosts.addressText e) := by
    rintro ⟨x, hx, hxe, _⟩
    exact hunnamed (hxe ▸ text_mem_texts (mem_arrivalsAt.1 hx).1)
  have hremoved : e ∈ (dc.resultAt a n).removed := by
    rw [removed_resultAt hc.toSound hf]
    refine List.mem_filter.2 ⟨mem_left_of_not_renewed hc.toSound hf hin hnotrenewed, ?_⟩
    simp [hleaves]
  have hpriority : ((dc.reached a (n + 1)).hosts.get e).priority = n := by
    rw [priority_reached_of_not_heir hc.toSound hf hlt fun x hx hheir => ?_]
    · exact hc.priority n e hin
    · exact hunnamed ((text_of_heir? hc.toSound hheir).1 ▸ text_mem_texts hx)
  have htext := addressText_reached_plan (a := a) hc.toSound hf (n + 1)
  have hsurvivor := survivor?_of_unnamed hc hf ha hb hin heb hleaves
  rw [mapAt_succ hc.toSound hf, if_neg (Bool.eq_false_iff.1 (isAlone_of_removed hc.toSound hf hremoved)), ← hsurvivor]
  refine AddressIndex.find?_revised_of_owner ?_ hremoved hfind hpriority ?_ ?_
  · intro i hi
    rw [htext]
    exact not_added_of_unnamed hc hf hb n i hi
  · rw [htext, addressText_plan hlt, heb]
  · intro i hi hsome
    rw [hsurvivor] at hsome
    have hgoes := (mem_removed hc hf hi rfl).2
    rw [(mem_remains.1 (List.mem_of_head? hsome)).2.2] at hgoes
    cases hgoes

theorem find?_mapAt_succ_of_unnamed {n : Nat} {e : HostId} {rest : List HostId}
    (hl : dc.cluster.hosts.located b (dc.cluster.priorities.hostsAt n) = e :: rest)
    (hfind : Assoc.find? b (dc.mapAt a n) = some e) :
    Assoc.find? b (dc.mapAt a (n + 1)) = (dc.remains a n b).head? := by
  cases hstays : dc.stays a n e with
  | true =>
    have hhead : (dc.remains a n b).head? = some e := by
      rw [remains, hl, List.filter_cons_of_pos hstays]
      rfl
    rw [hhead]
    exact find?_mapAt_succ_of_stays hc hf hb hfind hstays
  | false =>
    obtain ⟨hin, heb⟩ := HostStore.mem_located.1 (hl ▸ List.mem_cons_self)
    exact find?_mapAt_succ_of_leaves hc hf ha hb hin heb hfind hstays

/-- At an address that is not delivered the index finds the first host that is there. -/
theorem find?_mapAt_of_unnamed (n : Nat) (e : HostId) :
    Assoc.find? b (dc.mapAt a n) = some e ↔
      ∃ p, ((dc.plan a).2.located b ((dc.reached a n).hostsAt p)).head? = some e := by
  simp only [located_hostsAt_reached hc hf ha, filter_text_of_unnamed hb, List.map_nil,
    List.nil_append]
  induction n generalizing e with
  | zero =>
    simp only [Nat.not_lt_zero, if_false]
    rw [← hc.index b e]
    exact iff_of_eq (congrArg (Assoc.find? b · = some e)
      (PrioritySet.addressMap_congr (PrioritySet.hears_readMap dc.cluster.priorities).installation))
  | succ n ih =>
    cases hl : dc.cluster.hosts.located b (dc.cluster.priorities.hostsAt n) with
    | nil =>
      rw [find?_mapAt_succ_of_nil hc hf hb hl, ih]
      refine exists_congr ?_
      intro p
      by_cases hp : p = n
      · subst hp
        rw [if_neg (by omega), if_pos (by omega), remains, hl]
        rfl
      · have hlt : p < n + 1 ↔ p < n := by omega
        simp only [hlt]
    | cons k rest =>
      have hothers : ∀ p, p ≠ n →
          dc.cluster.hosts.located b (dc.cluster.priorities.hostsAt p) = [] := fun p hp =>
        hc.located_of_ne (by rw [hl]; simp) hp
      have hfind : Assoc.find? b (dc.mapAt a n) = some k :=
        (ih k).2 ⟨n, by rw [if_neg (by omega), hl]; rfl⟩
      rw [find?_mapAt_succ_of_unnamed hc hf ha hb hl hfind]
      constructor
      · intro hhead
        exact ⟨n, by rw [if_pos (by omega)]; exact hhead⟩
      · rintro ⟨p, hhead⟩
        by_cases hp : p = n
        · rwa [hp, if_pos (by omega)] at hhead
        · have hnone : dc.remains a p b = [] := by rw [remains, hothers p hp]; rfl
          rw [hnone, hothers p hp] at hhead
          simp at hhead

end Unnamed

/-! ## Delivered addresses -/

section Named

variable {x : Arrival} (hx : x ∈ dc.arrivals a)

include hx

theorem eq_member_of_added {n : Nat} {i : HostId} (hi : i ∈ (dc.resultAt a n).added)
    (hix : (dc.plan a).2.addressText i = x.text) : n = x.level ∧ i = dc.member x := by
  obtain ⟨y, hy, rfl, _⟩ := (mem_added_resultAt hc.toSound hf).1 hi
  obtain ⟨hy, hlevel⟩ := mem_arrivalsAt.1 hy
  rw [addressText_member hc.toSound hy] at hix
  have hyx := eq_of_text_eq ha hy hx hix
  subst hyx
  exact ⟨hlevel.symm, rfl⟩

theorem find?_mapAt_of_added (hadded : dc.member x ∈ (dc.resultAt a x.level).added) :
    Assoc.find? x.text (dc.mapAt a (x.level + 1)) = some (dc.member x) := by
  have htext := addressText_reached_plan (a := a) hc.toSound hf (x.level + 1)
  rw [mapAt_succ hc.toSound hf, if_neg (Bool.eq_false_iff.1 (isAlone_of_added hc.toSound hf hadded))]
  refine AddressIndex.find?_revised_of_added hadded ?_ ?_
  · rw [htext, addressText_member hc.toSound hx]
  · intro i hi hix
    rw [htext] at hix
    exact (eq_member_of_added hc hf ha hx hi hix).2

theorem find?_mapAt_of_le (hlower : ∀ q, q < x.level →
      dc.cluster.hosts.located x.text (dc.cluster.priorities.hostsAt q) = [])
    {n : Nat} (hn : n ≤ x.level) :
    Assoc.find? x.text (dc.mapAt a n) = Assoc.find? x.text dc.cluster.priorities.addressMap := by
  induction n with
  | zero =>
    exact congrArg (Assoc.find? x.text)
      (PrioritySet.addressMap_congr (PrioritySet.hears_readMap dc.cluster.priorities).installation)
  | succ n ih =>
    rw [← ih (by omega)]
    refine find?_mapAt_of_not_at hc.toSound hf ?_ ?_
    · intro i hi hix
      have hlevel := (eq_member_of_added hc hf ha hx hi hix).1
      omega
    · intro i hi hix _ _
      have hmem := located_of_removed hc hf hi hix
      rw [hlower n hn] at hmem
      cases hmem

theorem find?_mapAt_of_not_added (hnot : dc.member x ∉ (dc.resultAt a x.level).added) :
    Assoc.find? x.text (dc.mapAt a (x.level + 1)) = some (dc.member x) := by
  have hxp : x ∈ dc.arrivalsAt a x.level := mem_arrivalsAt.2 ⟨hx, rfl⟩
  obtain ⟨e, hheir, hpriority⟩ : ∃ e, dc.heir? x = some e ∧
      ((dc.reached a x.level).hosts.get e).priority = x.level := by
    by_contra hno
    refine hnot ((mem_added_resultAt hc.toSound hf).2 ⟨x, hxp, rfl, ?_⟩)
    intro e he hp
    exact hno ⟨e, he, hp⟩
  rw [get_reached_of_heir?_of_le hc hf ha hx hheir (Nat.le_refl _)] at hpriority
  have hfind := (Option.filter_eq_some_iff.1 hheir).1
  obtain ⟨p, rest, hl, hrest⟩ := hc.located_of_find? hfind
  have hp : p = x.level := by
    obtain ⟨hin, _⟩ := HostStore.mem_located.1 (hl ▸ List.mem_cons_self)
    exact (hc.priority p e hin).symm.trans hpriority
  subst hp
  have hlower : ∀ q, q < x.level →
      dc.cluster.hosts.located x.text (dc.cluster.priorities.hostsAt q) = [] := fun q hq =>
    hc.located_of_ne (by rw [hl]; simp) (by omega)
  have hnow := (find?_mapAt_of_le hc hf ha hx hlower (Nat.le_refl _)).trans hfind
  rw [member_of_heir? hheir, ← hnow]
  refine find?_mapAt_of_not_at hc.toSound hf ?_ ?_
  · intro i hi hix
    rw [(eq_member_of_added hc hf ha hx hi hix).2] at hi
    exact hnot hi
  · intro i hi hix _ hfindi
    have hi := (mem_removed hc hf hi hix).1
    rw [located_left_of_heir? hc.toSound hf hxp hheir, hl, List.tail_cons] at hi
    rw [hnow] at hfindi
    cases hfindi
    exact hrest hi

/-- At a delivered address the index finds the member from the turn of its level on. -/
theorem find?_mapAt_of_named {n : Nat} (hn : x.level < n) :
    Assoc.find? x.text (dc.mapAt a n) = some (dc.member x) := by
  induction n with
  | zero => omega
  | succ n ih =>
    obtain hless | rfl : x.level < n ∨ x.level = n := by omega
    · rw [← ih hless]
      refine find?_mapAt_of_not_at hc.toSound hf ?_ ?_
      · intro i hi hix
        have hlevel := (eq_member_of_added hc hf ha hx hi hix).1
        omega
      · intro i hi hix hp hfindi
        -- the member has the priority of its own level
        rw [ih hless] at hfindi
        cases hfindi
        rw [priority_member hc hf ha hx hn] at hp
        omega
    · by_cases hadded : dc.member x ∈ (dc.resultAt a x.level).added
      · exact find?_mapAt_of_added hc hf ha hx hadded
      · exact find?_mapAt_of_not_added hc hf ha hx hadded

end Named

end Clean

end DynamicCluster

end Roster
