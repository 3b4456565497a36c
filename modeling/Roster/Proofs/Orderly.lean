import Roster.Proofs.Reaching
import Roster.Proofs.Spelling

/-!
# Roster.Proofs.Orderly

Clusters whose assignments name every address once.

* `Clean`    — such an assignment.
* `Orderly`  — what holds of the cluster between deliveries: hosts have the priority of their level, no
  host is installed twice, the hosts at an address are in one level, and the index finds the first.
* `remains`  — the hosts of a level that stay at an address to drain.
* `located_resultAt`  — what a level should have at an address.
* `located_delivered` — what it has, left as it is or not.
-/

namespace Roster

/-- An assignment that names every address once, by names that do not spell internet addresses. -/
structure Assignment.Clean (a : Assignment) : Prop where
  distinct : (a.members.map fun m => m.2.address).Nodup
  proper : ∀ m ∈ a.members, m.2.address.host.Proper

namespace Assignment.Clean

variable {a : Assignment}

theorem nodup_texts (h : a.Clean) : a.texts.Nodup := by
  refine (List.Nodup.of_map _ h.distinct).map_on ?_
  intro m hm n hn htext
  have haddress := Address.text_inj (h.proper m hm) (h.proper n hn) htext
  exact List.inj_on_of_nodup_map h.distinct hm hn haddress

end Assignment.Clean

/-- The canary flag tells what the metadata says. -/
def Host.Marked (h : Host) : Prop := h.canary = h.metadata.canary

/-- What holds of a cluster between deliveries of clean assignments. -/
structure Cluster.Orderly {τ : Type} (c : Cluster τ) : Prop extends Cluster.Sound c where
  proper : ∀ i, (c.hosts.get i).address.host.Proper
  marked : ∀ i, (c.hosts.get i).Marked
  priority : ∀ p, ∀ i ∈ c.priorities.hostsAt p, (c.hosts.get i).priority = p
  nodup : ∀ p, (c.priorities.hostsAt p).Nodup
  single : ∀ p q, ∀ i ∈ c.priorities.hostsAt p, ∀ j ∈ c.priorities.hostsAt q,
    c.hosts.addressText i = c.hosts.addressText j → p = q
  index : ∀ b e, Assoc.find? b c.priorities.addressMap = some e ↔
    ∃ p, (c.hosts.located b (c.priorities.hostsAt p)).head? = some e

theorem Cluster.Steady.orderly {τ : Type} {c d : Cluster τ} (h : c.Steady d) (hc : c.Orderly) :
    d.Orderly := by
  have htext : ∀ i, d.hosts.addressText i = c.hosts.addressText i := fun i =>
    congrArg Address.text (h.hosts i).address
  refine ⟨h.sound hc.toSound, ?_, ?_, ?_, ?_, ?_, ?_⟩
  · intro i
    rw [(h.hosts i).address]
    exact hc.proper i
  · intro i
    rw [Host.Marked, (h.hosts i).canary, (h.hosts i).metadata]
    exact hc.marked i
  · intro p i hi
    rw [h.priorities.hostsAt] at hi
    rw [(h.hosts i).priority]
    exact hc.priority p i hi
  · intro p
    rw [h.priorities.hostsAt]
    exact hc.nodup p
  · intro p q i hi j hj hij
    rw [h.priorities.hostsAt] at hi hj
    rw [htext, htext] at hij
    exact hc.single p q i hi j hj hij
  · intro b e
    rw [h.priorities.map, hc.index]
    refine exists_congr ?_
    intro p
    rw [h.priorities.hostsAt, HostStore.located_congr fun i _ => htext i]

namespace Cluster.Orderly

variable {τ : Type} {c : Cluster τ} {b : String} {p : Nat}

theorem located_of_ne (hc : c.Orderly) (hp : c.hosts.located b (c.priorities.hostsAt p) ≠ [])
    {q : Nat} (hq : q ≠ p) : c.hosts.located b (c.priorities.hostsAt q) = [] := by
  obtain ⟨i, hi⟩ := List.exists_mem_of_ne_nil _ hp
  obtain ⟨hi, hib⟩ := HostStore.mem_located.1 hi
  refine List.eq_nil_iff_forall_not_mem.2 ?_
  intro j hj
  obtain ⟨hj, hjb⟩ := HostStore.mem_located.1 hj
  exact hq (hc.single q p j hj i hi (hjb.trans hib.symm))

theorem find?_of_located (hc : c.Orderly) {e : HostId} {rest : List HostId}
    (h : c.hosts.located b (c.priorities.hostsAt p) = e :: rest) :
    Assoc.find? b c.priorities.addressMap = some e :=
  (hc.index b e).2 ⟨p, by rw [h]; rfl⟩

theorem located_of_find? (hc : c.Orderly) {e : HostId}
    (h : Assoc.find? b c.priorities.addressMap = some e) :
    ∃ p rest, c.hosts.located b (c.priorities.hostsAt p) = e :: rest ∧ e ∉ rest := by
  obtain ⟨p, hp⟩ := (hc.index b e).1 h
  cases hl : c.hosts.located b (c.priorities.hostsAt p) with
  | nil => rw [hl] at hp; cases hp
  | cons k rest =>
    rw [hl] at hp
    cases hp
    have hnodup : (c.hosts.located b (c.priorities.hostsAt p)).Nodup := (hc.nodup p).filter _
    rw [hl] at hnodup
    exact ⟨p, rest, hl, (List.nodup_cons.1 hnodup).1⟩

/-- The index finds the first host at an address in the level that has the address. -/
theorem located_eq_cons (hc : c.Orderly) {e i : HostId}
    (h : Assoc.find? b c.priorities.addressMap = some e)
    (hi : i ∈ c.hosts.located b (c.priorities.hostsAt p)) :
    ∃ rest, c.hosts.located b (c.priorities.hostsAt p) = e :: rest ∧ e ∉ rest := by
  obtain ⟨q, rest, hl, hrest⟩ := hc.located_of_find? h
  have hpq : p = q := by
    by_contra hne
    have hnone := hc.located_of_ne (p := q) (by rw [hl]; exact List.cons_ne_nil e rest) hne
    rw [hnone] at hi
    cases hi
  subst hpq
  exact ⟨rest, hl, hrest⟩

end Cluster.Orderly

namespace DynamicCluster

variable {τ : Type} {dc : DynamicCluster τ} {a : Assignment}

theorem nodup_texts_arrivals (dc : DynamicCluster τ) (ha : a.Clean) :
    ((dc.arrivals a).map Arrival.text).Nodup := (map_text_arrivals dc a).symm ▸ ha.nodup_texts

theorem nodup_texts_arrivalsAt (dc : DynamicCluster τ) (ha : a.Clean) (p : Nat) :
    ((dc.arrivalsAt a p).map Arrival.text).Nodup :=
  (nodup_texts_arrivals dc ha).sublist (List.filter_sublist.map Arrival.text)

theorem eq_of_text_eq (ha : a.Clean) {x y : Arrival} (hx : x ∈ dc.arrivals a)
    (hy : y ∈ dc.arrivals a) (h : x.text = y.text) : x = y :=
  List.inj_on_of_nodup_map (nodup_texts_arrivals dc ha) hx hy h

theorem addressText_plan {i : HostId} (hi : i < dc.cluster.hosts.size) :
    (dc.plan a).2.addressText i = dc.cluster.hosts.addressText i :=
  congrArg (fun h => h.address.text) ((dc.registered_plan a).old i hi)

theorem addressText_plan_id {x : Arrival} (hx : x ∈ dc.arrivals a) :
    (dc.plan a).2.addressText x.id = x.text := by
  rw [HostStore.addressText, (dc.registered_plan a).new x hx, x.host_eq]
  rfl

theorem addressText_member (hs : dc.cluster.Sound) {x : Arrival} (hx : x ∈ dc.arrivals a) :
    (dc.plan a).2.addressText (dc.member x) = x.text := by
  rw [member]
  cases hheir : dc.heir? x with
  | none => exact addressText_plan_id hx
  | some e =>
    obtain ⟨htext, hlt⟩ := text_of_heir? hs hheir
    exact (addressText_plan hlt).trans htext

variable [Quantity τ]

/-- The hosts of level `p` that stay at an address to drain. -/
def remains (dc : DynamicCluster τ) (a : Assignment) (p : Nat) (b : String) : List HostId :=
  (dc.cluster.hosts.located b (dc.cluster.priorities.hostsAt p)).filter (dc.stays a p)

theorem mem_remains {p : Nat} {b : String} {i : HostId} :
    i ∈ dc.remains a p b ↔ i ∈ dc.cluster.priorities.hostsAt p ∧
      dc.cluster.hosts.addressText i = b ∧ dc.stays a p i = true := by
  rw [remains, List.mem_filter, HostStore.mem_located, and_assoc]

section Sound

variable (hs : dc.cluster.Sound) (hf : dc.cluster.config.factorFor a ≠ 0)

include hs hf

theorem not_stays {p : Nat} {i : HostId} (hi : i < dc.cluster.hosts.size)
    (hnamed : dc.cluster.hosts.addressText i ∈ a.texts)
    (hr : ¬ dc.Refreshed a p (dc.cluster.hosts.addressText i)) : dc.stays a p i = false := by
  refine Bool.eq_false_iff.2 ?_
  intro hstays
  exact hr (((stays_iff hs hf hi).1 hstays).here hnamed)

theorem addressText_reached_plan (n : Nat) (i : HostId) :
    (dc.reached a n).hosts.addressText i = (dc.plan a).2.addressText i :=
  congrArg Address.text ((underway_reached (a := a) hs hf n).alike i).address

theorem Delivered.addressText {new : List Event} {t : DynamicCluster τ} (ht : dc.Delivered a new t)
    (i : HostId) : t.cluster.hosts.addressText i = (dc.plan a).2.addressText i := by
  rw [ht.hosts]
  exact addressText_reached_plan hs hf _ i

/-- What level `p` should have at an address: the members that stand for endpoints, then those that
drain. -/
theorem located_resultAt_eq (p : Nat) (b : String) :
    (dc.plan a).2.located b (dc.resultAt a p).hosts =
      ((dc.arrivalsAt a p).filter fun x => x.text = b).map dc.member ++
        (dc.cluster.hosts.located b (dc.left a p)).filter (dc.stays a p) := by
  have hmembers : ((dc.arrivalsAt a p).map dc.member).filter
      (fun i => (dc.plan a).2.addressText i = b) =
        ((dc.arrivalsAt a p).filter fun x => x.text = b).map dc.member := by
    rw [List.filter_map]
    refine congrArg (List.map dc.member) (List.filter_congr ?_)
    intro x hx
    simp only [Function.comp, addressText_member hs (mem_arrivalsAt.1 hx).1]
  have hleft : ((dc.left a p).filter (dc.stays a p)).filter
      (fun i => (dc.plan a).2.addressText i = b) =
        ((dc.left a p).filter fun i => dc.cluster.hosts.addressText i = b).filter
          (dc.stays a p) := by
    rw [List.filter_filter, List.filter_filter]
    refine List.filter_congr ?_
    intro i hi
    rw [addressText_plan (lt_size_of_mem_left hs hi), Bool.and_comm]
  rw [HostStore.located, hosts_resultAt hs hf, List.filter_append, hmembers, hleft]
  rfl

end Sound

section Clean

variable (hc : dc.cluster.Orderly) (hf : dc.cluster.config.factorFor a ≠ 0) (ha : a.Clean)

include ha

omit [Quantity τ] in
theorem filter_text_of_mem {p : Nat} {x : Arrival} (hx : x ∈ dc.arrivalsAt a p) :
    (dc.arrivalsAt a p).filter (fun y => y.text = x.text) = [x] := by
  have hnodup : (dc.arrivalsAt a p).Nodup := (nodup_texts_arrivalsAt dc ha p).of_map
  refine List.perm_singleton.1 ((List.perm_ext_iff_of_nodup (hnodup.filter _) (by simp)).2 ?_)
  intro y
  simp only [List.mem_filter, decide_eq_true_eq, List.mem_singleton]
  constructor
  · rintro ⟨hy, hyx⟩
    exact eq_of_text_eq ha (mem_arrivalsAt.1 hy).1 (mem_arrivalsAt.1 hx).1 hyx
  · rintro rfl
    exact ⟨hx, rfl⟩

omit [Quantity τ] in
theorem not_refreshed_of_renewed {p : Nat} {b : String} (h : dc.Renewed a p b) :
    ¬ dc.Refreshed a p b := by
  obtain ⟨x, hx, rfl, hsome⟩ := h
  rintro ⟨y, hy, hyx, hnone⟩
  have hyx := eq_of_text_eq ha (mem_arrivalsAt.1 hy).1 (mem_arrivalsAt.1 hx).1 hyx
  rw [hyx] at hnone
  rw [hnone] at hsome
  cases hsome

include hc hf

omit ha in
theorem remains_eq_nil {p : Nat} {b : String} (hb : b ∈ a.texts) (hr : ¬ dc.Refreshed a p b) :
    dc.remains a p b = [] := by
  refine List.filter_eq_nil_iff.2 ?_
  intro i hi
  obtain ⟨hmem, rfl⟩ := HostStore.mem_located.1 hi
  rw [not_stays hc.toSound hf (hc.known p i hmem) hb hr]
  simp

/-- What level `p` should have at an address. -/
theorem located_resultAt (p : Nat) (b : String) :
    (dc.plan a).2.located b (dc.resultAt a p).hosts =
      ((dc.arrivalsAt a p).filter fun x => x.text = b).map dc.member ++ dc.remains a p b := by
  classical
  rw [located_resultAt_eq hc.toSound hf, located_left hc.toSound hf]
  by_cases hr : dc.Renewed a p b
  · have hb : b ∈ a.texts := by
      obtain ⟨x, hx, rfl, _⟩ := hr
      exact text_mem_texts (mem_arrivalsAt.1 hx).1
    have hnone := remains_eq_nil hc hf hb (not_refreshed_of_renewed ha hr)
    have htail : (dc.cluster.hosts.located b (dc.cluster.priorities.hostsAt p)).tail.filter
        (dc.stays a p) = [] :=
      List.sublist_nil.1 (hnone ▸ (List.tail_sublist _).filter _)
    rw [if_pos hr, htail, hnone]
  · rw [if_neg hr, remains]

section Alone

variable {p : Nat} (halone : dc.isAlone a p = true)

include halone

omit hc in
/-- Where a host is updated in place there is one host, since all others would leave. -/
theorem exists_located_of_heir? (hs : dc.cluster.Sound) {x : Arrival} (hx : x ∈ dc.arrivalsAt a p)
    {e : HostId} (he : dc.heir? x = some e) :
    ∃ k, dc.cluster.hosts.located x.text (dc.cluster.priorities.hostsAt p) = [k] := by
  have hrenewed : dc.Renewed a p x.text := ⟨x, hx, rfl, by rw [he]; rfl⟩
  have hhere := (quiet_of_isAlone hs hf halone).2.2 x.text hrenewed
  have hleft := located_left_of_heir? hs hf hx he
  cases hl : dc.cluster.hosts.located x.text (dc.cluster.priorities.hostsAt p) with
  | nil => exact absurd hl hhere
  | cons k rest =>
    rw [hl, List.tail_cons] at hleft
    have hrest : rest = [] := by
      refine List.eq_nil_iff_forall_not_mem.2 ?_
      intro i hi
      obtain ⟨hi, hix⟩ := HostStore.mem_located.1 (hleft ▸ hi)
      have hgoes := not_stays hs hf (lt_size_of_mem_left hs hi)
        (hix ▸ text_mem_texts (mem_arrivalsAt.1 hx).1) (hix ▸ not_refreshed_of_renewed ha hrenewed)
      rw [stays_of_unchanged hs hf (changed_of_isAlone halone) hi] at hgoes
      cases hgoes
    exact ⟨k, by rw [hrest]⟩

theorem located_of_heir? {x : Arrival} (hx : x ∈ dc.arrivalsAt a p) {e : HostId}
    (he : dc.heir? x = some e) :
    dc.cluster.hosts.located x.text (dc.cluster.priorities.hostsAt p) = [e] := by
  obtain ⟨k, hl⟩ := exists_located_of_heir? hf ha halone hc.toSound hx he
  have hfind := hc.find?_of_located hl
  rw [(Option.filter_eq_some_iff.1 he).1] at hfind
  rw [hl, Option.some.inj hfind]

omit ha in
theorem renewed_of_isAlone {x : Arrival} (hx : x ∈ dc.arrivalsAt a p) : dc.Renewed a p x.text := by
  obtain ⟨e, he, _⟩ := heir?_of_unchanged hc.toSound hf (changed_of_isAlone halone) hx
  exact ⟨x, hx, rfl, by rw [he]; rfl⟩

theorem located_of_isAlone (b : String) :
    dc.cluster.hosts.located b (dc.cluster.priorities.hostsAt p) =
      (dc.plan a).2.located b (dc.resultAt a p).hosts := by
  classical
  rw [located_resultAt hc hf ha]
  by_cases hr : dc.Renewed a p b
  · obtain ⟨x, hx, rfl, hsome⟩ := hr
    obtain ⟨e, he⟩ := Option.isSome_iff_exists.1 hsome
    have hremains := remains_eq_nil hc hf (text_mem_texts (mem_arrivalsAt.1 hx).1)
      (not_refreshed_of_renewed ha ⟨x, hx, rfl, hsome⟩)
    rw [located_of_heir? hc hf ha halone hx he, filter_text_of_mem ha hx, hremains,
      List.map_singleton, member_of_heir? he, List.append_nil]
  · have hnone : (dc.arrivalsAt a p).filter (fun x => x.text = b) = [] := by
      refine List.filter_eq_nil_iff.2 fun x hx hxb => hr ?_
      have hxb : x.text = b := of_decide_eq_true hxb
      exact hxb ▸ renewed_of_isAlone hc hf halone hx
    have hall : dc.remains a p b = dc.cluster.hosts.located b (dc.cluster.priorities.hostsAt p) := by
      refine List.filter_eq_self.2 ?_
      intro i hi
      obtain ⟨hin, rfl⟩ := HostStore.mem_located.1 hi
      exact stays_of_unchanged hc.toSound hf (changed_of_isAlone halone)
        (mem_left_of_not_renewed hc.toSound hf hin hr)
    rw [hall, hnone]
    rfl

end Alone

theorem located_delivered {new : List Event} {t : DynamicCluster τ} (ht : dc.Delivered a new t)
    (p : Nat) (b : String) :
    t.cluster.hosts.located b (t.cluster.priorities.hostsAt p) =
      ((dc.arrivalsAt a p).filter fun x => x.text = b).map dc.member ++ dc.remains a p b := by
  rw [HostStore.located_congr fun i _ => ht.addressText hc.toSound hf i, ht.hostsAt p, ← located_resultAt hc hf ha]
  split
  · rename_i halone
    rw [← located_of_isAlone hc hf ha halone]
    exact HostStore.located_congr fun i hi => addressText_plan (hc.known p i hi)
  · rfl

end Clean

end DynamicCluster

end Roster
