import Roster.Proofs.Indexing

/-!
# Roster.Proofs.Consistency

Levels and index agree after every delivery, as long as assignments name every address once.

* `Delivered.orderly`  — a delivery keeps a cluster in order.
* `orderly_of_reaches` — so the cluster is in order in every state that is reached.
* `Matches`            — what levels and index have in common with the assignment that came last.
* `matches_deliver`    — they have it after every delivery.
-/

namespace Roster

namespace DynamicCluster

variable {τ : Type} [Quantity τ] {dc t : DynamicCluster τ} {a : Assignment} {new : List Event}

namespace Delivered

variable (ht : dc.Delivered a new t) (hc : dc.cluster.Orderly)
  (hf : dc.cluster.config.factorFor a ≠ 0) (ha : a.Clean)

include ht hc hf ha

/-! ## Hosts at an address -/

theorem located_of_mem {x : Arrival} (hx : x ∈ dc.arrivals a) :
    t.cluster.hosts.located x.text (t.cluster.priorities.hostsAt x.level) =
      dc.member x :: dc.remains a x.level x.text := by
  rw [located_delivered hc hf ha ht, filter_text_of_mem ha (mem_arrivalsAt.2 ⟨hx, rfl⟩)]
  rfl

theorem located_of_ne {x : Arrival} (hx : x ∈ dc.arrivals a) {p : Nat} (hp : p ≠ x.level) :
    t.cluster.hosts.located x.text (t.cluster.priorities.hostsAt p) = [] := by
  have honly : ∀ y ∈ dc.arrivalsAt a p, y.text ≠ x.text := by
    intro y hy hyx
    obtain ⟨hy, hlevel⟩ := mem_arrivalsAt.1 hy
    rw [eq_of_text_eq ha hy hx hyx] at hlevel
    exact hp hlevel.symm
  have hnone : (dc.arrivalsAt a p).filter (fun y => y.text = x.text) = [] :=
    List.filter_eq_nil_iff.2 fun y hy hyx => honly y hy (by simpa using hyx)
  have hremains : dc.remains a p x.text = [] :=
    remains_eq_nil hc hf (text_mem_texts hx) fun ⟨y, hy, hyx, _⟩ => honly y hy hyx
  rw [located_delivered hc hf ha ht, hnone, hremains]
  rfl

theorem located_of_unnamed {b : String} (hb : b ∉ a.texts) (p : Nat) :
    t.cluster.hosts.located b (t.cluster.priorities.hostsAt p) = dc.remains a p b := by
  rw [located_delivered hc hf ha ht, filter_text_of_unnamed hb]
  rfl

/-- Every host that is installed stands for an endpoint or stays to drain. -/
theorem mem_hostsAt {p : Nat} {i : HostId} (hi : i ∈ t.cluster.priorities.hostsAt p) :
    (∃ x ∈ dc.arrivals a, x.level = p ∧ dc.member x = i) ∨
      i ∈ dc.remains a p (t.cluster.hosts.addressText i) := by
  have hmem : i ∈ t.cluster.hosts.located (t.cluster.hosts.addressText i)
      (t.cluster.priorities.hostsAt p) := HostStore.mem_located.2 ⟨hi, rfl⟩
  rw [located_delivered hc hf ha ht] at hmem
  rcases List.mem_append.1 hmem with hmem | hmem
  · obtain ⟨x, hx, hxi⟩ := List.mem_map.1 hmem
    obtain ⟨hx, hlevel⟩ := mem_arrivalsAt.1 (List.mem_filter.1 hx).1
    exact .inl ⟨x, hx, hlevel, hxi⟩
  · exact .inr hmem

theorem member_mem_hostsAt {x : Arrival} (hx : x ∈ dc.arrivals a) :
    dc.member x ∈ t.cluster.priorities.hostsAt x.level := by
  have hmem : dc.member x ∈ t.cluster.hosts.located x.text (t.cluster.priorities.hostsAt x.level) := by
    rw [ht.located_of_mem hc hf ha hx]
    exact List.mem_cons_self
  exact (HostStore.mem_located.1 hmem).1

/-! ## A delivery keeps the order -/

theorem priority {p : Nat} {i : HostId} (hi : i ∈ t.cluster.priorities.hostsAt p) :
    (t.cluster.hosts.get i).priority = p := by
  rw [ht.hosts]
  rcases ht.mem_hostsAt hc hf ha hi with ⟨x, hx, rfl, rfl⟩ | hi
  · exact priority_member hc hf ha hx (level_lt_span hx)
  · have hin := (mem_remains.1 hi).1
    rw [priority_reached_of_not_heir hc.toSound hf (hc.known p i hin)
      (not_heir_of_remains hc hf ha hi)]
    exact hc.priority p i hin

theorem nodup_located (p : Nat) (b : String) :
    (t.cluster.hosts.located b (t.cluster.priorities.hostsAt p)).Nodup := by
  have hremains : (dc.remains a p b).Nodup := ((hc.nodup p).filter _).filter _
  by_cases hb : b ∈ a.texts
  · obtain ⟨x, hx, rfl⟩ := exists_arrival_of_text hb
    by_cases hp : p = x.level
    · subst hp
      rw [ht.located_of_mem hc hf ha hx, List.nodup_cons]
      refine ⟨?_, hremains⟩
      intro hm
      obtain ⟨hin, _, hstays⟩ := mem_remains.1 hm
      cases hheir : dc.heir? x with
      | some e =>
        rw [member_of_heir? hheir, not_stays_of_heir? hc hf ha hx hheir] at hstays
        cases hstays
      | none =>
        rw [member_of_fresh hheir] at hin
        exact Nat.not_lt.2 (Underway.id_lt hx).1 (hc.known _ _ hin)
    · rw [ht.located_of_ne hc hf ha hx hp]
      exact List.nodup_nil
  · rw [ht.located_of_unnamed hc hf ha hb]
    exact hremains

theorem single {p q : Nat} {i j : HostId} (hi : i ∈ t.cluster.priorities.hostsAt p)
    (hj : j ∈ t.cluster.priorities.hostsAt q)
    (hij : t.cluster.hosts.addressText i = t.cluster.hosts.addressText j) : p = q := by
  have hi : i ∈ t.cluster.hosts.located (t.cluster.hosts.addressText j)
      (t.cluster.priorities.hostsAt p) := HostStore.mem_located.2 ⟨hi, hij⟩
  have hj : j ∈ t.cluster.hosts.located (t.cluster.hosts.addressText j)
      (t.cluster.priorities.hostsAt q) := HostStore.mem_located.2 ⟨hj, rfl⟩
  by_cases hb : t.cluster.hosts.addressText j ∈ a.texts
  · obtain ⟨x, hx, hxj⟩ : ∃ x ∈ dc.arrivals a, x.text = t.cluster.hosts.addressText j :=
      exists_arrival_of_text hb
    rw [← hxj] at hi hj
    have hp : p = x.level := by
      by_contra hne
      rw [ht.located_of_ne hc hf ha hx hne] at hi
      cases hi
    have hq : q = x.level := by
      by_contra hne
      rw [ht.located_of_ne hc hf ha hx hne] at hj
      cases hj
    exact hp.trans hq.symm
  · rw [ht.located_of_unnamed hc hf ha hb] at hi hj
    obtain ⟨hi, hib, _⟩ := mem_remains.1 hi
    obtain ⟨hj, hjb, _⟩ := mem_remains.1 hj
    exact hc.single p q i hi j hj (hib.trans hjb.symm)

theorem index (b : String) (e : HostId) :
    Assoc.find? b t.cluster.priorities.addressMap = some e ↔
      ∃ p, (t.cluster.hosts.located b (t.cluster.priorities.hostsAt p)).head? = some e := by
  rw [ht.map]
  by_cases hb : b ∈ a.texts
  · obtain ⟨x, hx, rfl⟩ := exists_arrival_of_text hb
    have hfind : Assoc.find? x.text (dc.mapAt a (dc.span (dc.plan a).1)) = some (dc.member x) :=
      find?_mapAt_of_named hc hf ha hx (level_lt_span hx)
    have hhead : (t.cluster.hosts.located x.text (t.cluster.priorities.hostsAt x.level)).head? =
        some (dc.member x) := by
      rw [ht.located_of_mem hc hf ha hx]
      rfl
    refine Iff.trans (iff_of_eq (congrArg (· = some e) hfind)) ⟨?_, ?_⟩
    · intro h
      exact ⟨x.level, hhead.trans h⟩
    · rintro ⟨p, hp⟩
      by_cases hlevel : p = x.level
      · rw [hlevel, hhead] at hp
        exact hp
      · rw [ht.located_of_ne hc hf ha hx hlevel] at hp
        cases hp
  · refine (find?_mapAt_of_unnamed hc hf ha hb _ e).trans (exists_congr ?_)
    intro p
    rw [ht.located_of_unnamed hc hf ha hb, located_hostsAt_reached hc hf ha,
      filter_text_of_unnamed hb]
    split
    · rfl
    · rename_i hp
      rw [remains, hostsAt_of_span_le (a := a) (by omega)]
      rfl

theorem proper (i : HostId) : (t.cluster.hosts.get i).address.host.Proper := by
  rw [ht.hosts]
  exact proper_reached hc hf ha _ i

omit ha in
theorem marked (i : HostId) : (t.cluster.hosts.get i).Marked := by
  rw [ht.hosts]
  rcases Nat.lt_or_ge i dc.cluster.hosts.size with hi | hi
  · exact marked_reached hc.toSound hf hc.marked hi _
  · rcases Nat.lt_or_ge i (dc.plan a).2.size with hlt | hge
    · obtain ⟨x, hx, rfl⟩ := exists_arrival hi hlt
      rw [get_reached_id hc.toSound hf hx (level_lt_span hx)]
      split
      · exact x.marked_host
      · have hsteady := Host.steady_setFlags x.host (Reconcile.entryFlags dc.cluster.rules x.host)
        rw [Host.Marked, hsteady.canary, hsteady.metadata]
        exact x.marked_host
    · rw [HostStore.get_of_size_le _ (by rw [size_reached hc.toSound hf]; exact hge)]
      rfl

theorem orderly : t.cluster.Orderly where
  toSound := ht.sound hc.toSound hf
  proper := ht.proper hc hf ha
  marked := ht.marked hc hf
  priority _ _ hi := ht.priority hc hf ha hi
  nodup p := HostStore.nodup_of_located (ht.nodup_located hc hf ha p)
  single _ _ _ hi _ hj hij := ht.single hc hf ha hi hj hij
  index := ht.index hc hf ha

end Delivered

end DynamicCluster

/-! ## Installed hosts -/

namespace PrioritySet

variable {τ : Type} {ps : PrioritySet τ}

theorem nodup_installed (hnodup : ∀ p, (ps.hostsAt p).Nodup)
    (hsingle : ∀ p q, ∀ i ∈ ps.hostsAt p, i ∈ ps.hostsAt q → p = q) :
    (ps.installed.map Prod.snd).Nodup := by
  have hhosts : ps.installed.map Prod.snd = ps.levels.flatMap Level.hosts := by
    simp [installed, List.map_flatMap, Function.comp_def]
  have hat : ∀ p (hp : p < ps.levels.length), ps.hostsAt p = ps.levels[p].hosts := fun p hp =>
    hostsAt_of_level? (List.getElem?_eq_getElem hp)
  rw [hhosts, List.nodup_flatMap]
  constructor
  · intro l hl
    obtain ⟨p, hp, rfl⟩ := List.mem_iff_getElem.1 hl
    rw [← hat p hp]
    exact hnodup p
  · refine List.pairwise_iff_getElem.2 ?_
    intro p q hp hq hpq i hi hj
    rw [← hat p hp] at hi
    rw [← hat q hq] at hj
    exact Nat.ne_of_lt hpq (hsingle p q i hi hj)

end PrioritySet

/-! ## Runs -/

/-- Nothing is done past the discovery source, and every assignment names every address once. -/
def Action.IsClean : Action → Prop
  | .deliver a => a.Clean
  | act => ¬ act.IsDirect

theorem Action.IsClean.not_isDirect {act : Action} (h : act.IsClean) : ¬ act.IsDirect := by
  cases act with
  | deliver a => exact id
  | _ => exact h

namespace Service

variable {τ : Type} [Quantity τ] {s t : Service τ} {config : ClusterConfig} {a : Assignment}

theorem orderly_fresh (config : ClusterConfig) : (fresh τ config).cluster.Orderly := by
  have hbare := bare_fresh (τ := τ) config
  refine ⟨(sound_fresh config).cluster, fun i => trivial, fun i => rfl, ?_, ?_, ?_, ?_⟩
  · intro p i hi
    rw [hbare.hostsAt] at hi
    cases hi
  · intro p
    rw [hbare.hostsAt]
    exact List.nodup_nil
  · intro p q i hi
    rw [hbare.hostsAt] at hi
    cases hi
  · intro b e
    rw [hbare.unmapped]
    constructor
    · intro h
      cases h
    · rintro ⟨p, hp⟩
      rw [hbare.hostsAt] at hp
      cases hp

omit [Quantity τ] in
theorem knows_of_isClean {act : Action} (h : act.IsClean) : s.Knows act := by
  cases act with
  | update u => exact absurd trivial h
  | batch us => exact absurd trivial h
  | updateLevel u => exact absurd trivial h
  | _ => exact trivial

theorem reaches_knows (h : Reaches (fun _ act => act.IsClean) s t) : Reaches Knows s t :=
  h.mono fun _ _ => knows_of_isClean

theorem orderly_perform (hconfig : config.validate = .ok ()) (hs : Sound config s)
    (hc : s.cluster.Orderly) {act : Action} (hact : act.IsClean) (h : perform act s = .done t) :
    t.cluster.Orderly := by
  rcases delivers_or_steady hconfig hs hact.not_isDirect h with
    ⟨a, _, body, rfl, rfl, hnew, hf, _⟩ | ⟨_, _, hsteady⟩
  · exact hnew.orderly hc hf hact
  · exact hsteady.orderly hc

theorem orderly_of_reaches (hconfig : config.validate = .ok ())
    (h : Reaches (fun _ act => act.IsClean) (fresh τ config) s) : s.cluster.Orderly := by
  refine (h.keeps (P := fun u => Sound config u ∧ u.cluster.Orderly) ?_
    ⟨sound_fresh config, orderly_fresh config⟩).2
  intro u act v hact hstep ⟨hsound, hu⟩
  exact ⟨sound_perform hconfig hsound (knows_of_isClean hact) hstep,
    orderly_perform hconfig hsound hu hact hstep⟩

/-! ## What matches an assignment -/

/-- The installed hosts that do not drain, by priority and address. -/
def active (s : Service τ) : List (Nat × Address) :=
  (s.cluster.priorities.installed.filter fun m =>
    !(s.cluster.hosts.get m.2).hasFlag .pendingRemoval).map fun m =>
      (m.1, (s.cluster.hosts.get m.2).address)

/-- What levels and index have in common with the assignment that came last. -/
structure Matches (s : Service τ) (a : Assignment) : Prop where
  priority : ∀ p, ∀ i ∈ s.cluster.priorities.hostsAt p, (s.cluster.hosts.get i).priority = p
  nodup : (s.cluster.priorities.installed.map Prod.snd).Nodup
  active : s.active.Perm (a.members.map fun m => (m.1.level, m.2.address))
  single : ∀ p q, ∀ i ∈ s.cluster.priorities.hostsAt p, ∀ j ∈ s.cluster.priorities.hostsAt q,
    (s.cluster.hosts.get i).address = (s.cluster.hosts.get j).address → p = q
  keys : ∀ b, (Assoc.find? b s.cluster.priorities.addressMap).isSome ↔
    ∃ p, ∃ i ∈ s.cluster.priorities.hostsAt p, s.cluster.hosts.addressText i = b
  first : ∀ p b e, (s.cluster.hosts.located b (s.cluster.priorities.hostsAt p)).head? = some e →
    Assoc.find? b s.cluster.priorities.addressMap = some e

omit [Quantity τ] in
theorem mem_active (hs : s.cluster.priorities.Regular) {p : Nat} {b : Address} :
    (p, b) ∈ s.active ↔ ∃ i ∈ s.cluster.priorities.hostsAt p,
      (s.cluster.hosts.get i).hasFlag .pendingRemoval = false ∧
        (s.cluster.hosts.get i).address = b := by
  simp only [active, List.mem_map, List.mem_filter, Bool.not_eq_true', Prod.mk.injEq]
  constructor
  · rintro ⟨⟨q, i⟩, ⟨hi, hactive⟩, rfl, hb⟩
    exact ⟨i, (PrioritySet.mem_installed hs).1 hi, hactive, hb⟩
  · rintro ⟨i, hi, hactive, hb⟩
    exact ⟨(p, i), ⟨(PrioritySet.mem_installed hs).2 hi, hactive⟩, rfl, hb⟩

section Delivered

variable {body : DynamicCluster τ} {new : List Event} (hnew : s.body.Delivered a new body)
  (hc : s.cluster.Orderly) (hf : s.body.cluster.config.factorFor a ≠ 0) (ha : a.Clean)

include hnew hc hf ha

theorem exists_arrival_of_active {p : Nat} {i : HostId} (hi : i ∈ body.cluster.priorities.hostsAt p)
    (hactive : (body.cluster.hosts.get i).hasFlag .pendingRemoval = false) :
    ∃ x ∈ s.body.arrivals a, x.level = p ∧ s.body.member x = i := by
  rcases hnew.mem_hostsAt hc hf ha hi with h | h
  · exact h
  · have hspan : p < s.body.span (s.body.plan a).1 :=
      DynamicCluster.lt_span_of_mem (DynamicCluster.mem_remains.1 h).1
    rw [hnew.hosts, DynamicCluster.pending_reached hc hf ha h hspan] at hactive
    cases hactive

theorem address_member {x : Arrival} (hx : x ∈ s.body.arrivals a) :
    (body.cluster.hosts.get (s.body.member x)).address = x.endpoint.address := by
  refine Address.text_inj (hnew.proper hc hf ha _) (ha.proper _ (mem_members_of_arrival hx)) ?_
  exact (hnew.addressText hc.toSound hf _).trans (DynamicCluster.addressText_member hc.toSound hx)

theorem nodup_active : (active { s with body }).Nodup := by
  have hc' := hnew.orderly hc hf ha
  have hinstalled := PrioritySet.nodup_installed hc'.nodup
    fun p q i hi hj => hc'.single p q i hi i hj rfl
  refine ((List.Nodup.of_map _ hinstalled).filter _).map_on ?_
  rintro ⟨p, i⟩ hi ⟨q, j⟩ hj hij
  obtain ⟨hi, hactive⟩ := List.mem_filter.1 hi
  obtain ⟨hj, hactive'⟩ := List.mem_filter.1 hj
  obtain ⟨rfl, haddress⟩ := Prod.mk.inj hij
  obtain ⟨x, hx, _, rfl⟩ := exists_arrival_of_active hnew hc hf ha
    ((PrioritySet.mem_installed hc'.regular).1 hi) (Bool.not_eq_eq_eq_not.1 hactive)
  obtain ⟨y, hy, _, rfl⟩ := exists_arrival_of_active hnew hc hf ha
    ((PrioritySet.mem_installed hc'.regular).1 hj) (Bool.not_eq_eq_eq_not.1 hactive')
  have haddress : (body.cluster.hosts.get (s.body.member x)).address =
      (body.cluster.hosts.get (s.body.member y)).address := haddress
  rw [address_member hnew hc hf ha hx, address_member hnew hc hf ha hy] at haddress
  rw [DynamicCluster.eq_of_text_eq ha hx hy (congrArg Address.text haddress)]

theorem mem_active_iff {p : Nat} {b : Address} :
    (p, b) ∈ active { s with body } ↔ ∃ m ∈ a.members, m.1.level = p ∧ m.2.address = b := by
  have hc' := hnew.orderly hc hf ha
  rw [mem_active (s := { s with body }) hc'.regular]
  constructor
  · rintro ⟨i, hi, hactive, rfl⟩
    obtain ⟨x, hx, hlevel, rfl⟩ := exists_arrival_of_active hnew hc hf ha hi hactive
    exact ⟨_, mem_members_of_arrival hx, hlevel, (address_member hnew hc hf ha hx).symm⟩
  · rintro ⟨m, hm, rfl, rfl⟩
    rw [← map_arrivals a s.body.cluster.hosts.size] at hm
    obtain ⟨x, hx, rfl⟩ := List.mem_map.1 hm
    have hactive := DynamicCluster.pending_member hc hf ha hx (DynamicCluster.level_lt_span hx)
    rw [← hnew.hosts] at hactive
    exact ⟨s.body.member x, hnew.member_mem_hostsAt hc hf ha hx, hactive,
      address_member hnew hc hf ha hx⟩

theorem matches_of_delivered : Matches { s with body } a := by
  have hc' := hnew.orderly hc hf ha
  have hmembers : (a.members.map fun m => (m.1.level, m.2.address)).Nodup := by
    refine List.Nodup.of_map Prod.snd ?_
    rw [List.map_map]
    exact ha.distinct
  have hinstalled := PrioritySet.nodup_installed hc'.nodup
    fun p q i hi hj => hc'.single p q i hi i hj rfl
  refine ⟨hc'.priority, hinstalled, ?_, ?_, ?_, fun p b e h => (hc'.index b e).2 ⟨p, h⟩⟩
  · refine (List.perm_ext_iff_of_nodup (nodup_active hnew hc hf ha) hmembers).2 ?_
    intro m
    rw [mem_active_iff hnew hc hf ha, List.mem_map]
    simp only [Prod.ext_iff]
  · intro p q i hi j hj hij
    exact hc'.single p q i hi j hj (congrArg Address.text hij)
  · intro b
    constructor
    · intro h
      obtain ⟨e, he⟩ := Option.isSome_iff_exists.1 h
      obtain ⟨p, rest, hl, _⟩ := hc'.located_of_find? he
      obtain ⟨hin, htext⟩ := HostStore.mem_located.1 (hl ▸ List.mem_cons_self)
      exact ⟨p, e, hin, htext⟩
    · rintro ⟨p, i, hi, rfl⟩
      cases hl : body.cluster.hosts.located (body.cluster.hosts.addressText i)
          (body.cluster.priorities.hostsAt p) with
      | nil =>
        have hmem : i ∈ body.cluster.hosts.located (body.cluster.hosts.addressText i)
            (body.cluster.priorities.hostsAt p) := HostStore.mem_located.2 ⟨hi, rfl⟩
        rw [hl] at hmem
        cases hmem
      | cons k rest =>
        exact Option.isSome_iff_exists.2 ⟨k, hc'.find?_of_located hl⟩

end Delivered

/-- As long as assignments name every address once, levels and index agree with the assignment after
every delivery, whatever happens between deliveries. -/
theorem matches_deliver (hconfig : config.validate = .ok ())
    (hs : Reaches (fun _ act => act.IsClean) (fresh τ config) s)
    (ha : config.validateAssignment a = .ok ())
    (hclean : a.Clean) : ∃ t, s.deliver a = .done t ∧ t.Matches a := by
  have hsound := sound_of_reaches hconfig (reaches_knows hs)
  obtain ⟨_, body, hdone, hnew, _⟩ := exists_deliver hconfig hsound ha
  exact ⟨_, hdone, matches_of_delivered hnew (orderly_of_reaches hconfig hs)
    (hsound.factorFor_ne_zero hconfig ha) hclean⟩

theorem clean_lone (weight : UInt32) : (lone weight).Clean :=
  ⟨List.nodup_singleton _, by simp [lone, Assignment.members, AddressKind.Proper]⟩

theorem clean_paired : paired.Clean :=
  ⟨by decide, by simp [paired, endpointOf, Assignment.members, AddressKind.Proper]⟩

theorem clean_crossed : crossed.Clean :=
  ⟨by decide, by simp [crossed, endpointOf, Assignment.members, AddressKind.Proper]⟩

theorem reaches_settled_of_clean : Reaches (fun _ act => act.IsClean) (fresh Rat {}) settled := by
  have hclean : ∀ act ∈ settling, act.IsClean := by
    simp [settling, Action.IsClean, Action.IsDirect, clean_paired]
  exact .of_run (fun act hact _ => hclean act hact)
    (rfl : run settling (fresh Rat {}) = .done settled)

/-- Two hosts change places, one stays to drain, one comes and one goes. -/
theorem matches_resettled :
    settled.deliver crossed = .done resettled ∧ resettled.Matches crossed ∧
      resettled.cluster.priorities.hostsAt 0 = [2, 5, 0] ∧
      resettled.cluster.priorities.hostsAt 1 = [1] ∧
      (resettled.cluster.hosts.get 0).hasFlag .pendingRemoval = true := by
  obtain ⟨t, ht, hmatches⟩ := matches_deliver rfl reaches_settled_of_clean rfl clean_crossed
  cases ht
  exact ⟨rfl, hmatches, rfl, rfl, rfl⟩

end Service

end Roster
