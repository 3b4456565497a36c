import Mathlib.Data.List.Nodup
import Roster.Draft

/-!
# Roster.Proofs.Arranging

Hosts arranged by locality and split by health, said of the list they come from.

* `Grouping.kept` — what one predicate keeps of a grouping; `filter` gives that for each predicate.
* `byHealth_eq`, `groupsByHealth_eq` — each part of a split is a filter.
* `byLocality_eq` — the groups are the localities in order, each with its hosts.
* `Arranged`      — all that is known of groups once the local one stands first; `arranged_arrange`.
* `compose_eq`    — the update that `compose` makes, which no hosts can make it refuse.
-/

namespace Roster

/-! ## Filtering -/

namespace Grouping

variable {α : Type}

def kept (g : Grouping α) (p : α → Bool) : Grouping α :=
  ⟨g.hasLocal, g.groups.map (List.filter p)⟩

theorem flatten_kept (g : Grouping α) (p : α → Bool) : (g.kept p).flatten = g.flatten.filter p :=
  (List.filter_flatten ..).symm

theorem sizeAt_kept (g : Grouping α) (p : α → Bool) (i : Nat) :
    (g.kept p).sizeAt i = ((g.groups[i]?.getD []).filter p).length := by
  rw [sizeAt, kept, List.getElem?_map]
  cases g.groups[i]? <;> rfl

theorem sift_eq (ps : List (α → Bool)) (items : List α) :
    sift ps items = ps.map fun p => items.filter p := by
  induction items with
  | nil => simp [sift]
  | cons x items ih =>
    rw [sift, ih, List.zipWith_map_right, List.zipWith_self]
    simp only [List.filter_cons]

theorem siftGroups_eq (ps : List (α → Bool)) (groups : List (List α)) :
    siftGroups ps groups = ps.map fun p => groups.map (List.filter p) := by
  induction groups with
  | nil => simp [siftGroups]
  | cons group groups ih =>
    rw [siftGroups, ih, sift_eq, List.zipWith_map, List.zipWith_self]
    simp only [List.map_cons]

theorem filter_eq (g : Grouping α) (ps : List (α → Bool)) : g.filter ps = ps.map g.kept := by
  rw [filter, siftGroups_eq, List.map_map]
  rfl

end Grouping

/-! ## Splitting by health -/

namespace Partition

variable (store : HostStore)

theorem byHealth_eq (hosts : List HostId) :
    byHealth store hosts =
      ⟨hosts.filter (isHealthy store), hosts.filter (isDegraded store),
        hosts.filter (isExcluded store)⟩ := by
  induction hosts with
  | nil => rfl
  | cons i hosts ih =>
    cases hhealth : (store.get i).health <;> cases hexcluded : (store.get i).excluded <;>
      simp [byHealth, ih, isHealthy, isDegraded, isExcluded, hhealth, hexcluded]

theorem groupsByHealth_eq (g : Grouping HostId) :
    groupsByHealth store g =
      ⟨g.kept (isHealthy store), g.kept (isDegraded store), g.kept (isExcluded store)⟩ := by
  simp only [groupsByHealth, Grouping.filter_eq, List.map_cons, List.map_nil]

theorem of_nil : of store [] {} = {} := by
  simp only [of, byHealth_eq, groupsByHealth_eq]
  rfl

end Partition

/-! ## Maps in order -/

namespace Assoc

variable {α β : Type} [Ord α] [Std.LawfulEqOrd α] {k : α} {m : List (α × β)}

omit [Std.LawfulEqOrd α] in
theorem ne_of_compare_lt [Std.ReflOrd α] {j k : α} (h : compare j k = .lt) : j ≠ k := by
  rintro rfl
  rw [Std.ReflOrd.compare_self] at h
  cases h

theorem erase_eq_filter [DecidableEq α] (k : α) (m : List (α × β)) :
    erase k m = m.filter fun p => p.1 ≠ k := by
  induction m with
  | nil => rfl
  | cons p m ih =>
    obtain ⟨a, b⟩ := p
    simp only [erase, Std.compare_eq_iff_eq, List.filter_cons, ih]
    by_cases h : k = a
    · simp [h]
    · simp [h, Ne.symm h]

theorem find?_eq_none_iff : find? k m = none ↔ ∀ p ∈ m, p.1 ≠ k := by
  induction m with
  | nil => simp [find?]
  | cons p m ih =>
    obtain ⟨a, b⟩ := p
    simp only [find?, Std.compare_eq_iff_eq, List.forall_mem_cons, ← ih]
    by_cases h : k = a
    · simp [h]
    · simp [h, Ne.symm h]

theorem mem_of_find? {b : β} (h : find? k m = some b) : (k, b) ∈ m := by
  induction m with
  | nil => cases h
  | cons p m ih =>
    obtain ⟨a, c⟩ := p
    simp only [find?] at h
    split at h
    · rename_i hk
      cases h
      rw [Std.LawfulEqOrd.eq_of_compare hk]
      exact List.mem_cons_self
    · exact List.mem_cons_of_mem _ (ih h)

theorem Ordered.erase (hm : Ordered m) : Ordered (erase k m) := by
  classical
  rw [erase_eq_filter]
  exact hm.filter _

omit [Std.LawfulEqOrd α] in
theorem nodup_keys [Std.ReflOrd α] (hm : Ordered m) : (m.map Prod.fst).Nodup :=
  List.pairwise_map.2 (hm.imp fun hlt => ne_of_compare_lt hlt)

theorem find?_of_mem {b : β} (hm : Ordered m) (h : (k, b) ∈ m) :
    find? k m = some b := by
  cases hfind : find? k m with
  | none => exact absurd rfl (find?_eq_none_iff.1 hfind _ h)
  | some c =>
    have hpair : (k, c) = (k, b) :=
      List.inj_on_of_nodup_map (nodup_keys hm) (mem_of_find? hfind) h rfl
    rw [(Prod.mk.inj hpair).2]

theorem Ordered.ext [Std.TransOrd α] {n : List (α × β)} (hm : Ordered m) (hn : Ordered n)
    (h : ∀ k, find? k m = find? k n) : m = n := by
  have hmem : ∀ p, p ∈ m ↔ p ∈ n := fun p =>
    ⟨fun hp => mem_of_find? ((h p.1).symm.trans (find?_of_mem hm hp)),
      fun hp => mem_of_find? ((h p.1).trans (find?_of_mem hn hp))⟩
  have hperm : m.Perm n :=
    (List.perm_ext_iff_of_nodup (nodup_keys hm).of_map (nodup_keys hn).of_map).2 hmem
  refine hperm.eq_of_pairwise (fun p q _ _ hpq hqp => ?_) hm hn
  exact absurd rfl (ne_of_compare_lt (Std.TransCmp.lt_trans hpq hqp))

theorem mem_upsert_iff [Std.TransOrd α] {f : Option β → β} (hm : Ordered m) {p : α × β} :
    p ∈ upsert k f m ↔ p = (k, f (find? k m)) ∨ (p ∈ m ∧ p.1 ≠ k) := by
  induction m with
  | nil => simp [upsert, find?]
  | cons q m ih =>
    obtain ⟨a, b⟩ := q
    obtain ⟨ha, hrest⟩ := List.pairwise_cons.1 hm
    have hne : ∀ q ∈ m, q.1 ≠ a := fun q hq => (ne_of_compare_lt (ha q hq)).symm
    simp only [upsert, find?]
    cases hk : compare k a with
    | lt =>
      have hka : a ≠ k := (ne_of_compare_lt hk).symm
      have hnone : ∀ q ∈ m, q.1 ≠ k := fun q hq =>
        (ne_of_compare_lt (Std.TransCmp.lt_trans hk (ha q hq))).symm
      have hfind : find? k m = none := find?_eq_none_iff.2 hnone
      simp only [reduceCtorEq, if_false, hfind, List.mem_cons]
      refine or_congr_right ⟨?_, And.left⟩
      rintro (rfl | hp)
      · exact ⟨.inl rfl, hka⟩
      · exact ⟨.inr hp, hnone p hp⟩
    | eq =>
      obtain rfl : k = a := Std.LawfulEqOrd.eq_of_compare hk
      simp only [if_true, List.mem_cons]
      refine or_congr_right ⟨fun hp => ⟨.inr hp, hne p hp⟩, ?_⟩
      rintro ⟨rfl | hp, hpk⟩
      · exact absurd rfl hpk
      · exact hp
    | gt =>
      have hka : a ≠ k := ne_of_compare_lt (Std.OrientedCmp.lt_of_gt hk)
      simp only [reduceCtorEq, if_false, List.mem_cons, ih hrest]
      constructor
      · rintro (rfl | hp | ⟨hp, hpk⟩)
        · exact .inr ⟨.inl rfl, hka⟩
        · exact .inl hp
        · exact .inr ⟨.inr hp, hpk⟩
      · rintro (hp | ⟨rfl | hp, hpk⟩)
        · exact .inr (.inl hp)
        · exact .inl rfl
        · exact .inr (.inr ⟨hp, hpk⟩)

end Assoc

/-! ## Localities -/

instance : Std.TransOrd Locality :=
  inferInstanceAs (Std.TransCmp (compareLex (compareOn Locality.region)
    (compareLex (compareOn Locality.zone) (compareOn Locality.subZone))))

instance : Std.LawfulEqOrd Locality where
  eq_of_compare := by
    intro a b h
    have h : ((compare a.region b.region).then
      ((compare a.zone b.zone).then (compare a.subZone b.subZone))) = .eq := h
    simp only [Ordering.then_eq_eq, Std.compare_eq_iff_eq] at h
    obtain ⟨hregion, hzone, hsubZone⟩ := h
    cases a
    cases b
    simp only at hregion hzone hsubZone
    rw [hregion, hzone, hsubZone]

def HostStore.inLocality (store : HostStore) (l : Locality) (hosts : List HostId) : List HostId :=
  hosts.filter fun i => (store.get i).locality = l

namespace HostStore

variable {store : HostStore} {l : Locality} {hosts : List HostId}

theorem inLocality_ne_nil : store.inLocality l hosts ≠ [] ↔ ∃ i ∈ hosts, (store.get i).locality = l := by
  simp [inLocality, List.filter_eq_nil_iff]

/-- The hosts of different localities, put together, are the hosts of all of them. -/
theorem perm_inLocality (store : HostStore) (hosts : List HostId) {ls : List Locality}
    (hls : ls.Nodup) : (ls.flatMap fun l => store.inLocality l hosts).Perm
      (hosts.filter fun i => (store.get i).locality ∈ ls) := by
  induction ls with
  | nil => simp
  | cons l ls ih =>
    obtain ⟨hl, hls⟩ := List.nodup_cons.1 hls
    have hfirst : (hosts.filter fun i => (store.get i).locality ∈ l :: ls).filter
        (fun i => (store.get i).locality = l) = store.inLocality l hosts := by
      rw [List.filter_filter, inLocality]
      refine List.filter_congr fun i _ => ?_
      by_cases h : (store.get i).locality = l <;> simp [h]
    have hrest : (hosts.filter fun i => (store.get i).locality ∈ l :: ls).filter
        (fun i => !decide ((store.get i).locality = l)) =
          hosts.filter fun i => (store.get i).locality ∈ ls := by
      rw [List.filter_filter]
      refine List.filter_congr fun i _ => ?_
      by_cases h : (store.get i).locality = l <;> simp [h, hl]
    have hsplit := List.filter_append_perm (fun i => decide ((store.get i).locality = l))
      (hosts.filter fun i => (store.get i).locality ∈ l :: ls)
    rw [hfirst, hrest] at hsplit
    exact ((ih hls).append_left _).trans hsplit

end HostStore

namespace Draft

/-! ## Grouping -/

/-- What is known of a map from localities to hosts once the hosts `done` are in it. -/
structure Grouped (store : HostStore) (done : List HostId) (m : List (Locality × List HostId)) :
    Prop where
  ordered : Assoc.Ordered m
  mem : ∀ g, g ∈ m ↔ g.2 = store.inLocality g.1 done ∧ g.2 ≠ []

namespace Grouped

variable {store : HostStore} {done : List HostId} {m : List (Locality × List HostId)}

theorem getD_find? (h : Grouped store done m) (l : Locality) :
    (Assoc.find? l m).getD [] = store.inLocality l done := by
  cases hfind : Assoc.find? l m with
  | some ids => exact ((h.mem _).1 (Assoc.mem_of_find? hfind)).1
  | none =>
    by_contra hne
    exact Assoc.find?_eq_none_iff.1 hfind _ ((h.mem (l, store.inLocality l done)).2
      ⟨rfl, fun hnil => hne hnil.symm⟩) rfl

theorem snoc (h : Grouped store done m) (id : HostId) :
    Grouped store (done ++ [id])
      (Assoc.upsert (store.get id).locality (fun ids => ids.getD [] ++ [id]) m) := by
  refine ⟨h.ordered.upsert, ?_⟩
  rintro ⟨l, ids⟩
  rw [Assoc.mem_upsert_iff h.ordered, h.mem, h.getD_find?, Prod.mk.injEq]
  by_cases hl : (store.get id).locality = l
  · have hnow : store.inLocality l (done ++ [id]) = store.inLocality l done ++ [id] := by
      simp [HostStore.inLocality, hl]
    rw [hnow, hl]
    constructor
    · rintro (⟨_, rfl⟩ | ⟨_, hne⟩)
      · exact ⟨rfl, by simp⟩
      · exact absurd rfl hne
    · rintro ⟨rfl, _⟩
      exact .inl ⟨rfl, rfl⟩
  · have hnow : store.inLocality l (done ++ [id]) = store.inLocality l done := by
      simp [HostStore.inLocality, hl]
    rw [hnow]
    constructor
    · rintro (⟨rfl, _⟩ | ⟨hold, _⟩)
      · exact absurd rfl hl
      · exact hold
    · exact fun hold => .inr ⟨hold, Ne.symm hl⟩

end Grouped

theorem grouped_byLocality (store : HostStore) (hosts : List HostId) :
    Grouped store hosts (byLocality store hosts) := by
  have hrest : ∀ (rest done : List HostId) (m : List (Locality × List HostId)),
      Grouped store done m → Grouped store (done ++ rest) (rest.foldl (fun m id =>
        Assoc.upsert (store.get id).locality (fun ids => ids.getD [] ++ [id]) m) m) := by
    intro rest
    induction rest with
    | nil => intro done m h; simpa using h
    | cons id rest ih =>
      intro done m h
      have hlist : done ++ id :: rest = (done ++ [id]) ++ rest := by simp
      rw [List.foldl_cons, hlist]
      exact ih _ _ (h.snoc id)
  exact hrest hosts [] [] ⟨.nil, by simp [HostStore.inLocality]⟩

/-! ## The local locality first -/

/-- Whether the local locality has hosts, and the groups of hosts with the local one first. -/
def arrange (config : ClusterConfig) (store : HostStore) (hosts : List HostId) :
    Bool × List (Locality × List HostId) :=
  localFirst config.localLocality? (byLocality store hosts)

/-- The groups of hosts once the local one stands first. -/
structure Arranged (local? : Option Locality) (store : HostStore) (hosts : List HostId)
    (localFirst : Bool) (m : List (Locality × List HostId)) : Prop where
  mem : ∀ g, g ∈ m ↔ g.2 = store.inLocality g.1 hosts ∧ g.2 ≠ []
  distinct : (m.map Prod.fst).Nodup
  hasLocal : localFirst = true ↔ ∃ l, local? = some l ∧ ∃ i ∈ hosts, (store.get i).locality = l
  first : localFirst = true → (m.map Prod.fst).head? = local?
  sorted : Assoc.Ordered (if localFirst then m.tail else m)

theorem arranged_arrange (config : ClusterConfig) (store : HostStore) (hosts : List HostId) :
    Arranged config.localLocality? store hosts (arrange config store hosts).1
      (arrange config store hosts).2 := by
  have h := grouped_byLocality store hosts
  unfold arrange localFirst
  cases config.localLocality? with
  | none => exact ⟨h.mem, Assoc.nodup_keys h.ordered, by simp, by simp, h.ordered⟩
  | some here =>
    have hfind := h.getD_find? here
    simp only
    cases hsome : Assoc.find? here (byLocality store hosts) with
    | none =>
      have hnone : ¬ ∃ i ∈ hosts, (store.get i).locality = here := by
        rw [← HostStore.inLocality_ne_nil, ← hfind, hsome]
        simp
      refine ⟨h.mem, Assoc.nodup_keys h.ordered, ⟨fun hfalse => (by cases hfalse), ?_⟩, by simp, h.ordered⟩
      rintro ⟨_, ⟨⟩, hhost⟩
      exact absurd hhost hnone
    | some ids =>
      have hhere := Assoc.mem_of_find? hsome
      have herase := Assoc.erase_eq_filter here (byLocality store hosts)
      have hordered : Assoc.Ordered (Assoc.erase here (byLocality store hosts)) := by
        rw [herase]
        exact h.ordered.filter _
      have hids : ids = store.inLocality here hosts := ((h.mem _).1 hhere).1
      have hne := ((h.mem _).1 hhere).2
      refine ⟨?_, List.nodup_cons.2 ⟨?_, Assoc.nodup_keys hordered⟩, ?_, fun _ => rfl, hordered⟩
      · intro g
        rw [List.mem_cons, herase, List.mem_filter, ← h.mem]
        constructor
        · rintro (rfl | hg)
          · exact hhere
          · exact hg.1
        · intro hg
          by_cases hkey : g.1 = here
          · exact .inl (Prod.ext hkey (((h.mem g).1 hg).1.trans (hkey ▸ hids.symm)))
          · exact .inr ⟨hg, by simpa using hkey⟩
      · rw [herase]
        simp
      · have hsome' := HostStore.inLocality_ne_nil.1 (hids ▸ hne)
        exact ⟨fun _ => ⟨here, rfl, hsome'⟩, fun _ => rfl⟩

namespace Arranged

variable {local? : Option Locality} {store : HostStore} {hosts : List HostId} {localFirst : Bool}
  {m : List (Locality × List HostId)}

theorem groups_eq (h : Arranged local? store hosts localFirst m) :
    m.map Prod.snd = (m.map Prod.fst).map fun l => store.inLocality l hosts := by
  rw [List.map_map]
  exact List.map_congr_left fun g hg => ((h.mem g).1 hg).1

theorem ne_nil (h : Arranged local? store hosts localFirst m) : ∀ ids ∈ m.map Prod.snd, ids ≠ [] := by
  intro ids hids
  obtain ⟨g, hg, rfl⟩ := List.mem_map.1 hids
  exact ((h.mem g).1 hg).2

theorem flatten_perm (h : Arranged local? store hosts localFirst m) :
    (m.map Prod.snd).flatten.Perm hosts := by
  have hall : hosts.filter (fun i => (store.get i).locality ∈ m.map Prod.fst) = hosts := by
    refine List.filter_eq_self.2 fun i hi => decide_eq_true ?_
    have hne : store.inLocality (store.get i).locality hosts ≠ [] :=
      HostStore.inLocality_ne_nil.2 ⟨i, hi, rfl⟩
    exact List.mem_map.2 ⟨(_, _), (h.mem _).2 ⟨rfl, hne⟩, rfl⟩
  have hperm := store.perm_inLocality hosts h.distinct
  rw [hall] at hperm
  rw [h.groups_eq]
  exact hperm

end Arranged

/-! ## Composing -/

/-- The groups that hosts are installed in. -/
def grouping (config : ClusterConfig) (store : HostStore) (hosts : List HostId) : Grouping HostId :=
  ⟨(arrange config store hosts).1, (arrange config store hosts).2.map Prod.snd⟩

/-- The update for hosts whose flag is set. -/
def composed (config : ClusterConfig) (weights : LocalityWeights) (store : HostStore) (plan : Plan) :
    Update :=
  { priority := plan.priority
    partition := .of store plan.hosts (grouping config store plan.hosts)
    weights? :=
      if config.localityWeighted then
        some ((arrange config store plan.hosts).2.map fun g => (Assoc.find? g.1 weights).getD 0)
      else none
    added := plan.added?.getD plan.hosts
    removed := plan.removed?.getD []
    factor? := plan.factor? }

theorem compose_eq (config : ClusterConfig) (weights : LocalityWeights) (store : HostStore)
    (plan : Plan) :
    compose config weights store plan =
      (flagChecked plan.flag? store plan.hosts,
        .ok (composed config weights (flagChecked plan.flag? store plan.hosts) plan)) := by
  have h := arranged_arrange config (flagChecked plan.flag? store plan.hosts) plan.hosts
  -- a local locality has a group of its own
  have hgroups : ¬ ((arrange config (flagChecked plan.flag? store plan.hosts) plan.hosts).1 = true ∧
      (arrange config (flagChecked plan.flag? store plan.hosts) plan.hosts).2.map (·.2) = []) := by
    rintro ⟨hlocal, hnil⟩
    obtain ⟨l, hl, _⟩ := h.hasLocal.1 hlocal
    have hfirst := h.first hlocal
    rw [List.map_eq_nil_iff.1 hnil, hl] at hfirst
    cases hfirst
  simp only [arrange] at hgroups
  simp only [compose, Grouping.ofGroups?, if_neg hgroups]
  rfl

theorem length_weights_composed {config : ClusterConfig} {weights : LocalityWeights}
    {store : HostStore} {plan : Plan} {ws : List Nat}
    (h : (composed config weights store plan).weights? = some ws) :
    ws.length = (grouping config store plan.hosts).size := by
  simp only [composed] at h
  split at h
  · cases h
    simp [grouping, Grouping.size]
  · cases h

theorem arrange_congr (config : ClusterConfig) {s t : HostStore} {hosts : List HostId}
    (h : ∀ i ∈ hosts, (t.get i).locality = (s.get i).locality) :
    arrange config t hosts = arrange config s hosts := by
  have hmap : byLocality t hosts = byLocality s hosts :=
    List.foldl_ext _ _ _ fun m i hi => by rw [h i hi]
  simp only [arrange, hmap]

theorem grouping_congr (config : ClusterConfig) {s t : HostStore} {hosts : List HostId}
    (h : ∀ i ∈ hosts, (t.get i).locality = (s.get i).locality) :
    grouping config t hosts = grouping config s hosts := by
  simp only [grouping, arrange_congr config h]

theorem grouping_nil (config : ClusterConfig) (store : HostStore) : grouping config store [] = {} := by
  simp only [grouping, arrange, byLocality, List.foldl_nil, localFirst]
  split <;> rfl

end Draft

end Roster
