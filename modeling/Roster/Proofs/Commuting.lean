import Roster.Proofs.Consistency
import Roster.Proofs.Localities
import Roster.Proofs.Reordering

/-!
# Roster.Proofs.Commuting

Two deliveries to one cluster that ask the same in another order, turn by turn. The index is the one
thing that the order within a turn shows in while it changes; it is compared once all turns are over,
when it follows from the levels.

* `Rollout.Mirrors`    — deliveries under way that differ in order and in the names of new hosts; a turn
  keeps it, `reconciled` and `refreshed`.
* `ordered_of_reaches`, `Orderly.find?_eq` — the index is in order, and follows from the levels.
* `Agrees`             — the two assignments ask the same.
* `mirrors_reached`    — after any number of turns.
* `mirrors_complete`   — after the delivery.
-/

namespace Roster

/-! ## Levels -/

theorem PrioritySet.Mirrors.hostsAt {τ : Type} {text : HostId → String} {ρ : Equiv.Perm HostId}
    {P : AddressMap → AddressMap → Prop} {old : List Event} {ps qs : PrioritySet τ}
    (h : ps.Mirrors text ρ P old qs) (p : Nat) :
    Shuffles text ρ (ps.hostsAt p) (qs.hostsAt p) := by
  have hrel := h.level? p
  rw [PrioritySet.hostsAt, PrioritySet.hostsAt]
  generalize ps.level? p = k? at hrel
  generalize qs.level? p = l? at hrel
  cases hrel with
  | none => exact .nil
  | some hkl => exact hkl.generation.partition.hosts

/-! ## Turns -/

/-- The same delivery under way, but for the names of hosts and the order of hosts within lists. -/
structure Rollout.Mirrors {τ : Type} (text : HostId → String) (ρ : Equiv.Perm HostId)
    (old : List Event) (r r' : Rollout τ) : Prop where
  hosts : r.hosts.Mirrors ρ r'.hosts
  priorities : r.batch.priorities.Mirrors text ρ (fun _ _ => True) old r'.batch.priorities
  added : Shuffles text ρ r.batch.added r'.batch.added
  removed : Shuffles text ρ r.batch.removed r'.batch.removed
  weights : r'.weights = r.weights
  maxHostWeight : r'.maxHostWeight = r.maxHostWeight
  rebuilt : r'.rebuilt = r.rebuilt

/-- The same cluster after a delivery, with the same memory of weights. -/
structure DynamicCluster.Mirrors {τ : Type} (text : HostId → String) (ρ : Equiv.Perm HostId)
    (old : List Event) (dc dc' : DynamicCluster τ) : Prop where
  cluster : dc.cluster.Mirrors text ρ old dc'.cluster
  weights : dc'.weights = dc.weights

/-- Deliveries that ask the same of a level. -/
structure Delivery.Agrees (d d' : Delivery) (p : Nat) : Prop where
  config : d'.config = d.config
  factor : d'.factor = d.factor
  weights : d'.draft.weightsAt p = d.draft.weightsAt p

namespace Rollout.Mirrors

variable {τ : Type} [Quantity τ] {text : HostId → String} {ρ : Equiv.Perm HostId}
  {old : List Event} {r r' : Rollout τ} {d d' : Delivery} {p : Nat}

omit [Quantity τ] in
theorem factorAt? (h : r.Mirrors text ρ old r') (p : Nat) : r'.factorAt? p = r.factorAt? p := by
  have hrel := h.priorities.level? p
  rw [Rollout.factorAt?, Rollout.factorAt?]
  generalize r.batch.priorities.level? p = k? at hrel
  generalize r'.batch.priorities.level? p = l? at hrel
  cases hrel with
  | none => rfl
  | some hkl => exact congrArg some hkl.generation.factor

section Turn

variable (h : r.Mirrors text ρ old r') (hd : d.Agrees d' p)
  (hresult : (r.result d p).Mirrors text ρ (r'.result d' p))

include h hd hresult

omit [Quantity τ] in
theorem isAlone_eq : r'.isAlone d' p = r.isAlone d p := by
  simp only [isAlone, hresult.changed, h.factorAt?, hd.factor, h.weights, hd.weights]

theorem reconciled : (r.reconciled d p).Mirrors text ρ old (r'.reconciled d' p) where
  hosts := hresult.store
  priorities := by
    have hmade : (r.made d p).Mirrors text ρ (fun _ _ => True) old (r'.made d' p) := by
      rw [made, made, hd.factor]
      exact h.priorities.ensureLevel p (some d.factor)
    exact hmade
  added := h.added
  removed := h.removed
  weights := congrArg (extendWeights · p) h.weights
  maxHostWeight := hresult.maxWeight
  rebuilt := h.rebuilt

omit [Quantity τ] h in
theorem update : (r.update d p).Mirrors text ρ (r'.update d' p) := by
  rw [Rollout.update, Rollout.update, hd.config, hd.weights, hd.factor]
  exact Draft.mirrors_composed hresult.store hresult.hosts d.config _ rfl rfl rfl rfl hresult.added
    hresult.removed

theorem refreshed : (r.refreshed d p).Mirrors text ρ old (r'.refreshed d' p) :=
  have hreconciled := h.reconciled hd hresult
  { hreconciled with
    priorities := hreconciled.priorities.put (update hd hresult) _ _ (.inl fun _ _ => trivial)
    added := h.added.extend hresult.added
    removed := h.removed.extend hresult.removed
    weights := by
      rw [Rollout.refreshed, Rollout.refreshed, hd.weights, h.weights]
    rebuilt := rfl }

end Turn

theorem complete (h : r.Mirrors text ρ old r') (dc : DynamicCluster τ)
    (hmap : r'.batch.priorities.addressMap = AddressMap.rename ρ r.batch.priorities.addressMap) :
    (dc.complete r).Mirrors text ρ old (dc.complete r') := by
  have hfinish : r.batch.finish.Mirrors text ρ (fun m m' => m' = m.rename ρ) old r'.batch.finish :=
    (h.priorities.sharpen hmap).notifyMembers (fun _ _ hm => hm) (h.added.without h.removed)
      (h.removed.without h.added)
  simp only [DynamicCluster.complete, DynamicCluster.settle, h.rebuilt]
  exact ⟨Cluster.Mirrors.preInitDone
    ⟨rfl, h.hosts, hfinish, rfl, rfl, rfl, rfl, rfl, h.maxHostWeight, rfl, rfl⟩, h.weights⟩

end Rollout.Mirrors

/-! ## The index -/

namespace AddressMap

theorem find?_rename (ρ : Equiv.Perm HostId) (b : String) (m : AddressMap) :
    Assoc.find? b (AddressMap.rename ρ m) = (Assoc.find? b m).map ρ := by
  induction m with
  | nil => rfl
  | cons e m ih =>
    rw [rename, List.map_cons, Assoc.find?, Assoc.find?]
    split
    · rfl
    · exact ih

theorem ordered_rename {ρ : Equiv.Perm HostId} {m : AddressMap} (h : Assoc.Ordered m) :
    Assoc.Ordered (AddressMap.rename ρ m) := List.pairwise_map.2 h

end AddressMap

theorem AddressIndex.ordered_revised {store : HostStore} {p : Nat} {added removed : List HostId}
    {surviving : HostId → Option HostId} {m : AddressMap} (h : Assoc.Ordered m) :
    Assoc.Ordered (revised store p added removed surviving m) := by
  have hretire : ∀ (ids : List HostId) (m : AddressMap), Assoc.Ordered m →
      Assoc.Ordered (ids.foldl (retire store p surviving) m) := by
    intro ids
    induction ids with
    | nil => exact fun _ h => h
    | cons id ids ih =>
      refine fun m h => ih _ ?_
      rw [retire]
      split
      · split
        · exact h.insert
        · exact h.erase
      · exact h
  have henter : ∀ (ids : List HostId) (m : AddressMap), Assoc.Ordered m →
      Assoc.Ordered (ids.foldl (enter store) m) := by
    intro ids
    induction ids with
    | nil => exact fun _ h => h
    | cons id ids ih => exact fun m h => ih _ h.insert
  exact henter added _ (hretire removed m h)

namespace DynamicCluster

variable {τ : Type} [Quantity τ] {dc : DynamicCluster τ} {a : Assignment}

theorem ordered_mapAt (hs : dc.cluster.Sound) (hf : dc.cluster.config.factorFor a ≠ 0)
    (h : Assoc.Ordered dc.cluster.priorities.addressMap) (n : Nat) :
    Assoc.Ordered (dc.mapAt a n) := by
  induction n with
  | zero =>
    have hmap : dc.mapAt a 0 = dc.cluster.priorities.addressMap :=
      PrioritySet.addressMap_congr (PrioritySet.hears_readMap dc.cluster.priorities).installation
    rwa [hmap]
  | succ n ih =>
    rw [mapAt_succ hs hf]
    split
    · exact ih
    · exact AddressIndex.ordered_revised ih

end DynamicCluster

namespace Service

variable {τ : Type} [Quantity τ] {s : Service τ} {config : ClusterConfig}

theorem ordered_of_reaches (hconfig : config.validate = .ok ())
    (h : Reaches (fun _ act => act.IsClean) (fresh τ config) s) :
    Assoc.Ordered s.cluster.priorities.addressMap := by
  have hfresh : Assoc.Ordered (fresh τ config).cluster.priorities.addressMap := by
    rw [(bare_fresh config).unmapped]
    exact .nil
  refine (h.keeps (P := fun u => Sound config u ∧ Assoc.Ordered u.cluster.priorities.addressMap) ?_
    ⟨sound_fresh config, hfresh⟩).2
  intro u act v hact hstep ⟨hsound, hu⟩
  refine ⟨sound_perform hconfig hsound (knows_of_isClean hact) hstep, ?_⟩
  rcases delivers_or_steady hconfig hsound hact.not_isDirect hstep with
    ⟨a, _, body, rfl, rfl, hnew, hf, _⟩ | ⟨_, _, hsteady⟩
  · have hmap : body.cluster.priorities.addressMap =
        u.body.mapAt a (u.body.span (u.body.plan a).1) := hnew.map
    exact hmap ▸ DynamicCluster.ordered_mapAt hsound.cluster hf hu _
  · rwa [hsteady.priorities.map]

end Service

namespace Cluster

variable {τ : Type} {ρ : Equiv.Perm HostId} {c d : Cluster τ}

/-- The index follows from the hosts of the levels. -/
theorem Orderly.find?_eq (hc : c.Orderly) (hd : d.Orderly) (hst : c.hosts.Mirrors ρ d.hosts)
    (hlevels : ∀ p, Shuffles d.hosts.addressText ρ (c.priorities.hostsAt p)
      (d.priorities.hostsAt p)) (b : String) :
    Assoc.find? b d.priorities.addressMap = (Assoc.find? b c.priorities.addressMap).map ρ := by
  refine Option.ext fun e => ?_
  obtain ⟨i, rfl⟩ := ρ.surjective e
  have hhead : ∀ p, (d.hosts.located b (d.priorities.hostsAt p)).head? = some (ρ i) ↔
      (c.hosts.located b (c.priorities.hostsAt p)).head? = some i := fun p => by
    rw [hst.shuffles_iff.1 (hlevels p), List.head?_map]
    cases (c.hosts.located b (c.priorities.hostsAt p)).head? <;> simp
  have hfound : (Assoc.find? b c.priorities.addressMap).map ρ = some (ρ i) ↔
      Assoc.find? b c.priorities.addressMap = some i := by
    cases Assoc.find? b c.priorities.addressMap <;> simp
  rw [hd.index, hfound, hc.index]
  exact exists_congr hhead

end Cluster

/-! ## Before the first turn -/

section Start

variable {τ : Type} {text : HostId → String} {ρ : Equiv.Perm HostId} {config : ClusterConfig}
  {store : HostStore}

theorem Partition.mirrors_self {flags : HostStore} {hosts : List HostId} {groups : Grouping HostId}
    (hhosts : ∀ i ∈ hosts, ρ i = i) (hgroups : ∀ ids ∈ groups.groups, ∀ i ∈ ids, ρ i = i) :
    (Partition.of flags hosts groups).Mirrors text ρ (.of flags hosts groups) := by
  have hlist : ∀ f : HostId → Bool, Shuffles text ρ (hosts.filter f) (hosts.filter f) := fun f =>
    .of_fixed fun i hi => hhosts i (List.mem_filter.1 hi).1
  have hgroup : ∀ f : HostId → Bool,
      Grouping.Mirrors text ρ (groups.kept f) (groups.kept f) := by
    refine fun f => ⟨rfl, List.forall₂_same.2 fun ids hids => .of_fixed fun i hi => ?_⟩
    obtain ⟨all, hall, rfl⟩ := List.mem_map.1 hids
    exact hgroups all hall i (List.mem_filter.1 hi).1
  simp only [Partition.of, byHealth_eq, groupsByHealth_eq]
  exact ⟨.of_fixed hhosts, hlist _, hlist _, hlist _,
    ⟨rfl, List.forall₂_same.2 fun ids hids => .of_fixed (hgroups ids hids)⟩, hgroup _, hgroup _,
    hgroup _⟩

theorem Generation.Composed.mirrors_self {g : Generation τ} (hg : g.Composed config store)
    (hfixed : ∀ i, i < store.size → ρ i = i) : g.Mirrors text ρ g := by
  obtain ⟨flags, hpartition⟩ := hg.partition
  have hhosts : ∀ i ∈ g.hosts, ρ i = i := fun i hi => hfixed i (hg.known i hi)
  refine ⟨rfl, ?_, rfl, rfl, rfl, rfl⟩
  rw [hpartition]
  refine Partition.mirrors_self hhosts fun ids hids i hi => hhosts i ?_
  have hflat := (Draft.arranged_arrange config store g.hosts).flatten_perm
  exact hflat.mem_iff.1 (List.mem_flatten.2 ⟨ids, hids, hi⟩)

theorem Cluster.Composed.mirrors_readMap {c : Cluster τ} (hc : c.Composed config)
    (hordered : Assoc.Ordered c.priorities.addressMap)
    (hfixed : ∀ i, i < c.hosts.size → ρ i = i) (P : AddressMap → AddressMap → Prop) :
    c.priorities.readMap.Mirrors text ρ P c.priorities.journal.events c.priorities.readMap := by
  refine ⟨List.forall₂_same.2 fun l hl => ?_, ?_, rfl, rfl, rfl, rfl, rfl, rfl,
    [], [], (List.append_nil _).symm, (List.append_nil _).symm, .nil⟩
  · obtain ⟨p, hp, rfl⟩ := List.mem_iff_getElem.1 hl
    have hg : c.priorities.generation? p = some c.priorities.levels[p].generation :=
      congrArg (Option.map Level.generation) (List.getElem?_eq_getElem hp)
    exact ⟨rfl, (hc.levels p _ hg).mirrors_self hfixed, rfl⟩
  · have hmap : AddressMap.rename ρ c.priorities.addressMap = c.priorities.addressMap := by
      refine Assoc.Ordered.ext (AddressMap.ordered_rename hordered) hordered fun b => ?_
      rw [AddressMap.find?_rename]
      cases hfind : Assoc.find? b c.priorities.addressMap with
      | none => rfl
      | some e => exact congrArg some (hfixed e (hc.mapped b e hfind).1)
    have hindex : ∀ x, c.priorities.index? = some x → x.read.Mirrors ρ P x.read := by
      intro x hx
      have hpublished : c.priorities.addressMap = x.read.published := by
        simp [PrioritySet.addressMap, PrioritySet.readMap, PrioritySet.publishedMap, hx]
      have hpending : x.read.pending? = none := by
        rw [AddressIndex.read]
        split
        · assumption
        · rfl
      refine ⟨?_, rfl, ?_⟩
      · rw [← hpublished, hmap]
      · rw [hpending]
        exact .none
    rw [PrioritySet.readMap]
    cases hx : c.priorities.index? with
    | none => exact .none
    | some x => exact .some (hindex x hx)

end Start

/-! ## Turn by turn -/

namespace DynamicCluster

variable {τ : Type}

/-- Two assignments ask the same of a cluster, in some order. The hosts that the second makes are those
that the first makes, under new names. -/
structure Agrees (dc : DynamicCluster τ) (a a' : Assignment) (ρ : Equiv.Perm HostId) : Prop where
  hosts : (dc.plan a).2.Mirrors ρ (dc.plan a').2
  fixed : ∀ i, i < dc.cluster.hosts.size → ρ i = i
  delivered : ∀ p, ((dc.plan a').1.draft.hostsAt p).Perm (((dc.plan a).1.draft.hostsAt p).map ρ)
  texts : ∀ b, b ∈ a'.texts ↔ b ∈ a.texts
  factor : dc.cluster.config.factorFor a' = dc.cluster.config.factorFor a
  weights : ∀ p, (dc.plan a').1.draft.weightsAt p = (dc.plan a).1.draft.weightsAt p
  span : dc.span (dc.plan a').1 = dc.span (dc.plan a).1

namespace Agrees

variable [Quantity τ] {dc : DynamicCluster τ} {a a' : Assignment} {ρ : Equiv.Perm HostId}
  {config : ClusterConfig} (h : dc.Agrees a a' ρ) (hs : dc.cluster.Sound)
  (hf : dc.cluster.config.factorFor a ≠ 0) (ha' : a'.Clean)

include h

omit [Quantity τ] in
theorem agrees_at (p : Nat) : (dc.plan a).1.Agrees (dc.plan a').1 p :=
  ⟨rfl, h.factor, h.weights p⟩

include hs ha'

omit [Quantity τ] in
theorem mirrors_result {n : Nat} {r r' : Rollout τ} {old : List Event}
    (hr : Underway dc a n r) (hr' : Underway dc a' n r')
    (hrr' : r.Mirrors (dc.plan a').2.addressText ρ old r') :
    (r.result (dc.plan a).1 n).Mirrors (dc.plan a').2.addressText ρ
      (r'.result (dc.plan a').1 n) := by
  have htext : r'.hosts.addressText = (dc.plan a').2.addressText :=
    funext fun i => congrArg Address.text (hr'.alike i).address
  rw [← htext] at hrr' ⊢
  have hfound : ∀ b, Assoc.find? b dc.cluster.priorities.addressMap =
      (Assoc.find? b dc.cluster.priorities.addressMap).map ρ := fun b => by
    cases hfind : Assoc.find? b dc.cluster.priorities.addressMap with
    | none => rfl
    | some e => exact congrArg some (h.fixed e (hs.mapped b e hfind).1).symm
  have hdistinct : (((dc.plan a').1.draft.hostsAt n).map r'.hosts.addressText).Nodup := by
    have hmap : ((dc.plan a').1.draft.hostsAt n).map r'.hosts.addressText =
        (dc.arrivalsAt a' n).map Arrival.text := by
      rw [htext, hostsAt_draft, List.map_map]
      exact List.map_congr_left fun x hx => addressText_plan_id (mem_arrivalsAt.1 hx).1
    rw [hmap]
    exact nodup_texts_arrivalsAt dc ha' n
  exact Reconcile.Reorders.mirrors_reconcile (p := n)
    ⟨hrr'.hosts, h.delivered n, hdistinct, hfound, h.texts, hrr'.priorities.hostsAt n, hr.arrives hs,
      hr'.arrives hs, hr.known hs⟩

include hf

/-- In either order every turn does the same. -/
theorem mirrors_reached (hc : dc.cluster.Composed config)
    (hordered : Assoc.Ordered dc.cluster.priorities.addressMap) (n : Nat) :
    (dc.reached a n).Mirrors (dc.plan a').2.addressText ρ dc.cluster.priorities.journal.events
      (dc.reached a' n) := by
  have hf' : dc.cluster.config.factorFor a' ≠ 0 := h.factor ▸ hf
  induction n with
  | zero => exact ⟨h.hosts, hc.mirrors_readMap hordered h.fixed _, .nil, .nil, rfl, rfl, rfl⟩
  | succ n ih =>
    have hresult := h.mirrors_result hs ha' (underway_reached hs hf n) (underway_reached hs hf' n) ih
    rw [reached_succ hs hf, reached_succ hs hf', ih.isAlone_eq (h.agrees_at n) hresult]
    split
    · exact ih.reconciled (h.agrees_at n) hresult
    · exact ih.refreshed (h.agrees_at n) hresult

section Complete

variable (hc : dc.cluster.Orderly) (hcomposed : dc.cluster.Composed config)
  (hordered : Assoc.Ordered dc.cluster.priorities.addressMap) (ha : a.Clean)

include hc hcomposed hordered ha

omit hs in
theorem addressMap_eq {n : Nat} (hn : dc.span (dc.plan a).1 = n) :
    (dc.reached a' n).batch.priorities.addressMap =
      AddressMap.rename ρ (dc.reached a n).batch.priorities.addressMap := by
  have hs := hc.toSound
  have hn' : dc.span (dc.plan a').1 = n := h.span.trans hn
  have hf' : dc.cluster.config.factorFor a' ≠ 0 := h.factor ▸ hf
  have hr := h.mirrors_reached hs hf ha' hcomposed hordered n
  obtain ⟨new, ht⟩ := delivered_complete hs hf
  obtain ⟨new', ht'⟩ := delivered_complete hs hf'
  have hrests := (ht.concluded hs hf).rests
  have hrests' := (ht'.concluded hs hf').rests
  have htext := funext (ht'.addressText hs hf')
  have hmap := ht.map
  have hmap' := ht'.map
  have horderly := ht.orderly hc hf ha
  have horderly' := ht'.orderly hc hf' ha'
  have hhosts := ht.hosts
  have hhosts' := ht'.hosts
  rw [hn] at hrests hmap horderly hhosts
  rw [hn'] at hrests' htext hmap' horderly' hhosts'
  refine Assoc.Ordered.ext (ordered_mapAt hs hf' hordered n)
    (AddressMap.ordered_rename (ordered_mapAt hs hf hordered n)) fun b => ?_
  rw [AddressMap.find?_rename, ← hmap, ← hmap']
  refine horderly.find?_eq horderly' (by rw [hhosts, hhosts']; exact hr.hosts) (fun p => ?_) b
  rw [htext, hrests.hostsAt, hrests'.hostsAt]
  exact hr.priorities.hostsAt p

omit hs in
theorem mirrors_complete :
    (dc.complete (dc.reached a (dc.span (dc.plan a).1))).Mirrors (dc.plan a').2.addressText ρ
      dc.cluster.priorities.journal.events
      (dc.complete (dc.reached a' (dc.span (dc.plan a').1))) := by
  have hr := h.mirrors_reached hc.toSound hf ha' hcomposed hordered (dc.span (dc.plan a).1)
  have hmap := h.addressMap_eq hf ha' hc hcomposed hordered ha rfl
  rw [h.span]
  exact hr.complete dc hmap

end Complete

end Agrees

end DynamicCluster

end Roster
