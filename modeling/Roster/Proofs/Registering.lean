import Roster.Cluster
import Mathlib.Data.List.Basic
import Mathlib.Data.List.Nodup

/-!
# Roster.Proofs.Registering

The metrics of a cluster are registered all or not at all, whatever else a registry holds.

* `addCluster_eq`      — what registering does, by the first key that is taken.
* `keys_dropCluster`   — what dropping takes out.
* `Fleet`              — clusters that are created and dropped in one registry used for nothing else.
* `Kept`               — the registry holds the keys of the live clusters; kept by every `change`.
-/

namespace Roster

theorem Metric.families_nodup : (Metric.all.map Metric.family).Nodup := by decide

namespace Registry

def keysOf (cluster : String) : List Key :=
  (collectorsOf cluster).map Collector.key

theorem labels_of_mem_keysOf {k : Key} {cluster : String} (h : k ∈ keysOf cluster) :
    k.labels = [("cluster", cluster)] := by
  simp only [keysOf, collectorsOf, List.mem_map, exists_exists_and_eq_and] at h
  obtain ⟨m, _, rfl⟩ := h
  rfl

theorem nodup_keysOf (cluster : String) : (keysOf cluster).Nodup := by
  refine List.Nodup.of_map Key.family ?_
  simpa [keysOf, collectorsOf, Function.comp_def, Collector.key] using Metric.families_nodup

theorem not_mem_keysOf_of_ne {k : Key} {cluster other : String} (h : k ∈ keysOf cluster)
    (hne : cluster ≠ other) : k ∉ keysOf other := by
  intro hother
  have hlabels := (labels_of_mem_keysOf h).symm.trans (labels_of_mem_keysOf hother)
  simp only [List.cons.injEq, Prod.mk.injEq, true_and, and_true] at hlabels
  exact hne hlabels

/-! ## Taking back -/

theorem keys_foldl_unregister (cs : List Collector) (r : Registry) :
    (cs.foldl unregister r).keys = r.keys.filter fun k => k ∉ cs.map Collector.key := by
  induction cs generalizing r with
  | nil => simp
  | cons c cs ih =>
    rw [List.foldl_cons, ih, unregister, List.filter_filter]
    refine List.filter_congr fun k _ => ?_
    simp only [List.map_cons, List.mem_cons, not_or, Bool.decide_and, ne_eq]
    exact Bool.and_comm _ _

theorem keys_dropCluster (r : Registry) (cluster : String) :
    (r.dropCluster cluster).keys = r.keys.filter fun k => k ∉ keysOf cluster :=
  keys_foldl_unregister (collectorsOf cluster) r

theorem foldl_unregister_append {cs : List Collector} {r : Registry}
    (hfree : ∀ k ∈ cs.map Collector.key, k ∉ r.keys) :
    cs.foldl unregister ⟨r.keys ++ cs.map Collector.key⟩ = r := by
  refine congrArg Registry.mk ((keys_foldl_unregister cs _).trans ?_)
  have hold : r.keys.filter (fun k => k ∉ cs.map Collector.key) = r.keys :=
    List.filter_eq_self.2 fun k hk => decide_eq_true fun hmem => hfree k hmem hk
  have hnew : (cs.map Collector.key).filter (fun k => k ∉ cs.map Collector.key) = [] :=
    List.filter_eq_nil_iff.2 fun k hk => by simpa using List.mem_map.1 hk
  rw [List.filter_append, hold, hnew, List.append_nil]

/-! ## Registering -/

/-- `mine` were free in `r` and are registered; the rest follow, up to the first that is taken. -/
theorem registerAll_eq (r : Registry) (mine rest : List Collector)
    (hfree : ∀ k ∈ mine.map Collector.key, k ∉ r.keys)
    (hnodup : ((mine ++ rest).map Collector.key).Nodup) :
    registerAll mine rest ⟨r.keys ++ mine.map Collector.key⟩ =
      match (rest.map Collector.key).find? (· ∈ r.keys) with
      | none => .done ⟨r.keys ++ (mine ++ rest).map Collector.key⟩
      | some k => .failed ⟨k⟩ r := by
  induction rest generalizing mine with
  | nil => simp [registerAll]
  | cons c rest ih =>
    have hmine : c.key ∉ mine.map Collector.key := by
      rw [List.map_append, List.map_cons] at hnodup
      exact fun hmem => (List.nodup_append.1 hnodup).2.2 _ hmem _ List.mem_cons_self rfl
    by_cases hc : c.key ∈ r.keys
    · -- What is taken back was registered after `r`.
      have htaken : c.key ∈ r.keys ++ mine.map Collector.key := List.mem_append_left _ hc
      simp only [registerAll, register, if_pos htaken, List.map_cons, List.find?_cons, decide_true, hc]
      rw [foldl_unregister_append hfree]
    · have hnew : c.key ∉ r.keys ++ mine.map Collector.key := by
        rw [List.mem_append]
        exact fun h => h.elim hc hmine
      have hfree' : ∀ k ∈ (mine ++ [c]).map Collector.key, k ∉ r.keys := by
        intro k hk
        rw [List.map_append, List.mem_append, List.map_singleton, List.mem_singleton] at hk
        rcases hk with hk | rfl
        · exact hfree k hk
        · exact hc
      have ih := ih (mine ++ [c]) hfree' (by rwa [List.append_assoc, List.singleton_append])
      rw [List.append_assoc, List.singleton_append, List.map_append, List.map_singleton] at ih
      simp only [registerAll, register, if_neg hnew, List.map_cons, List.find?_cons, decide_false, hc]
      rw [List.append_assoc]
      exact ih

theorem addCluster_eq (r : Registry) (cluster : String) :
    r.addCluster cluster =
      match (keysOf cluster).find? (· ∈ r.keys) with
      | none => .done ⟨r.keys ++ keysOf cluster⟩
      | some k => .failed ⟨k⟩ r := by
  have h := registerAll_eq r [] (collectorsOf cluster) (by simp) (nodup_keysOf cluster)
  rw [List.map_nil, List.append_nil] at h
  exact h

/-- A foreign collector under the key that is registered sixth. -/
example :
    let r : Registry := ⟨[⟨"upstream_cluster_max_host_weight", [("cluster", "a")]⟩]⟩
    r.addCluster "a" = .failed ⟨⟨"upstream_cluster_max_host_weight", [("cluster", "a")]⟩⟩ r := by
  rfl

theorem addCluster_of_free {r : Registry} {cluster : String} (h : ∀ k ∈ keysOf cluster, k ∉ r.keys) :
    r.addCluster cluster = .done ⟨r.keys ++ keysOf cluster⟩ := by
  have hnone : (keysOf cluster).find? (· ∈ r.keys) = none :=
    List.find?_eq_none.2 fun k hk => by simpa using h k hk
  rw [addCluster_eq, hnone]

theorem addCluster_of_taken {r : Registry} {cluster : String} {k : Key} (hk : k ∈ keysOf cluster)
    (htaken : k ∈ r.keys) :
    ∃ first ∈ keysOf cluster, first ∈ r.keys ∧ r.addCluster cluster = .failed ⟨first⟩ r := by
  have hsome : ((keysOf cluster).find? (· ∈ r.keys)).isSome :=
    List.find?_isSome.2 ⟨k, hk, by simpa using htaken⟩
  obtain ⟨first, hfirst⟩ := Option.isSome_iff_exists.1 hsome
  refine ⟨first, List.mem_of_find?_eq_some hfirst, ?_, ?_⟩
  · simpa using List.find?_some hfirst
  · rw [addCluster_eq, hfirst]

/-- What registering and dropping the metrics of a cluster do to a registry. -/
structure Atomic (r : Registry) (cluster : String) : Prop where
  /-- Every key is registered when all are free. -/
  all : (∀ k ∈ keysOf cluster, k ∉ r.keys) → r.addCluster cluster = .done ⟨r.keys ++ keysOf cluster⟩
  /-- One key that is taken leaves the registry as it was. -/
  none : ∀ k ∈ keysOf cluster, k ∈ r.keys →
    ∃ first ∈ keysOf cluster, first ∈ r.keys ∧ r.addCluster cluster = .failed ⟨first⟩ r
  dropped : (r.dropCluster cluster).keys = r.keys.filter fun k => k ∉ keysOf cluster
  undone : ∀ s, r.addCluster cluster = .done s → s.dropCluster cluster = r

theorem atomic (r : Registry) (cluster : String) : r.Atomic cluster := by
  refine ⟨addCluster_of_free, fun k => addCluster_of_taken, keys_dropCluster r cluster,
    fun s hs => ?_⟩
  by_cases hfree : ∀ k ∈ keysOf cluster, k ∉ r.keys
  · rw [addCluster_of_free hfree] at hs
    cases hs
    exact foldl_unregister_append hfree
  · obtain ⟨k, hk, htaken⟩ := by simpa using hfree
    obtain ⟨first, _, _, hfailed⟩ := addCluster_of_taken hk htaken
    rw [hfailed] at hs
    cases hs

end Registry

/-! ## Clusters that come and go -/

/-- A registry that is used for clusters only, and the names of those that live. -/
structure Fleet where
  registry : Registry := {}
  live : List String := []

namespace Fleet

inductive Change where
  | create (config : ClusterConfig)
  | drop (cluster : String)

/-- A cluster that is created lives; dropping one that does not live changes nothing. -/
def change (f : Fleet) : Change → Fleet
  | .create config =>
    match Cluster.enroll config f.registry with
    | .done r => ⟨r, f.live ++ [config.name]⟩
    | .failed _ r => { f with registry := r }
  | .drop cluster =>
    if cluster ∈ f.live then ⟨f.registry.dropCluster cluster, f.live.erase cluster⟩ else f

/-- The registry holds the keys of the live clusters, and each of them lives once. -/
structure Kept (f : Fleet) : Prop where
  keys : f.registry.keys = f.live.flatMap Registry.keysOf
  distinct : f.live.Nodup

variable {f : Fleet} {config : ClusterConfig} {cluster : String}

theorem Kept.mem_keys (h : f.Kept) {k : Key} (hk : k ∈ Registry.keysOf cluster) :
    k ∈ f.registry.keys ↔ cluster ∈ f.live := by
  rw [h.keys, List.mem_flatMap]
  constructor
  · rintro ⟨other, hother, hk'⟩
    by_cases he : cluster = other
    · rwa [he]
    · exact absurd hk' (Registry.not_mem_keysOf_of_ne hk he)
  · exact fun hlive => ⟨cluster, hlive, hk⟩

theorem Kept.addCluster (h : f.Kept) (hfree : cluster ∉ f.live) :
    f.registry.addCluster cluster = .done ⟨f.registry.keys ++ Registry.keysOf cluster⟩ :=
  Registry.addCluster_of_free fun _ hk htaken => hfree ((h.mem_keys hk).1 htaken)

theorem Kept.addCluster_taken (h : f.Kept) (hlive : cluster ∈ f.live) :
    ∃ k, f.registry.addCluster cluster = .failed ⟨k⟩ f.registry := by
  have hk : (⟨Metric.membershipTotal.family, [("cluster", cluster)]⟩ : Key) ∈
      Registry.keysOf cluster := List.mem_cons_self
  obtain ⟨k, _, _, hfailed⟩ := Registry.addCluster_of_taken hk ((h.mem_keys hk).2 hlive)
  exact ⟨k, hfailed⟩

/-- Enrolling is refused and changes nothing, or registers every key of the cluster. -/
theorem enroll_cases (config : ClusterConfig) (r : Registry) :
    (∃ e, Cluster.enroll config r = .failed e r) ∨
      config.validate = .ok () ∧ (∀ k ∈ Registry.keysOf config.name, k ∉ r.keys) ∧
        Cluster.enroll config r = .done ⟨r.keys ++ Registry.keysOf config.name⟩ := by
  simp only [Cluster.enroll]
  cases hvalid : config.validate with
  | error e => exact .inl ⟨_, rfl⟩
  | ok _ =>
    by_cases hfree : ∀ k ∈ Registry.keysOf config.name, k ∉ r.keys
    · rw [Registry.addCluster_of_free hfree]
      exact .inr ⟨rfl, hfree, rfl⟩
    · obtain ⟨k, hk, htaken⟩ := by simpa using hfree
      obtain ⟨first, _, _, hfailed⟩ := Registry.addCluster_of_taken hk htaken
      rw [hfailed]
      exact .inl ⟨_, rfl⟩

theorem registry_of_failed {r s : Registry} {e : CreateError}
    (h : Cluster.enroll config r = .failed e s) : s = r := by
  rcases enroll_cases config r with ⟨_, hfailed⟩ | ⟨_, _, hdone⟩
  · rw [hfailed] at h
    cases h
    rfl
  · rw [hdone] at h
    cases h

theorem keys_of_done {r s : Registry} (h : Cluster.enroll config r = .done s) :
    s.keys = r.keys ++ Registry.keysOf config.name := by
  rcases enroll_cases config r with ⟨_, hfailed⟩ | ⟨_, _, hdone⟩
  · rw [hfailed] at h
    cases h
  · rw [hdone] at h
    cases h
    rfl

theorem Kept.enroll (h : f.Kept) (hvalid : config.validate = .ok ()) :
    (∃ r, Cluster.enroll config f.registry = .done r) ↔ config.name ∉ f.live := by
  simp only [Cluster.enroll, hvalid]
  constructor
  · rintro ⟨r, hr⟩ hlive
    obtain ⟨k, hfailed⟩ := h.addCluster_taken hlive
    rw [hfailed] at hr
    cases hr
  · intro hfree
    rw [h.addCluster hfree]
    exact ⟨_, rfl⟩

theorem Kept.create (h : f.Kept) (config : ClusterConfig) : (f.change (.create config)).Kept := by
  simp only [change]
  rcases enroll_cases config f.registry with ⟨_, hfailed⟩ | ⟨hvalid, _, hdone⟩
  · rw [hfailed]
    exact h
  · have hfree : config.name ∉ f.live := (h.enroll hvalid).1 ⟨_, hdone⟩
    rw [hdone]
    refine ⟨?_, ?_⟩
    · rw [h.keys, List.flatMap_append, List.flatMap_singleton]
    · simpa [List.nodup_append] using ⟨h.distinct, fun a ha he => hfree (he ▸ ha)⟩

theorem filter_flatMap_keysOf (live : List String) (cluster : String) :
    (live.flatMap Registry.keysOf).filter (fun k => k ∉ Registry.keysOf cluster) =
      (live.filter fun other => other ≠ cluster).flatMap Registry.keysOf := by
  induction live with
  | nil => rfl
  | cons other live ih =>
    rw [List.flatMap_cons, List.filter_append, ih]
    by_cases he : other = cluster
    · have hown : (Registry.keysOf other).filter (fun k => k ∉ Registry.keysOf cluster) = [] :=
        List.filter_eq_nil_iff.2 fun k hk => by simpa [← he] using hk
      rw [hown, List.nil_append, List.filter_cons_of_neg (by simpa using he)]
    · have hspared : (Registry.keysOf other).filter (fun k => k ∉ Registry.keysOf cluster) =
          Registry.keysOf other :=
        List.filter_eq_self.2 fun k hk => by simpa using Registry.not_mem_keysOf_of_ne hk he
      rw [hspared, List.filter_cons_of_pos (by simpa using he), List.flatMap_cons]

theorem Kept.drop (h : f.Kept) (cluster : String) : (f.change (.drop cluster)).Kept := by
  simp only [change]
  split
  case isFalse => exact h
  case isTrue hlive =>
    refine ⟨?_, h.distinct.erase cluster⟩
    have hlive : f.live.erase cluster = f.live.filter fun other => other ≠ cluster := by
      rw [h.distinct.erase_eq_filter]
      exact List.filter_congr fun other _ => Bool.eq_iff_iff.2 (by simp)
    rw [Registry.keys_dropCluster, h.keys, filter_flatMap_keysOf, hlive]

theorem Kept.change (h : f.Kept) (c : Change) : (f.change c).Kept := by
  cases c with
  | create config => exact h.create config
  | drop cluster => exact h.drop cluster

theorem Kept.empty : ({} : Fleet).Kept := ⟨rfl, .nil⟩

theorem kept_run {changes : List Change} (h : f.Kept) : (changes.foldl change f).Kept := by
  induction changes generalizing f with
  | nil => exact h
  | cons c changes ih => exact ih (h.change c)

/-- What holds of clusters that share a registry, and of what is done to them next. -/
structure Independent (f : Fleet) : Prop where
  /-- Just the metrics of the live clusters are registered, each once. -/
  registered : f.registry.keys.Nodup ∧
    ∀ k, k ∈ f.registry.keys ↔ ∃ cluster ∈ f.live, k ∈ Registry.keysOf cluster
  /-- A valid configuration is refused just when a live cluster has its name. -/
  created : ∀ (τ : Type) [Quantity τ] (config : ClusterConfig), config.validate = .ok () →
    ((∃ (c : Cluster τ) (r : Registry), Cluster.create config f.registry = .ok (c, r)) ↔
      config.name ∉ f.live)
  joined : ∀ config r, Cluster.enroll config f.registry = .done r →
    r.keys = f.registry.keys ++ Registry.keysOf config.name
  refused : ∀ config e r, Cluster.enroll config f.registry = .failed e r → r = f.registry
  /-- Dropping a cluster leaves what the others registered. -/
  spared : ∀ cluster other, other ≠ cluster → ∀ k ∈ Registry.keysOf other,
    (k ∈ (f.registry.dropCluster cluster).keys ↔ k ∈ f.registry.keys)

theorem Kept.nodup_keys (h : f.Kept) : f.registry.keys.Nodup := by
  rw [h.keys, List.nodup_flatMap]
  refine ⟨fun cluster _ => Registry.nodup_keysOf cluster, h.distinct.imp fun hne k hk hk' => ?_⟩
  exact Registry.not_mem_keysOf_of_ne hk hne hk'

theorem exists_create_iff {τ : Type} [Quantity τ] {r : Registry} :
    (∃ (c : Cluster τ) (s : Registry), Cluster.create config r = .ok (c, s)) ↔
      ∃ s, Cluster.enroll config r = .done s := by
  simp only [Cluster.create]
  cases Cluster.enroll config r with
  | done s => exact ⟨fun _ => ⟨s, rfl⟩, fun _ => ⟨Cluster.ofConfig config, s, rfl⟩⟩
  | failed e s => simp

theorem Kept.independent (h : f.Kept) : f.Independent := by
  refine ⟨⟨h.nodup_keys, fun k => ?_⟩, fun τ _ config hvalid => ?_, fun config r hr => ?_,
    fun config e r => registry_of_failed, fun cluster other hne k hk => ?_⟩
  · rw [h.keys, List.mem_flatMap]
  · exact exists_create_iff.trans (h.enroll hvalid)
  · exact keys_of_done hr
  · rw [Registry.keys_dropCluster, List.mem_filter]
    simp [Registry.not_mem_keysOf_of_ne hk hne]

/-- Metrics are registered all or not at all, so clusters in one registry do not disturb each other. -/
theorem registers_wholly :
    (∀ (r : Registry) (cluster : String), r.Atomic cluster) ∧
      ∀ changes : List Change, (changes.foldl change {}).Independent :=
  ⟨Registry.atomic, fun _ => (kept_run .empty).independent⟩

end Fleet

end Roster
