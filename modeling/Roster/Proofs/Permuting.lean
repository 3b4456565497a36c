import Mathlib.Data.List.Perm.Basic
import Mathlib.Logic.Equiv.Basic
import Roster.Proofs.Commuting
import Roster.Proofs.Weighting

/-!
# Roster.Proofs.Permuting

Assignments that say the same in another order: their groups are permuted, and the endpoints of each.

* `Reorders`        — such assignments; `exists_twins` pairs their endpoints.
* `lastWeight?_eq`  — the order decides between two weights for one locality, and only then matters.
* `Renames`         — the hosts made for the one are those made for the other under new names.
* `exists_agrees`   — so both ask the same of every cluster.
* `mirrors_deliver` — delivered in either order they lead to the same cluster.
-/

namespace Roster

/-- Lists of the same hosts are equal under new names for these hosts. -/
theorem exists_renaming {ids ids' : List HostId} (h : ids.Perm ids') (hnodup : ids.Nodup) :
    ∃ ρ : Equiv.Perm HostId, ids.map ρ = ids' ∧ ∀ i, i ∉ ids → ρ i = i := by
  induction h with
  | nil => exact ⟨Equiv.refl HostId, rfl, fun _ _ => rfl⟩
  | @cons i ids ids' _ ih =>
    obtain ⟨hi, hrest⟩ := List.nodup_cons.1 hnodup
    obtain ⟨ρ, hmap, hfixed⟩ := ih hrest
    exact ⟨ρ, by rw [List.map_cons, hmap, hfixed i hi], fun j hj =>
      hfixed j fun hm => hj (List.mem_cons_of_mem i hm)⟩
  | swap i j ids =>
    have hother : ∀ k, k ≠ i → k ≠ j → Equiv.swap i j k = k := fun k =>
      Equiv.swap_apply_of_ne_of_ne
    simp only [List.nodup_cons, List.mem_cons, not_or] at hnodup
    obtain ⟨⟨_, hj⟩, hi, _⟩ := hnodup
    have hrest : ids.map (Equiv.swap i j) = ids := by
      refine (List.map_congr_left fun k hk => ?_).trans (List.map_id ids)
      exact hother k (fun h => hi (h ▸ hk)) fun h => hj (h ▸ hk)
    refine ⟨Equiv.swap i j, ?_, fun k hk => ?_⟩
    · rw [List.map_cons, List.map_cons, Equiv.swap_apply_right, Equiv.swap_apply_left, hrest]
    · simp only [List.mem_cons, not_or] at hk
      exact hother k hk.2.1 hk.1
  | trans h₁ _ ih₁ ih₂ =>
    obtain ⟨ρ₁, hmap₁, hfixed₁⟩ := ih₁ hnodup
    obtain ⟨ρ₂, hmap₂, hfixed₂⟩ := ih₂ (h₁.nodup_iff.1 hnodup)
    refine ⟨ρ₁.trans ρ₂, ?_, fun i hi => ?_⟩
    · rw [← hmap₂, ← hmap₁, List.map_map]
      rfl
    · rw [Equiv.trans_apply, hfixed₁ i hi, hfixed₂ i (mt h₁.mem_iff.2 hi)]

/-! ## Assignments -/

/-- The same group, its endpoints in any order. -/
structure EndpointGroup.Reorders (g h : EndpointGroup) : Prop where
  locality : h.locality = g.locality
  weight : h.weight? = g.weight?
  priority : h.priority = g.priority
  endpoints : h.endpoints.Perm g.endpoints

/-- The same assignment, its groups and the endpoints of each in any order. -/
structure Assignment.Reorders (a a' : Assignment) : Prop where
  factor : a'.overprovisioningFactor? = a.overprovisioningFactor?
  groups : ∃ gs, List.Forall₂ EndpointGroup.Reorders a.groups gs ∧ gs.Perm a'.groups

/-- Of the groups of one priority and locality at most one has a weight. -/
def Assignment.WeighsOnce (a : Assignment) : Prop :=
  a.groups.Pairwise fun g h => g.priority = h.priority → g.locality = h.locality →
    ¬ (g.weight?.isSome ∧ h.weight?.isSome)

/-- The same endpoint, in groups of one priority and locality. -/
structure Arrival.Twin (x y : Arrival) : Prop where
  endpoint : y.endpoint = x.endpoint
  locality : y.group.locality = x.group.locality
  priority : y.group.priority = x.group.priority

namespace Arrival.Twin

variable {x y : Arrival} (h : x.Twin y)

include h

theorem text : y.text = x.text := congrArg (fun e : Endpoint => e.address.text) h.endpoint

theorem level : y.level = x.level := congrArg UInt32.toNat h.priority

theorem host : y.host = x.host := by
  rw [Arrival.host_eq, Arrival.host_eq, h.endpoint, h.locality, h.level]

end Arrival.Twin

/-- The endpoints of two assignments that say the same, those of the second in the order of the first. -/
theorem Assignment.Reorders.exists_twins {a a' : Assignment} (h : a.Reorders a') (n : Nat) :
    ∃ ys, List.Forall₂ Arrival.Twin (a.arrivals n) ys ∧ ys.Perm (a'.arrivals n) := by
  -- an endpoint with its group stands for itself in its group
  let twin (m m' : EndpointGroup × Endpoint) : Prop := Arrival.Twin ⟨m.1, m.2, 0⟩ ⟨m'.1, m'.2, 0⟩
  have hgroups : ∀ gs hs : List EndpointGroup, List.Forall₂ EndpointGroup.Reorders gs hs →
      ∃ ms, List.Forall₂ twin (gs.flatMap fun g => g.endpoints.map (g, ·)) ms ∧
        ms.Perm (hs.flatMap fun g => g.endpoints.map (g, ·)) := by
    intro gs hs hrel
    induction hrel with
    | nil => exact ⟨[], .nil, .nil⟩
    | @cons g h gs hs hgh _ ih =>
      obtain ⟨ms, hms, hperm⟩ := ih
      refine ⟨g.endpoints.map (h, ·) ++ ms, List.rel_append ?_ hms,
        (hgh.endpoints.symm.map (h, ·)).append hperm⟩
      rw [List.forall₂_map_left_iff, List.forall₂_map_right_iff, List.forall₂_same]
      exact fun e _ => ⟨rfl, hgh.locality, hgh.priority⟩
  obtain ⟨gs, hgs, hperm⟩ := h.groups
  obtain ⟨ms, hms, hmsPerm⟩ := hgroups _ _ hgs
  have hmsMembers : ms.Perm a'.members := hmsPerm.trans (hperm.flatMap_right _)
  have harrivals : List.Forall₂ (fun (m : EndpointGroup × Endpoint) (y : Arrival) =>
      m = (y.group, y.endpoint)) a'.members (a'.arrivals n) := by
    rw [← List.forall₂_map_right_iff, map_arrivals, List.forall₂_same]
    exact fun _ _ => rfl
  obtain ⟨ys, hys, hysPerm⟩ := List.perm_comp_forall₂ hmsMembers harrivals
  refine ⟨ys, ?_, hysPerm⟩
  rw [← List.forall₂_map_right_iff, List.forall₂_eq_eq_eq] at hys
  subst hys
  have hmembers : List.Forall₂ twin a.members (ys.map fun y => (y.group, y.endpoint)) := hms
  rw [← map_arrivals a n, List.forall₂_map_left_iff, List.forall₂_map_right_iff] at hmembers
  exact hmembers.imp fun _ _ hxy => ⟨hxy.endpoint, hxy.locality, hxy.priority⟩

/-! ## Drafts -/

namespace Draft

theorem length_registerEndpoints (g : EndpointGroup) (es : List Endpoint) (store : HostStore)
    (d : Draft) (hd : g.level < d.levels.length) :
    (registerEndpoints g es (store, d)).2.levels.length = d.levels.length := by
  induction es generalizing store d with
  | nil => rfl
  | cons e es ih =>
    have hlength : ∀ id, (d.register g id).levels.length = d.levels.length := fun id => by
      rw [register, length_modify]
      exact Nat.max_eq_left hd
    exact (ih _ _ (by rwa [hlength])).trans (hlength _)

theorem length_registerGroups_le_iff (groups : List EndpointGroup) (store : HostStore) (d : Draft)
    (n : Nat) : (registerGroups groups (store, d)).2.levels.length ≤ n ↔
      d.levels.length ≤ n ∧ ∀ g ∈ groups, g.level < n := by
  induction groups generalizing store d with
  | nil => simp [registerGroups]
  | cons g groups ih =>
    have hopen : (d.openGroup g).levels.length = max d.levels.length (g.level + 1) :=
      length_modify _ _ _
    have hlt : g.level < (d.openGroup g).levels.length := by omega
    rw [registerGroups, ih, length_registerEndpoints _ _ _ _ hlt, hopen]
    rw [List.forall_mem_cons, Nat.max_le, Nat.succ_le_iff, and_assoc]

theorem ordered_registerGroups (groups : List EndpointGroup) (store : HostStore) {d : Draft}
    {p : Nat} (hd : Assoc.Ordered (d.weightsAt p)) :
    Assoc.Ordered ((registerGroups groups (store, d)).2.weightsAt p) := by
  induction groups generalizing store d with
  | nil => exact hd
  | cons g groups ih =>
    refine ih _ ?_
    rw [weightsAt_registerEndpoints, weightsAt_eq, openGroup, levelAt_modify]
    rw [weightsAt_eq] at hd
    split
    · rename_i hp
      rw [hp] at hd
      simp only
      split
      · split
        · exact hd
        · exact hd.insert
      · exact hd
    · exact hd

end Draft

namespace Assignment.Reorders

variable {a a' : Assignment} (h : a.Reorders a')

include h

theorem forall_groups {P : EndpointGroup → Prop} (hP : ∀ g h, EndpointGroup.Reorders g h → (P g ↔ P h)) :
    (∀ g ∈ a'.groups, P g) ↔ ∀ g ∈ a.groups, P g := by
  obtain ⟨gs, hgs, hperm⟩ := h.groups
  have hsame : ∀ ks ls : List EndpointGroup, List.Forall₂ EndpointGroup.Reorders ks ls →
      ((∀ g ∈ ls, P g) ↔ ∀ g ∈ ks, P g) := by
    intro ks ls hrel
    induction hrel with
    | nil => simp
    | cons hgh _ ih => simp only [List.forall_mem_cons, ih, hP _ _ hgh]
  rw [← hsame _ _ hgs]
  exact forall_congr' fun g => imp_congr_left hperm.mem_iff.symm

theorem lastWeight?_eq (hweighs : a.WeighsOnce) (p : Nat) (l : Locality) :
    lastWeight? a'.groups p l = lastWeight? a.groups p l := by
  obtain ⟨gs, hgs, hperm⟩ := h.groups
  let weight? (g : EndpointGroup) : Option UInt32 :=
    if g.level = p ∧ g.locality = l then g.weight? else none
  have hweight : ∀ g k, EndpointGroup.Reorders g k → weight? g = weight? k := fun g k hgk => by
    simp only [weight?, EndpointGroup.level, hgk.priority, hgk.locality, hgk.weight]
    rfl
  have hsame : gs.filterMap weight? = a.groups.filterMap weight? := by
    rw [← List.forall₂_eq_eq_eq]
    refine List.rel_filterMap (fun k g hgk => ?_) hgs.flip
    rw [hweight g k hgk]
    cases weight? k with
    | none => exact .none
    | some w => exact .some rfl
  have hperm : (a'.groups.filterMap weight?).Perm (a.groups.filterMap weight?) :=
    hsame ▸ (hperm.filterMap weight?).symm
  have hone : (a.groups.filterMap weight?).Pairwise fun _ _ => False := by
    refine List.pairwise_filterMap.2 (hweighs.imp fun {g k} hgk w hw v hv => ?_)
    obtain ⟨⟨hg, hgl⟩, hgw⟩ := Option.ite_none_right_eq_some.1 hw
    obtain ⟨⟨hk, hkl⟩, hkw⟩ := Option.ite_none_right_eq_some.1 hv
    exact hgk (UInt32.toNat_inj.1 (hg.trans hk.symm)) (hgl.trans hkl.symm) ⟨by simp [hgw], by simp [hkw]⟩
  have heq : a'.groups.filterMap weight? = a.groups.filterMap weight? := by
    cases hlist : a.groups.filterMap weight? with
    | nil =>
      rw [hlist] at hperm
      exact hperm.eq_nil
    | cons w ws =>
      rw [hlist] at hperm hone
      cases ws with
      | nil => exact List.perm_singleton.1 hperm
      | cons v ws => exact absurd (List.mem_cons_self) fun hv => (List.pairwise_cons.1 hone).1 v hv
  exact congrArg (fun ws : List UInt32 => ws.getLast?.map UInt32.toNat) heq

end Assignment.Reorders

/-! ## Deliveries -/

namespace DynamicCluster

variable {τ : Type} {dc : DynamicCluster τ} {a a' : Assignment}

/-- The hosts made for the endpoints of `a` are those made for `a'` under new names. -/
structure Renames (dc : DynamicCluster τ) (a a' : Assignment) (ρ : Equiv.Perm HostId) : Prop where
  twins : ∃ ys, List.Forall₂ (fun x y : Arrival => x.Twin y ∧ y.id = ρ x.id) (dc.arrivals a) ys ∧
    ys.Perm (dc.arrivals a')
  others : ∀ i, i ∉ (dc.arrivals a).map Arrival.id → ρ i = i

theorem exists_renames (h : a.Reorders a') (dc : DynamicCluster τ) : ∃ ρ, dc.Renames a a' ρ := by
  obtain ⟨ys, hys, hperm⟩ := h.exists_twins dc.cluster.hosts.size
  have hlength : (dc.arrivals a').length = (dc.arrivals a).length :=
    hperm.length_eq.symm.trans hys.length_eq.symm
  have hids : ((dc.arrivals a').map Arrival.id) = (dc.arrivals a).map Arrival.id := by
    have hrange : ∀ b, (dc.arrivals b).map Arrival.id =
        List.range' dc.cluster.hosts.size (dc.arrivals b).length := fun b =>
      ids_arrivalsOf b.groups dc.cluster.hosts.size
    rw [hrange, hrange, hlength]
  have hsame : ((dc.arrivals a).map Arrival.id).Perm (ys.map Arrival.id) :=
    hids ▸ (hperm.map Arrival.id).symm
  obtain ⟨ρ, hmap, hothers⟩ := exists_renaming hsame (nodup_ids_arrivalsOf a.groups _)
  refine ⟨ρ, ⟨ys, ?_, hperm⟩, hothers⟩
  have hnames : List.Forall₂ (fun x y : Arrival => ρ x.id = y.id) (dc.arrivals a) ys := by
    rwa [List.map_map, ← List.forall₂_eq_eq_eq, List.forall₂_map_left_iff,
      List.forall₂_map_right_iff] at hmap
  exact List.Forall₂.mp (fun _ _ htwin hname => ⟨htwin, hname.symm⟩) hys hnames

namespace Renames

variable {ρ : Equiv.Perm HostId} (h : dc.Renames a a' ρ)

include h

theorem exists_twin {x : Arrival} (hx : x ∈ dc.arrivals a) :
    ∃ y ∈ dc.arrivals a', x.Twin y ∧ y.id = ρ x.id := by
  obtain ⟨ys, hys, hperm⟩ := h.twins
  have hmem : ∀ xs zs : List Arrival,
      List.Forall₂ (fun x y : Arrival => x.Twin y ∧ y.id = ρ x.id) xs zs →
      x ∈ xs → ∃ y ∈ zs, x.Twin y ∧ y.id = ρ x.id := by
    intro xs zs hrel
    induction hrel with
    | nil => exact fun hx => absurd hx List.not_mem_nil
    | @cons u v us vs huv _ ih =>
      intro hx
      rcases List.mem_cons.1 hx with rfl | hx
      · exact ⟨v, List.mem_cons_self, huv⟩
      · obtain ⟨y, hy, hxy⟩ := ih hx
        exact ⟨y, List.mem_cons_of_mem v hy, hxy⟩
  obtain ⟨y, hy, hxy⟩ := hmem _ _ hys hx
  exact ⟨y, hperm.mem_iff.1 hy, hxy⟩

theorem length_eq : (dc.arrivals a').length = (dc.arrivals a).length := by
  obtain ⟨ys, hys, hperm⟩ := h.twins
  rw [← hperm.length_eq, hys.length_eq]

theorem size_plan : (dc.plan a').2.size = (dc.plan a).2.size := by
  rw [(dc.registered_plan a').size, (dc.registered_plan a).size]
  exact congrArg (dc.cluster.hosts.size + ·) h.length_eq

theorem fixed {i : HostId} (hi : i < dc.cluster.hosts.size) : ρ i = i := by
  refine h.others i fun hm => ?_
  obtain ⟨x, hx, rfl⟩ := List.mem_map.1 hm
  exact Nat.not_lt.2 (Underway.id_lt hx).1 hi

theorem mirrors_hosts : (dc.plan a).2.Mirrors ρ (dc.plan a').2 where
  size := h.size_plan
  known i := by
    by_cases hm : i ∈ (dc.arrivals a).map Arrival.id
    · obtain ⟨x, hx, rfl⟩ := List.mem_map.1 hm
      obtain ⟨y, hy, _, hid⟩ := h.exists_twin hx
      have hlt := (Underway.id_lt hy).2
      rw [hid, h.size_plan] at hlt
      exact iff_of_true hlt (Underway.id_lt hx).2
    · rw [h.others i hm]
  get i := by
    by_cases hm : i ∈ (dc.arrivals a).map Arrival.id
    · obtain ⟨x, hx, rfl⟩ := List.mem_map.1 hm
      obtain ⟨y, hy, htwin, hid⟩ := h.exists_twin hx
      rw [← hid, (dc.registered_plan a').new y hy, (dc.registered_plan a).new x hx, htwin.host]
    · rw [h.others i hm]
      rcases Nat.lt_or_ge i dc.cluster.hosts.size with hi | hi
      · rw [(dc.registered_plan a').old i hi, (dc.registered_plan a).old i hi]
      · have hge : (dc.plan a).2.size ≤ i := by
          refine Nat.not_lt.1 fun hlt => hm ?_
          obtain ⟨x, hx, rfl⟩ := exists_arrival hi hlt
          exact List.mem_map_of_mem hx
        rw [HostStore.get_of_size_le _ hge, HostStore.get_of_size_le _ (h.size_plan ▸ hge)]

theorem perm_hostsAt (p : Nat) :
    ((dc.plan a').1.draft.hostsAt p).Perm (((dc.plan a).1.draft.hostsAt p).map ρ) := by
  obtain ⟨ys, hys, hperm⟩ := h.twins
  have hlevel : List.Forall₂ (fun x y : Arrival => x.Twin y ∧ y.id = ρ x.id)
      (dc.arrivalsAt a p) (ys.filter fun y => y.level = p) :=
    List.rel_filter (fun x y hxy => by simp [hxy.1.level]) hys
  have hids : (ys.filter fun y => y.level = p).map Arrival.id =
      ((dc.arrivalsAt a p).map Arrival.id).map ρ := by
    rw [List.map_map, ← List.forall₂_eq_eq_eq, List.forall₂_map_left_iff,
      List.forall₂_map_right_iff]
    exact hlevel.flip.imp fun _ _ hxy => hxy.2
  rw [hostsAt_draft, hostsAt_draft, ← hids]
  exact ((hperm.filter _).map Arrival.id).symm

theorem mem_texts (b : String) : b ∈ a'.texts ↔ b ∈ a.texts := by
  obtain ⟨ys, hys, hperm⟩ := h.twins
  have htexts : ys.map Arrival.text = (dc.arrivals a).map Arrival.text := by
    rw [← List.forall₂_eq_eq_eq, List.forall₂_map_left_iff, List.forall₂_map_right_iff]
    exact hys.flip.imp fun _ _ hxy => hxy.1.text
  rw [← map_text_arrivals dc a', ← map_text_arrivals dc a, ← htexts,
    (hperm.map Arrival.text).mem_iff]

end Renames

/-- Assignments that differ in order ask the same of every cluster. -/
theorem exists_agrees (h : a.Reorders a') (hweighs : a.WeighsOnce) (dc : DynamicCluster τ) :
    ∃ ρ, dc.Agrees a a' ρ := by
  obtain ⟨ρ, hρ⟩ := exists_renames h dc
  have hordered : ∀ (c : Assignment) (p : Nat),
      Assoc.Ordered ((dc.plan c).1.draft.weightsAt p) := fun c p =>
    Draft.ordered_registerGroups c.groups dc.cluster.hosts (d := {}) .nil
  refine ⟨ρ, hρ.mirrors_hosts, fun _ hi => hρ.fixed hi, hρ.perm_hostsAt, hρ.mem_texts, ?_,
    fun p => ?_, ?_⟩
  · rw [ClusterConfig.factorFor, h.factor, ClusterConfig.factorFor]
  · refine Assoc.Ordered.ext (hordered a' p) (hordered a p) fun l => ?_
    have hfind := fun c : Assignment =>
      Draft.find?_registerGroups c.groups dc.cluster.hosts {} p l
    refine (hfind a').trans (Eq.trans ?_ (hfind a).symm)
    rw [h.lastWeight?_eq hweighs]
  · have hlength : (dc.plan a').1.draft.levels.length = (dc.plan a).1.draft.levels.length := by
      have hle := fun (c : Assignment) (n : Nat) =>
        Draft.length_registerGroups_le_iff c.groups dc.cluster.hosts {} n
      have hgroups := fun n : Nat => h.forall_groups (P := fun g => g.level < n) fun g k hgk => by
        rw [EndpointGroup.level, EndpointGroup.level, hgk.priority]
      have hsame : ∀ n, (dc.plan a').1.draft.levels.length ≤ n ↔
          (dc.plan a).1.draft.levels.length ≤ n := fun n =>
        (hle a' n).trans ((and_congr_right fun _ => hgroups n).trans (hle a n).symm)
      exact Nat.le_antisymm ((hsame _).2 (Nat.le_refl _)) ((hsame _).1 (Nat.le_refl _))
    rw [span, span, hlength]

end DynamicCluster

/-! ## Runs -/

theorem Action.IsClean.not_isInstall {act : Action} (h : act.IsClean) : ¬ act.IsInstall := by
  cases act with
  | update u => exact h
  | batch us => exact h
  | updateLevel u => exact h
  | _ => exact id

namespace Service

variable {τ : Type}

/-- Two services that come from `s` are the same, but for the names of the hosts that are new since and the
order of hosts within lists. -/
structure Mirrors (ρ : Equiv.Perm HostId) (s t u : Service τ) : Prop where
  source : u.source = t.source
  fixed : ∀ i, i < s.cluster.hosts.size → ρ i = i
  body : t.body.Mirrors u.cluster.hosts.addressText ρ s.cluster.priorities.journal.events u.body

variable [Quantity τ] {s : Service τ} {config : ClusterConfig} {a a' : Assignment}

/-- The order of an assignment does not matter. Delivered in another order, its groups permuted and the
endpoints within them, an assignment that names every address once, and gives a locality of a priority
one weight at most, leads to the same hosts, levels, index, reports and counters. -/
theorem mirrors_deliver (hconfig : config.validate = .ok ())
    (hs : Reaches (fun _ act => act.IsClean) (fresh τ config) s)
    (ha : config.validateAssignment a = .ok ()) (ha' : config.validateAssignment a' = .ok ())
    (hclean : a.Clean) (hclean' : a'.Clean) (hweighs : a.WeighsOnce) (h : a.Reorders a') :
    ∃ ρ t u, s.deliver a = .done t ∧ s.deliver a' = .done u ∧ s.Mirrors ρ t u := by
  have hsound := sound_of_reaches hconfig (reaches_knows hs)
  have horderly := orderly_of_reaches hconfig hs
  have hordered := ordered_of_reaches hconfig hs
  have hcomposed : s.cluster.Composed config :=
    (composed_of_reaches hconfig (hs.mono fun _ _ hact => hact.not_isInstall)
      (composed_opened .discovered config)).2
  have hf := hsound.factorFor_ne_zero hconfig ha
  obtain ⟨ρ, hagrees⟩ := DynamicCluster.exists_agrees h hweighs s.body
  obtain ⟨new, t, ht, hnew, _⟩ := exists_deliver hconfig hsound ha
  obtain ⟨new', u, hu, hnew', _⟩ := exists_deliver hconfig hsound ha'
  have hmirrors := hagrees.mirrors_complete hf hclean' horderly hcomposed hordered hclean
  rw [← hnew.complete, ← hnew'.complete] at hmirrors
  have htext : u.cluster.hosts.addressText = (s.body.plan a').2.addressText :=
    funext (hnew'.addressText hsound.cluster (hsound.factorFor_ne_zero hconfig ha'))
  exact ⟨ρ, _, _, ht, hu, rfl, hagrees.fixed, htext ▸ hmirrors⟩

/-- Two groups of one level, the second weighted. -/
def eastFirst : Assignment :=
  { groups :=
      [{ locality := { region := "east" }, endpoints := [{ address := ⟨.ipv4 ⟨10, 0, 0, 1⟩, 80⟩ }] },
       { locality := { region := "west" }, weight? := some 2
         endpoints :=
          [{ address := ⟨.ipv4 ⟨10, 0, 0, 2⟩, 80⟩ }, { address := ⟨.ipv4 ⟨10, 0, 0, 3⟩, 80⟩ }] }] }

def westFirst : Assignment :=
  { groups :=
      [{ locality := { region := "west" }, weight? := some 2
         endpoints :=
          [{ address := ⟨.ipv4 ⟨10, 0, 0, 3⟩, 80⟩ }, { address := ⟨.ipv4 ⟨10, 0, 0, 2⟩, 80⟩ }] },
       { locality := { region := "east" }, endpoints := [{ address := ⟨.ipv4 ⟨10, 0, 0, 1⟩, 80⟩ }] }] }

/-- A watched cluster with one of their hosts. -/
def occupied : Service Rat :=
  (run [.watchPriorities [], .watchMembers [], .deliver (lone 1)] (fresh Rat {})).state

theorem mirrors_occupied :
    ∃ ρ t u, occupied.deliver eastFirst = .done t ∧ occupied.deliver westFirst = .done u ∧
      occupied.Mirrors ρ t u := by
  have hrun : run [.watchPriorities [], .watchMembers [], .deliver (lone 1)] (fresh Rat {}) =
      .done occupied := rfl
  have hclean : ∀ act ∈ [Action.watchPriorities [], .watchMembers [], .deliver (lone 1)],
      act.IsClean := by
    simp [Action.IsClean, Action.IsDirect, clean_lone]
  have heast : eastFirst.Clean :=
    ⟨by simp [eastFirst, Assignment.members],
      by simp [eastFirst, Assignment.members, AddressKind.Proper]⟩
  have hwest : westFirst.Clean :=
    ⟨by simp [westFirst, Assignment.members],
      by simp [westFirst, Assignment.members, AddressKind.Proper]⟩
  have hweighs : eastFirst.WeighsOnce := by simp [eastFirst, Assignment.WeighsOnce]
  have hreorders : eastFirst.Reorders westFirst := by
    refine ⟨rfl, westFirst.groups.reverse, ?_, List.reverse_perm _⟩
    exact .cons ⟨rfl, rfl, rfl, .refl _⟩ (.cons ⟨rfl, rfl, rfl, .swap _ _ _⟩ .nil)
  exact mirrors_deliver rfl (.of_run (fun act hact _ => hclean act hact) hrun) rfl rfl heast
    hwest hweighs hreorders

end Service

end Roster
