import Roster.Proofs.Draining
import Roster.Proofs.Reuse

/-!
# Roster.Proofs.Resending

The same assignment delivered again. What the first delivery left behind decides whether the second one
changes anything: a host that drains beside the host of an endpoint leaves then.

* `Settled`   — what a delivery leaves behind, read by the same assignment; `Delivered.settled`.
* `Idle`      — an endpoint that updates its host in place without any effect.
* `forall_unchanged_iff` — no level is to be installed again exactly if every endpoint is idle.
* `Unmoved`   — a delivery that installs nothing and tells of nothing.
* `unmoved_resent_iff` — when the same assignment delivered again does just that; with addresses named
  once, `unmoved_resent_iff_of_clean` says that it is when nobody drains at them.
-/

namespace Roster

/-! ## What a delivery leaves behind -/

namespace DynamicCluster

variable {τ : Type} {dc t : DynamicCluster τ} {a : Assignment} {p : Nat}

theorem sameWeights_plan (dc t : DynamicCluster τ) (a : Assignment) :
    Draft.SameWeights (dc.plan a).1.draft (t.plan a).1.draft :=
  Draft.SameWeights.registerGroups ⟨rfl, fun _ => rfl⟩ a.groups dc.cluster.hosts t.cluster.hosts

theorem exists_arrivalsAt {b : String} :
    (∃ x ∈ dc.arrivalsAt a p, x.text = b) ↔
      ∃ m ∈ a.members, m.1.level = p ∧ m.2.address.text = b := by
  rw [← map_arrivals a dc.cluster.hosts.size]
  simp only [List.mem_map, exists_exists_and_eq_and, mem_arrivalsAt, and_assoc]
  rfl

variable [Quantity τ]

/-- Levels are those that the assignment asks for, with its factor and weights; every host is at the
address of an endpoint of its level or stays to drain; and initialization is not waited for. -/
structure Settled (t : DynamicCluster τ) (a : Assignment) : Prop where
  started : t.cluster.started = true
  span : t.span (t.plan a).1 = t.cluster.priorities.levels.length
  factor : ∀ p g, t.cluster.priorities.generation? p = some g →
    g.factor = t.cluster.config.factorFor a
  weights : ∀ p, p < t.cluster.priorities.levels.length →
    t.weights[p]?.getD [] = (t.plan a).1.draft.weightsAt p
  hosts : ∀ p, ∀ i ∈ t.cluster.priorities.hostsAt p,
    (∃ x ∈ t.arrivalsAt a p, x.text = t.cluster.hosts.addressText i) ∨ t.stays a p i = true

section Sound

variable (hs : dc.cluster.Sound) (hf : dc.cluster.config.factorFor a ≠ 0)

include hs hf

theorem named_or_withdrawn_of_stays {i : HostId} (hi : i ∈ dc.left a p)
    (hstays : dc.stays a p i = true) :
    (∃ x ∈ dc.arrivalsAt a p, x.text = dc.cluster.hosts.addressText i) ∨ dc.Withdrawn a p i := by
  by_cases hb : dc.cluster.hosts.addressText i ∈ a.texts
  · obtain ⟨x, hx, htext, _⟩ :=
      ((stays_iff hs hf (lt_size_of_mem_left hs hi)).1 hstays).here hb
    exact .inl ⟨x, hx, htext⟩
  · exact .inr ⟨(left_sublist p).subset hi, hb⟩

variable {new : List Event} (ht : dc.Delivered a new t)

include ht

theorem Delivered.named_or_withdrawn {i : HostId} (hi : i ∈ t.cluster.priorities.hostsAt p) :
    (∃ x ∈ dc.arrivalsAt a p, x.text = t.cluster.hosts.addressText i) ∨ dc.Withdrawn a p i := by
  have hold : i < dc.cluster.hosts.size →
      t.cluster.hosts.addressText i = dc.cluster.hosts.addressText i := fun hlt =>
    (ht.addressText hs hf i).trans (addressText_plan hlt)
  have hin := hi
  rw [ht.hostsAt p] at hin
  split at hin
  · rename_i halone
    rw [hold (hs.known p i hin)]
    by_cases hr : dc.Renewed a p (dc.cluster.hosts.addressText i)
    · obtain ⟨x, hx, htext, _⟩ := hr
      exact .inl ⟨x, hx, htext⟩
    · have hleft := mem_left_of_not_renewed hs hf hin hr
      exact named_or_withdrawn_of_stays hs hf hleft
        (stays_of_unchanged hs hf (changed_of_isAlone halone) hleft)
  · rw [hosts_resultAt hs hf] at hin
    rcases List.mem_append.1 hin with hin | hin
    · obtain ⟨x, hx, rfl⟩ := List.mem_map.1 hin
      refine .inl ⟨x, hx, ?_⟩
      rw [ht.addressText hs hf, addressText_member hs (mem_arrivalsAt.1 hx).1]
    · obtain ⟨hleft, hstays⟩ := List.mem_filter.1 hin
      rw [hold (lt_size_of_mem_left hs hleft)]
      exact named_or_withdrawn_of_stays hs hf hleft hstays

theorem Withdrawn.stays_again {i : HostId} (h : dc.Withdrawn a p i)
    (hi : i ∈ t.cluster.priorities.hostsAt p) : t.stays a p i = true := by
  have htsound := ht.sound hs hf
  have htf : t.cluster.config.factorFor a ≠ 0 := by
    rw [ht.config]
    exact hf
  have htext := (ht.addressText hs hf i).trans (addressText_plan (h.lt hs))
  have hstays := (h.installed_iff hs hf ht).1 hi
  obtain ⟨hchecker, hrespected, hpasses⟩ := (h.stays_iff hs hf).1 hstays
  have hwithdrawn : t.Withdrawn a p i := ⟨hi, htext ▸ h.unnamed⟩
  refine (hwithdrawn.stays_iff htsound htf).2
    ⟨ht.hasChecker.trans hchecker, by rw [ht.config]; exact hrespected, ?_⟩
  rw [h.get_of_stays hs hf ht hstays]
  exact ⟨by simp [hpasses.active], by simp [hpasses.discovery], hpasses.checked⟩

theorem Delivered.settled : t.Settled a := by
  have hsame := sameWeights_plan dc t a
  have hdone := ht.concluded hs hf
  have hfinish := hdone.finish.installation
  have hlength : t.cluster.priorities.levels.length = dc.span (dc.plan a).1 := by
    rw [hdone.quiet.length, PrioritySet.length_congr hfinish]
    exact length_reached_span hs hf
  refine ⟨hdone.started, ?_, ?_, ?_, ?_⟩
  · have hspan : (dc.plan a).1.draft.levels.length ≤ dc.span (dc.plan a).1 := Nat.le_max_left _ _
    rw [span, hsame.length, hlength]
    exact Nat.max_eq_right hspan
  · intro p g hg
    obtain ⟨h, hh, hresplits⟩ := hdone.quiet.resplits p g hg
    rw [PrioritySet.generation?_congr hfinish] at hh
    have hp := PrioritySet.lt_of_generation? hh
    rw [length_reached_span hs hf] at hp
    rw [hresplits.factor, factor_reached hs hf hp hh, ht.config]
  · intro p hp
    rw [hlength] at hp
    rw [hdone.weights, weights_reached hs hf, if_pos hp, hsame.weightsAt]
  · intro p i hi
    refine (ht.named_or_withdrawn hs hf hi).imp (fun hnamed => ?_) fun h => h.stays_again hs hf ht hi
    exact exists_arrivalsAt.2 (exists_arrivalsAt.1 hnamed)

end Sound

/-! ## Endpoints without effect -/

/-- The endpoint updates the only host of its level at the address in place, and nothing comes of it. -/
structure Idle (dc : DynamicCluster τ) (x : Arrival) (e : HostId) : Prop where
  heir : dc.heir? x = some e
  priority : (dc.cluster.hosts.get e).priority = x.level
  still : (dc.cluster.hosts.get e).shifts x.host = false
  only : (dc.cluster.hosts.located x.text (dc.cluster.priorities.hostsAt x.level)).length = 1

section Levels

variable (hs : dc.cluster.Sound) (hf : dc.cluster.config.factorFor a ≠ 0)

include hs hf

/-- A host that no endpoint of a lower level updates in place is, when the turn of the level comes, as
it was for an update. -/
theorem still_of_not_lower {i : HostId} (hi : i < dc.cluster.hosts.size)
    (hlower : ¬ ∃ y ∈ dc.arrivals a, y.level < p ∧ dc.heir? y = some i) :
    ((dc.reached a p).hosts.get i).priority = (dc.cluster.hosts.get i).priority ∧
      ∀ d, ((dc.reached a p).hosts.get i).shifts d = (dc.cluster.hosts.get i).shifts d := by
  have hstart : (dc.reached a 0).hosts.get i = dc.cluster.hosts.get i :=
    (dc.registered_plan a).old i hi
  constructor
  · rcases priority_reached (a := a) hs hf hi p with ⟨hsome, _⟩ | ⟨_, hsame⟩
    · exact absurd hsome hlower
    · exact hsame
  · rw [← hstart]
    refine (still_reached hs hf hi (Nat.zero_le p) ?_).2
    intro q _ hq y hy he
    obtain ⟨hy, hlevel⟩ := mem_arrivalsAt.1 hy
    exact absurd ⟨y, hy, by omega, he⟩ hlower

/-- The endpoints of a level that is not to be installed again are idle. -/
theorem idle_of_unchanged {x : Arrival} (hx : x ∈ dc.arrivals a)
    (h : (dc.resultAt a x.level).changed = false) : ∃ e, dc.Idle x e := by
  have hat : x ∈ dc.arrivalsAt a x.level := mem_arrivalsAt.2 ⟨hx, rfl⟩
  obtain ⟨hshifts, _, _, hhere⟩ := (changed_resultAt hs hf).1 h
  obtain ⟨e, he, hpriority⟩ := heir?_of_unchanged hs hf h hat
  obtain ⟨htext, hlt⟩ := text_of_heir? hs he
  have hlower : ¬ ∃ y ∈ dc.arrivals a, y.level < x.level ∧ dc.heir? y = some e := by
    intro hlower
    rcases priority_reached (a := a) hs hf hlt x.level with ⟨_, hless⟩ | ⟨hnone, _⟩
    · omega
    · exact hnone hlower
  obtain ⟨hsame, hstill⟩ := still_of_not_lower hs hf hlt hlower
  refine ⟨e, he, hsame.symm.trans hpriority, ?_, ?_⟩
  · rw [← hstill]
    exact hshifts x hat e he
  · have htail : (dc.cluster.hosts.located x.text
        (dc.cluster.priorities.hostsAt x.level)).tail = [] := by
      refine List.eq_nil_iff_forall_not_mem.2 fun j hj => ?_
      -- another host at the address would be left, and stay only beside a host that is new
      have hjx := (HostStore.mem_located.1 (List.mem_of_mem_tail hj)).2
      have hleft := (mem_left_iff hs hf hat he hjx).2 hj
      have hdrains := (stays_iff hs hf (lt_size_of_mem_left hs hleft)).1
        (stays_of_unchanged hs hf h hleft)
      obtain ⟨y, hy, _, hnone⟩ := hdrains.here (hjx ▸ text_mem_texts hx)
      obtain ⟨k, hk, _⟩ := heir?_of_unchanged hs hf h hy
      rw [hnone] at hk
      cases hk
    have hpos := List.length_pos_iff.2 (hhere x.text ⟨x, hat, rfl, by rw [he]; rfl⟩)
    have hone := congrArg List.length htail
    rw [List.length_tail, List.length_nil] at hone
    omega

/-- A level is not to be installed again if all endpoints are idle and its hosts are theirs or stay. -/
theorem unchanged_of_idle (hidle : ∀ x ∈ dc.arrivals a, ∃ e, dc.Idle x e)
    (hhosts : ∀ i ∈ dc.cluster.priorities.hostsAt p,
      (∃ x ∈ dc.arrivalsAt a p, x.text = dc.cluster.hosts.addressText i) ∨ dc.stays a p i = true) :
    (dc.resultAt a p).changed = false := by
  have hat : ∀ x ∈ dc.arrivalsAt a p, ∃ e, dc.Idle x e ∧ x.level = p ∧
      ((dc.reached a p).hosts.get e).priority = p ∧
      ((dc.reached a p).hosts.get e).shifts x.host = false := by
    intro x hx
    obtain ⟨hx, hlevel⟩ := mem_arrivalsAt.1 hx
    obtain ⟨e, he⟩ := hidle x hx
    have hlower : ¬ ∃ y ∈ dc.arrivals a, y.level < p ∧ dc.heir? y = some e := by
      rintro ⟨y, hy, hless, hye⟩
      obtain ⟨k, hk⟩ := hidle y hy
      have hke : k = e := Option.some.inj (hk.heir.symm.trans hye)
      have hpriority := hk.priority
      rw [hke, he.priority, hlevel] at hpriority
      omega
    obtain ⟨hsame, hstill⟩ := still_of_not_lower hs hf (text_of_heir? hs he.heir).2 hlower
    exact ⟨e, he, hlevel, hsame.trans (he.priority.trans hlevel), (hstill _).trans he.still⟩
  refine (changed_resultAt hs hf).2 ⟨?_, ?_, ?_, ?_⟩
  · intro x hx e he
    obtain ⟨k, hk, _, _, hstill⟩ := hat x hx
    rwa [Option.some.inj (he.symm.trans hk.heir)]
  · refine List.eq_nil_iff_forall_not_mem.2 fun i hi => ?_
    obtain ⟨x, hx, _, hpriority⟩ := (mem_added_resultAt hs hf).1 hi
    obtain ⟨k, hk, _, hsame, _⟩ := hat x hx
    exact hpriority k hk.heir hsame
  · rw [removed_resultAt hs hf]
    refine List.filter_eq_nil_iff.2 fun i hi => ?_
    rcases hhosts i ((left_sublist p).subset hi) with ⟨x, hx, htext⟩ | hstays
    · -- the only host at the address of an endpoint is not left
      obtain ⟨k, hk, hlevel, _⟩ := hat x hx
      have htail := (mem_left_iff hs hf hx hk.heir htext.symm).1 hi
      obtain ⟨j, hj⟩ := List.length_eq_one_iff.1 (hlevel ▸ hk.only)
      rw [hj] at htail
      cases htail
    · simp [hstays]
  · rintro b ⟨x, hx, rfl, _⟩ hnil
    obtain ⟨k, hk, hlevel, _⟩ := hat x hx
    have honly := hk.only
    rw [hlevel, hnil] at honly
    cases honly

/-- After a delivery, the same assignment asks for no level to be installed again exactly if all its
endpoints are idle. -/
theorem forall_unchanged_iff (h : dc.Settled a) :
    (∀ p, p < dc.cluster.priorities.levels.length → (dc.resultAt a p).changed = false) ↔
      ∀ x ∈ dc.arrivals a, ∃ e, dc.Idle x e := by
  constructor
  · intro hunchanged x hx
    have hlevel := level_lt_span hx
    rw [h.span] at hlevel
    exact idle_of_unchanged hs hf hx (hunchanged x.level hlevel)
  · intro hidle p _
    exact unchanged_of_idle hs hf hidle (h.hosts p)

theorem Settled.isAlone_iff (h : dc.Settled a)
    (hp : p < dc.cluster.priorities.levels.length) :
    dc.isAlone a p = true ↔ (dc.resultAt a p).changed = false := by
  refine ⟨changed_of_isAlone, fun hunchanged => ?_⟩
  have hgeneration : (dc.reached a p).batch.priorities.generation? p =
      dc.cluster.priorities.generation? p := generation?_reached_of_le hs hf (Nat.le_refl p)
  have hfactor : ((dc.reached a p).factorAt? p).getD (dc.plan a).1.factor = (dc.plan a).1.factor := by
    cases hl : (dc.reached a p).batch.priorities.level? p with
    | none => simp only [Rollout.factorAt?, hl, Option.map_none, Option.getD_none]
    | some l =>
      simp only [Rollout.factorAt?, hl, Option.map_some, Option.getD_some]
      refine h.factor p l.generation ?_
      rw [← hgeneration, PrioritySet.generation?, hl]
      rfl
  have hweights : (dc.reached a p).weights[p]?.getD [] = (dc.plan a).1.draft.weightsAt p := by
    rw [weights_reached hs hf, if_neg (Nat.lt_irrefl p)]
    exact h.weights p hp
  have hchanged : ((dc.reached a p).result (dc.plan a).1 p).changed = false := hunchanged
  simp only [isAlone, Rollout.isAlone, hchanged, hfactor, hweights, decide_true, Bool.not_false,
    Bool.and_self]

/-! ## Deliveries without effect -/

omit hs hf in
theorem priorities_complete (h : dc.cluster.started = true) (r : Rollout τ) :
    (dc.complete r).cluster.priorities = r.batch.finish := by
  simp [complete, settle, Cluster.preInitDone, h]

variable {u : DynamicCluster τ} {new : List Event} (hu : dc.Delivered a new u)

include hu

theorem Delivered.unmoved (h : dc.Settled a)
    (halone : ∀ p, p < dc.cluster.priorities.levels.length → dc.isAlone a p = true) :
    (∀ p, u.cluster.priorities.generation? p = dc.cluster.priorities.generation? p) ∧
      u.cluster.priorities.addressMap = dc.cluster.priorities.addressMap ∧
      u.cluster.priorities.journal.events = dc.cluster.priorities.journal.events ++
        PrioritySet.memberEvents dc.cluster.priorities.memberObservers.callbacks [] []
          dc.cluster.priorities.addressMap.length := by
  have hbatch : (dc.reached a (dc.span (dc.plan a).1)).batch =
      .start dc.cluster.priorities.readMap := by
    rw [h.span]
    exact batch_reached hs hf (Nat.le_refl _) halone
  have hread := PrioritySet.hears_readMap dc.cluster.priorities
  have htold := PrioritySet.hears_notifyMembers [] [] dc.cluster.priorities.readMap
  have hlevels : u.cluster.priorities = dc.cluster.priorities.readMap.notifyMembers [] [] := by
    rw [hu.complete, priorities_complete h.started, hbatch]
    rfl
  have hmap := PrioritySet.addressMap_congr hread.installation
  rw [hlevels]
  refine ⟨fun p => ?_, ?_, ?_⟩
  · rw [PrioritySet.generation?_congr htold.installation, PrioritySet.generation?_congr hread.installation]
  · rw [PrioritySet.addressMap_congr htold.installation, hmap]
  · rw [htold.events, hread.events, List.append_nil, hmap]
    rfl

theorem Delivered.noRebuild_iff :
    u.cluster.noRebuild = dc.cluster.noRebuild + 1 ↔
      ∀ p, p < dc.span (dc.plan a).1 → dc.isAlone a p = true := by
  rw [(hu.concluded hs hf).noRebuild, ← rebuilt_reached hs hf]
  cases (dc.reached a (dc.span (dc.plan a).1)).rebuilt <;> simp

end Levels

end DynamicCluster

namespace Service

variable {τ : Type}

/-- From `s` to `t` every level keeps its generation and the index its entries, the watches of the
members are told of no host and nobody of anything else, and one more delivery installed nothing. -/
structure Unmoved (s t : Service τ) : Prop where
  generations : ∀ p, t.cluster.priorities.generation? p = s.cluster.priorities.generation? p
  map : t.cluster.priorities.addressMap = s.cluster.priorities.addressMap
  news : s.news t = PrioritySet.memberEvents s.cluster.priorities.memberObservers.callbacks [] []
    s.cluster.priorities.addressMap.length
  noRebuild : t.cluster.noRebuild = s.cluster.noRebuild + 1

/-- The host `i` goes on as the host of the endpoint `e` of group `g`, unmoved and unshifted, and no
other host of the level is at the address. -/
structure Stands (s : Service τ) (g : EndpointGroup) (e : Endpoint) (i : HostId) : Prop
    extends s.Fits g e i where
  priority : (s.cluster.hosts.get i).priority = g.level
  still : (s.cluster.hosts.get i).shifts (Host.ofEndpoint g e) = false
  only : (s.cluster.hosts.located e.address.text (s.cluster.priorities.hostsAt g.level)).length = 1

theorem idle_iff {s : Service τ} {x : Arrival} {i : HostId} :
    s.body.Idle x i ↔ s.Stands x.group x.endpoint i := by
  constructor
  · intro h
    exact ⟨heir?_eq_some_iff.1 h.heir, h.priority, h.still, h.only⟩
  · intro h
    exact ⟨heir?_eq_some_iff.2 h.toFits, h.priority, h.still, h.only⟩

theorem forall_idle_iff {s : Service τ} {a : Assignment} :
    (∀ x ∈ s.body.arrivals a, ∃ i, s.body.Idle x i) ↔
      ∀ m ∈ a.members, ∃ i, s.Stands m.1 m.2 i := by
  rw [← map_arrivals a s.body.cluster.hosts.size, List.forall_mem_map]
  simp only [idle_iff]
  rfl

section Resent

variable [Quantity τ] {config : ClusterConfig} {s : Service τ} {a : Assignment}

theorem unmoved_iff_idle (hs : s.body.cluster.Sound) (hf : s.body.cluster.config.factorFor a ≠ 0)
    (h : s.body.Settled a) {new : List Event} {body : DynamicCluster τ}
    (hnew : s.body.Delivered a new body) :
    s.Unmoved { s with body } ↔ ∀ x ∈ s.body.arrivals a, ∃ e, s.body.Idle x e := by
  rw [← DynamicCluster.forall_unchanged_iff hs hf h]
  constructor
  · intro hunmoved p hp
    have halone := (hnew.noRebuild_iff hs hf).1 hunmoved.noRebuild
    rw [h.span] at halone
    exact DynamicCluster.changed_of_isAlone (halone p hp)
  · intro hunchanged
    have halone : ∀ p, p < s.body.cluster.priorities.levels.length → s.body.isAlone a p = true :=
      fun p hp => (h.isAlone_iff hs hf hp).2 (hunchanged p hp)
    obtain ⟨hgenerations, hmap, hevents⟩ := hnew.unmoved hs hf h halone
    refine ⟨hgenerations, hmap, ?_, (hnew.noRebuild_iff hs hf).2 (h.span.symm ▸ halone)⟩
    simp only [news, cluster, hevents, List.drop_left]

theorem exists_deliver_twice (hconfig : config.validate = .ok ()) (hs : Sound config s)
    (ha : config.validateAssignment a = .ok ()) :
    ∃ new body again, s.deliver a = .done { s with body } ∧ s.body.Delivered a new body ∧
      deliver { s with body } a = .done { s with body := again } ∧
      (Unmoved { s with body } { s with body := again } ↔
        ∀ m ∈ a.members, ∃ i, Stands { s with body } m.1 m.2 i) := by
  obtain ⟨new, body, hdone, hnew, hsound⟩ := exists_deliver hconfig hs ha
  obtain ⟨_, again, hdone', hagain, _⟩ := exists_deliver hconfig hsound ha
  have hsettled := hnew.settled hs.cluster (hs.factorFor_ne_zero hconfig ha)
  have hunmoved := unmoved_iff_idle hsound.cluster (hsound.factorFor_ne_zero hconfig ha) hsettled hagain
  exact ⟨new, body, again, hdone, hnew, hdone', hunmoved.trans forall_idle_iff⟩

/-- In every reachable state and for every valid assignment: delivered again at once, the assignment
has no effect exactly if for every endpoint the first delivery left one host at the address, which goes
on as it is. -/
theorem unmoved_resent_iff (hconfig : config.validate = .ok ())
    (hs : Reaches Knows (fresh τ config) s) (ha : config.validateAssignment a = .ok ()) :
    ∃ t u, s.deliver a = .done t ∧ t.deliver a = .done u ∧
      (t.Unmoved u ↔ ∀ m ∈ a.members, ∃ i, t.Stands m.1 m.2 i) := by
  obtain ⟨_, body, again, hdone, _, hdone', hunmoved⟩ :=
    exists_deliver_twice hconfig (sound_of_reaches hconfig hs) ha
  exact ⟨_, _, hdone, hdone', hunmoved⟩

end Resent

/-- Each endpoint has the one host at its address, so the assignment has no effect, although hosts have
changed places and one stays to drain. -/
theorem unmoved_resent_settled :
    settled.deliver crossed = .done resettled ∧
      ∃ u, resettled.deliver crossed = .done u ∧ resettled.Unmoved u := by
  have hconfig : ({} : ClusterConfig).validate = .ok () := rfl
  obtain ⟨t, u, ht, hu, hunmoved⟩ := unmoved_resent_iff hconfig reaches_settled (a := crossed) rfl
  cases ht
  refine ⟨rfl, u, hu, hunmoved.2 fun m hm => ?_⟩
  have hm : m ∈ [(_, _), (_, _), (_, _)] := hm
  simp only [List.mem_cons, List.not_mem_nil, or_false] at hm
  rcases hm with rfl | rfl | rfl
  · exact ⟨2, ⟨rfl, rfl, fun _ => ⟨rfl, rfl⟩⟩, rfl, rfl, rfl⟩
  · exact ⟨5, ⟨rfl, rfl, fun _ => ⟨rfl, rfl⟩⟩, rfl, rfl, rfl⟩
  · exact ⟨1, ⟨rfl, rfl, fun _ => ⟨rfl, rfl⟩⟩, rfl, rfl, rfl⟩

def passed : Service Rat :=
  (run [.setChecker, .watchPriorities [], .deliver (lone 1), .pass 0] (fresh Rat {})).state

/-- One endpoint that is checked at another port than before. -/
def rechecked : Assignment :=
  { groups :=
      [{ endpoints := [{ address := ⟨.ipv4 ⟨10, 0, 0, 1⟩, 80⟩, healthCheck := { port := 8080 } }] }] }

/-- The cluster of `passed`, whose host stays to drain beside the new one. -/
def replaced : Service Rat := (passed.deliver rechecked).state

/-- Delivered again, the assignment takes the host that drains out, and nobody else uses it. -/
theorem moved_resent_passed :
    Reaches Knows (fresh Rat {}) passed ∧
      ({} : ClusterConfig).validate = .ok () ∧
      ({} : ClusterConfig).validateAssignment rechecked = .ok () ∧ rechecked.Clean ∧
      passed.deliver rechecked = .done replaced ∧ replaced.cluster.priorities.hostsAt 0 = [1, 0] ∧
      ∃ u, replaced.deliver rechecked = .done u ∧ u.cluster.priorities.hostsAt 0 = [1] ∧
        ¬ replaced.Unmoved u := by
  have hrun : run [.setChecker, .watchPriorities [], .deliver (lone 1), .pass 0] (fresh Rat {}) =
      .done passed := rfl
  refine ⟨.of_run (by simp [Knows]) hrun, rfl, rfl, ⟨List.nodup_singleton _, ?_⟩, rfl, rfl, _, rfl,
    rfl, ?_⟩
  · simp [rechecked, Assignment.members, AddressKind.Proper]
  · intro h
    have hgone : (0 : Nat) = 0 + 1 := h.noRebuild
    cases hgone

/-! ## Addresses that are named once -/

section Clean

variable [Quantity τ] {config : ClusterConfig} {s : Service τ} {a : Assignment}
  {body : DynamicCluster τ} {new : List Event} (hnew : s.body.Delivered a new body)
  (hc : s.cluster.Orderly) (hf : s.body.cluster.config.factorFor a ≠ 0) (ha : a.Clean)

include hnew hc hf

theorem alike_member {x : Arrival} (hx : x ∈ s.body.arrivals a) :
    (body.cluster.hosts.get (s.body.member x)).locality = x.group.locality ∧
      (body.cluster.hasChecker = true →
        (body.cluster.hosts.get (s.body.member x)).healthCheckAddress =
            x.endpoint.healthCheckAddress ∧
          (body.cluster.hosts.get (s.body.member x)).disableActiveCheck =
            x.endpoint.disableActiveCheck) := by
  rw [hnew.hosts, hnew.hasChecker]
  cases hheir : s.body.heir? x with
  | some e =>
    have hfits := heir?_eq_some_iff.1 hheir
    have halike := DynamicCluster.alike_reached (a := a) hc.toSound hf
      (DynamicCluster.text_of_heir? hc.toSound hheir).2 (s.body.span (s.body.plan a).1)
    rw [DynamicCluster.member_of_heir? hheir, halike.locality, halike.healthCheckAddress,
      halike.disableActiveCheck]
    exact ⟨hfits.locality, hfits.checked⟩
  | none =>
    have halike := DynamicCluster.alike_reached_id hc.toSound hf hx (s.body.span (s.body.plan a).1)
    rw [DynamicCluster.member_of_fresh hheir, halike.locality, halike.healthCheckAddress,
      halike.disableActiveCheck, x.host_eq]
    exact ⟨rfl, fun _ => ⟨rfl, rfl⟩⟩

include ha

theorem stands_iff {x : Arrival} (hx : x ∈ s.body.arrivals a) :
    (∃ i, Stands { s with body } x.group x.endpoint i) ↔
      s.body.remains a x.level x.text = [] := by
  have hlocated := hnew.located_of_mem hc hf ha hx
  have hanswers := answers_member hnew hc hf ha hx
  constructor
  · rintro ⟨i, hi⟩
    have honly : (body.cluster.hosts.located x.text
        (body.cluster.priorities.hostsAt x.level)).length = 1 := hi.only
    rw [hlocated] at honly
    exact List.length_eq_zero_iff.1 (Nat.succ.inj honly)
  · intro hnone
    rw [hnone] at hlocated
    obtain ⟨hlocality, hchecked⟩ := alike_member hnew hc hf hx
    exact ⟨s.body.member x,
      ⟨(hnew.orderly hc hf ha).find?_of_located hlocated, hlocality, hchecked⟩, hanswers.priority,
      hanswers.still, congrArg List.length hlocated⟩

theorem remains_eq_nil_iff {x : Arrival} (hx : x ∈ s.body.arrivals a) :
    s.body.remains a x.level x.text = [] ↔ ∀ p, ∀ i ∈ body.cluster.priorities.hostsAt p,
      (body.cluster.hosts.get i).address = x.endpoint.address →
        (body.cluster.hosts.get i).hasFlag .pendingRemoval = false := by
  have hlocated := hnew.located_of_mem hc hf ha hx
  constructor
  · intro hnone p i hi haddress
    have hmem : i ∈ body.cluster.hosts.located x.text (body.cluster.priorities.hostsAt p) :=
      HostStore.mem_located.2 ⟨hi, congrArg Address.text haddress⟩
    by_cases hp : p = x.level
    · rw [hp, hlocated, hnone, List.mem_singleton] at hmem
      rw [hmem]
      exact (answers_member hnew hc hf ha hx).pending
    · rw [hnew.located_of_ne hc hf ha hx hp] at hmem
      cases hmem
  · intro h
    refine List.eq_nil_iff_forall_not_mem.2 fun i hi => ?_
    have hmem : i ∈ body.cluster.hosts.located x.text (body.cluster.priorities.hostsAt x.level) := by
      rw [hlocated]
      exact List.mem_cons_of_mem _ hi
    obtain ⟨hin, htext⟩ := HostStore.mem_located.1 hmem
    have haddress := Address.text_inj (hnew.proper hc hf ha i)
      (ha.proper _ (mem_members_of_arrival hx)) htext
    have hpending := DynamicCluster.pending_reached hc hf ha hi (DynamicCluster.level_lt_span hx)
    rw [← hnew.hosts, h x.level i hin haddress] at hpending
    cases hpending

end Clean

section Runs

variable [Quantity τ] {config : ClusterConfig} (hconfig : config.validate = .ok ()) {s : Service τ}
  (hs : Reaches (fun _ act => act.IsClean) (fresh τ config) s) {a : Assignment}
  (ha : config.validateAssignment a = .ok ()) (hclean : a.Clean)

include hconfig hs ha hclean

theorem exists_deliver_twice_of_clean :
    ∃ new body again, s.deliver a = .done { s with body } ∧ s.body.Delivered a new body ∧
      deliver { s with body } a = .done { s with body := again } ∧
      (Unmoved { s with body } { s with body := again } ↔
        ∀ x ∈ s.body.arrivals a, s.body.remains a x.level x.text = []) := by
  have hsound := sound_of_reaches hconfig (reaches_knows hs)
  have hf := hsound.factorFor_ne_zero hconfig ha
  obtain ⟨new, body, again, hdone, hnew, hdone', hunmoved⟩ := exists_deliver_twice hconfig hsound ha
  refine ⟨new, body, again, hdone, hnew, hdone', hunmoved.trans ?_⟩
  rw [← map_arrivals a s.body.cluster.hosts.size, List.forall_mem_map]
  exact forall₂_congr fun x hx => stands_iff hnew (orderly_of_reaches hconfig hs) hf hclean hx

/-- As long as assignments name every address once, an assignment that is delivered again at once has no
effect exactly if the first delivery left no host to drain at an address that it names. -/
theorem unmoved_resent_iff_of_clean : ∃ t u, s.deliver a = .done t ∧ t.deliver a = .done u ∧
    (t.Unmoved u ↔ ∀ m ∈ a.members, ∀ p, ∀ i ∈ t.cluster.priorities.hostsAt p,
      (t.cluster.hosts.get i).address = m.2.address →
        (t.cluster.hosts.get i).hasFlag .pendingRemoval = false) := by
  have hf := (sound_of_reaches hconfig (reaches_knows hs)).factorFor_ne_zero hconfig ha
  obtain ⟨_, _, _, hdone, hnew, hdone', hunmoved⟩ :=
    exists_deliver_twice_of_clean hconfig hs ha hclean
  refine ⟨_, _, hdone, hdone', hunmoved.trans ?_⟩
  rw [← map_arrivals a s.body.cluster.hosts.size, List.forall_mem_map]
  exact forall₂_congr fun x hx =>
    remains_eq_nil_iff hnew (orderly_of_reaches hconfig hs) hf hclean hx

/-- Without a health checker no host drains, and it never has an effect. -/
theorem unmoved_resent_of_unchecked (hchecker : s.cluster.hasChecker = false) :
    ∃ t u, s.deliver a = .done t ∧ t.deliver a = .done u ∧ t.Unmoved u := by
  have hsound := sound_of_reaches hconfig (reaches_knows hs)
  have hf := hsound.factorFor_ne_zero hconfig ha
  obtain ⟨_, _, _, hdone, _, hdone', hunmoved⟩ := exists_deliver_twice_of_clean hconfig hs ha hclean
  refine ⟨_, _, hdone, hdone', hunmoved.2 fun x _ => ?_⟩
  refine List.eq_nil_iff_forall_not_mem.2 fun i hi => ?_
  obtain ⟨hin, _, hstays⟩ := DynamicCluster.mem_remains.1 hi
  have hdrains :=
    (DynamicCluster.stays_iff hsound.cluster hf (hsound.cluster.known _ i hin)).1 hstays
  exact Bool.false_ne_true (hchecker.symm.trans hdrains.checker)

end Runs

end Service

end Roster
