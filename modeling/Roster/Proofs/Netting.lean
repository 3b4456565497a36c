import Roster.Proofs.Consistency

/-!
# Roster.Proofs.Netting

What the observers of the members are told of a delivery whose assignment names every address once.

* `mem_added_iff`, `mem_removed_iff` — what is reported of a single level: a host that moves is added to
  one level and removed from another.
* `mem_netAdded_iff`, `mem_netRemoved_iff` — of all levels together such hosts are in neither list.
* `events_preInitDone` — what observers are told when the work before initialization ends.
* `Netted`         — the events of a delivery; `netted_deliver`.
-/

namespace Roster

/-! ## Levels -/

namespace DynamicCluster

variable {τ : Type} [Quantity τ] {dc t : DynamicCluster τ} {a : Assignment} {new : List Event}

section Clean

variable (hc : dc.cluster.Orderly) (hf : dc.cluster.config.factorFor a ≠ 0) (ha : a.Clean)

include hc hf ha

theorem mem_added_iff {p : Nat} {i : HostId} :
    i ∈ (dc.resultAt a p).added ↔
      (∃ x ∈ dc.arrivalsAt a p, dc.member x = i) ∧ i ∉ dc.cluster.priorities.hostsAt p := by
  rw [mem_added_resultAt hc.toSound hf]
  constructor
  · rintro ⟨x, hx, rfl, hpriority⟩
    refine ⟨⟨x, hx, rfl⟩, fun hin => ?_⟩
    obtain ⟨hx, hlevel⟩ := mem_arrivalsAt.1 hx
    have hheir := heir?_of_member hx (hc.known p _ hin) rfl
    refine hpriority _ hheir ?_
    rw [get_reached_of_heir?_of_le hc hf ha hx hheir (Nat.le_of_eq hlevel.symm)]
    exact hc.priority p _ hin
  · rintro ⟨⟨x, hx, rfl⟩, hnot⟩
    refine ⟨x, hx, rfl, fun e he hpriority => hnot ?_⟩
    obtain ⟨hx, hlevel⟩ := mem_arrivalsAt.1 hx
    rw [get_reached_of_heir?_of_le hc hf ha hx he (Nat.le_of_eq hlevel.symm)] at hpriority
    obtain ⟨q, rest, hl, _⟩ := hc.located_of_find? (Option.filter_eq_some_iff.1 he).1
    have hin := (HostStore.mem_located.1 (hl ▸ List.mem_cons_self)).1
    rw [hc.priority q e hin] at hpriority
    rw [member_of_heir? he, ← hpriority]
    exact hin

variable (ht : dc.Delivered a new t)

include ht

theorem mem_removed_iff {p : Nat} {i : HostId} :
    i ∈ (dc.resultAt a p).removed ↔
      i ∈ dc.cluster.priorities.hostsAt p ∧ i ∉ t.cluster.priorities.hostsAt p := by
  rw [removed_resultAt hc.toSound hf, List.mem_filter, Bool.not_eq_true']
  constructor
  · rintro ⟨hleft, hgoes⟩
    have hin := (left_sublist p).subset hleft
    refine ⟨hin, fun hthere => ?_⟩
    rcases ht.mem_hostsAt hc hf ha hthere with ⟨x, hx, hlevel, hxi⟩ | hremains
    · have hheir := heir?_of_member hx (hc.known p i hin) hxi
      have htext := (text_of_heir? hc.toSound hheir).1
      obtain ⟨rest, hl, hrest⟩ := hc.located_eq_cons (Option.filter_eq_some_iff.1 hheir).1
        (HostStore.mem_located.2 ⟨hin, htext⟩)
      have htail := (mem_left_iff hc.toSound hf (mem_arrivalsAt.2 ⟨hx, hlevel⟩) hheir htext).1 hleft
      rw [hl] at htail
      exact hrest htail
    · rw [(mem_remains.1 hremains).2.2] at hgoes
      cases hgoes
  · rintro ⟨hin, hgone⟩
    have hleft : i ∈ dc.left a p := by
      by_contra hleft
      -- the host would be updated in place, and so be there
      have hrenewed : dc.Renewed a p (dc.cluster.hosts.addressText i) := by
        by_contra hr
        exact hleft (mem_left_of_not_renewed hc.toSound hf hin hr)
      obtain ⟨x, hx, htext, hsome⟩ := hrenewed
      obtain ⟨e, he⟩ := Option.isSome_iff_exists.1 hsome
      have hmem : i ∈ dc.cluster.hosts.located x.text (dc.cluster.priorities.hostsAt p) :=
        HostStore.mem_located.2 ⟨hin, htext.symm⟩
      obtain ⟨rest, hl, _⟩ := hc.located_eq_cons (Option.filter_eq_some_iff.1 he).1 hmem
      have htail := mt (mem_left_iff hc.toSound hf hx he htext.symm).2 hleft
      rw [hl] at hmem htail
      have hie := (List.mem_cons.1 hmem).resolve_right htail
      obtain ⟨hx', rfl⟩ := mem_arrivalsAt.1 hx
      rw [hie, ← member_of_heir? he] at hgone
      exact hgone (ht.member_mem_hostsAt hc hf ha hx')
    refine ⟨hleft, Bool.eq_false_iff.2 fun hstays => hgone ?_⟩
    have hmem : i ∈ t.cluster.hosts.located (dc.cluster.hosts.addressText i)
        (t.cluster.priorities.hostsAt p) := by
      rw [located_delivered hc hf ha ht]
      exact List.mem_append_right _ (mem_remains.2 ⟨hin, rfl, hstays⟩)
    exact (HostStore.mem_located.1 hmem).1

/-! ## All levels -/

/-- A host is added on balance exactly if it is installed now and was not before. -/
theorem mem_netAdded_iff {i : HostId} :
    i ∈ (dc.reached a (dc.span (dc.plan a).1)).batch.netAdded ↔
      (∃ p, i ∈ t.cluster.priorities.hostsAt p) ∧ ∀ p, i ∉ dc.cluster.priorities.hostsAt p := by
  obtain ⟨hadded, hremoved, _⟩ := reported_reached (a := a) hc.toSound hf (dc.span (dc.plan a).1)
  simp only [Batch.netAdded, Batch.without, List.mem_filter, decide_eq_true_eq, hadded, hremoved,
    mem_added_iff hc hf ha, mem_removed_iff hc hf ha ht]
  constructor
  · rintro ⟨⟨p, _, ⟨x, hx, rfl⟩, hnot⟩, hstay⟩
    obtain ⟨hx', rfl⟩ := mem_arrivalsAt.1 hx
    have hthere := ht.member_mem_hostsAt hc hf ha hx'
    refine ⟨⟨x.level, hthere⟩, fun q hq => ?_⟩
    -- wherever it was it left, unless it is in two levels now
    have hq' : dc.member x ∈ t.cluster.priorities.hostsAt q := by
      by_contra hgone
      exact hstay ⟨q, lt_span_of_mem hq, hq, hgone⟩
    exact hnot ((ht.single hc hf ha hthere hq' rfl) ▸ hq)
  · rintro ⟨⟨p, hp⟩, hnone⟩
    refine ⟨?_, fun ⟨q, _, hq, _⟩ => hnone q hq⟩
    rcases ht.mem_hostsAt hc hf ha hp with ⟨x, hx, rfl, rfl⟩ | hremains
    · exact ⟨x.level, level_lt_span hx, ⟨x, mem_arrivalsAt.2 ⟨hx, rfl⟩, rfl⟩, hnone _⟩
    · exact absurd (mem_remains.1 hremains).1 (hnone p)

theorem mem_netRemoved_iff {i : HostId} :
    i ∈ (dc.reached a (dc.span (dc.plan a).1)).batch.netRemoved ↔
      (∃ p, i ∈ dc.cluster.priorities.hostsAt p) ∧ ∀ p, i ∉ t.cluster.priorities.hostsAt p := by
  obtain ⟨hadded, hremoved, _⟩ := reported_reached (a := a) hc.toSound hf (dc.span (dc.plan a).1)
  simp only [Batch.netRemoved, Batch.without, List.mem_filter, decide_eq_true_eq, hadded, hremoved,
    mem_added_iff hc hf ha, mem_removed_iff hc hf ha ht]
  constructor
  · rintro ⟨⟨p, _, hp, hgone⟩, hnew⟩
    refine ⟨⟨p, hp⟩, fun q hq => ?_⟩
    rcases ht.mem_hostsAt hc hf ha hq with ⟨x, hx, rfl, rfl⟩ | hremains
    · refine hnew ⟨x.level, level_lt_span hx, ⟨x, mem_arrivalsAt.2 ⟨hx, rfl⟩, rfl⟩, fun hin => hgone ?_⟩
      rw [hc.single p x.level _ hp _ hin rfl]
      exact hq
    · rw [hc.single p q _ hp _ (mem_remains.1 hremains).1 rfl] at hgone
      exact hgone hq
  · rintro ⟨⟨p, hp⟩, hnone⟩
    refine ⟨⟨p, lt_span_of_mem hp, hp, hnone p⟩, ?_⟩
    rintro ⟨q, _, ⟨x, hx, rfl⟩, _⟩
    exact hnone _ (ht.member_mem_hostsAt hc hf ha (mem_arrivalsAt.1 hx).1)

end Clean

end DynamicCluster

/-! ## The end of the work before initialization -/

namespace Cluster

variable {τ : Type} [Quantity τ] {c : Cluster τ}

omit [Quantity τ] in
theorem checkedHosts_eq_zero :
    c.checkedHosts = 0 ↔ ∀ p, ∀ i ∈ c.priorities.hostsAt p, (c.hosts.get i).disableActiveCheck = true := by
  simp only [checkedHosts, List.length_eq_zero_iff, List.flatMap_eq_nil_iff, List.filter_eq_nil_iff,
    Bool.not_eq_true', Bool.not_eq_false]
  constructor
  · intro h p i hi
    obtain ⟨l, hl, hi⟩ := PrioritySet.exists_level_of_mem hi
    exact h l (List.mem_of_getElem? hl) i hi
  · intro h l hl i hi
    obtain ⟨p, hp⟩ := List.mem_iff_getElem?.1 hl
    exact h p i (by rw [PrioritySet.hostsAt_of_level? hp]; exact hi)

omit [Quantity τ] in
theorem checkedHosts_of_beginChecks (hchecker : c.hasChecker = true)
    (h : c.beginChecks.awaited = 0) : c.checkedHosts = 0 := by
  obtain ⟨observers, hobservers⟩ := Option.isSome_iff_exists.1 hchecker
  simp only [beginChecks, hobservers] at h
  split at h
  · exact h
  · rename_i hawaited
    exact absurd h hawaited

theorem events_finishInit (h : c.hasChecker = false) :
    ∃ new, c.finishInit.priorities.journal.events = c.priorities.journal.events ++ new ∧
      ∀ e ∈ new, e = .initialized := by
  have hchecker : ¬ ({ c with waiting := false } : Cluster τ).hasChecker = true := by
    rw [Bool.not_eq_true]
    exact h
  simp only [finishInit, if_neg hchecker]
  split
  · exact ⟨[.initialized], rfl, by simp⟩
  · exact ⟨[], (List.append_nil _).symm, by simp⟩

/-- Unless a cluster that is checked has nothing to check, nobody is told but that initialization is
over. -/
theorem events_preInitDone (h : ¬ (c.started = false ∧ c.hasChecker = true ∧ c.checkedHosts = 0)) :
    ∃ new, c.preInitDone.priorities.journal.events = c.priorities.journal.events ++ new ∧
      ∀ e ∈ new, e = .initialized := by
  have hpriorities := priorities_beginChecks { c with started := true }
  simp only [preInitDone]
  split
  · exact ⟨[], (List.append_nil _).symm, by simp⟩
  · rename_i hstarted
    split
    · rename_i hawaited
      have hchecker : ({ c with started := true } : Cluster τ).beginChecks.hasChecker = false := by
        rw [(quiet_beginChecks _).hasChecker]
        refine Bool.eq_false_iff.2 fun hchecker => h ⟨by simpa using hstarted, hchecker, ?_⟩
        exact checkedHosts_of_beginChecks (c := { c with started := true }) hchecker hawaited
      obtain ⟨new, hnew, hall⟩ := events_finishInit hchecker
      rw [hpriorities] at hnew
      exact ⟨new, hnew, hall⟩
    · rw [hpriorities]
      exact ⟨[], (List.append_nil _).symm, by simp⟩

end Cluster

/-! ## Deliveries -/

namespace DynamicCluster

variable {τ : Type} [Quantity τ] {dc t : DynamicCluster τ} {a : Assignment} {new : List Event}

theorem Delivered.events_after (ht : dc.Delivered a new t) (hs : dc.cluster.Sound)
    (hf : dc.cluster.config.factorFor a ≠ 0) :
    ∃ after, t.cluster.priorities.journal.events =
        (dc.reached a (dc.span (dc.plan a).1)).batch.finish.journal.events ++ after ∧
      (∀ e ∈ after, PrioritySet.IsVacant e) ∧
      ∀ e ∈ after, e = .initialized ∨ (dc.cluster.started = false ∧ dc.cluster.hasChecker = true ∧
        ∀ p, ∀ i ∈ t.cluster.priorities.hostsAt p,
          (t.cluster.hosts.get i).disableActiveCheck = true) := by
  have hdone := ht.concluded hs hf
  let c : Cluster τ :=
    { (dc.settle (dc.reached a (dc.span (dc.plan a).1))
        (dc.reached a (dc.span (dc.plan a).1)).batch.finish).cluster with
      noRebuild := dc.cluster.noRebuild +
        if (dc.reached a (dc.span (dc.plan a).1)).rebuilt then 0 else 1 }
  by_cases hreload : c.started = false ∧ c.hasChecker = true ∧ c.checkedHosts = 0
  · obtain ⟨after, hafter, hvacant⟩ := hdone.quiet.events
    refine ⟨after, hafter, hvacant, fun e _ => .inr ⟨hreload.1, hreload.2.1, ?_⟩⟩
    intro p i hi
    rw [hdone.quiet.hostsAt p] at hi
    rw [ht.hosts]
    exact Cluster.checkedHosts_eq_zero.1 hreload.2.2 p i hi
  · obtain ⟨after, hafter, hall⟩ := Cluster.events_preInitDone hreload
    rw [ht.complete]
    refine ⟨after, hafter, fun e he => ?_, fun e he => .inl (hall e he)⟩
    rw [hall e he]
    trivial

end DynamicCluster

namespace Service

variable {τ : Type} [Quantity τ] {s : Service τ} {config : ClusterConfig} {a : Assignment}

/-- What observers are told of a delivery from `s` to `t`: first of single levels, then every watch of
the members that is registered by then, once and in order, of the hosts that are installed in `t` and
were not in `s`, and the other way round. A watch that is registered in `s` and in `t` is one of them.
What is told `after` names no host, and it is only that initialization is over unless the delivery
ended the work before initialization of a cluster that has a checker and nothing to check. -/
structure Netted (s t : Service τ) (told : List (Nat × Watch)) (added removed : List HostId)
    (before after : List Event) : Prop where
  news : s.news t = before ++ PrioritySet.memberEvents (told.map Prod.snd) added removed
    t.cluster.priorities.addressMap.length ++ after
  levels : ∀ e ∈ before, ∃ n p more less c, e = .level n p more less c
  registered : told.Sublist s.cluster.priorities.memberObservers.entries
  remaining : t.cluster.priorities.memberObservers.entries.Sublist told
  nodup : added.Nodup ∧ removed.Nodup
  mem_added : ∀ i, i ∈ added ↔ (∃ p, i ∈ t.cluster.priorities.hostsAt p) ∧
    ∀ p, i ∉ s.cluster.priorities.hostsAt p
  mem_removed : ∀ i, i ∈ removed ↔ (∃ p, i ∈ s.cluster.priorities.hostsAt p) ∧
    ∀ p, i ∉ t.cluster.priorities.hostsAt p
  vacant : ∀ e ∈ after, PrioritySet.IsVacant e
  initialized : ∀ e ∈ after, e = .initialized ∨ (s.cluster.started = false ∧
    s.cluster.hasChecker = true ∧
    ∀ p, ∀ i ∈ t.cluster.priorities.hostsAt p, (t.cluster.hosts.get i).disableActiveCheck = true)

theorem netted_of_delivered {new : List Event} {body : DynamicCluster τ}
    (hnew : s.body.Delivered a new body) (hc : s.cluster.Orderly)
    (hf : s.body.cluster.config.factorFor a ≠ 0) (ha : a.Clean) :
    ∃ told added removed before after,
      s.Netted { s with body } told added removed before after := by
  let r := s.body.reached a (s.body.span (s.body.plan a).1)
  have hs : s.body.cluster.Sound := hc.toSound
  have hunderway := DynamicCluster.underway_reached (a := a) hs hf (s.body.span (s.body.plan a).1)
  have hdone := hnew.concluded hs hf
  obtain ⟨before, hbefore, hreports, _⟩ :=
    DynamicCluster.events_reached (a := a) hs hf (s.body.span (s.body.plan a).1)
  obtain ⟨after, hafter, hvacant, hinitialized⟩ := hnew.events_after hs hf
  obtain ⟨_, _, hadded, hremoved⟩ :=
    DynamicCluster.reported_reached (a := a) hs hf (s.body.span (s.body.plan a).1)
  refine ⟨r.batch.priorities.memberObservers.entries, r.batch.netAdded, r.batch.netRemoved, before,
    after, ?_, ?_, hunderway.fewer.members, hdone.quiet.fewer.members.trans hdone.finish.fewer.members,
    ⟨hadded.filter _, hremoved.filter _⟩, fun i => DynamicCluster.mem_netAdded_iff hc hf ha hnew,
    fun i => DynamicCluster.mem_netRemoved_iff hc hf ha hnew, hvacant, hinitialized⟩
  · have hmap : body.cluster.priorities.addressMap = r.batch.priorities.addressMap := hdone.rests.map
    rw [hdone.finish.events, hbefore, List.append_assoc, List.append_assoc] at hafter
    simp only [news, cluster, hafter, hmap, List.drop_left, List.append_assoc]
    rfl
  · intro e he
    obtain ⟨p, _, _, n, c, rfl⟩ := hreports e he
    exact ⟨_, _, _, _, _, rfl⟩

/-- As long as assignments name every address once, the observers of the members are told once of the
hosts that came and went, after all levels. They are told again only when the work before initialization
of a checked cluster ends with nothing to check, and then of no host. -/
theorem netted_deliver (hconfig : config.validate = .ok ())
    (hs : Reaches (fun _ act => act.IsClean) (fresh τ config) s)
    (ha : config.validateAssignment a = .ok ()) (hclean : a.Clean) :
    ∃ t told added removed before after, s.deliver a = .done t ∧
      s.Netted t told added removed before after := by
  have hsound := sound_of_reaches hconfig (reaches_knows hs)
  obtain ⟨_, body, hdone, hnew, _⟩ := exists_deliver hconfig hsound ha
  obtain ⟨told, added, removed, before, after, hnetted⟩ := netted_of_delivered hnew
    (orderly_of_reaches hconfig hs) (hsound.factorFor_ne_zero hconfig ha) hclean
  exact ⟨_, told, added, removed, before, after, hdone, hnetted⟩

/-- Those who change places or stay to drain are neither added nor removed. -/
theorem netted_settled : ∃ told added removed before after,
    settled.deliver crossed = .done resettled ∧
      settled.Netted resettled told added removed before after ∧
      settled.news resettled =
        [.level 0 0 [2, 5] [1] ⟨5, 3, 0, 0, 3⟩, .level 0 1 [1] [2, 3] ⟨4, 2, 1, 0, 4⟩,
          .members 1 [5] [3] 4] := by
  obtain ⟨t, told, added, removed, before, after, ht, hnetted⟩ :=
    netted_deliver rfl reaches_settled_of_clean rfl clean_crossed
  cases ht
  exact ⟨told, added, removed, before, after, rfl, hnetted, rfl⟩

/-- A watched cluster that is checked, before anything is delivered. -/
def awaiting : Service Rat :=
  (run [.setChecker, .watchMembers []] (fresh Rat {})).state

/-- With nothing to check the watch is told twice. -/
theorem told_twice_awaiting :
    Reaches (fun _ act => act.IsClean) (fresh Rat {}) awaiting ∧ ({} : Assignment).Clean ∧
      ({} : ClusterConfig).validateAssignment {} = .ok () ∧
      ∃ t, awaiting.deliver {} = .done t ∧
        awaiting.news t = [.members 0 [] [] 0, .members 0 [] [] 0] := by
  have hrun : run [.setChecker, .watchMembers []] (fresh Rat {}) = .done awaiting := rfl
  have hclean : ∀ act ∈ [Action.setChecker, .watchMembers []], act.IsClean := by
    simp [Action.IsClean, Action.IsDirect]
  refine ⟨.of_run (fun act hact _ => hclean act hact) hrun, ⟨List.nodup_nil, by simp [Assignment.members]⟩,
    rfl, _, rfl, rfl⟩

end Service

end Roster
