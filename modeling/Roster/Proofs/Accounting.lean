import Roster.Proofs.Reaching

/-!
# Roster.Proofs.Accounting

Whether what is reported of a level accounts for the change of its hosts. At an address where an
endpoint updates an installed host in place, the first host of the level is taken for the updated one.
That is right as long as an address is delivered once; repeated addresses can leave several hosts at it.

* `Accounted`     — who left is reported as removed, who came as added, and nobody who remains as removed.
* `Traced`        — when taking the first host for the updated one does no harm.
* `accounted_iff` — a level that is installed again is accounted for exactly if all updates are traced.
* `doubled`       — an assignment that is delivered twice and is not accounted for.
-/

namespace Roster

namespace DynamicCluster

variable {τ : Type} [Quantity τ]

/-- An endpoint of level `p` updates the installed host `e` in place, and it shows in the reports which
of the hosts at the address the level had before: the first of them is `e` or occurs again; if `e` is
a later one it stays to drain; and if it is none of them its priority was another before the turn of
the level. -/
structure Traced (dc : DynamicCluster τ) (a : Assignment) (p : Nat) (x : Arrival) (e : HostId) :
    Prop where
  first : ∀ i, (dc.cluster.hosts.located x.text (dc.cluster.priorities.hostsAt p)).head? = some i →
    i = e ∨ i ∈ (dc.cluster.hosts.located x.text (dc.cluster.priorities.hostsAt p)).tail
  again : e ∈ (dc.cluster.hosts.located x.text (dc.cluster.priorities.hostsAt p)).tail →
    dc.Drains a p e
  moved : e ∉ dc.cluster.hosts.located x.text (dc.cluster.priorities.hostsAt p) →
    (dc.cluster.hosts.get e).priority ≠ p ∨ ∃ y ∈ dc.arrivals a, y.level < p ∧ dc.heir? y = some e

variable {dc : DynamicCluster τ} {a : Assignment} {p : Nat}

section Sound

variable (hs : dc.cluster.Sound) (hf : dc.cluster.config.factorFor a ≠ 0)

include hs hf

theorem first_of_not_mem_left {i : HostId} (hi : i ∈ dc.cluster.priorities.hostsAt p)
    (hleft : i ∉ dc.left a p) : ∃ x ∈ dc.arrivalsAt a p, ∃ e, dc.heir? x = some e ∧
      (dc.cluster.hosts.located x.text (dc.cluster.priorities.hostsAt p)).head? = some i ∧
      i ∉ (dc.cluster.hosts.located x.text (dc.cluster.priorities.hostsAt p)).tail := by
  have hrenewed : dc.Renewed a p (dc.cluster.hosts.addressText i) := by
    by_contra hr
    exact hleft (mem_left_of_not_renewed hs hf hi hr)
  obtain ⟨x, hx, htext, hsome⟩ := hrenewed
  obtain ⟨e, he⟩ := Option.isSome_iff_exists.1 hsome
  have hnot : i ∉ (dc.cluster.hosts.located x.text (dc.cluster.priorities.hostsAt p)).tail := fun hm =>
    hleft ((mem_left_iff hs hf hx he htext.symm).2 hm)
  have hmem : i ∈ dc.cluster.hosts.located x.text (dc.cluster.priorities.hostsAt p) :=
    HostStore.mem_located.2 ⟨hi, htext.symm⟩
  refine ⟨x, hx, e, he, ?_, hnot⟩
  cases hl : dc.cluster.hosts.located x.text (dc.cluster.priorities.hostsAt p) with
  | nil =>
    rw [hl] at hmem
    cases hmem
  | cons k rest =>
    rw [hl] at hmem hnot
    rw [(List.mem_cons.1 hmem).resolve_right hnot]
    rfl

/-- Every host that leaves the level is reported exactly if no update takes another host's place. -/
theorem left_iff_first :
    (∀ i ∈ dc.cluster.priorities.hostsAt p, i ∉ (dc.resultAt a p).hosts →
        i ∈ (dc.resultAt a p).removed) ↔
      ∀ x ∈ dc.arrivalsAt a p, ∀ e, dc.heir? x = some e → ∀ i,
        (dc.cluster.hosts.located x.text (dc.cluster.priorities.hostsAt p)).head? = some i →
        i = e ∨ i ∈ (dc.cluster.hosts.located x.text (dc.cluster.priorities.hostsAt p)).tail := by
  rw [hosts_resultAt hs hf, removed_resultAt hs hf]
  constructor
  · intro h x hx e he i hi
    by_contra hno
    obtain ⟨hie, htail⟩ := not_or.1 hno
    obtain ⟨hmem, htext⟩ := HostStore.mem_located.1 (List.mem_of_head? hi)
    have hleft : i ∉ dc.left a p := fun hm => htail ((mem_left_iff hs hf hx he htext).1 hm)
    refine hleft (List.mem_filter.1 (h i hmem ?_)).1
    intro hm
    rcases List.mem_append.1 hm with hm | hm
    · -- the index finds one host at the address only
      obtain ⟨y, hy, hyi⟩ := List.mem_map.1 hm
      have hheir := heir?_of_member (mem_arrivalsAt.1 hy).1 (hs.known p i hmem) hyi
      have hfind := (Option.filter_eq_some_iff.1 hheir).1
      have hfind' := (Option.filter_eq_some_iff.1 he).1
      rw [(text_of_heir? hs hheir).1.symm.trans htext, hfind'] at hfind
      exact hie (Option.some.inj hfind).symm
    · exact hleft (List.mem_filter.1 hm).1
  · intro h i hi hgone
    have hleft : i ∈ dc.left a p := by
      by_contra hleft
      obtain ⟨x, hx, e, he, hhead, hnot⟩ := first_of_not_mem_left hs hf hi hleft
      rcases h x hx e he i hhead with rfl | htail
      · exact hgone (List.mem_append_left _ (List.mem_map.2 ⟨x, hx, member_of_heir? he⟩))
      · exact hnot htail
    refine List.mem_filter.2 ⟨hleft, ?_⟩
    by_contra hstays
    have hstays : dc.stays a p i = true := by simpa using hstays
    exact hgone (List.mem_append_right _ (List.mem_filter.2 ⟨hleft, hstays⟩))

/-- Nobody who remains is reported as removed exactly if later hosts that are updated stay to drain. -/
theorem remaining_iff_again :
    (∀ i ∈ (dc.resultAt a p).hosts, i ∉ (dc.resultAt a p).removed) ↔
      ∀ x ∈ dc.arrivalsAt a p, ∀ e, dc.heir? x = some e →
        e ∈ (dc.cluster.hosts.located x.text (dc.cluster.priorities.hostsAt p)).tail →
        dc.Drains a p e := by
  rw [hosts_resultAt hs hf, removed_resultAt hs hf]
  constructor
  · intro h x hx e he htail
    obtain ⟨htext, hlt⟩ := text_of_heir? hs he
    have hleft := (mem_left_iff hs hf hx he htext).2 htail
    have hmember : e ∈ (dc.arrivalsAt a p).map dc.member :=
      List.mem_map.2 ⟨x, hx, member_of_heir? he⟩
    rw [← stays_iff hs hf hlt]
    by_contra hstays
    exact h e (List.mem_append_left _ hmember) (List.mem_filter.2 ⟨hleft, by simpa using hstays⟩)
  · intro h i hi hremoved
    obtain ⟨hleft, hgoes⟩ := List.mem_filter.1 hremoved
    have hlt := lt_size_of_mem_left hs hleft
    rcases List.mem_append.1 hi with hi | hi
    · obtain ⟨x, hx, hxi⟩ := List.mem_map.1 hi
      have he := heir?_of_member (mem_arrivalsAt.1 hx).1 hlt hxi
      have htail := (mem_left_iff hs hf hx he (text_of_heir? hs he).1).1 hleft
      have hstays := (stays_iff hs hf hlt).2 (h x hx i he htail)
      rw [hstays] at hgoes
      cases hgoes
    · rw [(List.mem_filter.1 hi).2] at hgoes
      cases hgoes

theorem came_iff_moved :
    (∀ i ∈ (dc.resultAt a p).hosts, i ∉ dc.cluster.priorities.hostsAt p →
        i ∈ (dc.resultAt a p).added) ↔
      ∀ x ∈ dc.arrivalsAt a p, ∀ e, dc.heir? x = some e →
        e ∉ dc.cluster.hosts.located x.text (dc.cluster.priorities.hostsAt p) →
        (dc.cluster.hosts.get e).priority ≠ p ∨
          ∃ y ∈ dc.arrivals a, y.level < p ∧ dc.heir? y = some e := by
  -- what the priority is when the turn of the level comes
  have hpriority : ∀ e < dc.cluster.hosts.size,
      ((dc.reached a p).hosts.get e).priority ≠ p ↔ ((dc.cluster.hosts.get e).priority ≠ p ∨
        ∃ y ∈ dc.arrivals a, y.level < p ∧ dc.heir? y = some e) := by
    intro e he
    rcases priority_reached (a := a) hs hf he p with ⟨hsome, hlt⟩ | ⟨hnone, hsame⟩
    · exact ⟨fun _ => .inr hsome, fun _ => by omega⟩
    · rw [hsame]
      exact ⟨.inl, fun h => h.resolve_right hnone⟩
  rw [hosts_resultAt hs hf]
  constructor
  · intro h x hx e he hnot
    obtain ⟨htext, hlt⟩ := text_of_heir? hs he
    have hmember : e ∈ (dc.arrivalsAt a p).map dc.member :=
      List.mem_map.2 ⟨x, hx, member_of_heir? he⟩
    have hadded := h e (List.mem_append_left _ hmember) fun hm =>
      hnot (HostStore.mem_located.2 ⟨hm, htext⟩)
    obtain ⟨y, hy, hye, hprio⟩ := (mem_added_resultAt hs hf).1 hadded
    rw [← hpriority e hlt]
    exact hprio e (heir?_of_member (mem_arrivalsAt.1 hy).1 hlt hye)
  · intro h i hi hnot
    rcases List.mem_append.1 hi with hi | hi
    · obtain ⟨x, hx, rfl⟩ := List.mem_map.1 hi
      refine (mem_added_resultAt hs hf).2 ⟨x, hx, rfl, ?_⟩
      intro e he
      obtain ⟨_, hlt⟩ := text_of_heir? hs he
      rw [hpriority e hlt]
      refine h x hx e he fun hm => hnot ?_
      rw [member_of_heir? he]
      exact (HostStore.mem_located.1 hm).1
    · exact absurd ((left_sublist p).subset (List.mem_filter.1 hi).1) hnot

end Sound

end DynamicCluster

namespace Service

variable {τ : Type} [Quantity τ]

/-- What a watch was told of level `p` between two states accounts for the change of its hosts. -/
structure Accounted (s t : Service τ) (p : Nat) (w : Watch) : Prop where
  left : ∀ i ∈ s.cluster.priorities.hostsAt p, i ∉ t.cluster.priorities.hostsAt p →
    ReportsRemoved (s.news t) w.number p i
  came : ∀ i ∈ t.cluster.priorities.hostsAt p, i ∉ s.cluster.priorities.hostsAt p →
    ReportsAdded (s.news t) w.number p i
  remaining : ∀ i ∈ t.cluster.priorities.hostsAt p, ¬ ReportsRemoved (s.news t) w.number p i

section Delivered

variable {s : Service τ} {a : Assignment} {body : DynamicCluster τ} {new : List Event} {p : Nat}
  {w : Watch} (hnew : s.body.Delivered a new body) (hw : body.cluster.priorities.Watches p w)

include hnew hw

theorem accounted_of_isAlone (halone : s.body.isAlone a p = true) :
    s.Accounted { s with body } p w := by
  have hhosts : body.cluster.priorities.hostsAt p = s.cluster.priorities.hostsAt p := by
    rw [hnew.hostsAt p, if_pos halone]
    rfl
  refine ⟨?_, ?_, ?_⟩
  · intro i hi hgone
    exact absurd (hhosts.symm ▸ hi) hgone
  · intro i hi hnot
    exact absurd (hhosts ▸ hi) hnot
  · intro i _ hr
    rw [news_eq hnew, hnew.removed p w hw i, halone] at hr
    cases hr.1

theorem accounted_iff_traced (hs : s.body.cluster.Sound)
    (hf : s.body.cluster.config.factorFor a ≠ 0) (halone : s.body.isAlone a p = false) :
    s.Accounted { s with body } p w ↔
      ∀ x ∈ s.body.arrivalsAt a p, ∀ e, s.body.heir? x = some e → s.body.Traced a p x e := by
  have hhosts := hnew.hostsAt p
  rw [halone, if_neg (by simp)] at hhosts
  have hremoved : ∀ i, ReportsRemoved (s.news { s with body }) w.number p i ↔
      i ∈ (s.body.resultAt a p).removed := fun i => by
    rw [news_eq hnew, hnew.removed p w hw i, halone]
    simp
  have hadded : ∀ i, ReportsAdded (s.news { s with body }) w.number p i ↔
      i ∈ (s.body.resultAt a p).added := fun i => by
    rw [news_eq hnew, hnew.added p w hw i, halone]
    simp
  have hleft := DynamicCluster.left_iff_first (p := p) hs hf
  have hremaining := DynamicCluster.remaining_iff_again (p := p) hs hf
  have hcame := DynamicCluster.came_iff_moved (p := p) hs hf
  rw [← hhosts] at hleft hremaining hcame
  constructor
  · intro h x hx e he
    refine ⟨hleft.1 ?_ x hx e he, hremaining.1 ?_ x hx e he,
      hcame.1 ?_ x hx e he⟩
    · intro i hi hgone
      exact (hremoved i).1 (h.left i hi hgone)
    · intro i hi hr
      exact h.remaining i hi ((hremoved i).2 hr)
    · intro i hi hnot
      exact (hadded i).1 (h.came i hi hnot)
  · intro h
    refine ⟨?_, ?_, ?_⟩
    · intro i hi hgone
      exact (hremoved i).2 (hleft.2 (fun x hx e he => (h x hx e he).first) i hi hgone)
    · intro i hi hnot
      exact (hadded i).2 (hcame.2 (fun x hx e he => (h x hx e he).moved) i hi hnot)
    · intro i hi hr
      exact hremaining.2 (fun x hx e he => (h x hx e he).again) i hi ((hremoved i).1 hr)

end Delivered

/-- In every reachable state and for every valid assignment, what those who watch a level are told
accounts for the change of its hosts exactly if the level is left as it is, or every host that an
endpoint of the level updates in place can be traced. -/
theorem accounted_iff {config : ClusterConfig} (hconfig : config.validate = .ok ())
    {s : Service τ} (hs : Reaches Knows (fresh τ config) s)
    {a : Assignment} (ha : config.validateAssignment a = .ok ()) :
    ∃ t, s.deliver a = .done t ∧ ∀ p w, t.cluster.priorities.Watches p w →
      (s.Accounted t p w ↔ s.body.isAlone a p = true ∨
        ∀ x ∈ s.body.arrivalsAt a p, ∀ e, s.body.heir? x = some e → s.body.Traced a p x e) := by
  have hsound := sound_of_reaches hconfig hs
  have hf := hsound.factorFor_ne_zero hconfig ha
  obtain ⟨new, body, hdone, hnew, _⟩ := exists_deliver hconfig hsound ha
  refine ⟨_, hdone, ?_⟩
  intro p w hw
  cases halone : s.body.isAlone a p with
  | true => exact ⟨fun _ => .inl rfl, fun _ => accounted_of_isAlone hnew hw halone⟩
  | false =>
    have htraced := accounted_iff_traced hnew hw hsound.cluster hf halone
    constructor
    · intro h
      exact .inr (htraced.1 h)
    · rintro (h | h)
      · cases h
      · exact htraced.2 h

/-- Both levels are accounted for: hosts that change places, that stay to drain, that come and that go. -/
theorem accounted_settled :
    settled.deliver crossed = .done resettled ∧ resettled.cluster.priorities.hostsAt 0 = [2, 5, 0] ∧
      resettled.cluster.priorities.hostsAt 1 = [1] ∧
      ∀ p < 2, settled.Accounted resettled p ⟨0, []⟩ := by
  have hconfig : ({} : ClusterConfig).validate = .ok () := rfl
  obtain ⟨t, ht, h⟩ := accounted_iff hconfig reaches_settled (a := crossed) rfl
  cases ht
  have hwatches : ∀ p, resettled.cluster.priorities.Watches p ⟨0, []⟩ := fun p => .inl (by decide)
  -- whoever is updated in place was at the other level, where nobody shared the address
  have hmoved : ((List.range 2).all fun p => (settled.body.arrivalsAt crossed p).all fun x =>
      (settled.body.heir? x).all fun e => (settled.body.cluster.hosts.get e).priority ≠ p ∧
        settled.body.cluster.hosts.located x.text (settled.body.cluster.priorities.hostsAt p) = []) =
      true := rfl
  simp only [List.all_eq_true, List.mem_range] at hmoved
  refine ⟨rfl, rfl, rfl, fun p hp => (h p ⟨0, []⟩ (hwatches p)).2 (.inr fun x hx e he => ?_)⟩
  have hfound := hmoved p hp x hx
  rw [he, Option.all_some, decide_eq_true_eq] at hfound
  obtain ⟨hpriority, hnobody⟩ := hfound
  refine ⟨fun i hi => ?_, fun hi => ?_, fun _ => .inl hpriority⟩
  · rw [hnobody] at hi
    cases hi
  · rw [hnobody] at hi
    cases hi

/-- One address in two localities of the same priority. -/
def doubled : Assignment :=
  { groups :=
      [{ locality := { region := "east" }, endpoints := [{ address := ⟨.ipv4 ⟨10, 0, 0, 1⟩, 80⟩ }] },
       { locality := { region := "west" }, endpoints := [{ address := ⟨.ipv4 ⟨10, 0, 0, 1⟩, 80⟩ }] }] }

def once : Service Rat :=
  (run [.watchPriorities [], .deliver doubled] (fresh Rat {})).state

def twice : Service Rat := (once.deliver doubled).state

/-- Delivered twice, the first host is dropped without a word, and the second, which remains, is
reported as removed. -/
theorem unaccounted_twice :
    Reaches Knows (fresh Rat {}) once ∧
      ({} : ClusterConfig).validate = .ok () ∧
      ({} : ClusterConfig).validateAssignment doubled = .ok () ∧
      once.deliver doubled = .done twice ∧ twice.cluster.priorities.Watches 0 ⟨0, []⟩ ∧
      ¬ once.Accounted twice 0 ⟨0, []⟩ := by
  have hrun : run [.watchPriorities [], .deliver doubled] (fresh Rat {}) = .done once := rfl
  have hhosts : twice.cluster.priorities.hostsAt 0 = [2, 1] := rfl
  have hnews : once.news twice = [.level 0 0 [2] [1] ⟨2, 2, 0, 0, 2⟩] := rfl
  refine ⟨.of_run ?_ hrun, rfl, rfl, rfl, .inl (by decide), ?_⟩
  · simp [Knows]
  · intro h
    refine h.remaining 1 (by rw [hhosts]; simp) ?_
    rw [hnews]
    exact ⟨[2], [1], _, List.mem_singleton.2 rfl, by simp⟩

end Service

end Roster
