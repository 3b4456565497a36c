import Roster.Proofs.Reaching

/-!
# Roster.Proofs.Draining

Hosts whose address an assignment does not name.

* `Withdrawn` — such a host of a level.
* `Passes`    — nothing speaks against a host that is checked.
* `Lingers`   — a host is flagged to be removed and otherwise as it was.
* `withdrawn_stays_iff` — with a health checker, unless removals ignore health, exactly those that pass
  stay; they are flagged and otherwise unchanged, and the others are reported as removed.
-/

namespace Roster

/-- The host is checked, and neither its checks nor the discovery source report a failure. -/
structure Host.Passes (h : Host) : Prop where
  active : h.hasFlag .failedActiveCheck = false
  discovery : h.hasFlag .failedDiscovery = false
  checked : h.disableActiveCheck = false

/-- The host `k` is `h`, flagged to be removed: no other flag and nothing else of it is different. -/
structure Host.Lingers (h k : Host) : Prop extends Host.Alike h k where
  flagged : k.hasFlag .pendingRemoval = true
  flags : ∀ f, f ≠ .pendingRemoval → k.hasFlag f = h.hasFlag f
  metadata : k.metadata = h.metadata
  canary : k.canary = h.canary
  priority : k.priority = h.priority
  weight : k.weight = h.weight
  used : k.used = h.used
  failure : k.failure = h.failure

theorem Host.lingers_setFlag (h : Host) : h.Lingers (h.setFlag .pendingRemoval) :=
  { h.alike_setFlag .pendingRemoval with
    flagged := by simp
    flags := fun f hf => by simp [hf]
    metadata := rfl
    canary := rfl
    priority := rfl
    weight := rfl
    used := rfl
    failure := rfl }

/-- An installed host of level `p` whose address the assignment does not name. -/
structure DynamicCluster.Withdrawn {τ : Type} (dc : DynamicCluster τ) (a : Assignment) (p : Nat)
    (i : HostId) : Prop where
  installed : i ∈ dc.cluster.priorities.hostsAt p
  unnamed : dc.cluster.hosts.addressText i ∉ a.texts

namespace DynamicCluster

variable {τ : Type} {dc : DynamicCluster τ} {a : Assignment} {p : Nat} {i : HostId}

theorem Withdrawn.lt (h : dc.Withdrawn a p i) (hs : dc.cluster.Sound) : i < dc.cluster.hosts.size :=
  hs.known p i h.installed

theorem Withdrawn.unmet (h : dc.Withdrawn a p i) (hs : dc.cluster.Sound) {x : Arrival}
    (hx : x ∈ dc.arrivals a) : Assoc.find? x.text dc.cluster.priorities.addressMap ≠ some i := by
  intro hfind
  have htext : dc.cluster.hosts.addressText i = x.text := (hs.mapped _ i hfind).2
  exact h.unnamed (htext ▸ text_mem_texts hx)

theorem Withdrawn.not_renewed (h : dc.Withdrawn a p i) (q : Nat) :
    ¬ dc.Renewed a q (dc.cluster.hosts.addressText i) := by
  rintro ⟨x, hx, htext, _⟩
  exact h.unnamed (htext ▸ text_mem_texts (mem_arrivalsAt.1 hx).1)

theorem Withdrawn.not_member (h : dc.Withdrawn a p i) (hs : dc.cluster.Sound) {x : Arrival}
    (hx : x ∈ dc.arrivals a) : dc.member x ≠ i := by
  intro hmember
  have hheir := heir?_of_member hx (h.lt hs) hmember
  exact h.unmet hs hx (Option.filter_eq_some_iff.1 hheir).1

variable [Quantity τ] (hs : dc.cluster.Sound) (hf : dc.cluster.config.factorFor a ≠ 0)

include hs hf

theorem Withdrawn.mem_left (h : dc.Withdrawn a p i) : i ∈ dc.left a p :=
  mem_left_of_not_renewed hs hf h.installed (h.not_renewed p)

theorem Withdrawn.stays_iff (h : dc.Withdrawn a p i) :
    dc.stays a p i = true ↔ dc.cluster.hasChecker = true ∧
      dc.cluster.config.ignoreHealthOnRemoval = false ∧ (dc.cluster.hosts.get i).Passes := by
  have hafter : dc.after a p i = (dc.reached a p).hosts.get i :=
    after_of_unmet hs hf fun x hx => h.unmet hs (mem_arrivalsAt.1 hx).1
  -- whatever happened before, what discovery reported of it is still there
  have hdiscovery : (dc.after a p i).hasFlag .failedDiscovery =
      (dc.cluster.hosts.get i).hasFlag .failedDiscovery := by
    rw [hafter]
    rcases get_reached_of_unmet hs hf (h.lt hs) (n := p) fun x hx _ => h.unmet hs hx with
      ⟨hget, _⟩ | ⟨hget, _⟩
    · rw [hget]
    · rw [hget, Host.hasFlag_setFlag]
      simp
  rw [DynamicCluster.stays_iff hs hf (h.lt hs)]
  constructor
  · intro hd
    exact ⟨hd.checker, hd.respected, hd.passing, hdiscovery ▸ hd.listed, hd.checked⟩
  · rintro ⟨hchecker, hrespected, hpasses⟩
    refine ⟨hchecker, hrespected, ?_, fun hm => absurd hm h.unnamed, hpasses.active,
      hdiscovery.trans hpasses.discovery, hpasses.checked⟩
    intro x hx htext
    exact absurd (htext ▸ text_mem_texts (mem_arrivalsAt.1 hx).1) h.unnamed

theorem Withdrawn.removed (h : dc.Withdrawn a p i) (hleaves : ¬ dc.stays a p i = true) :
    dc.isAlone a p = false ∧ i ∈ (dc.resultAt a p).removed := by
  have hmem : i ∈ (dc.resultAt a p).removed := by
    rw [removed_resultAt hs hf]
    exact List.mem_filter.2 ⟨h.mem_left hs hf, by simpa using hleaves⟩
  refine ⟨?_, hmem⟩
  cases halone : dc.isAlone a p with
  | false => rfl
  | true =>
    rw [(quiet_of_isAlone hs hf halone).2.1] at hmem
    cases hmem

theorem Withdrawn.installed_iff (h : dc.Withdrawn a p i) {new : List Event} {t : DynamicCluster τ}
    (ht : dc.Delivered a new t) :
    i ∈ t.cluster.priorities.hostsAt p ↔ dc.stays a p i = true := by
  rw [ht.hostsAt p]
  constructor
  · intro hi
    by_contra hleaves
    obtain ⟨halone, _⟩ := h.removed hs hf hleaves
    rw [halone, if_neg (by simp), hosts_resultAt hs hf] at hi
    rcases List.mem_append.1 hi with hi | hi
    · obtain ⟨x, hx, hxi⟩ := List.mem_map.1 hi
      exact h.not_member hs (mem_arrivalsAt.1 hx).1 hxi
    · exact hleaves (List.mem_filter.1 hi).2
  · intro hstays
    split
    · exact h.installed
    · rw [hosts_resultAt hs hf]
      exact List.mem_append_right _ (List.mem_filter.2 ⟨h.mem_left hs hf, hstays⟩)

theorem Withdrawn.get_of_stays (h : dc.Withdrawn a p i) {new : List Event} {t : DynamicCluster τ}
    (ht : dc.Delivered a new t) (hstays : dc.stays a p i = true) :
    t.cluster.hosts.get i = (dc.cluster.hosts.get i).setFlag .pendingRemoval := by
  rw [ht.hosts]
  rcases get_reached_of_unmet hs hf (h.lt hs) (n := dc.span (dc.plan a).1)
    fun x hx _ => h.unmet hs hx with ⟨_, hnone⟩ | ⟨hget, _⟩
  · exact absurd ⟨h.mem_left hs hf, hstays⟩ (hnone p (lt_span_of_mem h.installed))
  · exact hget

end DynamicCluster

namespace Service

variable {τ : Type} [Quantity τ]

/-- In every reachable state and for every valid assignment: a host whose address the assignment does
not name stays at its level exactly if there is a health checker, removals respect health, and the
host passes. A host that stays is flagged and otherwise as it was; a host that does not is reported to
those who watch the level. -/
theorem withdrawn_stays_iff {config : ClusterConfig} (hconfig : config.validate = .ok ())
    {s : Service τ} (hs : Reaches Knows (fresh τ config) s)
    {a : Assignment} (ha : config.validateAssignment a = .ok ()) :
    ∃ t, s.deliver a = .done t ∧ ∀ p i, s.body.Withdrawn a p i →
      (i ∈ t.cluster.priorities.hostsAt p ↔ s.cluster.hasChecker = true ∧
        config.ignoreHealthOnRemoval = false ∧ (s.cluster.hosts.get i).Passes) ∧
      (i ∈ t.cluster.priorities.hostsAt p →
        t.cluster.hosts.get i = (s.cluster.hosts.get i).setFlag .pendingRemoval ∧
          (s.cluster.hosts.get i).Lingers (t.cluster.hosts.get i)) ∧
      (i ∉ t.cluster.priorities.hostsAt p → ∀ w, t.cluster.priorities.Watches p w →
        ReportsRemoved (s.news t) w.number p i) := by
  have hsound := sound_of_reaches hconfig hs
  have hbody : s.body.cluster.Sound := hsound.cluster
  have hconfig' : s.body.cluster.config = config := hsound.config
  have hf := hsound.factorFor_ne_zero hconfig ha
  obtain ⟨new, body, hdone, hnew, _⟩ := exists_deliver hconfig hsound ha
  refine ⟨_, hdone, ?_⟩
  intro p i hi
  have hiff : i ∈ body.cluster.priorities.hostsAt p ↔ s.body.stays a p i = true :=
    hi.installed_iff hbody hf hnew
  have hstays := hi.stays_iff hbody hf
  rw [hconfig'] at hstays
  refine ⟨hiff.trans hstays, fun hmem => ?_, fun hmem w hw => ?_⟩
  · have hget : body.cluster.hosts.get i = (s.cluster.hosts.get i).setFlag .pendingRemoval :=
      hi.get_of_stays hbody hf hnew (hiff.1 hmem)
    refine ⟨hget, ?_⟩
    show (s.cluster.hosts.get i).Lingers (body.cluster.hosts.get i)
    rw [hget]
    exact (s.cluster.hosts.get i).lingers_setFlag
  · rw [news_eq hnew]
    exact (hnew.removed p w hw i).2 (hi.removed hbody hf fun h => hmem (hiff.2 h))

/-- Of the two that are withdrawn, the one that passed stays, and the one that failed is reported. -/
theorem withdrawn_stays_settled :
    settled.deliver crossed = .done resettled ∧ resettled.cluster.priorities.hostsAt 0 = [2, 5, 0] ∧
      resettled.cluster.priorities.hostsAt 1 = [1] ∧
      resettled.cluster.hosts.get 0 = (settled.cluster.hosts.get 0).setFlag .pendingRemoval ∧
      (settled.cluster.hosts.get 0).Lingers (resettled.cluster.hosts.get 0) ∧
      ReportsRemoved (settled.news resettled) 0 1 3 := by
  have hhosts : resettled.cluster.priorities.hostsAt 0 = [2, 5, 0] := rfl
  have hhosts' : resettled.cluster.priorities.hostsAt 1 = [1] := rfl
  have hconfig : ({} : ClusterConfig).validate = .ok () := rfl
  obtain ⟨t, ht, h⟩ := withdrawn_stays_iff hconfig reaches_settled (a := crossed) rfl
  cases ht
  have hpassed : settled.body.Withdrawn crossed 0 0 := ⟨by decide, by decide⟩
  have hfailed : settled.body.Withdrawn crossed 1 3 := ⟨by decide, by decide⟩
  obtain ⟨hiff, hkept, -⟩ := h 0 0 hpassed
  obtain ⟨hget, hlingers⟩ := hkept (hiff.2 ⟨rfl, rfl, rfl, rfl, rfl⟩)
  obtain ⟨-, -, hreported⟩ := h 1 3 hfailed
  have hgone : 3 ∉ resettled.cluster.priorities.hostsAt 1 := by
    rw [hhosts']
    decide
  exact ⟨rfl, hhosts, hhosts', hget, hlingers, hreported hgone ⟨0, []⟩ (.inl (by decide))⟩

end Service

end Roster
