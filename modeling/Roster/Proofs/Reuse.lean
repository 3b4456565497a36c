import Roster.Proofs.Consistency

/-!
# Roster.Proofs.Reuse

Which host stands for an endpoint after a delivery, and what it is like.

* `Fits`           — the host that the index found at the address goes on as the endpoint's host.
* `Answers`        — what the host of an endpoint is like, whether it went on or is new.
* `Serves`         — the one host that stands for an endpoint, and where it comes from.
* `serves_deliver` — every endpoint of a delivered assignment has such a host.
-/

namespace Roster

/-! ## Hosts of endpoints -/

namespace HealthStatus

theorem failed_flags (status : HealthStatus) : status.flags.contains .failedDiscovery = true ↔
    status = .unhealthy ∨ status = .draining ∨ status = .timeout := by
  cases status <;> decide

theorem degraded_flags (status : HealthStatus) :
    status.flags.contains .degradedDiscovery = true ↔ status = .degraded := by
  cases status <;> decide

end HealthStatus

theorem Arrival.weight_host (x : Arrival) :
    x.host.weight = max 1 (min (x.endpoint.weight?.elim 1 UInt32.toNat) 128) := by
  rw [x.host_eq]
  simp only [clampWeight, minWeight, maxWeight, Endpoint.weight]
  cases x.endpoint.weight? <;> rfl

/-! ## Updates in place -/

namespace Host

theorem canary_adopt {h d : Host} (hh : h.Marked) (hd : d.Marked) :
    (h.adopt d).canary = d.canary := by
  have hmarked : (h.adopt d).canary = (h.adopt d).metadata.canary := marked_adopt hh hd
  have hsame : (h.adopt d).metadata.canary = d.metadata.canary :=
    Metadata.canary_congr (metadata_adopt h d)
  exact (hmarked.trans hsame).trans hd.symm

/-- What the host of an endpoint is like. Without a weight an endpoint counts as one, and no host counts
as more than 128. -/
structure Answers (h : Host) (g : EndpointGroup) (e : Endpoint) : Prop where
  address : h.address = e.address
  weight : h.weight = max 1 (min (e.weight?.elim 1 UInt32.toNat) 128)
  failed : h.hasFlag .failedDiscovery = true ↔
    e.healthStatus = .unhealthy ∨ e.healthStatus = .draining ∨ e.healthStatus = .timeout
  degraded : h.hasFlag .degradedDiscovery = true ↔ e.healthStatus = .degraded
  metadata : (h.metadata == e.metadata) = true
  canary : h.canary = true ↔ e.metadata.value? "envoy.lb" "canary" = some (.bool true)
  priority : h.priority = g.priority.toNat
  pending : h.hasFlag .pendingRemoval = false

theorem answers_host (x : Arrival) : x.host.Answers x.group x.endpoint := by
  have hweight := x.weight_host
  have hpending := x.pending_host
  rw [x.host_eq] at hweight hpending ⊢
  exact ⟨rfl, hweight, x.endpoint.healthStatus.failed_flags, x.endpoint.healthStatus.degraded_flags,
    Metadata.same_refl _, x.endpoint.metadata.canary_iff, rfl, hpending⟩

theorem answers_adopt {h : Host} (hh : h.Marked) (x : Arrival) (haddress : h.address = x.endpoint.address) :
    ((h.clearFlag .pendingRemoval).adopt x.host).Answers x.group x.endpoint := by
  have hx := answers_host x
  have hclear : (h.clearFlag .pendingRemoval).Marked := hh
  refine ⟨?_, (weight_adopt _ _).trans hx.weight, ?_, ?_, ?_, ?_, hx.priority, ?_⟩
  · exact (alike_adopt _ _).address.trans haddress
  · rw [hasFlag_adopt, if_pos (.inl rfl)]
    exact hx.failed
  · rw [hasFlag_adopt, if_pos (.inr rfl)]
    exact hx.degraded
  · rw [x.host_eq]
    exact metadata_adopt _ _
  · rw [canary_adopt hclear x.marked_host]
    exact hx.canary
  · rw [hasFlag_adopt, if_neg (by simp)]
    simp

/-- A host that answers its endpoint is not shifted by it. -/
theorem Answers.still {h : Host} {g : EndpointGroup} {e : Endpoint} (hh : h.Answers g e) :
    h.shifts (ofEndpoint g e) = false := by
  have hd : (ofEndpoint g e).Answers g e := answers_host ⟨g, e, 0⟩
  have hmetadata : (ofEndpoint g e).metadata = e.metadata :=
    congrArg Host.metadata (Arrival.host_eq ⟨g, e, 0⟩)
  have hfailed := Bool.eq_iff_iff.2 (hh.failed.trans hd.failed.symm)
  have hdegraded := Bool.eq_iff_iff.2 (hh.degraded.trans hd.degraded.symm)
  refine shifts_eq_false.2 ⟨hh.weight.trans hd.weight.symm, ?_, ?_⟩
  · rw [hfailed, hdegraded]
    simp [healthShift]
  · rw [hmetadata]
    exact hh.metadata

theorem answers_entry {h : Host} {g : EndpointGroup} {e : Endpoint} (hh : h.Answers g e)
    (rules : Reconcile.Rules) : (h.setFlags (Reconcile.entryFlags rules h)).Answers g e := by
  have hentry : ∀ f, f ≠ .failedActiveCheck → f ≠ .pendingActiveCheck →
      (h.setFlags (Reconcile.entryFlags rules h)).hasFlag f = h.hasFlag f := by
    intro f hactive hpending
    have hnot : f ∉ Reconcile.entryFlags rules h := by
      unfold Reconcile.entryFlags
      split
      · split <;> simp [hactive, hpending]
      · simp
    rw [hasFlag_setFlags]
    simp [hnot]
  have hsteady := steady_setFlags h (Reconcile.entryFlags rules h)
  refine ⟨hsteady.address.trans hh.address, hsteady.weight.trans hh.weight, ?_, ?_, ?_, ?_,
    hsteady.priority.trans hh.priority, ?_⟩
  · rw [hentry _ (by simp) (by simp)]
    exact hh.failed
  · rw [hentry _ (by simp) (by simp)]
    exact hh.degraded
  · rw [hsteady.metadata]
    exact hh.metadata
  · rw [hsteady.canary]
    exact hh.canary
  · rw [hentry _ (by simp) (by simp)]
    exact hh.pending

end Host

/-! ## Endpoints -/

namespace Service

variable {τ : Type}

/-- The host that the index found at the address of an endpoint goes on as its host: it has the locality
of the group and, where hosts are checked, it is checked as the endpoint says: at its address, but at the
port that is given for checks, if one is. -/
structure Fits (s : Service τ) (g : EndpointGroup) (e : Endpoint) (i : HostId) : Prop where
  found : Assoc.find? e.address.text s.cluster.priorities.addressMap = some i
  locality : (s.cluster.hosts.get i).locality = g.locality
  checked : s.cluster.hasChecker = true →
    (s.cluster.hosts.get i).healthCheckAddress =
        (if e.healthCheck.port = 0 then e.address else ⟨e.address.host, e.healthCheck.port⟩) ∧
      (s.cluster.hosts.get i).disableActiveCheck = e.disableActiveCheck

/-- The host `i` of `t` stands for the endpoint `e` of group `g`, delivered to `s`: nobody else at the
address does, it is the host that fits or a new one, and a host that fits keeps what the endpoint says
nothing of. -/
structure Serves (s t : Service τ) (g : EndpointGroup) (e : Endpoint) (i : HostId) : Prop where
  only : (t.cluster.priorities.hostsAt g.level).filter (fun k =>
    decide ((t.cluster.hosts.get k).address = e.address) &&
      !(t.cluster.hosts.get k).hasFlag .pendingRemoval) = [i]
  reused : ∀ k, s.Fits g e k → i = k
  fresh : (¬ ∃ k, s.Fits g e k) → s.cluster.hosts.size ≤ i
  answers : (t.cluster.hosts.get i).Answers g e
  flags : ∀ k, s.Fits g e k → ∀ f, f ≠ .failedDiscovery → f ≠ .degradedDiscovery → f ≠ .pendingRemoval →
    (t.cluster.hosts.get k).hasFlag f = (s.cluster.hosts.get k).hasFlag f
  used : ∀ k, s.Fits g e k → (t.cluster.hosts.get k).used = (s.cluster.hosts.get k).used
  failure : ∀ k, s.Fits g e k → (t.cluster.hosts.get k).failure = (s.cluster.hosts.get k).failure

theorem heir?_eq_some_iff {s : Service τ} {x : Arrival} {i : HostId} :
    s.body.heir? x = some i ↔ s.Fits x.group x.endpoint i := by
  have hfits : Reconcile.fits s.body.cluster.rules (s.body.cluster.hosts.get i) x.host = true ↔
      (s.cluster.hosts.get i).locality = x.group.locality ∧ (s.cluster.hasChecker = true →
        (s.cluster.hosts.get i).healthCheckAddress = x.endpoint.healthCheckAddress ∧
          (s.cluster.hosts.get i).disableActiveCheck = x.endpoint.disableActiveCheck) := by
    rw [x.host_eq]
    simp only [Reconcile.fits, Reconcile.movedLocality, Reconcile.movedCheck, Reconcile.switchedCheck,
      Cluster.rules, cluster]
    cases s.body.cluster.hasChecker <;> simp [and_assoc]
  rw [DynamicCluster.heir?, Option.filter_eq_some_iff, hfits]
  constructor
  · rintro ⟨hfound, hlocality, hchecked⟩
    exact ⟨hfound, hlocality, hchecked⟩
  · intro h
    exact ⟨h.found, h.locality, h.checked⟩

section Delivered

variable [Quantity τ] {s : Service τ} {a : Assignment} {body : DynamicCluster τ} {new : List Event}
  (hnew : s.body.Delivered a new body) (hc : s.cluster.Orderly)
  (hf : s.body.cluster.config.factorFor a ≠ 0) (ha : a.Clean) {x : Arrival}
  (hx : x ∈ s.body.arrivals a)

include hnew hc hf ha hx

theorem get_of_heir? {e : HostId} (he : s.body.heir? x = some e) :
    body.cluster.hosts.get e =
      ((s.cluster.hosts.get e).clearFlag .pendingRemoval).adopt x.host := by
  rw [hnew.hosts]
  exact DynamicCluster.get_reached_of_heir? hc hf ha hx he (DynamicCluster.level_lt_span hx)

theorem answers_member :
    (body.cluster.hosts.get (s.body.member x)).Answers x.group x.endpoint := by
  cases hheir : s.body.heir? x with
  | some e =>
    have haddress : (s.cluster.hosts.get e).address = x.endpoint.address :=
      Address.text_inj (hc.proper e) (ha.proper _ (mem_members_of_arrival hx))
        (DynamicCluster.text_of_heir? hc.toSound hheir).1
    rw [DynamicCluster.member_of_heir? hheir, get_of_heir? hnew hc hf ha hx hheir]
    exact Host.answers_adopt (hc.marked e) x haddress
  | none =>
    rw [DynamicCluster.member_of_fresh hheir, hnew.hosts,
      DynamicCluster.get_reached_id hc.toSound hf hx (DynamicCluster.level_lt_span hx), hheir,
      if_neg (by simp)]
    exact Host.answers_entry (Host.answers_host x) _

theorem only_member :
    (body.cluster.priorities.hostsAt x.level).filter (fun k =>
      decide ((body.cluster.hosts.get k).address = x.endpoint.address) &&
        !(body.cluster.hosts.get k).hasFlag .pendingRemoval) = [s.body.member x] := by
  have hnodup : (body.cluster.priorities.hostsAt x.level).Nodup :=
    (hnew.orderly hc hf ha).nodup x.level
  have hanswers := answers_member hnew hc hf ha hx
  refine List.perm_singleton.1 ((List.perm_ext_iff_of_nodup (hnodup.filter _) (by simp)).2 ?_)
  intro k
  simp only [List.mem_filter, Bool.and_eq_true, decide_eq_true_eq, Bool.not_eq_true',
    List.mem_singleton]
  constructor
  · rintro ⟨hk, haddress, hactive⟩
    obtain ⟨y, hy, _, rfl⟩ := exists_arrival_of_active hnew hc hf ha hk hactive
    rw [address_member hnew hc hf ha hy] at haddress
    rw [DynamicCluster.eq_of_text_eq ha hy hx (congrArg Address.text haddress)]
  · rintro rfl
    exact ⟨hnew.member_mem_hostsAt hc hf ha hx, hanswers.address, hanswers.pending⟩

theorem serves_member : s.Serves { s with body } x.group x.endpoint (s.body.member x) := by
  have hget : ∀ k, s.Fits x.group x.endpoint k → body.cluster.hosts.get k =
      ((s.cluster.hosts.get k).clearFlag .pendingRemoval).adopt x.host := fun k hk =>
    get_of_heir? hnew hc hf ha hx (heir?_eq_some_iff.2 hk)
  refine ⟨only_member hnew hc hf ha hx, ?_, ?_, answers_member hnew hc hf ha hx, ?_, ?_, ?_⟩
  · intro k hk
    exact DynamicCluster.member_of_heir? (heir?_eq_some_iff.2 hk)
  · intro hnone
    cases hheir : s.body.heir? x with
    | some e => exact absurd ⟨e, heir?_eq_some_iff.1 hheir⟩ hnone
    | none =>
      rw [DynamicCluster.member_of_fresh hheir]
      exact (DynamicCluster.Underway.id_lt hx).1
  · intro k hk f hfailed hdegraded hpending
    refine (congrArg (Host.hasFlag · f) (hget k hk)).trans ?_
    rw [Host.hasFlag_adopt, if_neg (by simp [hfailed, hdegraded])]
    simp [hpending]
  · intro k hk
    exact (congrArg Host.used (hget k hk)).trans (Host.used_adopt _ _)
  · intro k hk
    exact (congrArg Host.failure (hget k hk)).trans (Host.failure_adopt _ _)

end Delivered

/-- As long as assignments name every address once, every endpoint has one host after a delivery: the one
that the index found before exactly if that one fits, and otherwise a new one. -/
theorem serves_deliver [Quantity τ] {config : ClusterConfig} (hconfig : config.validate = .ok ())
    {s : Service τ} (hs : Reaches (fun _ act => act.IsClean) (fresh τ config) s) {a : Assignment}
    (ha : config.validateAssignment a = .ok ()) (hclean : a.Clean) :
    ∃ t, s.deliver a = .done t ∧ ∀ m ∈ a.members, ∃ i, s.Serves t m.1 m.2 i := by
  have hsound := sound_of_reaches hconfig (reaches_knows hs)
  have hc := orderly_of_reaches hconfig hs
  obtain ⟨_, body, hdone, hnew, _⟩ := exists_deliver hconfig hsound ha
  refine ⟨_, hdone, ?_⟩
  intro m hm
  rw [← map_arrivals a s.body.cluster.hosts.size] at hm
  obtain ⟨x, hx, rfl⟩ := List.mem_map.1 hm
  exact ⟨_, serves_member hnew hc (hsound.factorFor_ne_zero hconfig ha) hclean hx⟩

/-- The hosts that change places go on as the hosts of their endpoints, and the fifth endpoint gets a
new one. -/
theorem serves_settled :
    settled.deliver crossed = .done resettled ∧
      (∀ m ∈ crossed.members, ∃ i, settled.Serves resettled m.1 m.2 i) ∧
      resettled.cluster.priorities.hostsAt 0 = [2, 5, 0] ∧
      resettled.cluster.priorities.hostsAt 1 = [1] ∧
      (resettled.cluster.hosts.get 2).weight = 128 ∧
      (resettled.cluster.hosts.get 1).hasFlag .degradedDiscovery = true := by
  obtain ⟨t, ht, hserves⟩ := serves_deliver rfl reaches_settled_of_clean rfl clean_crossed
  cases ht
  exact ⟨rfl, hserves, rfl, rfl, rfl, rfl⟩

end Service

end Roster
