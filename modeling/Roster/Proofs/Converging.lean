import Mathlib.Data.List.Induction
import Roster.Proofs.Agreeing
import Roster.Proofs.Awaiting
import Roster.Proofs.Reuse

/-!
# Roster.Proofs.Converging

Deliveries to a cluster without a health checker, against the last of them delivered alone. What an
endpoint says of weight, metadata, health and priority reaches the host at its address. What else it
says is read when a host is made, and a host goes on as long as its locality is the one delivered.

* `Assignment.founder?` — the endpoint that the host at an address is made for; `Founds` tells it from
  the others that were delivered there.
* `Host.Depicts`  — what is fixed of a host is what an endpoint says.
* `Cluster.Founded` — every installed host is made for it; `founded_deliver`, `founded_run`.
* `Host.Echoes`   — two hosts are alike in what is updated in place.
* `Converges`     — a cluster against one that the last assignment was delivered to alone.
* `converges_deliver` — after every delivery; `hostname_stays` shows what it does not promise.
-/

namespace Roster

/-! ## The endpoint that a host is made for -/

namespace Assignment

def endpointAt? (a : Assignment) (b : Address) : Option (EndpointGroup × Endpoint) :=
  a.members.find? fun m => m.2.address = b

theorem endpointAt?_eq_some_iff {a : Assignment} (ha : a.Clean) {b : Address}
    {m : EndpointGroup × Endpoint} :
    a.endpointAt? b = some m ↔ m ∈ a.members ∧ m.2.address = b := by
  have hfound : ∀ k, a.endpointAt? b = some k → k ∈ a.members ∧ k.2.address = b := fun k hk =>
    ⟨List.mem_of_find?_eq_some hk, by simpa using List.find?_some hk⟩
  refine ⟨hfound m, fun ⟨hm, haddress⟩ => ?_⟩
  cases hk : a.endpointAt? b with
  | none => exact absurd haddress (by simpa using List.find?_eq_none.1 hk m hm)
  | some k =>
    obtain ⟨hmem, hsame⟩ := hfound k hk
    exact congrArg some (List.inj_on_of_nodup_map ha.distinct hmem hm (hsame.trans haddress.symm))

/-- One assignment later the host is made for another endpoint, unless the locality is the same. -/
def refound (founder? endpoint? : Option (EndpointGroup × Endpoint)) :
    Option (EndpointGroup × Endpoint) :=
  endpoint?.map fun m => (founder?.filter fun f => f.1.locality = m.1.locality).getD m

/-- The endpoint that the host at an address is made for after a series of assignments: that of the
earliest one since which all name the address in one locality. -/
def founder? (b : Address) (history : List Assignment) : Option (EndpointGroup × Endpoint) :=
  history.foldl (fun f a => refound f (a.endpointAt? b)) none

theorem founder?_append_singleton (b : Address) (history : List Assignment) (a : Assignment) :
    founder? b (history ++ [a]) = refound (founder? b history) (a.endpointAt? b) := by
  rw [founder?, List.foldl_append]
  rfl

theorem refound_eq_some {f m : Option (EndpointGroup × Endpoint)} {g : EndpointGroup × Endpoint}
    (h : refound f m = some g) : ∃ k, m = some k ∧ g.1.locality = k.1.locality := by
  obtain ⟨k, rfl, rfl⟩ := Option.map_eq_some_iff.1 h
  refine ⟨k, rfl, ?_⟩
  cases hf : f.filter fun f => f.1.locality = k.1.locality with
  | none => rfl
  | some g => exact of_decide_eq_true (Option.filter_eq_some_iff.1 hf).2

theorem refound_of_locality {f m : EndpointGroup × Endpoint} (h : f.1.locality = m.1.locality) :
    refound (some f) (some m) = some f := by
  have hsome : (some f).filter (fun f => f.1.locality = m.1.locality) = some f :=
    Option.filter_eq_some_iff.2 ⟨rfl, decide_eq_true h⟩
  rw [refound, Option.map_some, hsome, Option.getD_some]

theorem refound_of_forall {f : Option (EndpointGroup × Endpoint)} {m : EndpointGroup × Endpoint}
    (h : ∀ g, f = some g → g.1.locality ≠ m.1.locality) : refound f (some m) = some m := by
  have hnone : f.filter (fun f => f.1.locality = m.1.locality) = none :=
    Option.filter_eq_none_iff.2 fun g hg => by simpa using h g hg
  rw [refound, Option.map_some, hnone, Option.getD_none]

/-- The endpoint `m` at an address is of the earliest assignment since which all name the address in one
locality. -/
def Founds (b : Address) (m : EndpointGroup × Endpoint) (history : List Assignment) : Prop :=
  ∃ before a later, history = before ++ a :: later ∧ a.endpointAt? b = some m ∧
    (∀ d ∈ later, ∃ k, d.endpointAt? b = some k ∧ k.1.locality = m.1.locality) ∧
    ∀ d ∈ before.getLast?, ∀ k, d.endpointAt? b = some k → k.1.locality ≠ m.1.locality

theorem exists_founder?_of_getLast? {b : Address} {history : List Assignment} {d : Assignment}
    {k : EndpointGroup × Endpoint} (hd : d ∈ history.getLast?) (hk : d.endpointAt? b = some k) :
    ∃ f, founder? b history = some f ∧ f.1.locality = k.1.locality := by
  obtain ⟨before, rfl⟩ := List.getLast?_eq_some_iff.1 hd
  cases hf : founder? b (before ++ [d]) with
  | none =>
    rw [founder?_append_singleton, hk] at hf
    cases hf
  | some f =>
    rw [founder?_append_singleton, hk] at hf
    obtain ⟨_, hsome, hlocality⟩ := refound_eq_some hf
    cases hsome
    exact ⟨f, rfl, hlocality⟩

theorem founds_of_founder? {b : Address} {history : List Assignment} {m : EndpointGroup × Endpoint}
    (h : founder? b history = some m) : Founds b m history := by
  induction history using List.reverseRecOn generalizing m with
  | nil => cases h
  | append_singleton history a ih =>
    rw [founder?_append_singleton] at h
    obtain ⟨k, hk, hlocality⟩ := refound_eq_some h
    rw [hk] at h
    by_cases hsame : ∃ f, founder? b history = some f ∧ f.1.locality = k.1.locality
    · obtain ⟨f, hf, hfk⟩ := hsame
      rw [hf, refound_of_locality hfk] at h
      cases h
      obtain ⟨before, d, later, rfl, hd, hlater, hbefore⟩ := ih hf
      refine ⟨before, d, later ++ [a], by simp, hd, fun e he => ?_, hbefore⟩
      rcases List.mem_append.1 he with he | he
      · exact hlater e he
      · rw [List.mem_singleton.1 he]
        exact ⟨k, hk, hlocality.symm⟩
    · rw [refound_of_forall fun g hg hgk => hsame ⟨g, hg, hgk⟩] at h
      cases h
      refine ⟨history, a, [], rfl, hk, by simp, fun d hd e he hek => hsame ?_⟩
      obtain ⟨f, hf, hfe⟩ := exists_founder?_of_getLast? hd he
      exact ⟨f, hf, hfe.trans hek⟩

end Assignment

/-- What is fixed of a host is what an endpoint of a group says; the endpoint is checked at its address,
but at the port that is given for checks, if one is. -/
structure Host.Depicts (h : Host) (g : EndpointGroup) (e : Endpoint) : Prop where
  address : h.address = e.address
  healthCheckAddress : h.healthCheckAddress =
    if e.healthCheck.port = 0 then e.address else ⟨e.address.host, e.healthCheck.port⟩
  hostname : h.hostname = e.hostname
  checkHostname : h.checkHostname = e.healthCheck.hostname
  locality : h.locality = g.locality
  disableActiveCheck : h.disableActiveCheck = e.disableActiveCheck

theorem Host.Alike.depicts {g : EndpointGroup} {e : Endpoint} {h : Host}
    (hh : Alike (ofEndpoint g e) h) : h.Depicts g e := by
  rw [show ofEndpoint g e = _ from Arrival.host_eq ⟨g, e, 0⟩] at hh
  exact ⟨hh.address, hh.healthCheckAddress, hh.hostname, hh.checkHostname, hh.locality,
    hh.disableActiveCheck⟩

open Assignment (founder?)

namespace DynamicCluster

variable {τ : Type} {dc : DynamicCluster τ} {a : Assignment}

theorem endpointAt?_of_arrival (ha : a.Clean) {x : Arrival} (hx : x ∈ dc.arrivals a) :
    a.endpointAt? x.endpoint.address = some (x.group, x.endpoint) :=
  (Assignment.endpointAt?_eq_some_iff ha).2 ⟨mem_members_of_arrival hx, rfl⟩

theorem exists_arrival_of_endpointAt? (ha : a.Clean) {b : Address} {m : EndpointGroup × Endpoint}
    (h : a.endpointAt? b = some m) : ∃ x ∈ dc.arrivals a, x.endpoint.address = b := by
  obtain ⟨hm, haddress⟩ := (Assignment.endpointAt?_eq_some_iff ha).1 h
  rw [← map_arrivals a dc.cluster.hosts.size] at hm
  obtain ⟨x, hx, rfl⟩ := List.mem_map.1 hm
  exact ⟨x, hx, haddress⟩

theorem forall₂_arrivalsAt (dc dc' : DynamicCluster τ) (a : Assignment) (p : Nat) :
    List.Forall₂ (fun x y => x ∈ dc.arrivals a ∧ y ∈ dc'.arrivals a ∧
      (x.group, x.endpoint) = (y.group, y.endpoint)) (dc.arrivalsAt a p) (dc'.arrivalsAt a p) := by
  have hmap : ∀ d : DynamicCluster τ, (d.arrivalsAt a p).map (fun x => (x.group, x.endpoint)) =
      a.members.filter fun m => m.1.level = p := fun d => by
    rw [← map_arrivals a d.cluster.hosts.size, List.filter_map]
    rfl
  have hsame : List.Forall₂ (fun x y : Arrival => (x.group, x.endpoint) = (y.group, y.endpoint))
      (dc.arrivalsAt a p) (dc'.arrivalsAt a p) := by
    have heq := (hmap dc).trans (hmap dc').symm
    rwa [← List.forall₂_eq_eq_eq, List.forall₂_map_left_iff, List.forall₂_map_right_iff] at heq
  refine List.forall₂_iff_zip.2 ⟨hsame.length_eq, fun {x y} hxy => ?_⟩
  obtain ⟨hx, hy⟩ := List.of_mem_zip hxy
  exact ⟨(mem_arrivalsAt.1 hx).1, (mem_arrivalsAt.1 hy).1, (List.forall₂_iff_zip.1 hsame).2 hxy⟩

end DynamicCluster

/-- Every installed host is made for the endpoint that a series of assignments tells, and where it tells
one there is a host. -/
structure Cluster.Founded {τ : Type} (c : Cluster τ) (history : List Assignment) : Prop where
  made : ∀ p, ∀ i ∈ c.priorities.hostsAt p, ∃ m,
    founder? (c.hosts.get i).address history = some m ∧
      Host.Alike (Host.ofEndpoint m.1 m.2) (c.hosts.get i)
  here : ∀ b m, founder? b history = some m →
    ∃ p, ∃ i ∈ c.priorities.hostsAt p, (c.hosts.get i).address = b

namespace Cluster.Founded

variable {τ : Type} {c d : Cluster τ} {history : List Assignment} {b : Address} {e : HostId}

theorem of_bare (h : c.priorities.Bare) : c.Founded [] := by
  refine ⟨fun p i hi => ?_, fun b m hm => by cases hm⟩
  rw [h.hostsAt p] at hi
  cases hi

theorem steady (h : c.Founded history) (hcd : c.Steady d) : d.Founded history := by
  refine ⟨fun p i hi => ?_, fun b m hm => ?_⟩
  · rw [hcd.priorities.hostsAt p] at hi
    obtain ⟨m, hm, halike⟩ := h.made p i hi
    exact ⟨m, (hcd.hosts i).address ▸ hm, halike.trans (hcd.hosts i).toAlike⟩
  · obtain ⟨p, i, hi, haddress⟩ := h.here b m hm
    exact ⟨p, i, by rwa [hcd.priorities.hostsAt p], (hcd.hosts i).address.trans haddress⟩

section Orderly

variable (h : c.Founded history) (hc : c.Orderly)

include h hc

theorem exists_of_find? (hb : b.host.Proper)
    (hfind : Assoc.find? b.text c.priorities.addressMap = some e) :
    ∃ m, founder? b history = some m ∧ Host.Alike (Host.ofEndpoint m.1 m.2) (c.hosts.get e) := by
  obtain ⟨p, rest, hlocated, _⟩ := hc.located_of_find? hfind
  have he : e ∈ c.hosts.located b.text (c.priorities.hostsAt p) := by
    rw [hlocated]
    exact List.mem_cons_self
  obtain ⟨hmem, htext⟩ := HostStore.mem_located.1 he
  have haddress : (c.hosts.get e).address = b := Address.text_inj (hc.proper e) hb htext
  exact haddress ▸ h.made p e hmem

theorem exists_find? {m : EndpointGroup × Endpoint} (hm : founder? b history = some m) :
    ∃ e, Assoc.find? b.text c.priorities.addressMap = some e ∧
      Host.Alike (Host.ofEndpoint m.1 m.2) (c.hosts.get e) := by
  obtain ⟨p, i, hi, rfl⟩ := h.here b m hm
  have hlocated : i ∈ c.hosts.located (c.hosts.get i).address.text (c.priorities.hostsAt p) :=
    HostStore.mem_located.2 ⟨hi, rfl⟩
  cases hlist : c.hosts.located (c.hosts.get i).address.text (c.priorities.hostsAt p) with
  | nil =>
    rw [hlist] at hlocated
    cases hlocated
  | cons e rest =>
    have hfind := hc.find?_of_located hlist
    obtain ⟨k, hk, halike⟩ := h.exists_of_find? hc (hc.proper i) hfind
    cases hm.symm.trans hk
    exact ⟨e, hfind, halike⟩

end Orderly

end Cluster.Founded

namespace Service

variable {τ : Type} [Quantity τ] {s t : Service τ} {config : ClusterConfig} {a : Assignment}
  {history : List Assignment}

section Delivered

variable {body : DynamicCluster τ} {new : List Event} (hnew : s.body.Delivered a new body)
  (hc : s.cluster.Orderly) (hf : s.body.cluster.config.factorFor a ≠ 0) (ha : a.Clean)

include hnew hc hf ha

/-- A new host is made for its endpoint; another one for the endpoint it was made for before. -/
theorem made_member (hchecker : s.cluster.hasChecker = false) (h : s.cluster.Founded history)
    {x : Arrival} (hx : x ∈ s.body.arrivals a) :
    ∃ m, founder? x.endpoint.address (history ++ [a]) = some m ∧
      Host.Alike (Host.ofEndpoint m.1 m.2) (body.cluster.hosts.get (s.body.member x)) := by
  have hproper : x.endpoint.address.host.Proper := ha.proper _ (mem_members_of_arrival hx)
  rw [Assignment.founder?_append_singleton, DynamicCluster.endpointAt?_of_arrival ha hx, hnew.hosts]
  cases hheir : s.body.heir? x with
  | some e =>
    have hfits := heir?_eq_some_iff.1 hheir
    obtain ⟨m, hm, halike⟩ := h.exists_of_find? hc hproper hfits.found
    have hlocality : m.1.locality = x.group.locality :=
      halike.depicts.locality.symm.trans hfits.locality
    have hknown : e < s.body.cluster.hosts.size := (DynamicCluster.text_of_heir? hc.toSound hheir).2
    refine ⟨m, by rw [hm, Assignment.refound_of_locality hlocality], ?_⟩
    rw [DynamicCluster.member_of_heir? hheir]
    exact halike.trans (DynamicCluster.alike_reached hc.toSound hf hknown _)
  | none =>
    refine ⟨(x.group, x.endpoint), Assignment.refound_of_forall fun m hm hlocality => ?_, ?_⟩
    · obtain ⟨e, hfind, halike⟩ := h.exists_find? hc hm
      have hfits : s.Fits x.group x.endpoint e :=
        ⟨hfind, halike.depicts.locality.trans hlocality,
           fun hhas => by rw [hchecker] at hhas; cases hhas⟩
      rw [heir?_eq_some_iff.2 hfits] at hheir
      cases hheir
    · rw [DynamicCluster.member_of_fresh hheir]
      exact DynamicCluster.alike_reached_id hc.toSound hf hx _

/-- Without a checker nobody drains. -/
theorem exists_arrival_of_unchecked (hchecker : s.cluster.hasChecker = false) {p : Nat} {i : HostId}
    (hi : i ∈ body.cluster.priorities.hostsAt p) :
    ∃ x ∈ s.body.arrivals a, x.level = p ∧ s.body.member x = i := by
  refine (hnew.mem_hostsAt hc hf ha hi).resolve_right fun hremains => ?_
  obtain ⟨hmem, _, hstays⟩ := DynamicCluster.mem_remains.1 hremains
  have hdrains := (DynamicCluster.stays_iff hc.toSound hf (hc.known p i hmem)).1 hstays
  exact Bool.false_ne_true (hchecker.symm.trans hdrains.checker)

theorem founded_deliver (hchecker : s.cluster.hasChecker = false) (h : s.cluster.Founded history) :
    body.cluster.Founded (history ++ [a]) := by
  refine ⟨fun p i hi => ?_, fun b m hm => ?_⟩
  · obtain ⟨x, hx, _, rfl⟩ := exists_arrival_of_unchecked hnew hc hf ha hchecker hi
    rw [address_member hnew hc hf ha hx]
    exact made_member hnew hc hf ha hchecker h hx
  · rw [Assignment.founder?_append_singleton] at hm
    obtain ⟨k, hk, _⟩ := Assignment.refound_eq_some hm
    obtain ⟨x, hx, rfl⟩ := DynamicCluster.exists_arrival_of_endpointAt? ha hk
    exact ⟨x.level, _, hnew.member_mem_hostsAt hc hf ha hx, address_member hnew hc hf ha hx⟩

theorem perm_members (hchecker : s.cluster.hasChecker = false) (p : Nat) :
    ((s.body.arrivalsAt a p).map s.body.member).Perm (body.cluster.priorities.hostsAt p) := by
  have htexts : ((s.body.arrivalsAt a p).map s.body.member).map (s.body.plan a).2.addressText =
      (s.body.arrivalsAt a p).map Arrival.text := by
    rw [List.map_map]
    exact List.map_congr_left fun x hx =>
      DynamicCluster.addressText_member hc.toSound (DynamicCluster.mem_arrivalsAt.1 hx).1
  have hnodup : ((s.body.arrivalsAt a p).map s.body.member).Nodup :=
    (htexts.symm ▸ DynamicCluster.nodup_texts_arrivalsAt s.body ha p).of_map
  refine (List.perm_ext_iff_of_nodup hnodup ((hnew.orderly hc hf ha).nodup p)).2 fun i => ?_
  rw [List.mem_map]
  constructor
  · rintro ⟨x, hx, rfl⟩
    obtain ⟨hmem, rfl⟩ := DynamicCluster.mem_arrivalsAt.1 hx
    exact hnew.member_mem_hostsAt hc hf ha hmem
  · intro hi
    obtain ⟨x, hx, hlevel, hmember⟩ := exists_arrival_of_unchecked hnew hc hf ha hchecker hi
    exact ⟨x, DynamicCluster.mem_arrivalsAt.2 ⟨hx, hlevel⟩, hmember⟩

end Delivered

end Service

/-! ## Runs -/

def Action.delivered? : Action → Option Assignment
  | .deliver a => some a
  | _ => none

namespace Service

variable {τ : Type} [Quantity τ] {s t u : Service τ} {config : ClusterConfig} {a : Assignment}
  {history : List Assignment} {acts : List Action}

theorem founded_perform (hconfig : config.validate = .ok ()) (hs : Sound config s)
    (hc : s.cluster.Orderly) (hchecker : s.cluster.hasChecker = false)
    (h : s.cluster.Founded history) {act : Action} (hact : act.IsClean)
    (hdone : perform act s = .done t) : t.cluster.Founded (history ++ act.delivered?.toList) := by
  rcases delivers_or_steady hconfig hs hact.not_isDirect hdone with
    ⟨a, _, body, rfl, rfl, hnew, hf, _⟩ | ⟨hd, _, hsteady⟩
  · exact founded_deliver hnew hc hf hact hchecker h
  · have hnone : act.delivered? = none := by
      cases act with
      | deliver a => exact absurd trivial hd
      | _ => rfl
    rw [hnone, Option.toList_none, List.append_nil]
    exact h.steady hsteady

/-- Along a run hosts stay those of the endpoints that the assignments so far tell. -/
theorem founded_run (hconfig : config.validate = .ok ()) (hclean : ∀ act ∈ acts, act.IsClean)
    (hnone : .setChecker ∉ acts) (hrun : run acts s = .done t) (hs : Sound config s)
    (hc : s.cluster.Orderly) (hchecker : s.cluster.hasChecker = false)
    (h : s.cluster.Founded history) :
    Sound config t ∧ t.cluster.Orderly ∧ t.cluster.hasChecker = false ∧
      t.cluster.Founded (history ++ acts.filterMap Action.delivered?) := by
  induction acts generalizing s history with
  | nil =>
    cases hrun
    exact ⟨hs, hc, hchecker, by rwa [List.filterMap_nil, List.append_nil]⟩
  | cons act acts ih =>
    obtain ⟨v, hv, hrest⟩ := Attempt.andThen_eq_done hrun
    have hact : act.IsClean := hclean act List.mem_cons_self
    have hsets : act.setsChecker = false := by
      cases act with
      | setChecker => exact absurd List.mem_cons_self hnone
      | _ => rfl
    have hstep := ih (fun b hb => hclean b (List.mem_cons_of_mem _ hb))
      (fun hmem => hnone (List.mem_cons_of_mem _ hmem)) hrest
      (sound_perform hconfig hs (knows_of_isClean hact) hv) (orderly_perform hconfig hs hc hact hv)
      (Cluster.hasChecker_of_move hchecker hsets (move_perform hv))
      (founded_perform hconfig hs hc hchecker h hact hv)
    have hhistory : history ++ act.delivered?.toList ++ acts.filterMap Action.delivered? =
        history ++ (act :: acts).filterMap Action.delivered? := by
      cases hd : act.delivered? <;> simp [hd]
    rwa [hhistory] at hstep

end Service

/-! ## One delivery alone -/

/-- Two hosts are alike in what an update in place takes over, and in address and locality. -/
structure Host.Echoes (h k : Host) : Prop where
  address : h.address = k.address
  locality : h.locality = k.locality
  weight : h.weight = k.weight
  metadata : (h.metadata == k.metadata) = true
  canary : h.canary = k.canary
  failed : h.hasFlag .failedDiscovery = k.hasFlag .failedDiscovery
  degraded : h.hasFlag .degradedDiscovery = k.hasFlag .degradedDiscovery
  priority : h.priority = k.priority

theorem Host.Answers.echoes {h k : Host} {g : EndpointGroup} {e : Endpoint} (hh : h.Answers g e)
    (hk : k.Answers g e) (hmetadata : k.metadata = e.metadata) (hlocality : h.locality = k.locality) :
    h.Echoes k where
  address := hh.address.trans hk.address.symm
  locality := hlocality
  weight := hh.weight.trans hk.weight.symm
  metadata := hmetadata ▸ hh.metadata
  canary := Bool.eq_iff_iff.2 (hh.canary.trans hk.canary.symm)
  failed := Bool.eq_iff_iff.2 (hh.failed.trans hk.failed.symm)
  degraded := Bool.eq_iff_iff.2 (hh.degraded.trans hk.degraded.symm)
  priority := hh.priority.trans hk.priority.symm

namespace Service

variable {τ : Type} [Quantity τ] {s t u : Service τ} {config : ClusterConfig} {a : Assignment}
  {history : List Assignment} {acts : List Action}

/-- A cluster after a series of assignments, against one that was delivered the last of them alone: at
every priority the hosts correspond one to one to hosts that they echo; the rest of their description is
that of the endpoint that they were made for; and priorities of earlier assignments only are empty. -/
structure Converges (history : List Assignment) (t u : Service τ) : Prop where
  matched : ∀ p, ∃ ids : List HostId, ids.Perm (t.cluster.priorities.hostsAt p) ∧
    List.Forall₂ (fun i k => (t.cluster.hosts.get i).Echoes (u.cluster.hosts.get k)) ids
      (u.cluster.priorities.hostsAt p)
  made : ∀ p, ∀ i ∈ t.cluster.priorities.hostsAt p, ∃ m,
    Assignment.Founds (t.cluster.hosts.get i).address m history ∧
      Host.Alike (Host.ofEndpoint m.1 m.2) (t.cluster.hosts.get i) ∧
        (t.cluster.hosts.get i).Depicts m.1 m.2
  vacated : ∀ p, u.cluster.priorities.levels.length ≤ p → t.cluster.priorities.hostsAt p = []

theorem locality_member {body : DynamicCluster τ} {new : List Event}
    (hnew : s.body.Delivered a new body) (hc : s.cluster.Orderly)
    (hf : s.body.cluster.config.factorFor a ≠ 0) (ha : a.Clean)
    (hchecker : s.cluster.hasChecker = false) (h : s.cluster.Founded history) {x : Arrival}
    (hx : x ∈ s.body.arrivals a) :
    (body.cluster.hosts.get (s.body.member x)).locality = x.group.locality := by
  obtain ⟨m, hm, halike⟩ := made_member hnew hc hf ha hchecker h hx
  rw [Assignment.founder?_append_singleton, DynamicCluster.endpointAt?_of_arrival ha hx] at hm
  obtain ⟨k, hk, hlocality⟩ := Assignment.refound_eq_some hm
  cases hk
  exact halike.depicts.locality.trans hlocality

theorem new_of_bare {body : DynamicCluster τ} {new : List Event}
    (hnew : s.body.Delivered a new body) (hbare : s.cluster.priorities.Bare)
    (hc : s.cluster.Orderly) (hf : s.body.cluster.config.factorFor a ≠ 0) (ha : a.Clean)
    {x : Arrival} (hx : x ∈ s.body.arrivals a) :
    (body.cluster.hosts.get x.id).Answers x.group x.endpoint ∧
      (body.cluster.hosts.get x.id).metadata = x.endpoint.metadata ∧
      (body.cluster.hosts.get x.id).locality = x.group.locality := by
  have hheir : s.body.heir? x = none := by
    have hmap : s.body.cluster.priorities.addressMap = [] := hbare.unmapped
    rw [DynamicCluster.heir?, hmap]
    rfl
  have hanswers := answers_member hnew hc hf ha hx
  rw [DynamicCluster.member_of_fresh hheir] at hanswers
  have hsteady := Host.steady_setFlags x.host (Reconcile.entryFlags s.body.cluster.rules x.host)
  have hget := DynamicCluster.get_reached_id hc.toSound hf hx (DynamicCluster.level_lt_span hx)
  rw [hheir, if_neg (by simp)] at hget
  rw [← hget, ← hnew.hosts, x.host_eq] at hsteady
  exact ⟨hanswers, hsteady.metadata, hsteady.locality⟩

/-- Whatever is delivered to a cluster without a health checker, after each assignment its hosts echo
those of a fresh cluster that the assignment is delivered to alone, and all else that describes a host is
what the endpoint said that it was made for. -/
theorem converges_deliver (hconfig : config.validate = .ok ()) (hclean : ∀ act ∈ acts, act.IsClean)
    (hnone : .setChecker ∉ acts) (hrun : run acts (fresh τ config) = .done s)
    (ha : config.validateAssignment a = .ok ()) (haclean : a.Clean) :
    ∃ t u, s.deliver a = .done t ∧ (fresh τ config).deliver a = .done u ∧
      Converges (acts.filterMap Action.delivered? ++ [a]) t u := by
  have hfresh : (fresh τ config).cluster.hasChecker = false := rfl
  have hbare : (fresh τ config).cluster.priorities.Bare := bare_fresh config
  have hstart : (fresh τ config).cluster.Founded [] := .of_bare hbare
  obtain ⟨hs, hc, hchecker, hfounded⟩ := founded_run hconfig hclean hnone hrun (sound_fresh config)
    (orderly_fresh config) hfresh hstart
  obtain ⟨_, body, hdone, hnew, _⟩ := exists_deliver hconfig hs ha
  obtain ⟨_, alone, halone, hnewAlone, _⟩ := exists_deliver hconfig (sound_fresh (τ := τ) config) ha
  have hf := hs.factorFor_ne_zero hconfig ha
  have hfAlone := (sound_fresh (τ := τ) config).factorFor_ne_zero hconfig ha
  have hat : ∀ p, alone.cluster.priorities.hostsAt p =
      ((fresh τ config).body.arrivalsAt a p).map Arrival.id :=
    DynamicCluster.hostsAt_delivered hbare hfAlone hnewAlone
  have hmatched : ∀ p, List.Forall₂
      (fun i k => (body.cluster.hosts.get i).Echoes (alone.cluster.hosts.get k))
      ((s.body.arrivalsAt a p).map s.body.member) (alone.cluster.priorities.hostsAt p) := by
    intro p
    rw [hat p, List.forall₂_map_left_iff, List.forall₂_map_right_iff]
    refine (DynamicCluster.forall₂_arrivalsAt s.body (fresh τ config).body a p).imp ?_
    rintro x y ⟨hx, hy, hxy⟩
    obtain ⟨hgroup, hendpoint⟩ := Prod.mk.inj hxy
    obtain ⟨hanswers, hmetadata, hlocality⟩ :=
      new_of_bare hnewAlone hbare (orderly_fresh config) hfAlone haclean hy
    rw [← hgroup, ← hendpoint] at hanswers
    exact (answers_member hnew hc hf haclean hx).echoes hanswers (hendpoint ▸ hmetadata)
      ((locality_member hnew hc hf haclean hchecker hfounded hx).trans (hgroup ▸ hlocality.symm))
  refine ⟨_, _, hdone, halone, fun p => ⟨_, perm_members hnew hc hf haclean hchecker p, hmatched p⟩,
    fun p i hi => ?_, fun p hp => ?_⟩
  · obtain ⟨m, hm, halike⟩ := (founded_deliver hnew hc hf haclean hchecker hfounded).made p i hi
    exact ⟨m, Assignment.founds_of_founder? hm, halike, halike.depicts⟩
  have hvacant : alone.cluster.priorities.hostsAt p = [] := PrioritySet.hostsAt_of_length_le hp
  have hnone := hmatched p
  rw [hvacant, List.forall₂_nil_right_iff] at hnone
  have hperm := perm_members hnew hc hf haclean hchecker p
  rw [hnone] at hperm
  exact hperm.nil_eq.symm

/-- One endpoint, by a host name. -/
def named (hostname : String) : Assignment :=
  { groups := [{ endpoints := [{ address := ⟨.ipv4 ⟨10, 0, 0, 1⟩, 80⟩, hostname }] }] }

theorem clean_named (hostname : String) : (named hostname).Clean :=
  ⟨by simp [named, Assignment.members], by simp [named, Assignment.members, AddressKind.Proper]⟩

def called (hostname : String) : Service Rat :=
  ((fresh Rat {}).deliver (named hostname)).state

/-- The same cluster once it was delivered another one. -/
def renamed : Service Rat := ((called "a").deliver (named "b")).state

theorem converges_renamed : ∃ t u, renamed.deliver (named "a") = .done t ∧
    (fresh Rat {}).deliver (named "a") = .done u ∧
      Converges [named "a", named "b", named "a"] t u := by
  have hrun : run [.deliver (named "a"), .deliver (named "b")] (fresh Rat {}) = .done renamed := rfl
  have hclean : ∀ act ∈ [Action.deliver (named "a"), .deliver (named "b")], act.IsClean := by
    simp [Action.IsClean, clean_named]
  exact converges_deliver rfl hclean (by simp) hrun rfl (clean_named "a")

def hostnamesAt (s : Service Rat) (p : Nat) : List String :=
  (s.cluster.priorities.hostsAt p).map fun i => (s.cluster.hosts.get i).hostname

/-- A host keeps its name when the endpoint at its address gets another one. -/
theorem hostname_stays :
    run [.deliver (named "a")] (fresh Rat {}) = .done (called "a") ∧
      (called "a").cluster.hasChecker = false ∧ (called "a").deliver (named "b") = .done renamed ∧
      (fresh Rat {}).deliver (named "b") = .done (called "b") ∧
      (named "a").Clean ∧ (named "b").Clean ∧
      ¬ (renamed.hostnamesAt 0).Perm ((called "b").hostnamesAt 0) := by
  have hkept : renamed.hostnamesAt 0 = ["a"] := rfl
  have halone : (called "b").hostnamesAt 0 = ["b"] := rfl
  refine ⟨rfl, rfl, rfl, rfl, clean_named "a", clean_named "b", ?_⟩
  rw [hkept, halone]
  decide

end Service

end Roster
