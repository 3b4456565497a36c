import Roster.Proofs.Orderly

/-!
# Roster.Proofs.Members

What a delivery makes of single hosts when the assignment names every address once.

* `get_reached_of_heir?` — a host that an endpoint updates in place is updated once.
* `pending_reached`      — a host that stays to drain is flagged from then on.
* `marked_reached`       — the canary flag of every host tells what its metadata says.
* `priority_member`, `pending_member` — the host that stands for an endpoint has the priority of the
  endpoint and does not drain.
-/

namespace Roster

theorem Host.marked_adopt {h d : Host} (hh : h.Marked) (hd : d.Marked) : (h.adopt d).Marked := by
  simp only [adopt]
  split
  · exact hh
  · exact hd

theorem Reconcile.marked_visit {rules : Rules} {h d : Host} (hh : h.Marked) (hd : d.Marked) :
    (visit rules h d).Marked := by
  rw [visit]
  split
  · exact Host.marked_adopt hh hd
  · exact hh

theorem Arrival.marked_host (x : Arrival) : x.host.Marked := by
  rw [x.host_eq]
  rfl

theorem Arrival.pending_host (x : Arrival) : x.host.hasFlag .pendingRemoval = false := by
  rw [x.host_eq]
  cases hstatus : x.endpoint.healthStatus <;> simp [Host.hasFlag, HealthStatus.flags]

namespace DynamicCluster

variable {τ : Type} [Quantity τ] {dc : DynamicCluster τ} {a : Assignment}

section Sound

variable (hs : dc.cluster.Sound) (hf : dc.cluster.config.factorFor a ≠ 0)

include hs hf

theorem priority_reached_of_not_heir {i : HostId} (hi : i < dc.cluster.hosts.size)
    (h : ∀ x ∈ dc.arrivals a, dc.heir? x ≠ some i) (n : Nat) :
    ((dc.reached a n).hosts.get i).priority = (dc.cluster.hosts.get i).priority := by
  rcases priority_reached (a := a) hs hf hi n with ⟨⟨x, hx, _, hheir⟩, _⟩ | ⟨_, hsame⟩
  · exact absurd hheir (h x hx)
  · exact hsame

theorem marked_reached (hmarked : ∀ i, (dc.cluster.hosts.get i).Marked) {i : HostId}
    (hi : i < dc.cluster.hosts.size) (n : Nat) : ((dc.reached a n).hosts.get i).Marked := by
  have hvisits : ∀ (xs : List Arrival) (h : Host), h.Marked →
      (xs.foldl (fun h x => Reconcile.visit dc.cluster.rules h x.host) h).Marked := by
    intro xs
    induction xs with
    | nil => intro h hh; exact hh
    | cons x xs ih => intro h hh; exact ih _ (Reconcile.marked_visit hh x.marked_host)
  induction n with
  | zero =>
    rw [show (dc.reached a 0).hosts.get i = dc.cluster.hosts.get i from
      (dc.registered_plan a).old i hi]
    exact hmarked i
  | succ n ih =>
    have hafter : (dc.after a n i).Marked := by
      rw [after_eq hs hf]
      exact hvisits _ _ ih
    rw [get_reached_succ hs hf hi]
    split
    · exact hafter
    · exact hafter

end Sound

section Clean

variable (hc : dc.cluster.Orderly) (hf : dc.cluster.config.factorFor a ≠ 0) (ha : a.Clean)

include hc hf ha

/-! ## Hosts that are updated in place -/

omit [Quantity τ] hf in
theorem eq_of_heir? {x : Arrival} (hx : x ∈ dc.arrivals a) {e : HostId} (he : dc.heir? x = some e)
    {y : Arrival} (hy : y ∈ dc.arrivals a)
    (hfind : Assoc.find? y.text dc.cluster.priorities.addressMap = some e) : y = x := by
  have htext := (text_of_heir? hc.toSound he).1
  exact eq_of_text_eq ha hy hx ((hc.mapped _ e hfind).2.symm.trans htext)

theorem not_stays_of_heir? {x : Arrival} (hx : x ∈ dc.arrivals a) {e : HostId}
    (he : dc.heir? x = some e) (q : Nat) : dc.stays a q e = false := by
  obtain ⟨htext, hlt⟩ := text_of_heir? hc.toSound he
  refine not_stays hc.toSound hf hlt (htext ▸ text_mem_texts hx) ?_
  rintro ⟨y, hy, hye, hnone⟩
  have hyx := eq_of_text_eq ha (mem_arrivalsAt.1 hy).1 hx (hye.trans htext)
  rw [hyx, he] at hnone
  cases hnone

theorem get_reached_of_heir?_of_le {x : Arrival} (hx : x ∈ dc.arrivals a) {e : HostId}
    (he : dc.heir? x = some e) {n : Nat} (hn : n ≤ x.level) :
    (dc.reached a n).hosts.get e = dc.cluster.hosts.get e := by
  have hlt := (text_of_heir? hc.toSound he).2
  rcases get_reached_of_unmet hc.toSound hf hlt (n := n) fun y hy hlevel hfind => by
      have hyx := eq_of_heir? hc ha hx he hy hfind
      rw [hyx] at hlevel
      exact Nat.not_lt.2 hn hlevel with ⟨hget, _⟩ | ⟨_, q, _, _, hstays⟩
  · exact hget
  · rw [not_stays_of_heir? hc hf ha hx he q] at hstays
    cases hstays

/-- It is updated in the turn of the endpoint's level, and left alone from then on. -/
theorem get_reached_of_heir? {x : Arrival} (hx : x ∈ dc.arrivals a) {e : HostId}
    (he : dc.heir? x = some e) {n : Nat} (hn : x.level < n) :
    (dc.reached a n).hosts.get e =
      ((dc.cluster.hosts.get e).clearFlag .pendingRemoval).adopt x.host := by
  have hlt := (text_of_heir? hc.toSound he).2
  induction n with
  | zero => omega
  | succ n ih =>
    have hget := get_reached_succ (a := a) hc.toSound hf (p := n) hlt
    rw [if_neg fun h => by rw [not_stays_of_heir? hc hf ha hx he n] at h; cases h.2] at hget
    obtain hless | rfl : x.level < n ∨ x.level = n := by omega
    · have hunmet : dc.after a n e = (dc.reached a n).hosts.get e := by
        refine after_of_unmet hc.toSound hf ?_
        intro y hy hfind
        have hyx := eq_of_heir? hc ha hx he (mem_arrivalsAt.1 hy).1 hfind
        rw [hyx] at hy
        exact Nat.ne_of_lt hless (mem_arrivalsAt.1 hy).2
      rw [hget, hunmet]
      exact ih hless
    · obtain ⟨hfind, hfits⟩ := Option.filter_eq_some_iff.1 he
      have hmeets : (dc.arrivalsAt a x.level).filter (fun y =>
          Assoc.find? y.text dc.cluster.priorities.addressMap = some e) = [x] := by
        rw [← filter_text_of_mem ha (mem_arrivalsAt.2 ⟨hx, rfl⟩)]
        refine List.filter_congr fun y hy => decide_eq_decide.2 ⟨?_, ?_⟩
        · intro hfindy
          rw [eq_of_heir? hc ha hx he (mem_arrivalsAt.1 hy).1 hfindy]
        · intro hyx
          rw [hyx]
          exact hfind
      rw [hget, after_eq hc.toSound hf, hmeets,
        get_reached_of_heir?_of_le hc hf ha hx he (Nat.le_refl _), List.foldl_cons, List.foldl_nil,
        Reconcile.visit, if_pos hfits]

theorem priority_reached_of_heir? {x : Arrival} (hx : x ∈ dc.arrivals a) {e : HostId}
    (he : dc.heir? x = some e) {n : Nat} (hn : x.level < n) :
    ((dc.reached a n).hosts.get e).priority = x.level := by
  rw [get_reached_of_heir? hc hf ha hx he hn]
  have hlevel : x.host.priority = x.level := by rw [x.host_eq]
  exact hlevel

/-! ## Hosts that drain -/

theorem not_heir_of_remains {p : Nat} {b : String} {i : HostId} (hi : i ∈ dc.remains a p b) :
    ∀ x ∈ dc.arrivals a, dc.heir? x ≠ some i := by
  intro x hx hheir
  have hstays := (mem_remains.1 hi).2.2
  rw [not_stays_of_heir? hc hf ha hx hheir p] at hstays
  cases hstays

theorem pending_reached {p : Nat} {b : String} {i : HostId} (hi : i ∈ dc.remains a p b) {n : Nat}
    (hn : p < n) : ((dc.reached a n).hosts.get i).hasFlag .pendingRemoval = true := by
  obtain ⟨hin, hib, hstays⟩ := mem_remains.1 hi
  have hlt := hc.known p i hin
  have hnot : ¬ dc.Renewed a p b := fun hr => by
    have hb : b ∈ a.texts := by
      obtain ⟨x, hx, rfl, _⟩ := hr
      exact text_mem_texts (mem_arrivalsAt.1 hx).1
    rw [remains_eq_nil hc hf hb (not_refreshed_of_renewed ha hr)] at hi
    cases hi
  have hleft : i ∈ dc.left a p := mem_left_of_not_renewed hc.toSound hf hin (hib ▸ hnot)
  induction n with
  | zero => omega
  | succ n ih =>
    rw [get_reached_succ hc.toSound hf hlt]
    obtain hless | rfl : p < n ∨ p = n := by omega
    · have hunmet : dc.after a n i = (dc.reached a n).hosts.get i := by
        refine after_of_unmet hc.toSound hf ?_
        intro y hy hfind
        have hyb : y.text = b := (hc.mapped _ i hfind).2.symm.trans hib
        have hb : b ∈ a.texts := hyb ▸ text_mem_texts (mem_arrivalsAt.1 hy).1
        have hr : dc.Refreshed a p b := hib ▸
          ((stays_iff hc.toSound hf hlt).1 hstays).here (hib ▸ hb)
        obtain ⟨x, hx, hxb, _⟩ := hr
        have hyx := eq_of_text_eq ha (mem_arrivalsAt.1 hy).1 (mem_arrivalsAt.1 hx).1
          (hyb.trans hxb.symm)
        rw [hyx] at hy
        exact Nat.ne_of_lt hless ((mem_arrivalsAt.1 hx).2.symm.trans (mem_arrivalsAt.1 hy).2)
      rw [hunmet]
      split
      · rw [Host.hasFlag_setFlag, ih hless, Bool.or_true]
      · exact ih hless
    · rw [if_pos ⟨hleft, hstays⟩, Host.hasFlag_setFlag]
      simp

/-! ## Members -/

theorem priority_member {x : Arrival} (hx : x ∈ dc.arrivals a) {n : Nat} (hn : x.level < n) :
    ((dc.reached a n).hosts.get (dc.member x)).priority = x.level := by
  cases hheir : dc.heir? x with
  | some e =>
    rw [member_of_heir? hheir]
    exact priority_reached_of_heir? hc hf ha hx hheir hn
  | none =>
    have hget := get_reached_id (a := a) hc.toSound hf hx hn
    rw [hheir, if_neg (by simp)] at hget
    rw [member_of_fresh hheir, hget, (Host.steady_setFlags _ _).priority, x.host_eq]

theorem pending_member {x : Arrival} (hx : x ∈ dc.arrivals a) {n : Nat} (hn : x.level < n) :
    ((dc.reached a n).hosts.get (dc.member x)).hasFlag .pendingRemoval = false := by
  cases hheir : dc.heir? x with
  | some e =>
    rw [member_of_heir? hheir, get_reached_of_heir? hc hf ha hx hheir hn, Host.hasFlag_adopt]
    simp
  | none =>
    have hget := get_reached_id (a := a) hc.toSound hf hx hn
    rw [hheir, if_neg (by simp)] at hget
    have hentry : HealthFlag.pendingRemoval ∉ Reconcile.entryFlags dc.cluster.rules x.host := by
      unfold Reconcile.entryFlags
      split
      · split <;> simp
      · simp
    rw [member_of_fresh hheir, hget, Host.hasFlag_setFlags, x.pending_host]
    simp [hentry]

end Clean

end DynamicCluster

end Roster
