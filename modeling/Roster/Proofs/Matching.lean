import Roster.Proofs.Adopting

/-!
# Roster.Proofs.Matching

What matching the delivered hosts of one level gathers. Whether a delivered host updates the installed
one is read off their descriptions, which nothing changes; so the outcome for one host does not depend
on those matched before it.

* `heir?`    — the installed host that a delivered host updates in place.
* `chosen`   — the host that becomes a member for a delivered one.
* `visit`    — what meeting a delivered host does to the installed one.
* `Gathered` — all that is known after the hosts of a list are matched, kept by every step.
* `gathered_matchAll` — in particular after all of them are.
-/

namespace Roster

namespace Reconcile

/-- Whether a delivered host updates the installed one in place. -/
def fits (rules : Rules) (existing delivered : Host) : Bool :=
  !(movedLocality existing delivered || movedCheck rules existing delivered ||
    switchedCheck rules existing delivered)

def heir? (rules : Rules) (all : AddressMap) (store : HostStore) (id : HostId) : Option HostId :=
  (Assoc.find? (store.addressText id) all).filter fun e => fits rules (store.get e) (store.get id)

def chosen (rules : Rules) (all : AddressMap) (store : HostStore) (id : HostId) : HostId :=
  (heir? rules all store id).getD id

/-- The installed host after it met a delivered one at its address. -/
def visit (rules : Rules) (existing delivered : Host) : Host :=
  if fits rules existing delivered then (existing.clearFlag .pendingRemoval).adopt delivered
  else existing.clearFlag .pendingRemoval

/-- The delivered hosts that meet an installed one, in order. -/
def visits (all : AddressMap) (store : HostStore) (done : List HostId) (i : HostId) : List HostId :=
  done.filter fun id => Assoc.find? (store.addressText id) all = some i

/-- The flags a delivered host becomes a member with. -/
def entryFlags (rules : Rules) (h : Host) : List HealthFlag :=
  if rules.hasChecker && !h.disableActiveCheck then
    HealthFlag.failedActiveCheck ::
      (if rules.awaitFirstCheck then [HealthFlag.pendingActiveCheck] else [])
  else []

section Alike

variable {rules : Rules} {h h' d d' : Host}

theorem movedLocality_congr (hh : Host.Alike h h') (hd : Host.Alike d d') :
    movedLocality h' d' = movedLocality h d := by
  simp only [movedLocality, hh.locality, hd.locality]

theorem switchedCheck_congr (hh : Host.Alike h h') (hd : Host.Alike d d') :
    switchedCheck rules h' d' = switchedCheck rules h d := by
  simp only [switchedCheck, hh.disableActiveCheck, hd.disableActiveCheck]

theorem fits_congr (hh : Host.Alike h h') (hd : Host.Alike d d') :
    fits rules h' d' = fits rules h d := by
  simp only [fits, movedLocality_congr hh hd, switchedCheck_congr hh hd, movedCheck,
    hh.healthCheckAddress, hd.healthCheckAddress]

theorem alike_visit (rules : Rules) (existing delivered : Host) :
    Host.Alike existing (visit rules existing delivered) := by
  rw [visit]
  split
  · exact (Host.alike_clearFlag _ _).trans (Host.alike_adopt _ _)
  · exact Host.alike_clearFlag _ _

theorem fits_visit (rules : Rules) (h d d' : Host) :
    fits rules (visit rules h d) d' = fits rules h d' :=
  fits_congr (alike_visit rules h d) (.refl d')

end Alike

/-- The hosts delivered for level `p` are new: each is named once, and the index does not hold them. -/
structure Arrives (p : Nat) (all : AddressMap) (store : HostStore) (delivered : List HostId) : Prop where
  nodup : delivered.Nodup
  known : ∀ id ∈ delivered, id < store.size
  level : ∀ id ∈ delivered, (store.get id).priority = p
  sound : ∀ a e, Assoc.find? a all = some e → e < store.size ∧ store.addressText e = a
  apart : ∀ a e, Assoc.find? a all = some e → e ∉ delivered

/-- What is known of a matching after the hosts `done` met the installed ones of `store`. -/
structure Gathered (rules : Rules) (p : Nat) (all : AddressMap) (store : HostStore)
    (done : List HostId) (m : Matching) : Prop where
  size : m.store.size = store.size
  final : m.final = done.map (chosen rules all store)
  kept : ∀ a, a ∈ m.kept ↔
    ∃ id ∈ done, store.addressText id = a ∧ (heir? rules all store id).isSome
  kept_nodup : m.kept.Nodup
  fresh : ∀ a, a ∈ m.fresh ↔ ∃ id ∈ done, store.addressText id = a ∧ heir? rules all store id = none
  moved : ∀ a, a ∈ m.moved ↔ ∃ id ∈ done, store.addressText id = a ∧
    ∃ e, Assoc.find? a all = some e ∧ movedLocality (store.get e) (store.get id) = true
  switched : ∀ a, a ∈ m.checkSwitched ↔ ∃ id ∈ done, store.addressText id = a ∧
    ∃ e, Assoc.find? a all = some e ∧ switchedCheck rules (store.get e) (store.get id) = true
  added : ∀ i, i ∈ m.added ↔ ∃ id ∈ done, chosen rules all store id = i ∧
    ∀ e, heir? rules all store id = some e → (store.get e).priority ≠ p
  changed : m.changed = false ↔ ∀ id ∈ done, ∀ e, heir? rules all store id = some e →
    (store.get e).shifts (store.get id) = false
  installed : ∀ i, i < store.size → i ∉ done → m.store.get i =
    (visits all store done i).foldl (fun h id => visit rules h (store.get id)) (store.get i)
  delivered : ∀ id ∈ done, m.store.get id =
    if (heir? rules all store id).isSome then store.get id
    else (store.get id).setFlags (entryFlags rules (store.get id))

theorem mem_insertNew {a b : String} {s : List String} : a ∈ insertNew b s ↔ a = b ∨ a ∈ s := by
  unfold insertNew
  split
  · rename_i h
    exact ⟨.inr, fun h' => h'.elim (fun e => e ▸ h) id⟩
  · exact List.mem_cons

theorem nodup_insertNew {b : String} {s : List String} (h : s.Nodup) : (insertNew b s).Nodup := by
  unfold insertNew
  split
  · exact h
  · rename_i hb
    exact List.nodup_cons.2 ⟨hb, h⟩

/-! ## One delivered host -/

/-- A matching after an installed host met a delivered one: it no longer drains, and what the delivered
one says differently is noted. -/
def meet (rules : Rules) (m : Matching) (e id : HostId) : Matching :=
  let store := m.store.modify e (·.clearFlag .pendingRemoval)
  { m with
    store
    moved :=
      if movedLocality (store.get e) (store.get id) then insertNew (m.store.addressText id) m.moved
      else m.moved
    checkSwitched :=
      if switchedCheck rules (store.get e) (store.get id) then
        insertNew (m.store.addressText id) m.checkSwitched
      else m.checkSwitched }

theorem matchHost_of_none {rules : Rules} {all : AddressMap} {m : Matching} {id : HostId}
    (h : Assoc.find? (m.store.addressText id) all = none) :
    matchHost rules all m id = admitNew rules m id := by
  simp only [matchHost, h]

theorem matchHost_of_some {rules : Rules} {all : AddressMap} {m : Matching} {id e : HostId}
    (h : Assoc.find? (m.store.addressText id) all = some e) :
    matchHost rules all m id =
      if fits rules ((meet rules m e id).store.get e) ((meet rules m e id).store.get id) then
        updateInPlace (meet rules m e id) e id
      else admitNew rules (meet rules m e id) id := by
  rw [matchHost]
  simp only [h]
  cases hs : fits rules ((meet rules m e id).store.get e) ((meet rules m e id).store.get id) with
  | true =>
    rw [fits, Bool.not_eq_true'] at hs
    exact if_neg (Bool.not_eq_true _ ▸ hs)
  | false =>
    rw [fits, Bool.not_eq_false'] at hs
    exact if_pos hs

section Members

variable {rules : Rules} {m : Matching} {e id : HostId}

theorem mem_fresh_admitNew {a : String} :
    a ∈ (admitNew rules m id).fresh ↔ a ∈ m.fresh ∨ m.store.addressText id = a := by
  simp only [admitNew, mem_insertNew]
  rw [or_comm, eq_comm]
  rfl

theorem mem_added_admitNew {i : HostId} :
    i ∈ (admitNew rules m id).added ↔ i ∈ m.added ∨ id = i := by
  simp only [admitNew, List.mem_append, List.mem_singleton]
  rw [eq_comm (a := i)]

theorem get_admitNew (hid : id < m.store.size) (j : HostId) :
    (admitNew rules m id).store.get j =
      if j = id then (m.store.get id).setFlags (entryFlags rules (m.store.get id))
      else m.store.get j := by
  simp only [admitNew, HostStore.get_modify _ _ hid]
  by_cases hj : j = id
  · rw [if_pos hj, if_pos hj, hj]
    rfl
  · rw [if_neg hj, if_neg hj]

theorem mem_kept_updateInPlace {a : String} :
    a ∈ (updateInPlace m e id).kept ↔ a ∈ m.kept ∨ m.store.addressText id = a := by
  simp only [updateInPlace, mem_insertNew]
  rw [or_comm, eq_comm]
  rfl

theorem mem_added_updateInPlace {i : HostId} :
    i ∈ (updateInPlace m e id).added ↔
      i ∈ m.added ∨ (e = i ∧ (m.store.get e).priority ≠ (m.store.get id).priority) := by
  unfold updateInPlace
  by_cases hp : (m.store.get e).priority = (m.store.get id).priority
  · simp [hp]
  · simp [hp, eq_comm (a := i)]

theorem get_updateInPlace (he : e < m.store.size) (j : HostId) :
    (updateInPlace m e id).store.get j =
      if j = e then (m.store.get e).adopt (m.store.get id) else m.store.get j := by
  simp only [updateInPlace, HostStore.get_modify _ _ he]
  by_cases hj : j = e
  · rw [if_pos hj, if_pos hj, hj]
  · rw [if_neg hj, if_neg hj]

end Members

section Lookup

variable {rules : Rules} {all : AddressMap} {store : HostStore} {id e : HostId}

theorem heir?_of_none (h : Assoc.find? (store.addressText id) all = none) :
    heir? rules all store id = none := by
  simp only [heir?, h, Option.filter_none]

theorem heir?_of_some (h : Assoc.find? (store.addressText id) all = some e) :
    heir? rules all store id = if fits rules (store.get e) (store.get id) then some e else none := by
  simp only [heir?, h, Option.filter_some]

theorem heir?_eq_some :
    heir? rules all store id = some e ↔
      Assoc.find? (store.addressText id) all = some e ∧
        fits rules (store.get e) (store.get id) = true := by
  simp only [heir?, Option.filter_eq_some_iff]

theorem chosen_of_none (h : heir? rules all store id = none) : chosen rules all store id = id := by
  simp only [chosen, h, Option.getD_none]

theorem chosen_of_some (h : heir? rules all store id = some e) : chosen rules all store id = e := by
  simp only [chosen, h, Option.getD_some]

end Lookup

/-! ## Meeting an installed host again and again -/

section Visits

variable {rules : Rules} {store : HostStore}

theorem alike_visitAll (h : Host) (ids : List HostId) :
    Host.Alike h (ids.foldl (fun h id => visit rules h (store.get id)) h) := by
  induction ids generalizing h with
  | nil => exact .refl h
  | cons id ids ih => exact (alike_visit rules h _).trans (ih _)

theorem hasFlag_visitAll (h : Host) (ids : List HostId) {f : HealthFlag} (hp : f ≠ .pendingRemoval)
    (hf : f ≠ .failedDiscovery) (hd : f ≠ .degradedDiscovery) :
    (ids.foldl (fun h id => visit rules h (store.get id)) h).hasFlag f = h.hasFlag f := by
  induction ids generalizing h with
  | nil => rfl
  | cons id ids ih =>
    have hid : (visit rules h (store.get id)).hasFlag f = h.hasFlag f := by
      rw [visit]
      split
      · rw [Host.hasFlag_adopt, if_neg (not_or.2 ⟨hf, hd⟩), Host.hasFlag_clearFlag]
        simp [hp]
      · simp [hp]
    rw [List.foldl_cons, ih, hid]

theorem priority_visitAll {p : Nat} (h : Host) {ids : List HostId}
    (hp : ∀ id ∈ ids, (store.get id).priority = p) :
    (ids.foldl (fun h id => visit rules h (store.get id)) h).priority =
      if ∃ id ∈ ids, fits rules h (store.get id) = true then p else h.priority := by
  induction ids generalizing h with
  | nil => simp
  | cons id ids ih =>
    rw [List.foldl_cons, ih _ fun k hk => hp k (by simp [hk])]
    simp only [fits_visit, List.mem_cons, exists_eq_or_imp]
    by_cases hrest : ∃ k ∈ ids, fits rules h (store.get k) = true
    · rw [if_pos hrest, if_pos (.inr hrest)]
    · rw [if_neg hrest]
      by_cases hid : fits rules h (store.get id) = true
      · rw [if_pos (.inl hid), visit, if_pos hid]
        exact hp id (by simp)
      · rw [if_neg fun h' => h'.elim hid hrest, visit, if_neg hid]
        rfl

/-- Meeting a delivered host that does not shift it changes neither the health of a host nor what
shifts it. -/
theorem still_visit {h d : Host} (hno : fits rules h d = true → h.shifts d = false) :
    Host.SameHealth h (visit rules h d) ∧ ∀ d', (visit rules h d).shifts d' = h.shifts d' := by
  have hhealth := Host.sameHealth_clearPending h
  rw [visit]
  split
  · rename_i hfits
    have hclear := Host.shifts_clearPending h d
    rw [hno hfits] at hclear
    refine ⟨hhealth.trans (Host.sameHealth_adopt hclear), fun d' => ?_⟩
    rw [Host.shifts_adopt hclear, Host.shifts_clearPending]
  · exact ⟨hhealth, Host.shifts_clearPending h⟩

theorem still_visitAll (h : Host) {ids : List HostId} (hno : ∀ id ∈ ids,
    fits rules h (store.get id) = true → h.shifts (store.get id) = false) :
    Host.SameHealth h (ids.foldl (fun h id => visit rules h (store.get id)) h) ∧
      ∀ d, (ids.foldl (fun h id => visit rules h (store.get id)) h).shifts d = h.shifts d := by
  induction ids generalizing h with
  | nil => exact ⟨.refl h, fun _ => rfl⟩
  | cons id ids ih =>
    obtain ⟨hhealth, hshifts⟩ := still_visit (hno id List.mem_cons_self)
    obtain ⟨hhealth', hshifts'⟩ := ih (visit rules h (store.get id)) fun k hk => by
      rw [fits_visit, hshifts]
      exact hno k (List.mem_cons_of_mem id hk)
    exact ⟨hhealth.trans hhealth', fun d => (hshifts' d).trans (hshifts d)⟩

end Visits

namespace Gathered

variable {rules : Rules} {p : Nat} {all : AddressMap} {store : HostStore} {done rest : List HostId}
  {m : Matching} {id : HostId}

theorem start (rules : Rules) (p : Nat) (all : AddressMap) (store : HostStore) :
    Gathered rules p all store [] { store } where
  size := rfl
  final := rfl
  kept a := by simp
  kept_nodup := List.nodup_nil
  fresh a := by simp
  moved a := by simp
  switched a := by simp
  added i := by simp
  changed := by simp
  installed i _ _ := rfl
  delivered id h := by cases h

theorem alike (h : Gathered rules p all store done m) (i : HostId) :
    Host.Alike (store.get i) (m.store.get i) := by
  rcases Nat.lt_or_ge i store.size with hi | hi
  · by_cases hd : i ∈ done
    · rw [h.delivered i hd]
      split
      · exact .refl _
      · exact Host.alike_setFlags _ _
    · rw [h.installed i hi hd]
      exact alike_visitAll _ _
  · rw [store.get_of_size_le hi, m.store.get_of_size_le (by rw [h.size]; exact hi)]
    exact .refl _

theorem addressText (h : Gathered rules p all store done m) (i : HostId) :
    m.store.addressText i = store.addressText i :=
  congrArg Address.text (h.alike i).address

theorem not_mem_done (ha : Arrives p all store (done ++ id :: rest)) : id ∉ done := fun hm =>
  (List.nodup_append.1 ha.nodup).2.2 id hm id (by simp) rfl

theorem get_of_next (h : Gathered rules p all store done m)
    (ha : Arrives p all store (done ++ id :: rest)) : m.store.get id = store.get id := by
  rw [h.installed id (ha.known id (by simp)) (not_mem_done ha)]
  have hnone : visits all store done id = [] := by
    rw [visits, List.filter_eq_nil_iff]
    intro k _ hk
    exact ha.apart _ id (by simpa using hk) (by simp)
  rw [hnone, List.foldl_nil]

/-! ## One more host -/

/-- What matching a host changes. -/
structure Stepped (rules : Rules) (all : AddressMap) (store : HostStore) (id : HostId)
    (m m' : Matching) : Prop where
  size : m'.store.size = m.store.size
  final : m'.final = m.final ++ [chosen rules all store id]
  kept : ∀ a, a ∈ m'.kept ↔
    a ∈ m.kept ∨ (store.addressText id = a ∧ (heir? rules all store id).isSome)
  kept_nodup : m.kept.Nodup → m'.kept.Nodup
  fresh : ∀ a, a ∈ m'.fresh ↔
    a ∈ m.fresh ∨ (store.addressText id = a ∧ heir? rules all store id = none)
  moved : ∀ a, a ∈ m'.moved ↔ a ∈ m.moved ∨ (store.addressText id = a ∧
    ∃ e, Assoc.find? a all = some e ∧ movedLocality (store.get e) (store.get id) = true)
  switched : ∀ a, a ∈ m'.checkSwitched ↔ a ∈ m.checkSwitched ∨ (store.addressText id = a ∧
    ∃ e, Assoc.find? a all = some e ∧ switchedCheck rules (store.get e) (store.get id) = true)
  added : ∀ i, i ∈ m'.added ↔ i ∈ m.added ∨ (chosen rules all store id = i ∧
    ∀ e, heir? rules all store id = some e → (m.store.get e).priority ≠ (store.get id).priority)
  changed : m'.changed = false ↔ m.changed = false ∧ ∀ e, heir? rules all store id = some e →
    (m.store.get e).shifts (store.get id) = false
  get : ∀ j, m'.store.get j =
    if Assoc.find? (store.addressText id) all = some j then visit rules (m.store.get j) (store.get id)
    else if j = id ∧ heir? rules all store id = none then
      (store.get id).setFlags (entryFlags rules (store.get id))
    else m.store.get j

theorem stepped_of_none (h : Gathered rules p all store done m)
    (ha : Arrives p all store (done ++ id :: rest))
    (hf : Assoc.find? (store.addressText id) all = none) :
    Stepped rules all store id m (matchHost rules all m id) := by
  have hheir : heir? rules all store id = none := heir?_of_none hf
  have hlt : id < m.store.size := by rw [h.size]; exact ha.known id (by simp)
  rw [matchHost_of_none (by rw [h.addressText]; exact hf)]
  have hnobody : ∀ (a : String) (r : HostId → Prop),
      ¬ (store.addressText id = a ∧ ∃ e, Assoc.find? a all = some e ∧ r e) := by
    rintro a r ⟨rfl, e, he, _⟩
    rw [hf] at he
    cases he
  refine ⟨HostStore.size_modify _ _ _, ?_, ?_, fun hn => hn, ?_, ?_, ?_, ?_, ?_, ?_⟩
  · rw [chosen_of_none hheir]
    rfl
  · intro a
    simp [admitNew, hheir]
  · intro a
    rw [mem_fresh_admitNew, h.addressText, hheir]
    simp
  · intro a
    exact ⟨.inl, fun h' => h'.resolve_right (hnobody a _)⟩
  · intro a
    exact ⟨.inl, fun h' => h'.resolve_right (hnobody a _)⟩
  · intro i
    rw [mem_added_admitNew, chosen_of_none hheir, hheir]
    simp
  · simp [admitNew, hheir]
  · intro j
    rw [get_admitNew hlt, h.get_of_next ha, hf]
    simp [hheir]

/-- What is known after a delivered host met the installed one at its address. -/
structure Met (rules : Rules) (all : AddressMap) (store : HostStore) (id e : HostId)
    (m m' : Matching) : Prop where
  size : m'.store.size = m.store.size
  get : m'.store.get e = (m.store.get e).clearFlag .pendingRemoval
  others : ∀ j, j ≠ e → m'.store.get j = m.store.get j
  fits : fits rules (m'.store.get e) (m'.store.get id) = fits rules (store.get e) (store.get id)
  moved : ∀ a, a ∈ m'.moved ↔ a ∈ m.moved ∨ (store.addressText id = a ∧
    ∃ e, Assoc.find? a all = some e ∧ movedLocality (store.get e) (store.get id) = true)
  switched : ∀ a, a ∈ m'.checkSwitched ↔ a ∈ m.checkSwitched ∨ (store.addressText id = a ∧
    ∃ e, Assoc.find? a all = some e ∧ switchedCheck rules (store.get e) (store.get id) = true)

theorem met_meet (h : Gathered rules p all store done m)
    (ha : Arrives p all store (done ++ id :: rest)) {e : HostId}
    (hf : Assoc.find? (store.addressText id) all = some e) :
    Met rules all store id e m (meet rules m e id) := by
  have hlt : e < m.store.size := by rw [h.size]; exact (ha.sound _ e hf).1
  have hne : id ≠ e := fun he => ha.apart _ e hf (by simp [← he])
  have hget : (meet rules m e id).store.get e = (m.store.get e).clearFlag .pendingRemoval :=
    HostStore.get_modify_self _ _ hlt
  have hothers : ∀ j, j ≠ e → (meet rules m e id).store.get j = m.store.get j := fun j hj =>
    HostStore.get_modify_of_ne _ _ hj
  have halike : Host.Alike (store.get e) ((meet rules m e id).store.get e) := by
    rw [hget]
    exact (h.alike e).trans (Host.alike_clearFlag _ _)
  have hself : Host.Alike (store.get id) ((meet rules m e id).store.get id) := by
    rw [hothers id hne]
    exact h.alike id
  -- an address is noted exactly where the two hosts differ
  have hnoted : ∀ (b : Bool) (s : List String) (a : String) (r : HostId → Bool), b = r e →
      (a ∈ (if b then insertNew (m.store.addressText id) s else s) ↔ a ∈ s ∨
        (store.addressText id = a ∧ ∃ e, Assoc.find? a all = some e ∧ r e = true)) := by
    intro b s a r hb
    rw [hb, h.addressText]
    constructor
    · intro hm
      split at hm
      · rename_i hre
        rcases mem_insertNew.1 hm with rfl | hm
        · exact .inr ⟨rfl, e, hf, hre⟩
        · exact .inl hm
      · exact .inl hm
    · rintro (hm | ⟨rfl, k, hk, hrk⟩)
      · split
        · exact mem_insertNew.2 (.inr hm)
        · exact hm
      · rw [hf] at hk
        cases hk
        rw [if_pos hrk]
        exact mem_insertNew.2 (.inl rfl)
  refine ⟨HostStore.size_modify _ _ _, hget, hothers, fits_congr halike hself, ?_, ?_⟩
  · intro a
    exact hnoted _ m.moved a (fun e => movedLocality (store.get e) (store.get id))
      (movedLocality_congr halike hself)
  · intro a
    exact hnoted _ m.checkSwitched a (fun e => switchedCheck rules (store.get e) (store.get id))
      (switchedCheck_congr halike hself)

theorem stepped_of_fits (h : Gathered rules p all store done m)
    (ha : Arrives p all store (done ++ id :: rest)) {e : HostId}
    (hf : Assoc.find? (store.addressText id) all = some e)
    (hfits : fits rules (store.get e) (store.get id) = true) :
    Stepped rules all store id m (updateInPlace (meet rules m e id) e id) := by
  have hmet := met_meet h ha hf
  have hlt : e < (meet rules m e id).store.size := by
    rw [hmet.size, h.size]
    exact (ha.sound _ e hf).1
  have hne : id ≠ e := fun he => ha.apart _ e hf (by simp [← he])
  have hid : (meet rules m e id).store.get id = store.get id :=
    (hmet.others id hne).trans (h.get_of_next ha)
  have htext : (meet rules m e id).store.addressText id = store.addressText id :=
    congrArg (·.address.text) hid
  have hheir : heir? rules all store id = some e := heir?_eq_some.2 ⟨hf, hfits⟩
  have hnow : fits rules (m.store.get e) (store.get id) = true :=
    (fits_congr (h.alike e) (.refl _)).trans hfits
  refine ⟨(HostStore.size_modify _ _ _).trans hmet.size, ?_, ?_, fun hn => nodup_insertNew hn, ?_,
    hmet.moved, hmet.switched, ?_, ?_, ?_⟩
  · rw [chosen_of_some hheir]
    rfl
  · intro a
    rw [mem_kept_updateInPlace, htext, hheir]
    simp [meet]
  · intro a
    simp [updateInPlace, hheir, meet]
  · intro i
    rw [mem_added_updateInPlace, chosen_of_some hheir, hheir, hmet.get, hid]
    simp [meet, Host.clearFlag]
  · have hchanged : (updateInPlace (meet rules m e id) e id).changed =
        (m.changed || ((meet rules m e id).store.get e).shifts ((meet rules m e id).store.get id)) := rfl
    rw [hchanged, hmet.get, hid, Host.shifts_clearPending, hheir]
    simp
  · intro j
    rw [get_updateInPlace hlt, hmet.get, hid, hf, hheir]
    by_cases hj : j = e
    · rw [if_pos hj, if_pos (congrArg some hj.symm), hj, visit, if_pos hnow]
    · rw [if_neg hj, if_neg fun h' => hj (Option.some.inj h').symm, if_neg (by simp), hmet.others j hj]

theorem stepped_of_not_fits (h : Gathered rules p all store done m)
    (ha : Arrives p all store (done ++ id :: rest)) {e : HostId}
    (hf : Assoc.find? (store.addressText id) all = some e)
    (hfits : ¬ fits rules (store.get e) (store.get id) = true) :
    Stepped rules all store id m (admitNew rules (meet rules m e id) id) := by
  have hmet := met_meet h ha hf
  have hlt : id < (meet rules m e id).store.size := by
    rw [hmet.size, h.size]
    exact ha.known id (by simp)
  have hne : id ≠ e := fun he => ha.apart _ e hf (by simp [← he])
  have hid : (meet rules m e id).store.get id = store.get id :=
    (hmet.others id hne).trans (h.get_of_next ha)
  have htext : (meet rules m e id).store.addressText id = store.addressText id :=
    congrArg (·.address.text) hid
  have hheir : heir? rules all store id = none := (heir?_of_some hf).trans (if_neg hfits)
  have hnow : ¬ fits rules (m.store.get e) (store.get id) = true := by
    rw [fits_congr (h.alike e) (.refl _)]
    exact hfits
  refine ⟨(HostStore.size_modify _ _ _).trans hmet.size, ?_, ?_, fun hn => hn, ?_, hmet.moved,
    hmet.switched, ?_, ?_, ?_⟩
  · rw [chosen_of_none hheir]
    rfl
  · intro a
    simp [admitNew, hheir, meet]
  · intro a
    rw [mem_fresh_admitNew, htext, hheir]
    simp [meet]
  · intro i
    rw [mem_added_admitNew, chosen_of_none hheir, hheir]
    simp [meet]
  · simp [admitNew, hheir, meet]
  · intro j
    rw [get_admitNew hlt, hid, hf]
    by_cases hj : j = e
    · rw [if_neg fun h' => hne (h'.symm.trans hj), if_pos (congrArg some hj.symm), hj, hmet.get, visit,
        if_neg hnow]
    · rw [hmet.others j hj, if_neg fun h' => hj (Option.some.inj h').symm]
      simp [hheir]

theorem stepped_matchHost (h : Gathered rules p all store done m)
    (ha : Arrives p all store (done ++ id :: rest)) :
    Stepped rules all store id m (matchHost rules all m id) := by
  cases hf : Assoc.find? (store.addressText id) all with
  | none => exact stepped_of_none h ha hf
  | some e =>
    rw [matchHost_of_some (by rw [h.addressText]; exact hf), (met_meet h ha hf).fits]
    split
    · rename_i hfits
      exact stepped_of_fits h ha hf hfits
    · rename_i hfits
      exact stepped_of_not_fits h ha hf hfits

theorem priority_get (h : Gathered rules p all store done m)
    (ha : Arrives p all store (done ++ id :: rest)) {e : HostId} (he : e < store.size)
    (hdone : e ∉ done) :
    (m.store.get e).priority =
      if ∃ k ∈ done, heir? rules all store k = some e then p else (store.get e).priority := by
  have hp : ∀ k ∈ visits all store done e, (store.get k).priority = p := fun k hk =>
    ha.level k (by simp [(List.mem_filter.1 hk).1])
  rw [h.installed e he hdone, priority_visitAll _ hp]
  have hiff : (∃ k ∈ visits all store done e, fits rules (store.get e) (store.get k) = true) ↔
      ∃ k ∈ done, heir? rules all store k = some e := by
    simp only [visits, List.mem_filter, decide_eq_true_eq, heir?_eq_some, and_assoc]
  simp only [hiff]

/-- Whether a host is listed as added is decided by the priority it had before all. -/
theorem added_next (h : Gathered rules p all store done m)
    (ha : Arrives p all store (done ++ id :: rest)) :
    (chosen rules all store id ∈ m.added ∨
        ∀ e, heir? rules all store id = some e → (m.store.get e).priority ≠ p) ↔
      (chosen rules all store id ∈ m.added ∨
        ∀ e, heir? rules all store id = some e → (store.get e).priority ≠ p) := by
  cases hheir : heir? rules all store id with
  | none => simp
  | some e =>
    have hfind := (heir?_eq_some.1 hheir).1
    have hdone : e ∉ done := fun hm => ha.apart _ e hfind (by simp [hm])
    have hprio := priority_get h ha (ha.sound _ e hfind).1 hdone
    simp only [Option.some.injEq, forall_eq', chosen_of_some hheir]
    by_cases hbefore : ∃ k ∈ done, heir? rules all store k = some e
    · -- it has the priority already; it was listed when it got it
      obtain ⟨k, hk, hke⟩ := hbefore
      rw [if_pos ⟨k, hk, hke⟩] at hprio
      constructor
      · rintro (hm | hm)
        · exact .inl hm
        · exact absurd hprio hm
      · rintro (hm | hm)
        · exact .inl hm
        · refine .inl ((h.added e).2 ⟨k, hk, chosen_of_some hke, ?_⟩)
          intro e' he'
          rw [hke] at he'
          cases he'
          exact hm
    · rw [if_neg hbefore] at hprio
      rw [hprio]

/-- Whether an update shifts its host is decided by how that host was before all. -/
theorem changed_next (h : Gathered rules p all store done m)
    (ha : Arrives p all store (done ++ id :: rest)) (hno : m.changed = false) {e : HostId}
    (he : heir? rules all store id = some e) :
    (m.store.get e).shifts (store.get id) = (store.get e).shifts (store.get id) := by
  have hfind := (heir?_eq_some.1 he).1
  have hdone : e ∉ done := fun hm => ha.apart _ e hfind (by simp [hm])
  rw [h.installed e (ha.sound _ e hfind).1 hdone]
  refine (still_visitAll _ fun k hk hfits => ?_).2 _
  obtain ⟨hk, hmeets⟩ := List.mem_filter.1 hk
  exact h.changed.1 hno k hk e (heir?_eq_some.2 ⟨by simpa using hmeets, hfits⟩)

theorem visits_append (done more : List HostId) (i : HostId) :
    visits all store (done ++ more) i = visits all store done i ++ visits all store more i := by
  simp only [visits, List.filter_append]

/-- A host that was installed is visited once more if its address is the one of the next. -/
theorem get_snoc_installed {m' : Matching} (h : Gathered rules p all store done m)
    (hs : Stepped rules all store id m m') {i : HostId} (hi : i < store.size)
    (hid : i ∉ done ++ [id]) : m'.store.get i =
      (visits all store (done ++ [id]) i).foldl (fun h id => visit rules h (store.get id))
        (store.get i) := by
  have hi' : i ∉ done := fun hm => hid (by simp [hm])
  have hne : i ≠ id := fun he => hid (by simp [he])
  rw [hs.get, h.installed i hi hi', visits_append, List.foldl_append]
  by_cases hf : Assoc.find? (store.addressText id) all = some i
  · have hnow : visits all store [id] i = [id] := by simp [visits, hf]
    rw [if_pos hf, hnow]; rfl
  · have hnow : visits all store [id] i = [] := by simp [visits, hf]
    rw [if_neg hf, if_neg fun h' => hne h'.1, hnow]; rfl

/-- A delivered host is entered when it is its turn, and left alone from then on. -/
theorem get_snoc_delivered {m' : Matching} (h : Gathered rules p all store done m)
    (ha : Arrives p all store (done ++ id :: rest)) (hs : Stepped rules all store id m m')
    {k : HostId} (hk : k ∈ done ++ [id]) : m'.store.get k =
      if (heir? rules all store k).isSome then store.get k
      else (store.get k).setFlags (entryFlags rules (store.get k)) := by
  rw [hs.get]
  rcases List.mem_append.1 hk with hk | hk
  · have hne : k ≠ id := fun he => not_mem_done ha (he ▸ hk)
    rw [if_neg fun hf => ha.apart _ k hf (by simp [hk]), if_neg fun h' => hne h'.1]
    exact h.delivered k hk
  · obtain rfl := List.mem_singleton.1 hk
    rw [if_neg fun hf => ha.apart _ k hf (by simp)]
    cases hheir : heir? rules all store k with
    | none => simp
    | some e =>
      simp only [reduceCtorEq, and_false, if_false, Option.isSome_some, if_true]
      exact h.get_of_next ha

theorem snoc {m' : Matching} (h : Gathered rules p all store done m)
    (ha : Arrives p all store (done ++ id :: rest)) (hs : Stepped rules all store id m m') :
    Gathered rules p all store (done ++ [id]) m' := by
  have hlevel : (store.get id).priority = p := ha.level id (by simp)
  -- who met somebody before, or meets somebody now
  have hsnoc : ∀ P : HostId → Prop, (∃ k ∈ done ++ [id], P k) ↔ (∃ k ∈ done, P k) ∨ P id :=
    fun P => by simp [or_and_right, exists_or]
  refine ⟨hs.size.trans h.size, ?_, ?_, hs.kept_nodup h.kept_nodup, ?_, ?_, ?_, ?_, ?_,
    fun _ hi hid => h.get_snoc_installed hs hi hid, fun _ hk => h.get_snoc_delivered ha hs hk⟩
  · rw [hs.final, h.final, List.map_append, List.map_singleton]
  · intro a
    rw [hs.kept, h.kept, hsnoc]
  · intro a
    rw [hs.fresh, h.fresh, hsnoc]
  · intro a
    rw [hs.moved, h.moved, hsnoc]
  · intro a
    rw [hs.switched, h.switched, hsnoc]
  · intro i
    rw [hs.added, hsnoc, ← h.added, hlevel]
    by_cases hc : chosen rules all store id = i
    · subst hc
      have := added_next h ha
      simpa only [true_and] using this
    · simp only [hc, false_and, or_false]
  · rw [hs.changed, h.changed, List.forall_mem_append, List.forall_mem_singleton]
    refine and_congr_right fun hdone => forall₂_congr fun e he => ?_
    rw [changed_next h ha (h.changed.2 hdone) he]

end Gathered

theorem gathered_matchAll {rules : Rules} {p : Nat} {all : AddressMap} {store : HostStore}
    {delivered : List HostId} (ha : Arrives p all store delivered) :
    Gathered rules p all store delivered (matchAll rules all store delivered) := by
  have hrest : ∀ (rest done : List HostId) (m : Matching), Gathered rules p all store done m →
      Arrives p all store (done ++ rest) →
      Gathered rules p all store (done ++ rest) (rest.foldl (matchHost rules all) m) := by
    intro rest
    induction rest with
    | nil => intro done m h _; simpa using h
    | cons id rest ih =>
      intro done m h ha
      have hnext := h.snoc ha (h.stepped_matchHost ha)
      have hlist : done ++ id :: rest = (done ++ [id]) ++ rest := by simp
      rw [List.foldl_cons, hlist]
      exact ih (done ++ [id]) _ hnext (hlist ▸ ha)
  exact hrest delivered [] _ (.start rules p all store) ha

end Reconcile

end Roster
