import Roster.Proofs.Matching

/-!
# Roster.Proofs.Reconciling

What reconciling a level leads to, said of the hosts as they were before.

* `located`    — the hosts of a list at an address.
* `Renewed`    — an address whose installed host is updated in place.
* `left`       — the hosts of the level that are not matched: at a renewed address all but the first,
  elsewhere all.
* `Drains`     — when such a host stays; `stays_iff`.
* `Reconciled` — the whole outcome; `reconciled_reconcile`.
-/

namespace Roster

def HostStore.located (s : HostStore) (a : String) (ids : List HostId) : List HostId :=
  ids.filter fun i => s.addressText i = a

theorem HostStore.mem_located {s : HostStore} {a : String} {ids : List HostId} {i : HostId} :
    i ∈ s.located a ids ↔ i ∈ ids ∧ s.addressText i = a := by
  simp only [located, List.mem_filter, decide_eq_true_eq]

theorem HostStore.located_congr {s t : HostStore} {a : String} {ids : List HostId}
    (h : ∀ i ∈ ids, t.addressText i = s.addressText i) : t.located a ids = s.located a ids :=
  List.filter_congr fun i hi => by rw [h i hi]

theorem HostStore.nodup_of_located {s : HostStore} {ids : List HostId}
    (h : ∀ a, (s.located a ids).Nodup) : ids.Nodup := by
  refine List.nodup_iff_count.2 ?_
  intro i
  have hcount : (s.located (s.addressText i) ids).count i = ids.count i :=
    List.count_filter (by simp)
  rw [← hcount]
  exact List.nodup_iff_count.1 (h _) i

namespace Reconcile

/-! ## Hosts that are not matched -/

theorem unmatched_sublist (store : HostStore) (hosts : List HostId) (kept : List String) :
    (unmatched store hosts kept).1.Sublist hosts := by
  induction hosts generalizing kept with
  | nil => exact .refl _
  | cons id hosts ih =>
    simp only [unmatched]
    split
    · exact (ih _).cons id
    · exact (ih _).cons_cons id

/-- At a kept address the first host is matched, at another none. -/
theorem located_unmatched (store : HostStore) (hosts : List HostId) {kept : List String}
    (hk : kept.Nodup) (a : String) :
    store.located a (unmatched store hosts kept).1 =
      if a ∈ kept then (store.located a hosts).tail else store.located a hosts := by
  induction hosts generalizing kept with
  | nil => simp [unmatched, HostStore.located]
  | cons id hosts ih =>
    unfold unmatched
    by_cases hid : store.addressText id ∈ kept
    · rw [if_pos hid, ih (hk.erase _)]
      by_cases ha : store.addressText id = a
      · subst ha
        have hgone : store.addressText id ∉ kept.erase (store.addressText id) := fun hm =>
          (hk.mem_erase_iff.1 hm).1 rfl
        rw [if_neg hgone, if_pos hid]
        simp [HostStore.located]
      · have hsame : a ∈ kept.erase (store.addressText id) ↔ a ∈ kept :=
          List.mem_erase_of_ne (Ne.symm ha)
        simp only [hsame, HostStore.located, List.filter_cons, ha, decide_false, Bool.false_eq_true,
          if_false]
    · rw [if_neg hid]
      by_cases ha : store.addressText id = a
      · subst ha
        have hrest := ih hk
        rw [if_neg hid] at hrest ⊢
        simp only [HostStore.located, List.filter_cons, decide_true, if_true] at hrest ⊢
        rw [hrest]
      · have hrest := ih hk
        simp only [HostStore.located, List.filter_cons, ha, decide_false, Bool.false_eq_true,
          if_false] at hrest ⊢
        exact hrest

theorem mem_unmatched_snd (store : HostStore) (hosts : List HostId) {kept : List String}
    (hk : kept.Nodup) (a : String) :
    a ∈ (unmatched store hosts kept).2 ↔ a ∈ kept ∧ store.located a hosts = [] := by
  induction hosts generalizing kept with
  | nil => simp [unmatched, HostStore.located]
  | cons id hosts ih =>
    unfold unmatched
    by_cases hid : store.addressText id ∈ kept
    · rw [if_pos hid, ih (hk.erase _), hk.mem_erase_iff]
      by_cases ha : store.addressText id = a
      · simp [HostStore.located, ha]
      · simp [HostStore.located, ha, Ne.symm ha]
    · rw [if_neg hid, ih hk]
      by_cases ha : store.addressText id = a
      · subst ha
        simp [hid]
      · simp [HostStore.located, ha]

/-! ## The level -/

section Level

variable (rules : Rules) (all : AddressMap) (texts : List String) (store : HostStore)
  (delivered current : List HostId)

/-- A delivered host updates the installed one at the address in place. -/
def Renewed (a : String) : Prop :=
  ∃ id ∈ delivered, store.addressText id = a ∧ (heir? rules all store id).isSome

/-- A delivered host becomes a member at the address. -/
def Refreshed (a : String) : Prop :=
  ∃ id ∈ delivered, store.addressText id = a ∧ heir? rules all store id = none

/-- An installed host after all delivered ones met it. -/
def after (i : HostId) : Host :=
  (visits all store delivered i).foldl (fun h id => visit rules h (store.get id)) (store.get i)

def left : List HostId :=
  let m := matchAll rules all store delivered
  (unmatched m.store current m.kept).1

def stays (i : HostId) : Bool :=
  rules.hasChecker && !rules.ignoreHealth && !leaves (matchAll rules all store delivered) texts i

/-- A host stays to drain where hosts are checked: as long as it passes its checks, while no delivered
host at its address is elsewhere or is checked in another way, and unless its address went to another
level. -/
structure Drains (i : HostId) : Prop where
  checker : rules.hasChecker = true
  respected : rules.ignoreHealth = false
  unmoved : ∀ id ∈ delivered, store.addressText id = store.addressText i →
    ∀ e, Assoc.find? (store.addressText i) all = some e →
      movedLocality (store.get e) (store.get id) = false ∧
        switchedCheck rules (store.get e) (store.get id) = false
  here : store.addressText i ∈ texts → Refreshed rules all store delivered (store.addressText i)
  passing : (store.get i).hasFlag .failedActiveCheck = false
  listed : (after rules all store delivered i).hasFlag .failedDiscovery = false
  checked : (store.get i).disableActiveCheck = false

/-- The outcome for a level. -/
structure Reconciled (p : Nat) (r : Result) : Prop where
  size : r.store.size = store.size
  hosts : r.hosts = delivered.map (chosen rules all store) ++
    (left rules all store delivered current).filter (stays rules all texts store delivered)
  removed : r.removed =
    (left rules all store delivered current).filter fun i => !stays rules all texts store delivered i
  added : ∀ i, i ∈ r.added ↔ ∃ id ∈ delivered, chosen rules all store id = i ∧
    ∀ e, heir? rules all store id = some e → (store.get e).priority ≠ p
  installed : ∀ i, i < store.size → i ∉ delivered → r.store.get i =
    if i ∈ left rules all store delivered current ∧ stays rules all texts store delivered i = true then
      (after rules all store delivered i).setFlag .pendingRemoval
    else after rules all store delivered i
  arrived : ∀ id ∈ delivered, r.store.get id =
    if (heir? rules all store id).isSome then store.get id
    else (store.get id).setFlags (entryFlags rules (store.get id))
  changed : r.changed = false ↔
    (∀ id ∈ delivered, ∀ e, heir? rules all store id = some e →
      (store.get e).shifts (store.get id) = false) ∧
    r.added = [] ∧ r.removed = [] ∧
    ∀ a, Renewed rules all store delivered a → store.located a current ≠ []

end Level

section Spec

variable {rules : Rules} {p : Nat} {all : AddressMap} {texts : List String} {store : HostStore}
  {delivered current : List HostId}

theorem left_sublist : (left rules all store delivered current).Sublist current :=
  unmatched_sublist _ _ _

theorem located_left (ha : Arrives p all store delivered) (a : String)
    [Decidable (Renewed rules all store delivered a)] :
    store.located a (left rules all store delivered current) =
      if Renewed rules all store delivered a then (store.located a current).tail
      else store.located a current := by
  have h : Gathered rules p all store delivered (matchAll rules all store delivered) :=
    gathered_matchAll ha
  have htext : ∀ ids a, (matchAll rules all store delivered).store.located a ids =
      store.located a ids := fun ids a => HostStore.located_congr fun i _ => h.addressText i
  have hleft := located_unmatched (matchAll rules all store delivered).store current h.kept_nodup a
  rw [htext, htext] at hleft
  rw [left, hleft]
  by_cases hr : Renewed rules all store delivered a
  · rw [if_pos hr, if_pos ((h.kept a).2 hr)]
  · rw [if_neg hr, if_neg fun hm => hr ((h.kept a).1 hm)]

theorem stays_iff (ha : Arrives p all store delivered) {i : HostId} (hi : i < store.size)
    (hd : i ∉ delivered) :
    stays rules all texts store delivered i = true ↔ Drains rules all texts store delivered i := by
  have h : Gathered rules p all store delivered (matchAll rules all store delivered) :=
    gathered_matchAll ha
  have hget : (matchAll rules all store delivered).store.get i = after rules all store delivered i :=
    h.installed i hi hd
  have halike : Host.Alike (store.get i) (after rules all store delivered i) := alike_visitAll _ _
  have hpassing : (after rules all store delivered i).hasFlag .failedActiveCheck =
      (store.get i).hasFlag .failedActiveCheck :=
    hasFlag_visitAll _ _ (by simp) (by simp) (by simp)
  have htext : (after rules all store delivered i).address.text = store.addressText i :=
    congrArg Address.text halike.address
  simp only [stays, leaves, hget, htext, halike.disableActiveCheck, hpassing, Bool.and_eq_true,
    Bool.not_eq_true', Bool.or_eq_false_iff, Bool.and_eq_false_iff, decide_eq_false_iff_not,
    h.moved, h.switched, h.fresh]
  constructor
  · rintro ⟨⟨hchecker, hrespected⟩, ⟨⟨⟨hmoved, hswitched⟩, hhere⟩, hp, hl⟩, hc⟩
    refine ⟨hchecker, hrespected, fun id hid ht e he => ⟨?_, ?_⟩, ?_, hp, hl, hc⟩
    · exact Bool.eq_false_iff.2 fun hb => hmoved ⟨id, hid, ht, e, he, hb⟩
    · exact Bool.eq_false_iff.2 fun hb => hswitched ⟨id, hid, ht, e, he, hb⟩
    · intro hm
      rcases hhere with hno | hno
      · exact absurd hm hno
      · exact Classical.not_not.1 hno
  · intro hdrains
    refine ⟨⟨hdrains.checker, hdrains.respected⟩,
      ⟨⟨⟨?_, ?_⟩, ?_⟩, hdrains.passing, hdrains.listed⟩, hdrains.checked⟩
    · rintro ⟨id, hid, ht, e, he, hb⟩
      rw [(hdrains.unmoved id hid ht e he).1] at hb
      cases hb
    · rintro ⟨id, hid, ht, e, he, hb⟩
      rw [(hdrains.unmoved id hid ht e he).2] at hb
      cases hb
    · by_cases hm : store.addressText i ∈ texts
      · exact .inr fun hno => hno (hdrains.here hm)
      · exact .inl hm

theorem still_after {i : HostId} (hno : ∀ id ∈ delivered, heir? rules all store id = some i →
    (store.get i).shifts (store.get id) = false) :
    Host.SameHealth (store.get i) (after rules all store delivered i) ∧
      ∀ d, (after rules all store delivered i).shifts d = (store.get i).shifts d := by
  refine still_visitAll _ fun id hid hfits => ?_
  obtain ⟨hid, hmeets⟩ := List.mem_filter.1 hid
  exact hno id hid (heir?_eq_some.2 ⟨by simpa using hmeets, hfits⟩)

theorem drain_eq (rules : Rules) (all : AddressMap) (texts : List String) (store : HostStore)
    (delivered current : List HostId) :
    drain rules (matchAll rules all store delivered) texts
        (left rules all store delivered current) =
      ((left rules all store delivered current).filter (stays rules all texts store delivered),
        (left rules all store delivered current).filter
          fun i => !stays rules all texts store delivered i) := by
  have hstays : stays rules all texts store delivered = fun i =>
      rules.hasChecker && !rules.ignoreHealth && !leaves (matchAll rules all store delivered) texts i :=
    rfl
  rw [drain, hstays]
  cases hd : rules.hasChecker && !rules.ignoreHealth with
  | true => simp only [if_true, Bool.true_and, Bool.not_not]
  | false =>
    have hall : (left rules all store delivered current).filter (fun _ => true) =
        left rules all store delivered current := List.filter_eq_self.2 fun _ _ => rfl
    simp [hall]

theorem reconcile_eq :
    reconcile rules store delivered current all texts =
      let m := matchAll rules all store delivered
      let d := drain rules m texts (left rules all store delivered current)
      { store := m.store.modifyAll d.1 (·.setFlag .pendingRemoval)
        hosts := m.final ++ d.1
        added := m.added
        removed := d.2
        changed := m.changed || !(unmatched m.store current m.kept).2.isEmpty ||
          (!m.added.isEmpty || !d.2.isEmpty)
        maxWeight := (d.1.map fun id => (m.store.get id).weight).foldl max m.maxWeight } := rfl

theorem reconciled_reconcile (ha : Arrives p all store delivered)
    (hc : ∀ i ∈ current, i < store.size ∧ i ∉ delivered) :
    Reconciled rules all texts store delivered current p
      (reconcile rules store delivered current all texts) := by
  have h : Gathered rules p all store delivered (matchAll rules all store delivered) :=
    gathered_matchAll ha
  have hdrain := drain_eq rules all texts store delivered current
  have hleft : ∀ i ∈ left rules all store delivered current, i < store.size ∧ i ∉ delivered :=
    fun i hi => hc i (left_sublist.subset hi)
  have htext : ∀ a, (matchAll rules all store delivered).store.located a current =
      store.located a current := fun a => HostStore.located_congr fun i _ => h.addressText i
  rw [reconcile_eq]
  simp only [hdrain]
  refine ⟨?_, ?_, rfl, h.added, ?_, ?_, ?_⟩
  · rw [HostStore.size_modifyAll, h.size]
  · rw [h.final]
  · intro i hi hid
    have hlt : i < (matchAll rules all store delivered).store.size := by rw [h.size]; exact hi
    by_cases hs : i ∈ left rules all store delivered current ∧
        stays rules all texts store delivered i = true
    · rw [if_pos hs, HostStore.get_modifyAll_of_mem _ (fun h => Host.setFlag_setFlag h _) hlt
        (List.mem_filter.2 hs), h.installed i hi hid, after]
    · rw [if_neg hs, HostStore.get_modifyAll_of_not_mem _ _ fun hm => hs (List.mem_filter.1 hm),
        h.installed i hi hid, after]
  · intro id hid
    rw [HostStore.get_modifyAll_of_not_mem, h.delivered id hid]
    intro hm
    exact (hleft id (List.mem_filter.1 hm).1).2 hid
  · have harrived : (unmatched (matchAll rules all store delivered).store current
        (matchAll rules all store delivered).kept).2 = [] ↔
        ∀ a, Renewed rules all store delivered a → store.located a current ≠ [] := by
      rw [List.eq_nil_iff_forall_not_mem]
      simp only [mem_unmatched_snd _ _ h.kept_nodup, htext, h.kept, not_and]
      rfl
    simp only [Bool.or_eq_false_iff, Bool.not_eq_false', List.isEmpty_iff, h.changed, harrived]
    constructor
    · rintro ⟨⟨hshifts, hhere⟩, hadded, hremoved⟩
      exact ⟨hshifts, hadded, hremoved, hhere⟩
    · rintro ⟨hshifts, hadded, hremoved, hhere⟩
      exact ⟨⟨hshifts, hhere⟩, hadded, hremoved⟩

theorem Reconciled.alike {r : Result} (h : Reconciled rules all texts store delivered current p r)
    (i : HostId) : Host.Alike (store.get i) (r.store.get i) := by
  rcases Nat.lt_or_ge i store.size with hi | hi
  · by_cases hid : i ∈ delivered
    · rw [h.arrived i hid]
      split
      · exact .refl _
      · exact Host.alike_setFlags _ _
    · rw [h.installed i hi hid]
      split
      · exact (alike_visitAll _ _).trans (Host.alike_setFlag _ _)
      · exact alike_visitAll _ _
  · rw [store.get_of_size_le hi, r.store.get_of_size_le (by rw [h.size]; exact hi)]
    exact .refl _

end Spec

end Reconcile

end Roster
