import Mathlib.Data.List.Perm.Basic
import Roster.Proofs.Mirroring

/-!
# Roster.Proofs.Reordering

A level reconciled with the same hosts in another order. Whether a delivered host updates an installed
one does not depend on those before it, and where no address is delivered twice an installed host meets
at most one of them; so only the order of the outcome differs.

* `maxWeight_matchAll`, `nodup_texts_added` — what the order could matter to: the largest weight, and
  which hosts are added.
* `Reorders`          — two levels to reconcile that differ in order and in the names of hosts.
* `after_eq`, `drains_iff` — installed hosts meet the same endpoints, and the same hosts drain.
* `mirrors_reconcile` — what the levels are reconciled to differs in no more.
-/

namespace Roster.Reconcile

/-! ## The order of the delivered hosts -/

section Gathered

variable {rules : Rules} {p : Nat} {all : AddressMap} {store : HostStore} {done rest : List HostId}
  {m : Matching} {id : HostId}

theorem Gathered.maxWeight_matchHost (h : Gathered rules p all store done m)
    (ha : Arrives p all store (done ++ id :: rest)) :
    (matchHost rules all m id).maxWeight = max m.maxWeight (store.get id).weight := by
  have hid : m.store.get id = store.get id := h.get_of_next ha
  cases hf : Assoc.find? (store.addressText id) all with
  | none =>
    rw [matchHost_of_none (by rw [h.addressText]; exact hf)]
    exact congrArg (fun k : Host => max m.maxWeight k.weight) hid
  | some e =>
    have hne : id ≠ e := fun he => ha.apart _ e hf (by simp [← he])
    have hmet : (meet rules m e id).store.get id = store.get id :=
      ((met_meet h ha hf).others id hne).trans hid
    rw [matchHost_of_some (by rw [h.addressText]; exact hf)]
    split
    · exact congrArg (fun k : Host => max m.maxWeight k.weight) hmet
    · exact congrArg (fun k : Host => max m.maxWeight k.weight) hmet

theorem maxWeight_matchAll {delivered : List HostId} (ha : Arrives p all store delivered) :
    (matchAll rules all store delivered).maxWeight =
      (delivered.map fun id => (store.get id).weight).foldl max 1 := by
  have hrest : ∀ (rest done : List HostId) (m : Matching), Gathered rules p all store done m →
      Arrives p all store (done ++ rest) →
      (rest.foldl (matchHost rules all) m).maxWeight =
        (rest.map fun id => (store.get id).weight).foldl max m.maxWeight := by
    intro rest
    induction rest with
    | nil => exact fun _ _ _ _ => rfl
    | cons id rest ih =>
      intro done m h ha
      have hnext := h.snoc ha (h.stepped_matchHost ha)
      have hlist : done ++ id :: rest = (done ++ [id]) ++ rest := by simp
      rw [List.foldl_cons, ih (done ++ [id]) _ hnext (hlist ▸ ha), h.maxWeight_matchHost ha,
        List.map_cons, List.foldl_cons]
  exact hrest delivered [] _ (.start rules p all store) ha

/-- Only members are added, in the order in which they became members. -/
theorem added_sublist_final (rules : Rules) (all : AddressMap) (store : HostStore)
    (delivered : List HostId) : (matchAll rules all store delivered).added.Sublist
      (matchAll rules all store delivered).final := by
  have hadmit : ∀ (m : Matching) (id : HostId), m.added.Sublist m.final →
      (admitNew rules m id).added.Sublist (admitNew rules m id).final := fun m id h =>
    h.append_right [id]
  have hupdate : ∀ (m : Matching) (e id : HostId), m.added.Sublist m.final →
      (updateInPlace m e id).added.Sublist (updateInPlace m e id).final := by
    intro m e id h
    simp only [updateInPlace]
    split
    · exact h.append_right [e]
    · exact h.trans (List.sublist_append_left _ _)
  have hstep : ∀ (m : Matching) (id : HostId), m.added.Sublist m.final →
      (matchHost rules all m id).added.Sublist (matchHost rules all m id).final := by
    intro m id h
    cases hf : Assoc.find? (m.store.addressText id) all with
    | none =>
      rw [matchHost_of_none hf]
      exact hadmit m id h
    | some e =>
      rw [matchHost_of_some hf]
      split
      · exact hupdate (meet rules m e id) e id h
      · exact hadmit (meet rules m e id) id h
  have hfold : ∀ (ids : List HostId) (m : Matching), m.added.Sublist m.final →
      (ids.foldl (matchHost rules all) m).added.Sublist
        (ids.foldl (matchHost rules all) m).final := by
    intro ids
    induction ids with
    | nil => exact fun _ h => h
    | cons id ids ih => exact fun m h => ih _ (hstep m id h)
  exact hfold delivered _ (.refl [])

variable {delivered : List HostId} (ha : Arrives p all store delivered)

include ha

theorem addressText_chosen (id : HostId) :
    store.addressText (chosen rules all store id) = store.addressText id := by
  rw [chosen]
  cases hheir : heir? rules all store id with
  | none => rfl
  | some e => exact (ha.sound _ _ (heir?_eq_some.1 hheir).1).2

theorem nodup_texts_added (hdistinct : (delivered.map store.addressText).Nodup) :
    ((matchAll rules all store delivered).added.map store.addressText).Nodup := by
  have hmap : (matchAll rules all store delivered).final.map store.addressText =
      delivered.map store.addressText := by
    rw [(gathered_matchAll ha).final, List.map_map]
    exact List.map_congr_left fun id _ => addressText_chosen ha id
  exact (hmap ▸ hdistinct).sublist ((added_sublist_final rules all store delivered).map _)

end Gathered

/-! ## Two levels to reconcile -/

/-- The same hosts under new names, delivered in any order, each address once. -/
structure Reorders (ρ : Equiv.Perm HostId) (p : Nat) (all all' : AddressMap)
    (texts texts' : List String) (s t : HostStore)
    (delivered delivered' current current' : List HostId) : Prop where
  hosts : s.Mirrors ρ t
  perm : delivered'.Perm (delivered.map ρ)
  distinct : (delivered'.map t.addressText).Nodup
  found : ∀ b, Assoc.find? b all' = (Assoc.find? b all).map ρ
  named : ∀ b, b ∈ texts' ↔ b ∈ texts
  shuffles : Shuffles t.addressText ρ current current'
  arrives : Arrives p all s delivered
  arrives' : Arrives p all' t delivered'
  known : ∀ i ∈ current, i < s.size ∧ i ∉ delivered

/-- The same outcome, but for the names of hosts and the order of hosts at different addresses. -/
structure Result.Mirrors (text : HostId → String) (ρ : Equiv.Perm HostId) (r r' : Result) : Prop where
  store : r.store.Mirrors ρ r'.store
  hosts : Shuffles text ρ r.hosts r'.hosts
  added : Shuffles text ρ r.added r'.added
  removed : Shuffles text ρ r.removed r'.removed
  changed : r'.changed = r.changed
  maxWeight : r'.maxWeight = r.maxWeight

namespace Reorders

variable {ρ : Equiv.Perm HostId} {p : Nat} {all all' : AddressMap} {texts texts' : List String}
  {s t : HostStore} {delivered delivered' current current' : List HostId} {rules : Rules}
  {i : HostId} (h : Reorders ρ p all all' texts texts' s t delivered delivered' current current')

include h

theorem mem_delivered : ρ i ∈ delivered' ↔ i ∈ delivered := by
  rw [h.perm.mem_iff, List.mem_map_of_injective ρ.injective]

theorem exists_delivered {Q R : HostId → Prop} (hQ : ∀ id ∈ delivered, R (ρ id) ↔ Q id) :
    (∃ id ∈ delivered', R id) ↔ ∃ id ∈ delivered, Q id := by
  constructor
  · rintro ⟨id, hid, hq⟩
    obtain ⟨j, rfl⟩ := ρ.surjective id
    have hj := h.mem_delivered.1 hid
    exact ⟨j, hj, (hQ j hj).1 hq⟩
  · rintro ⟨id, hid, hq⟩
    exact ⟨ρ id, h.mem_delivered.2 hid, (hQ id hid).2 hq⟩

theorem forall_delivered {Q R : HostId → Prop} (hQ : ∀ id ∈ delivered, R (ρ id) ↔ Q id) :
    (∀ id ∈ delivered', R id) ↔ ∀ id ∈ delivered, Q id := by
  have hnot := h.exists_delivered (Q := fun id => ¬ Q id) (R := fun id => ¬ R id) fun id hid =>
    not_congr (hQ id hid)
  simpa using not_congr hnot

theorem shuffles_delivered : Shuffles t.addressText ρ delivered delivered' :=
  .of_mem h.arrives.nodup h.distinct fun _ => h.mem_delivered

/-! ## What a delivered host does -/

theorem find?_all (id : HostId) : Assoc.find? (t.addressText (ρ id)) all' =
    (Assoc.find? (s.addressText id) all).map ρ := by
  rw [h.hosts.addressText, h.found]

theorem forall_found {b : String} {Q R : HostId → Prop} (hQ : ∀ e, R (ρ e) ↔ Q e) :
    (∀ e, Assoc.find? b all' = some e → R e) ↔ ∀ e, Assoc.find? b all = some e → Q e := by
  rw [h.found]
  cases Assoc.find? b all with
  | none => simp
  | some e => simpa using hQ e

theorem heir?_eq (id : HostId) : heir? rules all' t (ρ id) = (heir? rules all s id).map ρ := by
  rw [heir?, h.find?_all, h.hosts.get, heir?]
  cases Assoc.find? (s.addressText id) all with
  | none => rfl
  | some e =>
    simp only [Option.map_some, Option.filter_some, h.hosts.get]
    split <;> rfl

theorem isSome_heir? (id : HostId) :
    (heir? rules all' t (ρ id)).isSome = (heir? rules all s id).isSome := by
  rw [h.heir?_eq, Option.isSome_map]

theorem forall_heir {id : HostId} {Q R : HostId → Prop} (hQ : ∀ e, R (ρ e) ↔ Q e) :
    (∀ e, heir? rules all' t (ρ id) = some e → R e) ↔ ∀ e, heir? rules all s id = some e → Q e := by
  rw [h.heir?_eq]
  cases heir? rules all s id with
  | none => simp
  | some e => simpa using hQ e

theorem chosen_eq (id : HostId) : chosen rules all' t (ρ id) = ρ (chosen rules all s id) := by
  rw [chosen, h.heir?_eq, chosen]
  cases heir? rules all s id <;> rfl

theorem renewed_iff (b : String) :
    Renewed rules all' t delivered' b ↔ Renewed rules all s delivered b :=
  h.exists_delivered fun id _ => by rw [h.hosts.addressText, h.isSome_heir?]

theorem refreshed_iff (b : String) :
    Refreshed rules all' t delivered' b ↔ Refreshed rules all s delivered b :=
  h.exists_delivered fun id _ => by rw [h.hosts.addressText, h.heir?_eq, Option.map_eq_none_iff]

/-! ## Hosts that are not matched -/

theorem shuffles_left : Shuffles t.addressText ρ (left rules all s delivered current)
    (left rules all' t delivered' current') := by
  classical
  refine h.hosts.shuffles_iff.2 fun b => ?_
  rw [located_left h.arrives, located_left h.arrives', h.hosts.shuffles_iff.1 h.shuffles]
  simp only [h.renewed_iff]
  split
  · exact List.map_tail.symm
  · rfl

theorem after_eq (i : HostId) :
    after rules all' t delivered' (ρ i) = after rules all s delivered i := by
  have hvisits : visits all' t delivered' (ρ i) = (visits all s delivered i).map ρ := by
    have hshuffles := h.shuffles_delivered.filter
      (f := fun id => Assoc.find? (s.addressText id) all = some i)
      (g := fun id => Assoc.find? (t.addressText id) all' = some (ρ i)) fun id _ => by
        rw [h.find?_all, decide_eq_decide]
        cases Assoc.find? (s.addressText id) all <;> simp
    refine hshuffles.eq_map (b := t.addressText (ρ i)) fun id hid => ?_
    have hfind := of_decide_eq_true (List.mem_filter.1 hid).2
    exact (h.arrives'.sound _ _ hfind).2.symm
  rw [after, hvisits, List.foldl_map, h.hosts.get, after]
  simp only [h.hosts.get]

theorem drains_iff (i : HostId) :
    Drains rules all' texts' t delivered' (ρ i) ↔ Drains rules all texts s delivered i := by
  have hunmoved : (∀ id ∈ delivered', t.addressText id = t.addressText (ρ i) →
      ∀ e, Assoc.find? (t.addressText (ρ i)) all' = some e →
        movedLocality (t.get e) (t.get id) = false ∧
          switchedCheck rules (t.get e) (t.get id) = false) ↔
      ∀ id ∈ delivered, s.addressText id = s.addressText i →
        ∀ e, Assoc.find? (s.addressText i) all = some e →
          movedLocality (s.get e) (s.get id) = false ∧
            switchedCheck rules (s.get e) (s.get id) = false := by
    refine h.forall_delivered fun id _ => ?_
    rw [h.hosts.addressText, h.hosts.addressText]
    exact imp_congr_right fun _ => h.forall_found fun e => by rw [h.hosts.get, h.hosts.get]
  have hhere : (t.addressText (ρ i) ∈ texts' →
      Refreshed rules all' t delivered' (t.addressText (ρ i))) ↔
      (s.addressText i ∈ texts → Refreshed rules all s delivered (s.addressText i)) := by
    rw [h.hosts.addressText, h.named, h.refreshed_iff]
  constructor
  · rintro ⟨hchecker, hrespected, hmoved, hrefreshed, hpassing, hlisted, hchecked⟩
    rw [h.hosts.get] at hpassing hchecked
    rw [h.after_eq] at hlisted
    exact ⟨hchecker, hrespected, hunmoved.1 hmoved, hhere.1 hrefreshed, hpassing, hlisted, hchecked⟩
  · rintro ⟨hchecker, hrespected, hmoved, hrefreshed, hpassing, hlisted, hchecked⟩
    rw [← h.hosts.get i] at hpassing hchecked
    rw [← h.after_eq i] at hlisted
    exact ⟨hchecker, hrespected, hunmoved.2 hmoved, hhere.2 hrefreshed, hpassing, hlisted, hchecked⟩

theorem stays_eq (hi : i < s.size) (hnot : i ∉ delivered) :
    stays rules all' texts' t delivered' (ρ i) = stays rules all texts s delivered i := by
  have hi' : ρ i < t.size := by rw [h.hosts.size]; exact (h.hosts.known i).2 hi
  rw [Bool.eq_iff_iff, stays_iff h.arrives' hi' (mt h.mem_delivered.1 hnot),
    stays_iff h.arrives hi hnot, h.drains_iff]

theorem shuffles_filter_left {f g : HostId → Bool}
    (hf : ∀ i, i < s.size → i ∉ delivered → g (ρ i) = f i) :
    Shuffles t.addressText ρ ((left rules all s delivered current).filter f)
      ((left rules all' t delivered' current').filter g) :=
  h.shuffles_left.filter fun i hi =>
    have hknown := h.known i (left_sublist.subset hi)
    hf i hknown.1 hknown.2

/-! ## Members -/

theorem shuffles_members : Shuffles t.addressText ρ (delivered.map (chosen rules all s))
    (delivered'.map (chosen rules all' t)) :=
  h.shuffles_delivered.map (fun id _ => h.chosen_eq id) fun id _ =>
    addressText_chosen h.arrives' id

theorem shuffles_added : Shuffles t.addressText ρ (matchAll rules all s delivered).added
    (matchAll rules all' t delivered').added := by
  have hmem : ∀ i, ρ i ∈ (matchAll rules all' t delivered').added ↔
      i ∈ (matchAll rules all s delivered).added := by
    intro i
    rw [(gathered_matchAll h.arrives').added, (gathered_matchAll h.arrives).added]
    refine h.exists_delivered fun id _ => and_congr ?_ (h.forall_heir fun e => ?_)
    · rw [h.chosen_eq, ρ.apply_eq_iff_eq]
    · rw [h.hosts.get]
  have hdistinct : (delivered.map s.addressText).Nodup := by
    have hmap : (delivered.map ρ).map t.addressText = delivered.map s.addressText := by
      rw [List.map_map]
      exact List.map_congr_left fun id _ => h.hosts.addressText id
    exact hmap ▸ (h.perm.map t.addressText).nodup_iff.1 h.distinct
  exact .of_mem (nodup_texts_added h.arrives hdistinct).of_map
    (nodup_texts_added h.arrives' h.distinct) hmem

/-! ## The outcome -/

theorem known_right : ∀ i ∈ current', i < t.size ∧ i ∉ delivered' := by
  intro i hi
  obtain ⟨j, rfl⟩ := ρ.surjective i
  obtain ⟨hj, hnot⟩ := h.known j (h.shuffles.mem_iff.1 hi)
  exact ⟨h.hosts.size ▸ (h.hosts.known j).2 hj, mt h.mem_delivered.1 hnot⟩

theorem shuffles_draining : Shuffles t.addressText ρ
    ((left rules all s delivered current).filter (stays rules all texts s delivered))
    ((left rules all' t delivered' current').filter (stays rules all' texts' t delivered')) :=
  h.shuffles_filter_left fun _ hi hnot => h.stays_eq hi hnot

section Outcome

variable {r r' : Result} (hr : Reconciled rules all texts s delivered current p r)
  (hr' : Reconciled rules all' texts' t delivered' current' p r')

include hr hr'

theorem shuffles_hosts : Shuffles t.addressText ρ r.hosts r'.hosts := by
  rw [hr.hosts, hr'.hosts]
  exact h.shuffles_members.append h.shuffles_draining

theorem shuffles_removed : Shuffles t.addressText ρ r.removed r'.removed := by
  rw [hr.removed, hr'.removed]
  exact h.shuffles_filter_left fun i hi hnot => by rw [h.stays_eq hi hnot]

theorem mirrors_store : r.store.Mirrors ρ r'.store where
  size := by rw [hr.size, hr'.size, h.hosts.size]
  known := hr.size ▸ h.hosts.known
  get i := by
    rcases Nat.lt_or_ge i s.size with hi | hi
    · by_cases hid : i ∈ delivered
      · rw [hr'.arrived _ (h.mem_delivered.2 hid), hr.arrived i hid, h.isSome_heir?, h.hosts.get]
      · have hi' : ρ i < t.size := by rw [h.hosts.size]; exact (h.hosts.known i).2 hi
        rw [hr'.installed _ hi' (mt h.mem_delivered.1 hid), hr.installed i hi hid]
        simp only [h.after_eq, h.stays_eq hi hid, h.shuffles_left.mem_iff]
    · have hi' : ¬ ρ i < s.size := fun hlt => absurd ((h.hosts.known i).1 hlt) (Nat.not_lt.2 hi)
      rw [r.store.get_of_size_le (hr.size ▸ hi),
        r'.store.get_of_size_le (by rw [hr'.size, h.hosts.size]; exact Nat.not_lt.1 hi')]

theorem changed_eq (hadded : Shuffles t.addressText ρ r.added r'.added) :
    r'.changed = r.changed := by
  have hshifts := h.forall_delivered
    (Q := fun id => ∀ e, heir? rules all s id = some e → (s.get e).shifts (s.get id) = false)
    (R := fun id => ∀ e, heir? rules all' t id = some e → (t.get e).shifts (t.get id) = false)
    fun id _ => h.forall_heir fun e => by rw [h.hosts.get, h.hosts.get]
  have hhere : (∀ b, Renewed rules all' t delivered' b → t.located b current' ≠ []) ↔
      ∀ b, Renewed rules all s delivered b → s.located b current ≠ [] :=
    forall_congr' fun b => by
      rw [h.renewed_iff, h.hosts.shuffles_iff.1 h.shuffles, ne_eq, List.map_eq_nil_iff]
  have hsame : r'.changed = false ↔ r.changed = false := by
    rw [hr.changed, hr'.changed, hshifts, hhere, hadded.eq_nil_iff,
      (h.shuffles_removed hr hr').eq_nil_iff]
  simpa using not_congr hsame

end Outcome

theorem maxWeight_eq : (reconcile rules t delivered' current' all' texts').maxWeight =
    (reconcile rules s delivered current all texts).maxWeight := by
  have hmax : ∀ {l l' : List HostId} {f g : HostId → Nat} (n : Nat), l'.Perm (l.map ρ) →
      (∀ i ∈ l, g (ρ i) = f i) → (l'.map g).foldl max n = (l.map f).foldl max n := by
    intro l l' f g n hperm hf
    rw [(hperm.map g).foldl_eq, List.map_map]
    exact congrArg (List.foldl max n) (List.map_congr_left hf)
  simp only [reconcile_eq, drain_eq, maxWeight_matchAll h.arrives, maxWeight_matchAll h.arrives']
  rw [hmax 1 h.perm fun i _ => by rw [h.hosts.get]]
  refine hmax _ h.shuffles_draining.perm fun i hi => ?_
  obtain ⟨hi, hnot⟩ := h.known i (left_sublist.subset (List.mem_filter.1 hi).1)
  have hi' : ρ i < t.size := by rw [h.hosts.size]; exact (h.hosts.known i).2 hi
  rw [(gathered_matchAll h.arrives').installed _ hi' (mt h.mem_delivered.1 hnot),
    (gathered_matchAll h.arrives).installed i hi hnot]
  exact congrArg Host.weight (h.after_eq i)

/-- Delivered in another order a level is reconciled to the same hosts. -/
theorem mirrors_reconcile : (reconcile rules s delivered current all texts).Mirrors t.addressText ρ
    (reconcile rules t delivered' current' all' texts') :=
  have hr := reconciled_reconcile h.arrives h.known
  have hr' := reconciled_reconcile h.arrives' h.known_right
  ⟨h.mirrors_store hr hr', h.shuffles_hosts hr hr', h.shuffles_added, h.shuffles_removed hr hr',
    h.changed_eq hr hr' h.shuffles_added, h.maxWeight_eq⟩

end Reorders

end Roster.Reconcile
