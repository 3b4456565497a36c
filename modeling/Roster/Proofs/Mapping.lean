import Roster.Proofs.Levels

/-!
# Roster.Proofs.Mapping

What the index holds at one address after a level reported its changes.

* `find?_revised_of_not_at` — an address at which nothing was reported stays as it is.
* `find?_revised_of_added`  — a host that was added is found at its address.
* `find?_revised_of_owner`  — a removed host that the index held gives way to its survivor.
* `survivor?_eq_some`, `survivor?_eq_none` — the survivor is another host installed at the address.
-/

namespace Roster

namespace Assoc

theorem find?_insert {k j : String} {β : Type} {b : β} {m : List (String × β)} :
    find? j (insert k b m) = if k = j then some b else find? j m := by
  by_cases h : k = j
  · rw [if_pos h, h, find?_insert_self]
  · rw [if_neg h, find?_insert_of_ne (Ne.symm h)]

theorem find?_erase {k j : String} {β : Type} {m : List (String × β)} :
    find? j (erase k m) = if k = j then none else find? j m := by
  by_cases h : k = j
  · rw [if_pos h, h, find?_erase_self]
  · rw [if_neg h, find?_erase_of_ne (Ne.symm h)]

end Assoc

namespace AddressIndex

open Assoc

variable {store : HostStore} {p : Nat} {surviving : HostId → Option HostId} {a : String}

theorem find?_enter (m : AddressMap) (id : HostId) :
    find? a (enter store m id) = if store.addressText id = a then some id else find? a m :=
  find?_insert

/-- A host is taken off the index only where the index holds it, and only by its own level. -/
theorem find?_retire (m : AddressMap) (id : HostId) :
    find? a (retire store p surviving m id) =
      if find? a m = some id ∧ (store.get id).priority = p ∧ store.addressText id = a then surviving id
      else find? a m := by
  simp only [retire, owns, Bool.and_eq_true, decide_eq_true_eq]
  by_cases ha : store.addressText id = a
  · subst ha
    by_cases h : find? (store.addressText id) m = some id ∧ (store.get id).priority = p
    · rw [if_pos h, if_pos ⟨h.1, h.2, rfl⟩]
      cases surviving id with
      | none => exact find?_erase_self
      | some k => exact find?_insert_self
    · rw [if_neg h, if_neg fun h' => h ⟨h'.1, h'.2.1⟩]
  · have hother : (if find? a m = some id ∧ (store.get id).priority = p ∧ store.addressText id = a
        then surviving id else find? a m) = find? a m := if_neg fun h => ha h.2.2
    rw [hother]
    split
    · cases surviving id with
      | none => exact find?_erase.trans (if_neg ha)
      | some k => exact find?_insert.trans (if_neg ha)
    · rfl

/-! ## Removals -/

theorem find?_retireAll_of_not_owner {removed : List HostId} {m : AddressMap}
    (h : ∀ id ∈ removed, store.addressText id = a → (store.get id).priority = p → find? a m ≠ some id) :
    find? a (removed.foldl (retire store p surviving) m) = find? a m := by
  induction removed generalizing m with
  | nil => rfl
  | cons id removed ih =>
    have hid : find? a (retire store p surviving m id) = find? a m := by
      rw [find?_retire, if_neg]
      rintro ⟨hm, hp, ha⟩
      exact h id (by simp) ha hp hm
    rw [List.foldl_cons, ih, hid]
    intro k hk hka hkp
    rw [hid]
    exact h k (by simp [hk]) hka hkp

theorem find?_retireAll_of_owner {removed : List HostId} {m : AddressMap} {e : HostId}
    (he : e ∈ removed) (hm : find? a m = some e) (hp : (store.get e).priority = p)
    (ha : store.addressText e = a) (hs : ∀ id ∈ removed, surviving e ≠ some id) :
    find? a (removed.foldl (retire store p surviving) m) = surviving e := by
  induction removed generalizing m with
  | nil => cases he
  | cons id removed ih =>
    rw [List.foldl_cons]
    by_cases hid : id = e
    · have hnow : find? a (retire store p surviving m id) = surviving e := by
        rw [find?_retire, hid, if_pos ⟨hm, hp, ha⟩]
      rw [find?_retireAll_of_not_owner, hnow]
      intro k hk _ _
      rw [hnow]
      exact hs k (by simp [hk])
    · have hnow : find? a (retire store p surviving m id) = some e := by
        rw [find?_retire, if_neg, hm]
        rintro ⟨hme, _, _⟩
        exact hid (Option.some.inj (hme.symm.trans hm))
      exact ih ((List.mem_cons.1 he).resolve_left (Ne.symm hid)) hnow
        fun k hk => hs k (by simp [hk])

theorem find?_retireAll_eq_some {removed : List HostId} {m : AddressMap} {k : HostId}
    (h : find? a (removed.foldl (retire store p surviving) m) = some k) :
    find? a m = some k ∨ ∃ id ∈ removed, surviving id = some k ∧ store.addressText id = a := by
  induction removed generalizing m with
  | nil => exact .inl h
  | cons id removed ih =>
    rcases ih h with h | ⟨j, hj, hs⟩
    · rw [find?_retire] at h
      split at h
      · rename_i hid
        exact .inr ⟨id, List.mem_cons_self, h, hid.2.2⟩
      · exact .inl h
    · exact .inr ⟨j, List.mem_cons_of_mem id hj, hs⟩

/-! ## Additions -/

theorem find?_enterAll_of_not_at {added : List HostId} {m : AddressMap}
    (h : ∀ id ∈ added, store.addressText id ≠ a) :
    find? a (added.foldl (enter store) m) = find? a m := by
  induction added generalizing m with
  | nil => rfl
  | cons id added ih =>
    rw [List.foldl_cons, ih fun k hk => h k (by simp [hk]), find?_enter, if_neg (h id (by simp))]

theorem find?_enterAll_of_mem {added : List HostId} {m : AddressMap} {e : HostId} (he : e ∈ added)
    (ha : store.addressText e = a) (hone : ∀ id ∈ added, store.addressText id = a → id = e) :
    find? a (added.foldl (enter store) m) = some e := by
  induction added generalizing m with
  | nil => cases he
  | cons id added ih =>
    rw [List.foldl_cons]
    by_cases hm : e ∈ added
    · exact ih hm fun k hk => hone k (by simp [hk])
    · have hid : id = e := ((List.mem_cons.1 he).resolve_right hm).symm
      rw [find?_enterAll_of_not_at, find?_enter, hid, if_pos ha]
      intro k hk hka
      exact hm (hone k (by simp [hk]) hka ▸ hk)

theorem find?_enterAll_eq_some {added : List HostId} {m : AddressMap} {k : HostId}
    (h : find? a (added.foldl (enter store) m) = some k) :
    find? a m = some k ∨ (k ∈ added ∧ store.addressText k = a) := by
  induction added generalizing m with
  | nil => exact .inl h
  | cons id added ih =>
    rcases ih h with h | ⟨hk, ha⟩
    · rw [find?_enter] at h
      split at h
      · rename_i ha
        cases h
        exact .inr ⟨List.mem_cons_self, ha⟩
      · exact .inl h
    · exact .inr ⟨List.mem_cons_of_mem id hk, ha⟩

/-! ## Both -/

section Revised

variable {added removed : List HostId} {m : AddressMap}

theorem find?_revised_of_not_at (hadded : ∀ id ∈ added, store.addressText id ≠ a)
    (hremoved : ∀ id ∈ removed, store.addressText id = a → (store.get id).priority = p →
      find? a m ≠ some id) :
    find? a (revised store p added removed surviving m) = find? a m := by
  rw [revised, find?_enterAll_of_not_at hadded, find?_retireAll_of_not_owner hremoved]

theorem find?_revised_of_added {e : HostId} (he : e ∈ added) (ha : store.addressText e = a)
    (hone : ∀ id ∈ added, store.addressText id = a → id = e) :
    find? a (revised store p added removed surviving m) = some e :=
  find?_enterAll_of_mem he ha hone

theorem find?_revised_of_owner {e : HostId} (hadded : ∀ id ∈ added, store.addressText id ≠ a)
    (he : e ∈ removed) (hm : find? a m = some e) (hp : (store.get e).priority = p)
    (ha : store.addressText e = a) (hs : ∀ id ∈ removed, surviving e ≠ some id) :
    find? a (revised store p added removed surviving m) = surviving e := by
  rw [revised, find?_enterAll_of_not_at hadded, find?_retireAll_of_owner he hm hp ha hs]

theorem find?_revised_eq_some {k : HostId}
    (h : find? a (revised store p added removed surviving m) = some k) :
    find? a m = some k ∨ (k ∈ added ∧ store.addressText k = a) ∨
      ∃ id ∈ removed, surviving id = some k ∧ store.addressText id = a := by
  rcases find?_enterAll_eq_some h with h | h
  · rcases find?_retireAll_eq_some h with h | h
    · exact .inl h
    · exact .inr (.inr h)
  · exact .inr (.inl h)

end Revised

end AddressIndex

/-! ## Survivors -/

namespace PrioritySet

variable {τ : Type} {ps : PrioritySet τ} {store : HostStore} {p : Nat} {hosts : List HostId}
  {removed : HostId}

theorem isTwin_iff {id other : HostId} :
    isTwin store id other = true ↔ (store.get other).address = (store.get id).address ∧ other ≠ id := by
  simp [isTwin]

theorem addressText_of_isTwin {id other : HostId} (h : isTwin store id other = true) :
    store.addressText other = store.addressText id :=
  congrArg Address.text (isTwin_iff.1 h).1

theorem survivor?_of_find? {k : HostId} (h : hosts.find? (isTwin store removed) = some k) :
    ps.survivor? store p hosts removed = some k := by
  simp only [survivor?, h]

theorem survivor?_eq_some (hps : ps.Regular) {k : HostId}
    (h : ps.survivor? store p hosts removed = some k) :
    isTwin store removed k = true ∧ (k ∈ hosts ∨ ∃ q, q ≠ p ∧ k ∈ ps.hostsAt q) := by
  simp only [survivor?] at h
  split at h
  · rename_i id hid
    cases h
    exact ⟨List.find?_some hid, .inl (List.mem_of_find?_eq_some hid)⟩
  · obtain ⟨l, hl, hk⟩ := List.exists_of_findSome?_eq_some h
    obtain ⟨hmem, hne⟩ := List.mem_filter.1 hl
    obtain ⟨q, hq⟩ := List.mem_iff_getElem?.1 hmem
    have hq : ps.level? q = some l := hq
    refine ⟨List.find?_some hk, .inr ⟨q, ?_, ?_⟩⟩
    · simpa [hps.priority hq] using hne
    · rw [hostsAt_of_level? hq]; exact List.mem_of_find?_eq_some hk

theorem survivor?_eq_none (hps : ps.Regular)
    (hhosts : ∀ k ∈ hosts, store.addressText k ≠ store.addressText removed)
    (hothers : ∀ q, q ≠ p → ∀ k ∈ ps.hostsAt q, store.addressText k ≠ store.addressText removed) :
    ps.survivor? store p hosts removed = none := by
  cases h : ps.survivor? store p hosts removed with
  | none => rfl
  | some k =>
    obtain ⟨htwin, hk | ⟨q, hq, hk⟩⟩ := survivor?_eq_some hps h
    · exact absurd (addressText_of_isTwin htwin) (hhosts k hk)
    · exact absurd (addressText_of_isTwin htwin) (hothers q hq k hk)

end PrioritySet

end Roster
