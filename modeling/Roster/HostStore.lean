import Roster.Host

/-!
# Roster.HostStore

Hosts with identity. Two hosts of the same description are two hosts; levels, indexes and observers
name a host by its `HostId`.

* `add`    — a new host under a new name.
* `get`    — the host of a name.
* `modify` — changes one host.
-/

namespace Roster

abbrev HostId := Nat

structure HostStore where
  hosts : Array Host := #[]
deriving Inhabited

namespace HostStore

def size (s : HostStore) : Nat := s.hosts.size

def get (s : HostStore) (id : HostId) : Host :=
  (s.hosts[id]?).getD default

def add (s : HostStore) (h : Host) : HostId × HostStore :=
  (s.hosts.size, ⟨s.hosts.push h⟩)

def modify (s : HostStore) (id : HostId) (f : Host → Host) : HostStore :=
  ⟨s.hosts.modify id f⟩

def modifyAll (s : HostStore) (ids : List HostId) (f : Host → Host) : HostStore :=
  ids.foldl (fun s id => s.modify id f) s

def addressText (s : HostStore) (id : HostId) : String :=
  (s.get id).address.text

/-! ## Reading after a change -/

theorem get_add_of_lt (s : HostStore) (h : Host) {id : HostId} (hid : id < s.size) :
    (s.add h).2.get id = s.get id := by
  have hid : id < s.hosts.size := hid
  simp [get, add, Array.getElem?_push, Nat.ne_of_lt hid]

theorem get_of_size_le (s : HostStore) {id : HostId} (hid : s.size ≤ id) : s.get id = default := by
  have hid : s.hosts.size ≤ id := hid
  simp [get, Array.getElem?_eq_none hid]

theorem get_modify_self (s : HostStore) (f : Host → Host) {id : HostId} (hid : id < s.size) :
    (s.modify id f).get id = f (s.get id) := by
  have hid : id < s.hosts.size := hid
  simp only [get, modify, Array.getElem?_modify, if_true, Array.getElem?_eq_getElem hid,
    Option.map_some, Option.getD_some]

theorem get_modify_of_ne (s : HostStore) (f : Host → Host) {id j : HostId} (h : j ≠ id) :
    (s.modify id f).get j = s.get j := by
  simp [get, modify, Array.getElem?_modify, Ne.symm h]

theorem get_modify (s : HostStore) (f : Host → Host) {id : HostId} (hid : id < s.size)
    (j : HostId) : (s.modify id f).get j = if j = id then f (s.get j) else s.get j := by
  by_cases h : j = id
  · rw [if_pos h, h, get_modify_self s f hid]
  · rw [if_neg h, get_modify_of_ne s f h]

theorem modify_congr (s : HostStore) {id : HostId} {f g : Host → Host}
    (h : f (s.get id) = g (s.get id)) : s.modify id f = s.modify id g := by
  refine congrArg HostStore.mk (Array.ext_getElem? fun j => ?_)
  rw [Array.getElem?_modify, Array.getElem?_modify]
  by_cases hj : id = j
  · rw [if_pos hj, if_pos hj, ← hj]
    cases hid : s.hosts[id]? with
    | none => rfl
    | some k =>
      have hget : s.get id = k := by rw [get, hid, Option.getD_some]
      rw [hget] at h
      exact congrArg some h
  · rw [if_neg hj, if_neg hj]

theorem modify_of_size_le (s : HostStore) (f : Host → Host) {id : HostId} (hid : s.size ≤ id) :
    s.modify id f = s := by
  have hid : s.hosts.size ≤ id := hid
  simp [modify, Array.modify, Array.modifyM, Nat.not_lt.2 hid]

theorem size_modify (s : HostStore) (id : HostId) (f : Host → Host) :
    (s.modify id f).size = s.size := by
  simp [size, modify]

theorem size_add (s : HostStore) (h : Host) : (s.add h).2.size = s.size + 1 := by
  simp [size, add]

theorem size_modifyAll (s : HostStore) (ids : List HostId) (f : Host → Host) :
    (s.modifyAll ids f).size = s.size := by
  induction ids generalizing s with
  | nil => rfl
  | cons id ids ih => exact (ih (s.modify id f)).trans (size_modify s id f)

theorem modifyAll_id (s : HostStore) (ids : List HostId) : s.modifyAll ids (fun h => h) = s := by
  induction ids generalizing s with
  | nil => rfl
  | cons id ids ih =>
    have hid : s.modify id (fun h => h) = s := by
      refine congrArg HostStore.mk (Array.ext_getElem? fun j => ?_)
      rw [Array.getElem?_modify, Option.map_id', ite_self]
    exact (congrArg (fun t => t.modifyAll ids fun h => h) hid).trans (ih s)

theorem get_modifyAll_of_not_mem (s : HostStore) {ids : List HostId} (f : Host → Host) {j : HostId}
    (h : j ∉ ids) : (s.modifyAll ids f).get j = s.get j := by
  induction ids generalizing s with
  | nil => rfl
  | cons id ids ih =>
    simp only [List.mem_cons, not_or] at h
    obtain ⟨hne, hids⟩ := h
    exact (ih (s.modify id f) hids).trans (get_modify_of_ne s f hne)

/-- A change that is the same made twice does not depend on how often a host is named. -/
theorem get_modifyAll_of_mem (s : HostStore) {ids : List HostId} {f : Host → Host}
    (hf : ∀ h, f (f h) = f h) {j : HostId} (hj : j < s.size) (h : j ∈ ids) :
    (s.modifyAll ids f).get j = f (s.get j) := by
  induction ids generalizing s with
  | nil => cases h
  | cons id ids ih =>
    have hj' : j < (s.modify id f).size := by rw [size_modify]; exact hj
    by_cases hm : j ∈ ids
    · refine (ih (s.modify id f) hj' hm).trans ?_
      by_cases he : j = id
      · rw [he, get_modify_self s f (he ▸ hj), hf]
      · rw [get_modify_of_ne s f he]
    · have he : j = id := (List.mem_cons.1 h).resolve_right hm
      refine (get_modifyAll_of_not_mem (s.modify id f) f hm).trans ?_
      rw [he, get_modify_self s f (he ▸ hj)]

/-! ## Descriptions stay -/

/-- Every host of `s` has its description in `t`. -/
structure Keeps (s t : HostStore) : Prop where
  size_le : s.size ≤ t.size
  alike : ∀ id < s.size, Host.Alike (s.get id) (t.get id)

namespace Keeps

theorem refl (s : HostStore) : Keeps s s := ⟨Nat.le_refl _, fun _ _ => .refl _⟩

theorem trans {s t u : HostStore} (h₁ : Keeps s t) (h₂ : Keeps t u) : Keeps s u :=
  ⟨Nat.le_trans h₁.size_le h₂.size_le, fun id hid =>
    (h₁.alike id hid).trans (h₂.alike id (Nat.lt_of_lt_of_le hid h₁.size_le))⟩

theorem addressText {s t : HostStore} (h : Keeps s t) {id : HostId} (hid : id < s.size) :
    t.addressText id = s.addressText id := by
  simp only [HostStore.addressText, (h.alike id hid).address]

end Keeps

theorem keeps_add (s : HostStore) (h : Host) : Keeps s (s.add h).2 :=
  ⟨by rw [size_add]; exact Nat.le_succ _, fun id hid => by rw [get_add_of_lt s h hid]; exact .refl _⟩

theorem keeps_modify (s : HostStore) (id : HostId) {f : Host → Host} (hf : ∀ h, Host.Alike h (f h)) :
    Keeps s (s.modify id f) := by
  refine ⟨Nat.le_of_eq (size_modify s id f).symm, fun j hj => ?_⟩
  by_cases he : j = id
  · rw [he, get_modify_self s f (he ▸ hj)]; exact hf _
  · rw [get_modify_of_ne s f he]; exact .refl _

theorem keeps_modifyAll (s : HostStore) (ids : List HostId) {f : Host → Host}
    (hf : ∀ h, Host.Alike h (f h)) : Keeps s (s.modifyAll ids f) := by
  induction ids generalizing s with
  | nil => exact .refl s
  | cons id ids ih => exact (keeps_modify s id hf).trans (ih (s.modify id f))

end HostStore

end Roster
