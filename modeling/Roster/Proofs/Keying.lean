import Roster.Proofs.Mapping
import Roster.Proofs.Matching
import Roster.Proofs.Parsing
import Roster.Proofs.Refusing

/-!
# Roster.Proofs.Keying

The text of an address as a key. Hosts are matched by the text of their address when a level is
reconciled and in the index, and by the address itself when an assignment is validated and when a
survivor is looked for. Among addresses that were read the two are the same relation.

* `Address.Read`       — an address that was read from some text.
* `Reconcile.ByValue`  — reconciling a level with addresses in place of their texts.
* `reconcile_eq_byValue` — the outcome is the same.
* `AddressIndex.revise` — the index as a function of the address, after a level reported its changes.
* `at?_update`         — the index kept by texts is that function.
-/

namespace Roster

namespace Address

/-- An address that some text was read as. -/
def Read (a : Address) : Prop := ∃ text, parse text = .ok a

theorem Read.proper {a : Address} (h : a.Read) : a.host.Proper :=
  h.elim fun _ hparse => proper_of_parse hparse

theorem text_eq_iff {a b : Address} (ha : a.Read) (hb : b.Read) : a.text = b.text ↔ a = b :=
  ⟨text_inj ha.proper hb.proper, congrArg text⟩

theorem read_unspecified : unspecified.Read := ⟨"0.0.0.0:0", by decide +kernel⟩

section Keys

variable {a : Address} {s : List Address}

theorem text_mem_map_iff (ha : a.Read) (hs : ∀ b ∈ s, b.Read) : a.text ∈ s.map text ↔ a ∈ s := by
  refine ⟨fun h => ?_, List.mem_map_of_mem⟩
  obtain ⟨b, hb, heq⟩ := List.mem_map.1 h
  exact (text_eq_iff (hs b hb) ha).1 heq ▸ hb

theorem insertNew_text (ha : a.Read) (hs : ∀ b ∈ s, b.Read) :
    Reconcile.insertNew a.text (s.map text) = (s.insert a).map text := by
  by_cases h : a ∈ s
  · rw [Reconcile.insertNew, if_pos (List.mem_map_of_mem h), List.insert_of_mem h]
  · rw [Reconcile.insertNew, if_neg (mt (text_mem_map_iff ha hs).1 h), List.insert_of_not_mem h,
      List.map_cons]

theorem erase_text (ha : a.Read) (hs : ∀ b ∈ s, b.Read) :
    (s.map text).erase a.text = (s.erase a).map text := by
  induction s with
  | nil => rfl
  | cons b s ih =>
    rw [List.forall_mem_cons] at hs
    by_cases h : b = a
    · rw [h, List.map_cons, List.erase_cons_head, List.erase_cons_head]
    · have htext : b.text ≠ a.text := mt (text_eq_iff hs.1 ha).1 h
      rw [List.map_cons, List.erase_cons_tail (by simpa using htext),
        List.erase_cons_tail (by simpa using h), List.map_cons, ih hs.2]

theorem nodup_texts_iff (hs : ∀ b ∈ s, b.Read) : (s.map text).Nodup ↔ s.Nodup :=
  ⟨List.Nodup.of_map text, fun h =>
    h.map_on fun b hb c hc heq => (text_eq_iff (hs b hb) (hs c hc)).1 heq⟩

end Keys

end Address

/-! ## Stores -/

namespace HostStore

def Read (s : HostStore) : Prop := ∀ i, (s.get i).address.Read

variable {s : HostStore}

theorem Read.addressText_eq_iff (h : s.Read) (i : HostId) {a : Address} (ha : a.Read) :
    s.addressText i = a.text ↔ a = (s.get i).address :=
  (Address.text_eq_iff (h i) ha).trans eq_comm

theorem Read.keeps {t : HostStore} (h : s.Read) (hk : Keeps s t) (hsize : t.size = s.size) :
    t.Read := fun i => by
  rcases Nat.lt_or_ge i s.size with hi | hi
  · rw [(hk.alike i hi).address]
    exact h i
  · rw [t.get_of_size_le (hsize ▸ hi)]
    exact Address.read_unspecified

theorem Read.modify (h : s.Read) (id : HostId) {f : Host → Host} (hf : ∀ k, Host.Alike k (f k)) :
    (s.modify id f).Read :=
  h.keeps (keeps_modify s id hf) (size_modify s id f)

theorem read_of_forall (h : ∀ k ∈ s.hosts, k.address.Read) : s.Read := fun i => by
  rcases Nat.lt_or_ge i s.size with hi | hi
  · have hget : s.hosts[i]? = some (s.get i) := by simp [get, Array.getElem?_eq_getElem hi]
    exact h _ (Array.mem_of_getElem? hget)
  · rw [s.get_of_size_le hi]
    exact Address.read_unspecified

end HostStore

/-! ## Reconciling -/

namespace Reconcile

namespace ByValue

/-- What was gathered from the delivered hosts so far, by address. -/
structure Matching where
  store : HostStore
  kept : List Address := []
  fresh : List Address := []
  moved : List Address := []
  checkSwitched : List Address := []
  final : List HostId := []
  added : List HostId := []
  changed : Bool := false
  maxWeight : Nat := 1

def admitNew (rules : Rules) (m : Matching) (id : HostId) : Matching :=
  let h := m.store.get id
  { m with
    store := m.store.modify id (·.setFlags (entryFlags rules h))
    fresh := m.fresh.insert h.address
    final := m.final ++ [id]
    added := m.added ++ [id]
    maxWeight := max m.maxWeight h.weight }

def updateInPlace (m : Matching) (existingId id : HostId) : Matching :=
  let existing := m.store.get existingId
  let delivered := m.store.get id
  { m with
    store := m.store.modify existingId (·.adopt delivered)
    kept := m.kept.insert delivered.address
    final := m.final ++ [existingId]
    added := if existing.priority ≠ delivered.priority then m.added ++ [existingId] else m.added
    changed := m.changed || existing.shifts delivered
    maxWeight := max m.maxWeight delivered.weight }

def meet (rules : Rules) (m : Matching) (existingId id : HostId) : Matching :=
  let store := m.store.modify existingId (·.clearFlag .pendingRemoval)
  let existing := store.get existingId
  let delivered := store.get id
  let address := (m.store.get id).address
  { m with
    store
    moved := if movedLocality existing delivered then m.moved.insert address else m.moved
    checkSwitched :=
      if switchedCheck rules existing delivered then m.checkSwitched.insert address
      else m.checkSwitched }

def matchHost (rules : Rules) (at? : Address → Option HostId) (m : Matching) (id : HostId) :
    Matching :=
  match at? (m.store.get id).address with
  | none => admitNew rules m id
  | some existingId =>
    let m := meet rules m existingId id
    if fits rules (m.store.get existingId) (m.store.get id) then updateInPlace m existingId id
    else admitNew rules m id

def unmatched (store : HostStore) : List HostId → List Address → List HostId × List Address
  | [], kept => ([], kept)
  | id :: rest, kept =>
    let address := (store.get id).address
    if address ∈ kept then unmatched store rest (kept.erase address)
    else
      let r := unmatched store rest kept
      (id :: r.1, r.2)

def leaves (m : Matching) (allNew : List Address) (id : HostId) : Bool :=
  let h := m.store.get id
  h.address ∈ m.moved || h.address ∈ m.checkSwitched ||
    (h.address ∈ allNew && h.address ∉ m.fresh) ||
    (h.hasFlag .failedActiveCheck || h.hasFlag .failedDiscovery) || h.disableActiveCheck

def drain (rules : Rules) (m : Matching) (allNew : List Address) (left : List HostId) :
    List HostId × List HostId :=
  if rules.hasChecker && !rules.ignoreHealth then
    (left.filter fun id => !leaves m allNew id, left.filter (leaves m allNew))
  else ([], left)

/-- `Reconcile.reconcile` where hosts are matched by their addresses. -/
def reconcile (rules : Rules) (store : HostStore) (delivered current : List HostId)
    (at? : Address → Option HostId) (allNew : List Address) : Result :=
  let m := delivered.foldl (matchHost rules at?) { store }
  let (left, arrived) := unmatched m.store current m.kept
  let (draining, leaving) := drain rules m allNew left
  let reports := !m.added.isEmpty || !leaving.isEmpty
  { store := m.store.modifyAll draining (·.setFlag .pendingRemoval)
    hosts := m.final ++ draining
    added := m.added
    removed := leaving
    changed := m.changed || !arrived.isEmpty || reports
    maxWeight := (draining.map fun id => (m.store.get id).weight).foldl max m.maxWeight }

/-- Every address gathered was read. -/
structure Matching.Read (m : Matching) : Prop where
  store : m.store.Read
  kept : ∀ a ∈ m.kept, a.Read
  fresh : ∀ a ∈ m.fresh, a.Read
  moved : ∀ a ∈ m.moved, a.Read
  checkSwitched : ∀ a ∈ m.checkSwitched, a.Read

/-- The same with the texts of the addresses. -/
def Matching.spelled (m : Matching) : Reconcile.Matching :=
  { m with
    kept := m.kept.map Address.text
    fresh := m.fresh.map Address.text
    moved := m.moved.map Address.text
    checkSwitched := m.checkSwitched.map Address.text }

theorem forall_mem_insert {P : Address → Prop} {a : Address} {s : List Address} (ha : P a)
    (hs : ∀ b ∈ s, P b) : ∀ b ∈ s.insert a, P b := by
  intro b hb
  rcases List.mem_insert_iff.1 hb with rfl | hb
  · exact ha
  · exact hs b hb

section Steps

variable {rules : Rules} {m : Matching} {at? : Address → Option HostId} {all : AddressMap}

theorem read_admitNew (hm : m.Read) (id : HostId) : (admitNew rules m id).Read :=
  { hm with
    store := hm.store.modify id fun h => Host.alike_setFlags h _
    fresh := forall_mem_insert (hm.store id) hm.fresh }

theorem spelled_admitNew (hm : m.Read) (id : HostId) :
    Reconcile.admitNew rules m.spelled id = (admitNew rules m id).spelled := by
  have hfresh : insertNew (m.store.get id).address.text (m.fresh.map Address.text) =
      (m.fresh.insert (m.store.get id).address).map Address.text :=
    Address.insertNew_text (hm.store id) hm.fresh
  simp only [Reconcile.admitNew, admitNew, Matching.spelled, hfresh]
  rfl

theorem read_updateInPlace (hm : m.Read) (existingId id : HostId) :
    (updateInPlace m existingId id).Read :=
  { hm with
    store := hm.store.modify existingId fun h => Host.alike_adopt h _
    kept := forall_mem_insert (hm.store id) hm.kept }

theorem spelled_updateInPlace (hm : m.Read) (existingId id : HostId) :
    Reconcile.updateInPlace m.spelled existingId id = (updateInPlace m existingId id).spelled := by
  have hkept : insertNew (m.store.get id).address.text (m.kept.map Address.text) =
      (m.kept.insert (m.store.get id).address).map Address.text :=
    Address.insertNew_text (hm.store id) hm.kept
  simp only [Reconcile.updateInPlace, updateInPlace, Matching.spelled, hkept]
  rfl

theorem read_meet (hm : m.Read) (existingId id : HostId) : (meet rules m existingId id).Read where
  store := hm.store.modify existingId fun h => Host.alike_clearFlag h _
  kept := hm.kept
  fresh := hm.fresh
  moved := by
    simp only [meet]
    split
    · exact forall_mem_insert (hm.store id) hm.moved
    · exact hm.moved
  checkSwitched := by
    simp only [meet]
    split
    · exact forall_mem_insert (hm.store id) hm.checkSwitched
    · exact hm.checkSwitched

theorem spelled_meet (hm : m.Read) (existingId id : HostId) :
    Reconcile.meet rules m.spelled existingId id = (meet rules m existingId id).spelled := by
  have hinsert : ∀ s : List Address, (∀ a ∈ s, a.Read) →
      insertNew (m.store.addressText id) (s.map Address.text) =
        (s.insert (m.store.get id).address).map Address.text :=
    fun _ hs => Address.insertNew_text (hm.store id) hs
  simp only [Reconcile.meet, meet, Matching.spelled, hinsert _ hm.moved, hinsert _ hm.checkSwitched,
    apply_ite (List.map Address.text)]

theorem read_matchHost (hm : m.Read) (id : HostId) : (matchHost rules at? m id).Read := by
  simp only [matchHost]
  split
  · exact read_admitNew hm id
  · split
    · exact read_updateInPlace (read_meet hm _ _) _ _
    · exact read_admitNew (read_meet hm _ _) _

theorem spelled_matchHost (hat : ∀ a : Address, a.Read → Assoc.find? a.text all = at? a) (hm : m.Read)
    (id : HostId) : Reconcile.matchHost rules all m.spelled id = (matchHost rules at? m id).spelled := by
  have hfind : Assoc.find? (m.spelled.store.addressText id) all = at? (m.store.get id).address :=
    hat _ (hm.store id)
  cases hid : at? (m.store.get id).address with
  | none =>
    rw [matchHost_of_none (hfind.trans hid), spelled_admitNew hm, matchHost, hid]
  | some existingId =>
    have hmeet : (meet rules m existingId id).Read := read_meet hm existingId id
    rw [matchHost_of_some (hfind.trans hid), spelled_meet hm, spelled_updateInPlace hmeet,
      spelled_admitNew hmeet, ← apply_ite Matching.spelled, matchHost, hid]
    rfl

theorem read_matchAll (hm : m.Read) (delivered : List HostId) :
    (delivered.foldl (matchHost rules at?) m).Read := by
  induction delivered generalizing m with
  | nil => exact hm
  | cons id delivered ih => exact ih (read_matchHost hm id)

theorem spelled_matchAll (hat : ∀ a : Address, a.Read → Assoc.find? a.text all = at? a) (hm : m.Read)
    (delivered : List HostId) :
    delivered.foldl (Reconcile.matchHost rules all) m.spelled =
      (delivered.foldl (matchHost rules at?) m).spelled := by
  induction delivered generalizing m with
  | nil => rfl
  | cons id delivered ih =>
    rw [List.foldl_cons, List.foldl_cons, spelled_matchHost hat hm, ih (read_matchHost hm id)]

theorem unmatched_text {store : HostStore} (hstore : store.Read) (current : List HostId)
    {kept : List Address} (hkept : ∀ a ∈ kept, a.Read) :
    Reconcile.unmatched store current (kept.map Address.text) =
      ((unmatched store current kept).1, (unmatched store current kept).2.map Address.text) := by
  induction current generalizing kept with
  | nil => rfl
  | cons id current ih =>
    have hmem : store.addressText id ∈ kept.map Address.text ↔ (store.get id).address ∈ kept :=
      Address.text_mem_map_iff (hstore id) hkept
    have herase : (kept.map Address.text).erase (store.addressText id) =
        (kept.erase (store.get id).address).map Address.text :=
      Address.erase_text (hstore id) hkept
    simp only [Reconcile.unmatched, unmatched, hmem]
    split
    · rw [herase, ih fun a ha => hkept a (List.mem_of_mem_erase ha)]
    · rw [ih hkept]

theorem leaves_spelled (hm : m.Read) {allNew : List Address} (hnew : ∀ a ∈ allNew, a.Read) :
    Reconcile.leaves m.spelled (allNew.map Address.text) = leaves m allNew := by
  funext id
  have hmem : ∀ s : List Address, (∀ a ∈ s, a.Read) →
      ((m.store.get id).address.text ∈ s.map Address.text ↔ (m.store.get id).address ∈ s) :=
    fun _ hs => Address.text_mem_map_iff (hm.store id) hs
  simp only [Reconcile.leaves, leaves, Matching.spelled, hmem _ hm.moved, hmem _ hm.checkSwitched,
    hmem _ hm.fresh, hmem _ hnew]

theorem drain_spelled (hm : m.Read) {allNew : List Address} (hnew : ∀ a ∈ allNew, a.Read)
    (left : List HostId) :
    Reconcile.drain rules m.spelled (allNew.map Address.text) left = drain rules m allNew left := by
  rw [Reconcile.drain, leaves_spelled hm hnew]
  rfl

end Steps

end ByValue

theorem reconcile_eq_byValue {store : HostStore} (hstore : store.Read) {at? : Address → Option HostId}
    {all : AddressMap} (hat : ∀ a : Address, a.Read → Assoc.find? a.text all = at? a)
    {allNew : List Address} (hnew : ∀ a ∈ allNew, a.Read) (rules : Rules)
    (delivered current : List HostId) :
    reconcile rules store delivered current all (allNew.map Address.text) =
      ByValue.reconcile rules store delivered current at? allNew := by
  have hstart : ByValue.Matching.Read { store } := ⟨hstore, by simp, by simp, by simp, by simp⟩
  have hread : (delivered.foldl (ByValue.matchHost rules at?) { store }).Read :=
    ByValue.read_matchAll hstart delivered
  have hmatch : matchAll rules all store delivered =
      (delivered.foldl (ByValue.matchHost rules at?) { store }).spelled :=
    ByValue.spelled_matchAll hat hstart delivered
  have hunmatched := ByValue.unmatched_text hread.store current hread.kept
  have hdrain : ∀ left, drain rules (delivered.foldl (ByValue.matchHost rules at?) { store }).spelled
      (allNew.map Address.text) left =
        ByValue.drain rules (delivered.foldl (ByValue.matchHost rules at?) { store }) allNew left :=
    ByValue.drain_spelled hread hnew
  have hempty : ∀ s : List Address, (s.map Address.text).isEmpty = s.isEmpty := fun s => by
    cases s <;> rfl
  simp only [reconcile, ByValue.reconcile, hmatch]
  rw [show ∀ m : ByValue.Matching, m.spelled.kept = m.kept.map Address.text from fun _ => rfl]
  simp only [show ∀ m : ByValue.Matching, m.spelled.store = m.store from fun _ => rfl, hunmatched,
    hdrain, hempty]
  rfl

end Reconcile

/-! ## The index -/

namespace AddressIndex

def at? (m : AddressMap) (a : Address) : Option HostId := Assoc.find? a.text m

def seat (store : HostStore) (held : Address → Option HostId) (id : HostId) :
    Address → Option HostId :=
  Function.update held (store.get id).address (some id)

/-- A host that is held at its address, by its own level, gives way to its survivor. -/
def unseat (store : HostStore) (p : Nat) (surviving : HostId → Option HostId)
    (held : Address → Option HostId) (id : HostId) : Address → Option HostId :=
  if held (store.get id).address = some id ∧ (store.get id).priority = p then
    Function.update held (store.get id).address (surviving id)
  else held

/-- The hosts held at the addresses, after a level reported what it added and removed. -/
def revise (store : HostStore) (p : Nat) (added removed : List HostId)
    (surviving : HostId → Option HostId) (held : Address → Option HostId) :
    Address → Option HostId :=
  added.foldl (seat store) (removed.foldl (unseat store p surviving) held)

/-- At every address that was read, the map holds what `held` says. -/
def Holds (m : AddressMap) (held : Address → Option HostId) : Prop :=
  ∀ a : Address, a.Read → at? m a = held a

section Holds

variable {store : HostStore} {m : AddressMap} {held : Address → Option HostId}

theorem Holds.enter (hstore : store.Read) (h : Holds m held) (id : HostId) :
    Holds (enter store m id) (seat store held id) := by
  intro a ha
  rw [at?, find?_enter, seat, Function.update_apply]
  simp only [hstore.addressText_eq_iff id ha]
  exact if_congr .rfl rfl (h a ha)

theorem Holds.retire (hstore : store.Read) (h : Holds m held) (p : Nat)
    (surviving : HostId → Option HostId) (id : HostId) :
    Holds (retire store p surviving m id) (unseat store p surviving held id) := by
  intro a ha
  have hfind : Assoc.find? a.text m = held a := h a ha
  rw [at?, find?_retire, unseat, hfind]
  simp only [hstore.addressText_eq_iff id ha]
  by_cases heq : a = (store.get id).address
  · subst heq
    simp only [and_true]
    split
    · rw [Function.update_self]
    · rfl
  · simp only [heq, and_false, if_false]
    split
    · rw [Function.update_apply, if_neg heq]
    · rfl

theorem Holds.retireAll (hstore : store.Read) (h : Holds m held) (p : Nat)
    (surviving : HostId → Option HostId) (removed : List HostId) :
    Holds (removed.foldl (AddressIndex.retire store p surviving) m)
      (removed.foldl (unseat store p surviving) held) := by
  induction removed generalizing m held with
  | nil => exact h
  | cons id removed ih => exact ih (h.retire hstore p surviving id)

theorem Holds.enterAll (hstore : store.Read) (h : Holds m held) (added : List HostId) :
    Holds (added.foldl (AddressIndex.enter store) m) (added.foldl (seat store) held) := by
  induction added generalizing m held with
  | nil => exact h
  | cons id added ih => exact ih (h.enter hstore id)

theorem holds_update (hstore : store.Read) (x : AddressIndex) (p : Nat) (added removed : List HostId)
    (surviving : HostId → Option HostId) :
    Holds (x.update store p added removed surviving).current
      (revise store p added removed surviving (at? x.current)) := by
  have hx : Holds x.current (at? x.current) := fun _ _ => rfl
  rw [update]
  split
  case isTrue hnone =>
    rw [hnone.1, hnone.2]
    exact hx
  case isFalse => exact (hx.retireAll hstore p surviving removed).enterAll hstore added

end Holds

end AddressIndex

/-! ## Validation -/

theorem ClusterConfig.validateEndpoints_eq_ok_iff (locality : Locality) (seen : List Address)
    (es : List Endpoint) :
    validateEndpoints locality seen es = .ok () ↔
      (∀ e ∈ es, e.weight? ≠ some 0) ∧ (∀ e ∈ es, e.address ∉ seen) ∧ (es.map (·.address)).Nodup := by
  induction es generalizing seen with
  | nil => simp [validateEndpoints]
  | cons e es ih =>
    simp only [validateEndpoints, List.forall_mem_cons, List.map_cons, List.nodup_cons]
    by_cases hweight : e.weight? = some 0
    · simp [hweight]
    · by_cases hseen : e.address ∈ seen
      · simp [hweight, hseen]
      · rw [if_neg hweight, if_neg hseen, ih]
        have hapart : (∀ e' ∈ es, e'.address ∉ e.address :: seen) ↔
            (∀ e' ∈ es, e'.address ∉ seen) ∧ e.address ∉ es.map (·.address) := by
          simp only [List.mem_cons, not_or, List.mem_map, not_exists, not_and]
          exact ⟨fun h => ⟨fun e' he' => (h e' he').2, fun e' he' => (h e' he').1⟩,
            fun h e' he' => ⟨h.2 e' he', h.1 e' he'⟩⟩
        rw [hapart]
        tauto

/-! ## Both keys -/

/-- The text of an address that was read is read as that address, so two of them have one text just if
they are equal, and nothing depends on which of the two hosts are matched by: a group is refused for an
address just if it is refused for its text, another host at the address is another host at the text, a
level is reconciled as if the index and all lists held addresses, and the index changes as if addresses
were its keys. -/
theorem Address.text_faithful :
    (∀ text a, parse text = .ok a → parse a.text = .ok a) ∧
    (∀ a b : Address, a.Read → b.Read → (a.text = b.text ↔ a = b)) ∧
    (∀ locality (es : List Endpoint), (∀ e ∈ es, e.address.Read) →
      (ClusterConfig.validateEndpoints locality [] es = .ok () ↔
        (∀ e ∈ es, e.weight? ≠ some 0) ∧ (es.map (·.address.text)).Nodup)) ∧
    ∀ store : HostStore, store.Read →
      (∀ id other, PrioritySet.isTwin store id other = true ↔
        store.addressText other = store.addressText id ∧ other ≠ id) ∧
      (∀ rules delivered current all (allNew : List Address), (∀ a ∈ allNew, a.Read) →
        Reconcile.reconcile rules store delivered current all (allNew.map text) =
          Reconcile.ByValue.reconcile rules store delivered current (AddressIndex.at? all) allNew) ∧
      ∀ (x : AddressIndex) p added removed surviving (a : Address), a.Read →
        AddressIndex.at? (x.update store p added removed surviving).current a =
          AddressIndex.revise store p added removed surviving (AddressIndex.at? x.current) a := by
  refine ⟨fun _ _ => parse_text, fun _ _ => text_eq_iff, fun locality es hes => ?_,
    fun store hstore => ⟨fun id other => ?_, fun rules delivered current all allNew hnew => ?_,
      fun x p added removed surviving a ha => ?_⟩⟩
  · have htexts : (es.map (·.address.text)).Nodup ↔ (es.map (·.address)).Nodup := by
      rw [← nodup_texts_iff (List.forall_mem_map.2 hes), List.map_map]
      rfl
    rw [ClusterConfig.validateEndpoints_eq_ok_iff, htexts]
    simp
  · rw [PrioritySet.isTwin_iff, ← text_eq_iff (hstore other) (hstore id)]
    rfl
  · exact Reconcile.reconcile_eq_byValue hstore (fun _ _ => rfl) hnew rules delivered current
  · exact AddressIndex.holds_update hstore x p added removed surviving a ha

namespace Address

def mapped : Address := ⟨.ipv6 ⟨[0, 0, 0, 0, 0, 0xffff, 0x0a00, 2], rfl⟩, 443⟩

def named : Address := ⟨.name "WebHost", 80⟩

def doubled : HostStore :=
  ⟨#[HostSpec.make { address := mapped }, HostSpec.make { address := mapped },
    HostSpec.make { address := named }]⟩

/-- The first two hosts are one another's twins, and the second updates the first in place. -/
theorem text_faithful_doubled :
    doubled.Read ∧ parse mapped.text = .ok mapped ∧ named.text ≠ mapped.text ∧
      ClusterConfig.validateEndpoints {} [] [{ address := mapped }, { address := mapped }] ≠ .ok () ∧
      PrioritySet.isTwin doubled 0 1 = true ∧
      Reconcile.reconcile ⟨false, false, false⟩ doubled [1] [0, 2] [(mapped.text, 0)] [mapped.text] =
        Reconcile.ByValue.reconcile ⟨false, false, false⟩ doubled [1] [0, 2]
          (AddressIndex.at? [(mapped.text, 0)]) [mapped] ∧
      AddressIndex.at? (({} : AddressIndex).update doubled 0 [2] [] fun _ => none).current named =
        some 2 := by
  obtain ⟨hparse, hiff, hvalid, hstores⟩ := text_faithful
  have hread : parse "u@[::FFFF:A00:2]:443" = .ok mapped := by decide +kernel
  have hmapped : mapped.Read := ⟨_, hread⟩
  have hnamed : named.Read := ⟨"tcp://Web\tHost:080?q", by decide +kernel⟩
  have hdoubled : doubled.Read := HostStore.read_of_forall (by
    simp only [doubled, List.mem_toArray, List.forall_mem_cons]
    exact ⟨hmapped, hmapped, hnamed, by simp⟩)
  obtain ⟨htwin, hreconcile, hindex⟩ := hstores doubled hdoubled
  refine ⟨hdoubled, hparse _ _ hread, ?_, ?_, (htwin 0 1).2 ⟨rfl, by decide⟩,
    hreconcile _ _ _ _ [mapped] (by simpa using hmapped), ?_⟩
  · exact mt (hiff named mapped hnamed hmapped).1 (by decide)
  · refine mt (hvalid {} _ (by simpa using hmapped)).1 ?_
    simp
  · rw [hindex _ _ _ _ _ named hnamed]
    simp [AddressIndex.revise, AddressIndex.seat, doubled, HostStore.get, HostSpec.make, Host.reportStatus]

end Address

end Roster
