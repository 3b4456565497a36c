import Roster.Proofs.Telling

/-!
# Roster.Proofs.Levels

What making and installing levels does to what is installed.

* `Regular`  — every level stands at its priority, its generation has a stamp of its own, and there is
  an index.
* `hostsAt_ensureLevel` — a level that is made is empty.
* `Puts`     — all that installing changes: one level, the index, and what the watches wrote.
* `puts_put` — `put` changes just that.
-/

namespace Roster

namespace AddressIndex

/-- A map after a level reported hosts as added and removed. -/
def revised (store : HostStore) (p : Nat) (added removed : List HostId)
    (surviving : HostId → Option HostId) (m : AddressMap) : AddressMap :=
  added.foldl (enter store) (removed.foldl (retire store p surviving) m)

theorem current_update (x : AddressIndex) (store : HostStore) (p : Nat) (added removed : List HostId)
    (surviving : HostId → Option HostId) :
    (x.update store p added removed surviving).current =
      revised store p added removed surviving x.current := by
  unfold update
  split
  · rename_i h
    rw [h.1, h.2]; rfl
  · rfl

end AddressIndex

/-- A generation without hosts, as levels are made with. -/
structure Generation.Vacant {τ : Type} (g : Generation τ) : Prop where
  partition : g.partition = {}
  weights : g.weights? = none

/-- Levels stand at their priorities, generations are told apart by their stamps, and addresses are
indexed. -/
structure Installation.Regular {τ : Type} (i : Installation τ) : Prop where
  indexed : ∀ (p : Nat) (x : Nat × Generation τ), i.generations[p]? = some x → x.1 = p
  mapped : i.map?.isSome
  fresh : ∀ (p : Nat) (x : Nat × Generation τ), i.generations[p]? = some x → x.2.stamp < i.nextStamp
  distinct : ∀ (p q : Nat) (x y : Nat × Generation τ), i.generations[p]? = some x →
    i.generations[q]? = some y → x.2.stamp = y.2.stamp → p = q

namespace PrioritySet

variable {τ : Type}

structure Regular (ps : PrioritySet τ) : Prop where
  installed : ps.installation.Regular
  forwards : ps.Forwards

theorem regular_main : (main : PrioritySet τ).Regular := by
  refine ⟨⟨?_, rfl, ?_, ?_⟩, ?_, ?_⟩
  · intro p x hx
    cases hx
  · intro p x hx
    cases hx
  · intro p q x y hx
    cases hx
  · intro l hl
    cases hl
  · intro n p token hm
    cases hm

theorem Hears.regular {ps qs : PrioritySet τ} {new : List Event} (h : Hears ps new qs)
    (hps : ps.Regular) : qs.Regular :=
  ⟨h.installation ▸ hps.installed, h.forwards hps.forwards⟩

theorem generations_getElem? (ps : PrioritySet τ) (p : Nat) :
    ps.installation.generations[p]? = (ps.level? p).map fun l => (l.priority, l.generation) := by
  simp only [installation, level?, List.getElem?_map]

theorem Regular.priority {ps : PrioritySet τ} (h : ps.Regular) {p : Nat} {l : Level τ}
    (hl : ps.level? p = some l) : l.priority = p :=
  h.installed.indexed p (l.priority, l.generation) (by rw [generations_getElem?, hl]; rfl)

theorem hostsAt_of_level? {ps : PrioritySet τ} {p : Nat} {l : Level τ} (hl : ps.level? p = some l) :
    ps.hostsAt p = l.hosts := by
  simp only [hostsAt, hl]

theorem hostsAt_of_length_le {ps : PrioritySet τ} {p : Nat} (hp : ps.levels.length ≤ p) :
    ps.hostsAt p = [] := by
  simp only [hostsAt, level?, List.getElem?_eq_none hp]

theorem lt_of_generation? {ps : PrioritySet τ} {p : Nat} {g : Generation τ}
    (h : ps.generation? p = some g) : p < ps.levels.length := by
  obtain ⟨l, hl, _⟩ := Option.map_eq_some_iff.1 h
  exact (List.getElem?_eq_some_iff.1 hl).1

theorem exists_level_of_mem {ps : PrioritySet τ} {p : Nat} {id : HostId} (h : id ∈ ps.hostsAt p) :
    ∃ l, ps.level? p = some l ∧ id ∈ l.hosts := by
  cases hl : ps.level? p with
  | none => simp [hostsAt, hl] at h
  | some l => exact ⟨l, rfl, by rwa [hostsAt_of_level? hl] at h⟩

theorem mem_installed {ps : PrioritySet τ} (hps : ps.Regular) {p : Nat} {id : HostId} :
    (p, id) ∈ ps.installed ↔ id ∈ ps.hostsAt p := by
  constructor
  · intro h
    obtain ⟨l, hl, hm⟩ := List.mem_flatMap.1 h
    obtain ⟨i, hi, he⟩ := List.mem_map.1 hm
    cases he
    obtain ⟨q, hq⟩ := List.mem_iff_getElem?.1 hl
    rw [hps.priority hq, hostsAt_of_level? hq]
    exact hi
  · intro h
    obtain ⟨l, hl, hm⟩ := exists_level_of_mem h
    exact List.mem_flatMap.2 ⟨l, List.mem_of_getElem? hl,
      List.mem_map.2 ⟨id, hm, by rw [hps.priority hl]⟩⟩

/-! ## The index -/

theorem addressMap_reindex {ps : PrioritySet τ} (hps : ps.Regular) (store : HostStore) (u : Update) :
    (ps.reindex store u).addressMap =
      AddressIndex.revised store u.priority u.added u.removed
        (ps.survivor? store u.priority u.partition.hosts) ps.addressMap := by
  obtain ⟨x, hx⟩ := Option.isSome_iff_exists.1 (by simpa [installation] using hps.installed.mapped)
  rw [addressMap_eq, addressMap_eq]
  simp only [installation, reindex, hx, Option.map_some, Option.getD_some, AddressIndex.current_update]

theorem Regular.reindex {ps : PrioritySet τ} (h : ps.Regular) (store : HostStore) (u : Update) :
    (ps.reindex store u).Regular := by
  refine ⟨⟨h.installed.indexed, ?_, h.installed.fresh, h.installed.distinct⟩,
    ⟨h.forwards.level, h.forwards.handles⟩⟩
  have := h.installed.mapped
  simpa [installation, PrioritySet.reindex] using this

variable [Quantity τ]

/-! ## Making levels -/

theorem ensureLevel_of_lt {ps : PrioritySet τ} {p : Nat} (hp : p < ps.levels.length)
    (factor? : Option Nat) : ps.ensureLevel p factor? = ps := by
  simp only [ensureLevel, if_pos hp]

theorem length_ensureLevel (ps : PrioritySet τ) (p : Nat) (factor? : Option Nat) :
    (ps.ensureLevel p factor?).levels.length = max ps.levels.length (p + 1) := by
  unfold ensureLevel
  split
  · omega
  · simp only [List.length_append, List.length_map, List.length_range]
    omega

theorem level?_ensureLevel_of_lt {ps : PrioritySet τ} {q : Nat} (hq : q < ps.levels.length) (p : Nat)
    (factor? : Option Nat) : (ps.ensureLevel p factor?).level? q = ps.level? q := by
  unfold ensureLevel
  split
  · rfl
  · simp only [level?, List.getElem?_append_left hq]

theorem level?_ensureLevel_of_le {ps : PrioritySet τ} {q : Nat} (hq : ps.levels.length ≤ q) {p : Nat}
    {factor? : Option Nat} {l : Level τ} (hl : (ps.ensureLevel p factor?).level? q = some l) :
    l = newLevel (ps.nextStamp + (q - ps.levels.length)) q
      (if q = p then factor?.getD defaultFactor else defaultFactor) := by
  simp only [ensureLevel] at hl
  split at hl
  · rw [level?, List.getElem?_eq_none hq] at hl
    cases hl
  · simp only [level?, List.getElem?_append_right hq, List.getElem?_map] at hl
    obtain ⟨i, hi, rfl⟩ := Option.map_eq_some_iff.1 hl
    obtain ⟨_, rfl⟩ := List.getElem?_eq_some_iff.1 hi
    simp only [List.getElem_range, Nat.add_sub_cancel' hq]

theorem generation?_ensureLevel_of_lt {ps : PrioritySet τ} {q : Nat} (hq : q < ps.levels.length)
    (p : Nat) (factor? : Option Nat) : (ps.ensureLevel p factor?).generation? q = ps.generation? q :=
  congrArg (Option.map Level.generation) (level?_ensureLevel_of_lt hq p factor?)

theorem generation?_ensureLevel_of_le {ps : PrioritySet τ} {q : Nat} (hq : ps.levels.length ≤ q)
    {p : Nat} {factor? : Option Nat} {g : Generation τ}
    (hg : (ps.ensureLevel p factor?).generation? q = some g) :
    g.Vacant ∧ g.factor = if q = p then factor?.getD defaultFactor else defaultFactor := by
  obtain ⟨l, hl, rfl⟩ := Option.map_eq_some_iff.1 hg
  rw [level?_ensureLevel_of_le hq hl]
  exact ⟨⟨rfl, rfl⟩, rfl⟩

theorem generation?_ensureLevel_of_gt {ps : PrioritySet τ} {p q : Nat} (hq : p < q)
    (factor? : Option Nat) : (ps.ensureLevel p factor?).generation? q = ps.generation? q := by
  rcases Nat.lt_or_ge q ps.levels.length with hlt | hge
  · exact generation?_ensureLevel_of_lt hlt p factor?
  · have hlength := length_ensureLevel ps p factor?
    have hmade : (ps.ensureLevel p factor?).level? q = none :=
      List.getElem?_eq_none (by omega)
    have hnone : ps.level? q = none := List.getElem?_eq_none hge
    rw [generation?, generation?, hmade, hnone]

theorem hostsAt_ensureLevel (ps : PrioritySet τ) (p : Nat) (factor? : Option Nat) (q : Nat) :
    (ps.ensureLevel p factor?).hostsAt q = ps.hostsAt q := by
  rcases Nat.lt_or_ge q ps.levels.length with hq | hq
  · simp only [hostsAt, level?_ensureLevel_of_lt hq]
  · rw [hostsAt_of_length_le hq]
    cases hl : (ps.ensureLevel p factor?).level? q with
    | none => simp only [hostsAt, hl]
    | some l =>
      rw [hostsAt_of_level? hl, level?_ensureLevel_of_le hq hl]; rfl

theorem index?_ensureLevel (ps : PrioritySet τ) (p : Nat) (factor? : Option Nat) :
    (ps.ensureLevel p factor?).index? = ps.index? := by
  unfold ensureLevel
  split <;> rfl

theorem addressMap_ensureLevel (ps : PrioritySet τ) (p : Nat) (factor? : Option Nat) :
    (ps.ensureLevel p factor?).addressMap = ps.addressMap := by
  simp only [addressMap, readMap, publishedMap, index?_ensureLevel]

theorem journal_ensureLevel (ps : PrioritySet τ) (p : Nat) (factor? : Option Nat) :
    (ps.ensureLevel p factor?).journal = ps.journal := by
  unfold ensureLevel
  split <;> rfl

theorem nextStamp_ensureLevel (ps : PrioritySet τ) (p : Nat) (factor? : Option Nat) :
    (ps.ensureLevel p factor?).nextStamp = ps.nextStamp + (p + 1 - ps.levels.length) := by
  unfold ensureLevel
  split
  · omega
  · simp only [List.length_map, List.length_range]

theorem fewer_ensureLevel (ps : PrioritySet τ) (p : Nat) (factor? : Option Nat) :
    Fewer ps (ps.ensureLevel p factor?) := by
  have hlevels : ∀ q l, (ps.ensureLevel p factor?).level? q = some l → ∀ n w,
      (n, LevelObserver.watch w) ∈ l.observers.entries →
      ∃ k, ps.level? q = some k ∧ (n, .watch w) ∈ k.observers.entries := by
    intro q l hl n w hw
    rcases Nat.lt_or_ge q ps.levels.length with hq | hq
    · exact ⟨l, by rwa [level?_ensureLevel_of_lt hq] at hl, hw⟩
    · rw [level?_ensureLevel_of_le hq hl] at hw
      simp [newLevel, Observers.add] at hw
  unfold ensureLevel at hlevels ⊢
  split
  · exact .refl ps
  · rename_i hp
    rw [if_neg hp] at hlevels
    exact ⟨.refl _, fun _ h => h, hlevels, fun _ h => h⟩

theorem Forwards.ensureLevel {ps : PrioritySet τ} (h : ps.Forwards) (p : Nat) (factor? : Option Nat) :
    (ps.ensureLevel p factor?).Forwards := by
  refine ⟨?_, fun n q token hm => h.handles n q token ((fewer_ensureLevel ps p factor?).handles _ hm)⟩
  intro l hl
  obtain ⟨q, hq⟩ := List.mem_iff_getElem?.1 hl
  rcases Nat.lt_or_ge q ps.levels.length with hlt | hge
  · have hq : (ps.ensureLevel p factor?).level? q = some l := hq
    rw [level?_ensureLevel_of_lt hlt] at hq
    exact h.level l (List.mem_of_getElem? hq)
  · rw [level?_ensureLevel_of_le hge hq]
    simp [newLevel, Observers.add]

theorem Regular.ensureLevel {ps : PrioritySet τ} (h : ps.Regular) (p : Nat) (factor? : Option Nat) :
    (ps.ensureLevel p factor?).Regular := by
  have hnext := nextStamp_ensureLevel ps p factor?
  have hlen := length_ensureLevel ps p factor?
  -- a level stands where it stood, or it was made here
  have hwhere : ∀ q x, (ps.ensureLevel p factor?).installation.generations[q]? = some x →
      (q < ps.levels.length ∧ ps.installation.generations[q]? = some x) ∨
        (ps.levels.length ≤ q ∧ q ≤ p ∧ x.1 = q ∧
          x.2.stamp = ps.nextStamp + (q - ps.levels.length)) := by
    intro q x hx
    rw [generations_getElem?] at hx
    obtain ⟨l, hl, rfl⟩ := Option.map_eq_some_iff.1 hx
    rcases Nat.lt_or_ge q ps.levels.length with hq | hq
    · rw [level?_ensureLevel_of_lt hq] at hl
      exact .inl ⟨hq, by rw [generations_getElem?, hl]; rfl⟩
    · have hlt : q < (ps.ensureLevel p factor?).levels.length := (List.getElem?_eq_some_iff.1 hl).1
      rw [level?_ensureLevel_of_le hq hl]
      exact .inr ⟨hq, by omega, rfl, rfl⟩
  refine ⟨⟨?_, ?_, ?_, ?_⟩,
    h.forwards.ensureLevel p factor?⟩
  · intro q x hx
    rcases hwhere q x hx with ⟨_, hx⟩ | ⟨_, _, hx, _⟩
    · exact h.installed.indexed q x hx
    · exact hx
  · have := h.installed.mapped
    simpa [installation, index?_ensureLevel] using this
  · intro q x hx
    show x.2.stamp < (ps.ensureLevel p factor?).nextStamp
    rcases hwhere q x hx with ⟨_, hx⟩ | ⟨hq, hqp, _, hx⟩
    · have : x.2.stamp < ps.nextStamp := h.installed.fresh q x hx
      omega
    · omega
  · intro q r x y hx hy hxy
    rcases hwhere q x hx with ⟨_, hx⟩ | ⟨hq, _, _, hsx⟩ <;>
      rcases hwhere r y hy with ⟨_, hy⟩ | ⟨hr, _, _, hsy⟩
    · exact h.installed.distinct q r x y hx hy hxy
    · have : x.2.stamp < ps.nextStamp := h.installed.fresh q x hx
      omega
    · have : y.2.stamp < ps.nextStamp := h.installed.fresh r y hy
      omega
    · omega

/-! ## Installing -/

theorem length_install (ps : PrioritySet τ) (u : Update) :
    (ps.install u).levels.length = ps.levels.length := by
  simp only [install, List.length_modify]

theorem level?_install (ps : PrioritySet τ) (u : Update) (q : Nat) :
    (ps.install u).level? q = (ps.level? q).map fun l =>
      if q = u.priority then
        { l with
          generation := .build ps.nextStamp u.partition u.weights? (u.factor?.getD l.factor) }
      else l := by
  simp only [install, level?, List.getElem?_modify]
  by_cases hq : u.priority = q
  · simp only [hq, if_true]; rfl
  · simp only [hq, Ne.symm hq, if_false]; rfl

theorem hostsAt_install {ps : PrioritySet τ} {u : Update} (hu : u.priority < ps.levels.length)
    (q : Nat) : (ps.install u).hostsAt q = if q = u.priority then u.partition.hosts else ps.hostsAt q := by
  simp only [hostsAt, level?_install]
  by_cases hq : q = u.priority
  · have hl : ps.level? u.priority = some ps.levels[u.priority] := List.getElem?_eq_getElem hu
    simp only [hq, if_true, hl]; rfl
  · simp only [hq, if_false, Option.map_id']

theorem generation?_install_self {ps : PrioritySet τ} {u : Update} {l : Level τ}
    (hl : ps.level? u.priority = some l) :
    (ps.install u).generation? u.priority =
      some (.build ps.nextStamp u.partition u.weights? (u.factor?.getD l.factor)) := by
  simp only [generation?, level?_install, hl, Option.map_some, if_true]

theorem generation?_install_of_ne (ps : PrioritySet τ) {u : Update} {q : Nat} (hq : q ≠ u.priority) :
    (ps.install u).generation? q = ps.generation? q := by
  simp only [generation?, level?_install, hq, if_false, Option.map_id']

theorem fewer_install (ps : PrioritySet τ) (u : Update) : Fewer ps (ps.install u) := by
  refine ⟨.refl _, fun _ h => h, ?_, fun _ h => h⟩
  intro q l hl n w hw
  rw [level?_install] at hl
  obtain ⟨k, hk, rfl⟩ := Option.map_eq_some_iff.1 hl
  refine ⟨k, hk, ?_⟩
  split at hw <;> exact hw

theorem Regular.install {ps : PrioritySet τ} (h : ps.Regular) (u : Update) : (ps.install u).Regular := by
  -- the new generation has the next stamp, all others are older
  have hwhere : ∀ q x, (ps.install u).installation.generations[q]? = some x →
      ∃ y, ps.installation.generations[q]? = some y ∧ x.1 = y.1 ∧
        (q = u.priority ∧ x.2.stamp = ps.nextStamp ∨ q ≠ u.priority ∧ x.2 = y.2) := by
    intro q x hx
    rw [generations_getElem?, level?_install, Option.map_map] at hx
    obtain ⟨l, hl, rfl⟩ := Option.map_eq_some_iff.1 hx
    refine ⟨(l.priority, l.generation), by rw [generations_getElem?, hl]; rfl, ?_⟩
    by_cases hq : q = u.priority
    · simp [hq, Generation.build]
    · simp [hq]
  have hnext : (ps.install u).installation.nextStamp = ps.nextStamp + 1 := rfl
  refine ⟨⟨?_, h.installed.mapped, ?_, ?_⟩, ?_⟩
  · intro q x hx
    obtain ⟨y, hy, hxy, _⟩ := hwhere q x hx
    rw [hxy, h.installed.indexed q y hy]
  · intro q x hx
    obtain ⟨y, hy, _, ⟨_, hs⟩ | ⟨_, hs⟩⟩ := hwhere q x hx
    · omega
    · have : y.2.stamp < ps.nextStamp := h.installed.fresh q y hy
      rw [hs]; omega
  · intro q r x y hx hy hxy
    obtain ⟨x', hx', _, hsx⟩ := hwhere q x hx
    obtain ⟨y', hy', _, hsy⟩ := hwhere r y hy
    have hfx : x'.2.stamp < ps.nextStamp := h.installed.fresh q x' hx'
    have hfy : y'.2.stamp < ps.nextStamp := h.installed.fresh r y' hy'
    rcases hsx with ⟨hq, hsx⟩ | ⟨_, hsx⟩ <;> rcases hsy with ⟨hr, hsy⟩ | ⟨_, hsy⟩
    · rw [hq, hr]
    · rw [hsy] at hxy; omega
    · rw [hsx] at hxy; omega
    · exact h.installed.distinct q r x' y' hx' hy' (by rw [← hsx, ← hsy]; exact hxy)
  · refine ⟨?_, h.forwards.handles⟩
    intro l hl
    obtain ⟨q, hq⟩ := List.mem_iff_getElem?.1 hl
    have hq : (ps.install u).level? q = some l := hq
    rw [level?_install] at hq
    obtain ⟨k, hk, rfl⟩ := Option.map_eq_some_iff.1 hq
    have := h.forwards.level k (List.mem_of_getElem? hk)
    split <;> exact this

/-! ## The whole -/

/-- What installing an update leads to: its level, the index, and `new`, what the watches wrote. -/
structure Puts (ps : PrioritySet τ) (store : HostStore) (u : Update) (new : List Event)
    (qs : PrioritySet τ) : Prop where
  length : qs.levels.length = max ps.levels.length (u.priority + 1)
  here : ∃ stamp, qs.generation? u.priority = some (.build stamp u.partition u.weights?
    (u.factor?.getD (((ps.generation? u.priority).map Generation.factor).getD defaultFactor)))
  others : ∀ q, q ≠ u.priority →
    qs.generation? q = (ps.ensureLevel u.priority u.factor?).generation? q
  hostsAt : ∀ q, qs.hostsAt q = if q = u.priority then u.partition.hosts else ps.hostsAt q
  map : qs.addressMap =
    AddressIndex.revised store u.priority u.added u.removed
      (ps.survivor? store u.priority u.partition.hosts) ps.addressMap
  fewer : Fewer ps qs
  events : qs.journal.events = ps.journal.events ++ new
  reports : ∀ e ∈ new, IsReport u.priority u.added u.removed e
  told : ∀ w, qs.Watches u.priority w → WasTold u.priority u.added u.removed w new
  regular : qs.Regular

theorem puts_put {ps : PrioritySet τ} (hps : ps.Regular) (store : HostStore) (u : Update) :
    ∃ new, Puts ps store u new (ps.put store u) := by
  let indexed := ps.reindex store u
  let made := indexed.ensureLevel u.priority u.factor?
  have hmade : made.Regular := (hps.reindex store u).ensureLevel u.priority u.factor?
  have hmadeLength : made.levels.length = max ps.levels.length (u.priority + 1) :=
    length_ensureLevel (ps.reindex store u) u.priority u.factor?
  have hlt : u.priority < made.levels.length := by omega
  have hinstall : (made.install u).Regular := hmade.install u
  obtain ⟨new, hnew, hreports, htold⟩ :=
    hears_notifyLevel u.priority u.added u.removed hinstall.forwards
      (by rw [length_install]; exact hlt)
  have hput : ps.put store u = (made.install u).notifyLevel u.priority u.added u.removed := rfl
  rw [← hput] at hnew htold
  refine ⟨new, ?_, ?_, ?_, ?_, ?_, ?_, ?_, hreports, htold, hnew.regular hinstall⟩
  · rw [length_congr hnew.installation, length_install, hmadeLength]
  · obtain ⟨l, hl⟩ : ∃ l, made.level? u.priority = some l := ⟨_, List.getElem?_eq_getElem hlt⟩
    refine ⟨made.nextStamp, ?_⟩
    rw [generation?_congr hnew.installation, generation?_install_self hl]
    congr 2
    rcases Nat.lt_or_ge u.priority ps.levels.length with hu | hu
    · have hl' : ps.level? u.priority = some l :=
        (level?_ensureLevel_of_lt (show u.priority < indexed.levels.length from hu) u.priority
          u.factor?).symm.trans hl
      simp only [generation?, hl', Option.map_some, Option.getD_some]; rfl
    · have hnone : ps.level? u.priority = none := List.getElem?_eq_none hu
      have hl' := level?_ensureLevel_of_le (show indexed.levels.length ≤ u.priority from hu) hl
      simp only [generation?, hnone, hl', if_true]
      cases u.factor? <;> rfl
  · intro q hne
    rw [generation?_congr hnew.installation, generation?_install_of_ne made hne]
    simp only [made, indexed, generation?, level?, ensureLevel, reindex]
    split <;> rfl
  · intro q
    rw [hostsAt_congr hnew.installation, hostsAt_install hlt]
    split
    · rfl
    · exact hostsAt_ensureLevel (ps.reindex store u) u.priority u.factor? q
  · rw [addressMap_congr hnew.installation]
    exact (addressMap_ensureLevel (ps.reindex store u) u.priority u.factor?).trans
      (addressMap_reindex hps store u)
  · exact (show Fewer ps (ps.reindex store u) from
      ⟨.refl _, fun _ h => h, fun _ l hl _ _ h => ⟨l, hl, h⟩, fun _ h => h⟩).trans
        ((fewer_ensureLevel (ps.reindex store u) u.priority u.factor?).trans
          ((fewer_install made u).trans hnew.fewer))
  · rw [hnew.events]
    exact congrArg (fun j => j.events ++ new)
      (journal_ensureLevel (ps.reindex store u) u.priority u.factor?)

end PrioritySet

end Roster
