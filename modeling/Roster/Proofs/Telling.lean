import Roster.PrioritySet

/-!
# Roster.Proofs.Telling

Telling observers of a change. An observer writes what it saw and drops handles; whatever it does, the
installed hosts and the index stay as they are, no registration is gained, and the journal only grows.

* `installation` — what is installed, past the observers and their journal.
* `Watches`      — a watch that is told of a level.
* `Hears`        — a change of a set that only tells observers, with the events they wrote.
* `hears_notifyLevel` — a level's change reaches every watch that stays registered, and no event tells
  of anything else.
-/

namespace Roster

/-- What is installed in a set of levels. -/
structure Installation (τ : Type) where
  generations : List (Nat × Generation τ)
  map? : Option AddressMap
  nextStamp : Nat

namespace PrioritySet

variable {τ : Type}

def installation (ps : PrioritySet τ) : Installation τ :=
  { generations := ps.levels.map fun l => (l.priority, l.generation)
    map? := ps.index?.map AddressIndex.current
    nextStamp := ps.nextStamp }

def generation? (ps : PrioritySet τ) (p : Nat) : Option (Generation τ) :=
  (ps.level? p).map Level.generation

theorem hostsAt_eq (ps : PrioritySet τ) (p : Nat) :
    ps.hostsAt p = ((ps.generation? p).map Generation.hosts).getD [] := by
  simp only [hostsAt, generation?]
  cases ps.level? p <;> rfl

theorem generation?_eq (ps : PrioritySet τ) (p : Nat) :
    ps.generation? p = ps.installation.generations[p]?.map (·.2) := by
  simp only [generation?, level?, installation, List.getElem?_map, Option.map_map]
  rfl

theorem addressMap_eq (ps : PrioritySet τ) : ps.addressMap = ps.installation.map?.getD [] := by
  simp only [addressMap, readMap, publishedMap, installation]
  cases ps.index? with
  | none => rfl
  | some x =>
    cases hx : x.pending? with
    | none => simp [AddressIndex.read, AddressIndex.current, hx]
    | some m => simp [AddressIndex.read, AddressIndex.current, hx]

section Congr

variable {ps qs : PrioritySet τ} (h : qs.installation = ps.installation)

include h

theorem generation?_congr (p : Nat) : qs.generation? p = ps.generation? p := by
  rw [generation?_eq, generation?_eq, h]

theorem hostsAt_congr (p : Nat) : qs.hostsAt p = ps.hostsAt p := by
  rw [hostsAt_eq, hostsAt_eq, generation?_congr h]

theorem addressMap_congr : qs.addressMap = ps.addressMap := by
  rw [addressMap_eq, addressMap_eq, h]

theorem length_congr : qs.levels.length = ps.levels.length := by
  have := congrArg (fun i => i.generations.length) h
  simpa [installation] using this

end Congr

/-! ## Registrations -/

/-- A watch of all levels, or of level `p`. -/
def Watches (ps : PrioritySet τ) (p : Nat) (w : Watch) : Prop :=
  .watch w ∈ ps.priorityObservers.callbacks ∨
    ∃ l, ps.level? p = some l ∧ .watch w ∈ l.observers.callbacks

/-- `qs` has no registration that `ps` lacks; a level of `qs` that `ps` lacks has no watch. -/
structure Fewer (ps qs : PrioritySet τ) : Prop where
  members : qs.memberObservers.entries.Sublist ps.memberObservers.entries
  priorities : ∀ e ∈ qs.priorityObservers.entries, e ∈ ps.priorityObservers.entries
  levels : ∀ p l, qs.level? p = some l → ∀ n w, (n, .watch w) ∈ l.observers.entries →
    ∃ k, ps.level? p = some k ∧ (n, .watch w) ∈ k.observers.entries
  handles : ∀ h ∈ qs.handles, h ∈ ps.handles

namespace Fewer

theorem refl (ps : PrioritySet τ) : Fewer ps ps :=
  ⟨.refl _, fun _ h => h, fun _ l hl _ _ h => ⟨l, hl, h⟩, fun _ h => h⟩

theorem trans {ps qs rs : PrioritySet τ} (h₁ : Fewer ps qs) (h₂ : Fewer qs rs) : Fewer ps rs := by
  refine ⟨h₂.members.trans h₁.members, fun e h => h₁.priorities e (h₂.priorities e h),
    ?_, fun e h => h₁.handles e (h₂.handles e h)⟩
  intro p l hl n w h
  obtain ⟨k, hk, hw⟩ := h₂.levels p l hl n w h
  exact h₁.levels p k hk n w hw

theorem watches {ps qs : PrioritySet τ} (h : Fewer ps qs) {p : Nat} {w : Watch}
    (hw : qs.Watches p w) : ps.Watches p w := by
  rcases hw with hw | ⟨l, hl, hw⟩
  · obtain ⟨e, he, hew⟩ := List.mem_map.1 hw
    exact .inl (List.mem_map.2 ⟨e, h.priorities e he, hew⟩)
  · obtain ⟨⟨n, o⟩, he, rfl⟩ := List.mem_map.1 hw
    obtain ⟨k, hk, hn⟩ := h.levels p l hl n w he
    exact .inr ⟨k, hk, List.mem_map.2 ⟨_, hn, rfl⟩⟩

end Fewer

/-- Every level forwards to the observers of all levels, and no handle can end that. -/
structure Forwards (ps : PrioritySet τ) : Prop where
  level : ∀ l ∈ ps.levels, (0, .forward) ∈ l.observers.entries ∧ 0 < l.observers.nextToken
  handles : ∀ n p token, (n, .level p token) ∈ ps.handles → 0 < token

/-! ## Dropping handles -/

theorem installation_dropWatch (ps : PrioritySet τ) (number : Nat) :
    (ps.dropWatch number).installation = ps.installation := by
  unfold dropWatch
  split
  · rfl
  · rename_i handle _
    cases handle with
    | members token => rfl
    | priorities token => rfl
    | level p token =>
      simp only [installation, Installation.mk.injEq, and_true]
      refine List.ext_getElem? ?_
      intro i
      simp only [List.getElem?_map, List.getElem?_modify]
      by_cases hi : p = i
      · simp only [hi, if_true]; cases ps.levels[i]? <;> rfl
      · simp only [hi, if_false, Option.map_eq_map, Option.map_id_fun', id_eq]

theorem journal_dropWatch (ps : PrioritySet τ) (number : Nat) :
    (ps.dropWatch number).journal = ps.journal := by
  unfold dropWatch
  split
  · rfl
  · rename_i handle _
    cases handle <;> rfl

theorem mem_of_mem_remove {α : Type} {o : Observers α} {token : Nat} {e : Nat × α}
    (h : e ∈ (o.remove token).entries) : e ∈ o.entries := (List.mem_filter.1 h).1

theorem fewer_dropWatch (ps : PrioritySet τ) (number : Nat) : Fewer ps (ps.dropWatch number) := by
  have hsome : ∀ p l, ps.level? p = some l → ∀ n w, (n, LevelObserver.watch w) ∈ l.observers.entries →
      ∃ k, ps.level? p = some k ∧ (n, .watch w) ∈ k.observers.entries :=
    fun _ l hl _ _ hw => ⟨l, hl, hw⟩
  unfold dropWatch
  split
  · exact .refl ps
  · rename_i handle _
    cases handle with
    | members token =>
      exact ⟨List.filter_sublist, fun _ h => h, hsome, fun _ h => (List.mem_filter.1 h).1⟩
    | priorities token =>
      exact ⟨.refl _, fun _ h => mem_of_mem_remove h, hsome, fun _ h => (List.mem_filter.1 h).1⟩
    | level p token =>
      refine ⟨.refl _, fun _ h => h, ?_, fun _ h => (List.mem_filter.1 h).1⟩
      intro q l hl n w hw
      simp only [level?, List.getElem?_modify] at hl
      obtain ⟨k, hk, hkl⟩ := Option.map_eq_some_iff.1 hl
      refine ⟨k, hk, ?_⟩
      by_cases hp : p = q
      · simp only [hp, if_true] at hkl
        subst hkl
        exact mem_of_mem_remove hw
      · simp only [hp, if_false] at hkl
        subst hkl
        exact hw

theorem Forwards.dropWatch {ps : PrioritySet τ} (h : ps.Forwards) (number : Nat) :
    (ps.dropWatch number).Forwards := by
  unfold PrioritySet.dropWatch
  split
  · exact h
  · rename_i handle hlook
    have hh : ∀ n p token, (n, Handle.level p token) ∈ ps.handles.filter (fun h => h.1 ≠ number) →
        0 < token := fun n p token hm => h.handles n p token (List.mem_filter.1 hm).1
    cases handle with
    | members token => exact ⟨h.level, hh⟩
    | priorities token => exact ⟨h.level, hh⟩
    | level p token =>
      have htoken : 0 < token := by
        obtain ⟨l₁, l₂, hl, _⟩ := List.lookup_eq_some_iff.1 hlook
        exact h.handles number p token (by rw [hl]; simp)
      refine ⟨?_, hh⟩
      intro l hl
      obtain ⟨i, hi⟩ := List.mem_iff_getElem?.1 hl
      simp only [List.getElem?_modify] at hi
      obtain ⟨k, hk, hkl⟩ := Option.map_eq_some_iff.1 hi
      obtain ⟨hf, hn⟩ := h.level k (List.mem_of_getElem? hk)
      by_cases hp : p = i
      · simp only [hp, if_true] at hkl
        subst hkl
        refine ⟨List.mem_filter.2 ⟨hf, ?_⟩, hn⟩
        simp only [ne_eq, decide_eq_true_eq]
        omega
      · simp only [hp, if_false] at hkl
        subst hkl
        exact ⟨hf, hn⟩

/-! ## Hearing -/

/-- `qs` is `ps` after observers were told of something; they wrote `new`. -/
structure Hears (ps : PrioritySet τ) (new : List Event) (qs : PrioritySet τ) : Prop where
  installation : qs.installation = ps.installation
  fewer : Fewer ps qs
  events : qs.journal.events = ps.journal.events ++ new
  forwards : ps.Forwards → qs.Forwards

namespace Hears

theorem refl (ps : PrioritySet τ) : Hears ps [] ps :=
  ⟨rfl, .refl ps, (List.append_nil _).symm, id⟩

theorem trans {ps qs rs : PrioritySet τ} {new more : List Event} (h₁ : Hears ps new qs)
    (h₂ : Hears qs more rs) : Hears ps (new ++ more) rs :=
  ⟨h₂.installation.trans h₁.installation, h₁.fewer.trans h₂.fewer,
    by rw [h₂.events, h₁.events, List.append_assoc], fun h => h₂.forwards (h₁.forwards h)⟩

end Hears

theorem hears_dropWatches (ps : PrioritySet τ) (numbers : List Nat) :
    Hears ps [] (numbers.foldl dropWatch ps) := by
  induction numbers generalizing ps with
  | nil => exact .refl ps
  | cons n numbers ih =>
    have hn : Hears ps [] (ps.dropWatch n) :=
      ⟨installation_dropWatch ps n, fewer_dropWatch ps n, by rw [journal_dropWatch, List.append_nil],
        fun h => h.dropWatch n⟩
    exact hn.trans (ih (ps.dropWatch n))

theorem hears_writeEvent (ps : PrioritySet τ) (e : Event) : Hears ps [e] (ps.writeEvent e) :=
  ⟨rfl, ⟨.refl _, fun _ h => h, fun _ l hl _ _ h => ⟨l, hl, h⟩, fun _ h => h⟩, rfl,
    fun h => ⟨h.level, h.handles⟩⟩

theorem hears_record (ps : PrioritySet τ) (w : Watch) (e : Event) : Hears ps [e] (ps.record w e) :=
  (hears_writeEvent ps e).trans (hears_dropWatches (ps.writeEvent e) w.drops)

theorem hears_readMap (ps : PrioritySet τ) : Hears ps [] ps.readMap := by
  refine ⟨?_, ⟨.refl _, fun _ h => h, fun _ l hl _ _ h => ⟨l, hl, h⟩, fun _ h => h⟩,
    (List.append_nil _).symm, fun h => ⟨h.level, h.handles⟩⟩
  simp only [installation, readMap, Option.map_map]
  cases ps.index? with
  | none => rfl
  | some x =>
    cases hx : x.pending? with
    | none => simp [AddressIndex.read, AddressIndex.current, hx]
    | some m => simp [AddressIndex.read, AddressIndex.current, hx]

/-- Calling observers one after another: if each call only tells, so does the whole, every event is as
those of one call, and what each call owes its observer is in the journal in the end. -/
theorem hears_foldl {α : Type} (call : PrioritySet τ → α → PrioritySet τ) (good : Event → Prop)
    (owed : α → PrioritySet τ → List Event → Prop)
    (hmono : ∀ a ps qs new more, Fewer ps qs → new ⊆ more → owed a ps new → owed a qs more)
    (hcall : ∀ ps a, ∃ new, Hears ps new (call ps a) ∧ (∀ e ∈ new, good e) ∧ owed a (call ps a) new)
    (as : List α) (ps : PrioritySet τ) :
    ∃ new, Hears ps new (as.foldl call ps) ∧ (∀ e ∈ new, good e) ∧
      ∀ a ∈ as, owed a (as.foldl call ps) new := by
  induction as generalizing ps with
  | nil => exact ⟨[], .refl ps, by simp, by simp⟩
  | cons a as ih =>
    obtain ⟨new, hnew, hgood, howed⟩ := hcall ps a
    obtain ⟨more, hmore, hgood', howed'⟩ := ih (call ps a)
    refine ⟨new ++ more, hnew.trans hmore, ?_, ?_⟩
    · intro e he
      exact (List.mem_append.1 he).elim (hgood e) (hgood' e)
    · intro b hb
      rcases List.mem_cons.1 hb with rfl | hb
      · exact hmono b _ _ new _ hmore.fewer (List.subset_append_left new more) howed
      · exact hmono b _ _ more _ (.refl _) (List.subset_append_right new more) (howed' b hb)

/-! ## The change of a level -/

section Level

variable (p : Nat) (added removed : List HostId)

/-- An event that tells of the change. -/
def IsReport (e : Event) : Prop :=
  ∃ n c, e = .level n p added removed c

def WasTold (w : Watch) (events : List Event) : Prop :=
  ∃ c, Event.level w.number p added removed c ∈ events

theorem hears_callPriority (ps : PrioritySet τ) (o : PriorityObserver) :
    ∃ new, Hears ps new (callPriority p added removed ps o) ∧ (∀ e ∈ new, IsReport p added removed e) ∧
      ∀ w, o = .watch w → WasTold p added removed w new := by
  cases o with
  | census =>
    refine ⟨[], ⟨rfl, ?_, (List.append_nil _).symm, fun h => ⟨h.level, h.handles⟩⟩, by simp, ?_⟩
    · exact ⟨.refl _, fun _ h => h, fun _ l hl _ _ h => ⟨l, hl, h⟩, fun _ h => h⟩
    · intro w hw; cases hw
  | watch w =>
    refine ⟨_, hears_record ps w _, ?_, ?_⟩
    · intro e he
      exact ⟨w.number, ps.journal.census, List.mem_singleton.1 he⟩
    · rintro _ ⟨⟩
      exact ⟨ps.journal.census, List.mem_singleton.2 rfl⟩

theorem hears_notifyPriority (ps : PrioritySet τ) :
    ∃ new, Hears ps new (ps.notifyPriority p added removed) ∧ (∀ e ∈ new, IsReport p added removed e) ∧
      ∀ w, .watch w ∈ ps.priorityObservers.callbacks → WasTold p added removed w new := by
  obtain ⟨new, hnew, hgood, howed⟩ :=
    hears_foldl (callPriority p added removed) (IsReport p added removed)
      (fun o _ new => ∀ w, o = .watch w → WasTold p added removed w new)
      (fun o _ _ new more _ hsub h w hw => (h w hw).imp fun _ hc => hsub hc)
      (hears_callPriority p added removed) ps.priorityObservers.callbacks ps
  exact ⟨new, hnew, hgood, fun w hw => howed _ hw w rfl⟩

/-- What calling an observer of a level owes: a watch is told; forwarding tells the watches of all
levels, at least those that are registered still. -/
def LevelOwed (o : LevelObserver) (ps : PrioritySet τ) (new : List Event) : Prop :=
  match o with
  | .forward => ∀ w, .watch w ∈ ps.priorityObservers.callbacks → WasTold p added removed w new
  | .watch w => WasTold p added removed w new

theorem LevelOwed.mono {o : LevelObserver} {ps qs : PrioritySet τ} {new more : List Event}
    (hf : Fewer ps qs) (hsub : new ⊆ more) (h : LevelOwed p added removed o ps new) :
    LevelOwed p added removed o qs more := by
  cases o with
  | watch w => exact h.imp fun _ hc => hsub hc
  | forward =>
    intro w hw
    obtain ⟨e, he, hew⟩ := List.mem_map.1 hw
    exact (h w (List.mem_map.2 ⟨e, hf.priorities e he, hew⟩)).imp fun _ hc => hsub hc

theorem hears_callLevel (ps : PrioritySet τ) (o : LevelObserver) :
    ∃ new, Hears ps new (callLevel p added removed ps o) ∧ (∀ e ∈ new, IsReport p added removed e) ∧
      LevelOwed p added removed o (callLevel p added removed ps o) new := by
  cases o with
  | forward =>
    obtain ⟨new, hnew, hgood, htold⟩ := hears_notifyPriority p added removed ps
    refine ⟨new, hnew, hgood, ?_⟩
    intro w hw
    obtain ⟨e, he, hew⟩ := List.mem_map.1 hw
    exact htold w (List.mem_map.2 ⟨e, hnew.fewer.priorities e he, hew⟩)
  | watch w =>
    refine ⟨_, hears_record ps w _, ?_, ?_⟩
    · intro e he
      exact ⟨w.number, ps.journal.census, List.mem_singleton.1 he⟩
    · exact ⟨ps.journal.census, List.mem_singleton.2 rfl⟩

theorem hears_callLevels (os : List LevelObserver) (ps : PrioritySet τ) :
    ∃ new, Hears ps new (os.foldl (callLevel p added removed) ps) ∧
      (∀ e ∈ new, IsReport p added removed e) ∧
      ∀ o ∈ os, LevelOwed p added removed o (os.foldl (callLevel p added removed) ps) new :=
  hears_foldl (callLevel p added removed) (IsReport p added removed) (LevelOwed p added removed)
    (fun _ _ _ _ _ => LevelOwed.mono p added removed) (hears_callLevel p added removed) os ps

theorem installation_notifyLevel (ps : PrioritySet τ) :
    (ps.notifyLevel p added removed).installation = ps.installation := by
  unfold notifyLevel
  split
  · rfl
  · obtain ⟨_, hnew, _⟩ := hears_callLevels p added removed _ ps
    exact hnew.installation

theorem hears_notifyLevel {ps : PrioritySet τ} (hps : ps.Forwards) (hp : p < ps.levels.length) :
    ∃ new, Hears ps new (ps.notifyLevel p added removed) ∧ (∀ e ∈ new, IsReport p added removed e) ∧
      ∀ w, (ps.notifyLevel p added removed).Watches p w → WasTold p added removed w new := by
  have hl : ps.level? p = some ps.levels[p] := List.getElem?_eq_getElem hp
  have hnotify : ps.notifyLevel p added removed =
      ps.levels[p].observers.callbacks.foldl (callLevel p added removed) ps := by
    simp only [notifyLevel, hl]
  obtain ⟨new, hnew, hgood, howed⟩ :=
    hears_callLevels p added removed ps.levels[p].observers.callbacks ps
  rw [← hnotify] at hnew howed
  refine ⟨new, hnew, hgood, ?_⟩
  intro w hw
  rcases hw with hw | hw
  · have hforward : LevelObserver.forward ∈ ps.levels[p].observers.callbacks :=
      List.mem_map.2 ⟨_, (hps.level _ (List.getElem_mem hp)).1, rfl⟩
    exact howed _ hforward w hw
  · obtain ⟨l, hl', hw⟩ := hw
    obtain ⟨⟨n, o⟩, he, rfl⟩ := List.mem_map.1 hw
    obtain ⟨k, hk, hn⟩ := hnew.fewer.levels p l hl' n w he
    rw [hl] at hk
    cases hk
    exact howed _ (List.mem_map.2 ⟨_, hn, rfl⟩)

end Level

/-! ## The change of the members -/

/-- What watches write when they are told of a change of the members. -/
def memberEvents (ws : List Watch) (added removed : List HostId) (mapSize : Nat) : List Event :=
  ws.map fun w => .members w.number added removed mapSize

theorem hears_callMembers (added removed : List HostId) (ws : List Watch) (ps : PrioritySet τ) :
    Hears ps (memberEvents ws added removed ps.addressMap.length)
      (ws.foldl (callMembers added removed) ps) := by
  induction ws generalizing ps with
  | nil => exact .refl ps
  | cons w ws ih =>
    have hw : Hears ps [.members w.number added removed ps.addressMap.length]
        (callMembers added removed ps w) :=
      (hears_readMap ps).trans (hears_record ps.readMap w _)
    have hrest := ih (callMembers added removed ps w)
    rw [addressMap_congr hw.installation] at hrest
    exact hw.trans hrest

/-- Every watch of the members is told once, in the order of registration; they all find the map that
is current. -/
theorem hears_notifyMembers (added removed : List HostId) (ps : PrioritySet τ) :
    Hears ps (memberEvents ps.memberObservers.callbacks added removed ps.addressMap.length)
      (ps.notifyMembers added removed) :=
  hears_callMembers added removed ps.memberObservers.callbacks ps

end PrioritySet

end Roster
