import Roster.PrioritySet.Readers
import Roster.Proofs.Notifying

/-!
# Roster.Proofs.Leading

The census is taken before any watch is told of a change: it was the first to register, and no handle
leads to it.

* `Observers.LedBy` — who is first among observers, and stays it.
* `Enrollment.Led`  — the census is first wherever a change of a level is told; kept by registering and
  dropping.
* `Minds`           — a change of a set that only tells watches, which count nothing.
* `minds_notifyLevel` — a change of a level is counted, and then told.
-/

namespace Roster

/-! ## First observers -/

/-- `a` is the first observer, under the token 0, and there is no other like it. -/
structure Observers.LedBy {α : Type} (o : Observers α) (a : α) : Prop where
  entries : ∃ rest, o.entries = (0, a) :: rest ∧ ∀ e ∈ rest, e.2 ≠ a
  next : 0 < o.nextToken

namespace Observers.LedBy

variable {α : Type} {o : Observers α} {a b : α}

theorem single (a : α) : (Observers.add {} a).2.LedBy a :=
  ⟨⟨[], rfl, by simp⟩, Nat.one_pos⟩

theorem add (h : o.LedBy a) (hb : b ≠ a) : (o.add b).2.LedBy a := by
  obtain ⟨rest, hentries, hrest⟩ := h.entries
  refine ⟨⟨rest ++ [(o.nextToken, b)], by simp [Observers.add, hentries], fun e he => ?_⟩,
    Nat.succ_pos _⟩
  rcases List.mem_append.1 he with he | he
  · exact hrest e he
  · rw [List.mem_singleton.1 he]
    exact hb

theorem remove (h : o.LedBy a) {token : Nat} (htoken : 0 < token) : (o.remove token).LedBy a := by
  obtain ⟨rest, hentries, hrest⟩ := h.entries
  refine ⟨⟨rest.filter fun e => e.1 ≠ token, ?_, fun e he => hrest e (List.mem_filter.1 he).1⟩, h.next⟩
  rw [Observers.remove, hentries, List.filter_cons_of_pos (by simpa using Nat.ne_of_lt htoken)]

theorem modify {os : List (Observers α)} (h : ∀ o ∈ os, o.LedBy a) {f : Observers α → Observers α}
    (hf : ∀ o, o.LedBy a → (f o).LedBy a) (p : Nat) : ∀ o ∈ os.modify p f, o.LedBy a := by
  intro o ho
  obtain ⟨i, hi⟩ := List.mem_iff_getElem?.1 ho
  rw [List.getElem?_modify] at hi
  obtain ⟨o', ho', rfl⟩ := Option.map_eq_some_iff.1 hi
  have hled := h o' (List.mem_of_getElem? ho')
  split
  · exact hf o' hled
  · exact hled

theorem callbacks (h : o.LedBy a) : ∃ rest, o.callbacks = a :: rest ∧ ∀ b ∈ rest, b ≠ a := by
  obtain ⟨rest, hentries, hrest⟩ := h.entries
  refine ⟨rest.map (·.2), by rw [Observers.callbacks, hentries, List.map_cons], fun b hb => ?_⟩
  obtain ⟨e, he, rfl⟩ := List.mem_map.1 hb
  exact hrest e he

end Observers.LedBy

/-- The census is the first of those who observe all levels, the first of those who observe a level
forwards to them, and no handle leads to either. -/
structure Enrollment.Led (e : Enrollment) : Prop where
  priorities : e.priorities.LedBy .census
  levels : ∀ o ∈ e.levels, o.LedBy .forward
  priorityTokens : ∀ n token, (n, Handle.priorities token) ∈ e.handles → 0 < token
  levelTokens : ∀ n p token, (n, Handle.level p token) ∈ e.handles → 0 < token

namespace Enrollment.Led

variable {e : Enrollment}

theorem mono {f : Enrollment} (h : e.Led) (hpriorities : f.priorities = e.priorities)
    (hlevels : f.levels = e.levels) (hhandles : ∀ k ∈ f.handles, k ∈ e.handles) : f.Led :=
  ⟨hpriorities ▸ h.priorities, hlevels ▸ h.levels, fun n t hm => h.priorityTokens n t (hhandles _ hm),
    fun n p t hm => h.levelTokens n p t (hhandles _ hm)⟩

theorem addHandle (h : e.Led) {n : Nat} {k : Handle} (hpriorities : k ≠ .priorities 0)
    (hlevel : ∀ p, k ≠ .level p 0) :
    ({ e with handles := e.handles ++ [(n, k)] } : Enrollment).Led := by
  refine ⟨h.priorities, h.levels, fun m t hm => ?_, fun m p t hm => ?_⟩
  · rcases List.mem_append.1 hm with hm | hm
    · exact h.priorityTokens m t hm
    · obtain ⟨rfl, rfl⟩ := Prod.mk.inj (List.mem_singleton.1 hm)
      exact Nat.pos_of_ne_zero fun hzero => hpriorities (congrArg Handle.priorities hzero)
  · rcases List.mem_append.1 hm with hm | hm
    · exact h.levelTokens m p t hm
    · obtain ⟨rfl, rfl⟩ := Prod.mk.inj (List.mem_singleton.1 hm)
      exact Nat.pos_of_ne_zero fun hzero => hlevel p (congrArg (Handle.level p) hzero)

end Enrollment.Led

namespace PrioritySet

variable {τ : Type} {ps qs rs : PrioritySet τ} {new more : List Event}

/-! ## Registering and dropping -/

theorem led_watchMembers (h : ps.enrollment.Led) (drops : List Nat) :
    (ps.watchMembers drops).enrollment.Led := by
  have hhandle := h.addHandle (n := ps.nextWatch) (k := .members ps.memberObservers.nextToken)
    (by simp) (by simp)
  exact hhandle.mono rfl rfl fun _ hk => hk

theorem led_watchPriorities (h : ps.enrollment.Led) (drops : List Nat) :
    (ps.watchPriorities drops).enrollment.Led := by
  have hnext : 0 < ps.priorityObservers.nextToken := h.priorities.next
  have hhandle := h.addHandle (n := ps.nextWatch) (k := .priorities ps.priorityObservers.nextToken)
    (by simpa using Nat.ne_of_gt hnext) (by simp)
  exact ⟨h.priorities.add (by simp), hhandle.levels, hhandle.priorityTokens, hhandle.levelTokens⟩

theorem led_watchLevel (h : ps.enrollment.Led) (p : Nat) (drops : List Nat) :
    (ps.watchLevel p drops).enrollment.Led := by
  unfold watchLevel
  cases hl : ps.level? p with
  | none => exact h
  | some l =>
    have hled : l.observers.LedBy .forward :=
      h.levels l.observers (List.mem_map_of_mem (List.mem_of_getElem? hl))
    have hhandle := h.addHandle (n := ps.nextWatch) (k := .level p l.observers.nextToken)
      (by simp) (by simpa using Nat.ne_of_gt hled.next)
    refine ⟨h.priorities, ?_, hhandle.priorityTokens, hhandle.levelTokens⟩
    have hlevels := Observers.LedBy.modify (p := p) h.levels fun _ _ =>
      hled.add (b := .watch ⟨ps.nextWatch, drops⟩) (by simp)
    rwa [enrollment, ← levels_modify_observers ps p fun _ => _] at hlevels

theorem led_dropWatch (h : ps.enrollment.Led) (number : Nat) : (ps.dropWatch number).enrollment.Led := by
  unfold dropWatch
  cases hlook : ps.handles.lookup number with
  | none => exact h
  | some handle =>
    have hmem : (number, handle) ∈ ps.handles := by
      obtain ⟨before, after, hhandles, _⟩ := List.lookup_eq_some_iff.1 hlook
      exact hhandles ▸ List.mem_append_right before List.mem_cons_self
    have hkept : ({ ps.enrollment with
        handles := ps.handles.filter fun k => k.1 ≠ number } : Enrollment).Led :=
      h.mono rfl rfl fun _ hk => (List.mem_filter.1 hk).1
    cases handle with
    | members token => exact hkept.mono rfl rfl fun _ hk => hk
    | priorities token =>
      have htoken : 0 < token := h.priorityTokens _ _ hmem
      exact ⟨h.priorities.remove htoken, hkept.levels, hkept.priorityTokens, hkept.levelTokens⟩
    | level p token =>
      have htoken : 0 < token := h.levelTokens _ _ _ hmem
      refine ⟨h.priorities, ?_, hkept.priorityTokens, hkept.levelTokens⟩
      have hlevels := Observers.LedBy.modify (p := p) h.levels fun _ ho => ho.remove htoken
      rwa [enrollment, ← levels_modify_observers ps p fun o => o.remove token] at hlevels

theorem enrollment_share (ps : PrioritySet τ) (g : Generation τ) :
    (({ priorities := ps } : Readers τ).share g).priorities.enrollment = ps.enrollment := by
  refine Enrollment.ext rfl rfl rfl rfl ?_
  simp only [enrollment, Readers.share, List.map_map]
  refine List.map_congr_left fun l _ => ?_
  simp only [Function.comp]
  split <;> rfl

/-! ## Telling watches -/

/-- `qs` is `ps` after watches were told, which wrote `new`; nothing is counted anew. -/
structure Minds (ps : PrioritySet τ) (new : List Event) (qs : PrioritySet τ) : Prop
    extends Hears ps new qs where
  census : qs.journal.census = ps.journal.census
  led : ps.enrollment.Led → qs.enrollment.Led

namespace Minds

theorem refl (ps : PrioritySet τ) : Minds ps [] ps := ⟨.refl ps, rfl, id⟩

theorem trans (h₁ : Minds ps new qs) (h₂ : Minds qs more rs) : Minds ps (new ++ more) rs :=
  ⟨h₁.toHears.trans h₂.toHears, h₂.census.trans h₁.census, fun h => h₂.led (h₁.led h)⟩

end Minds

theorem minds_dropWatches (ps : PrioritySet τ) (numbers : List Nat) :
    Minds ps [] (numbers.foldl dropWatch ps) := by
  induction numbers generalizing ps with
  | nil => exact .refl ps
  | cons n numbers ih =>
    have hn : Minds ps [] (ps.dropWatch n) :=
      ⟨hears_dropWatches ps [n], congrArg Journal.census (journal_dropWatch ps n),
        fun h => led_dropWatch h n⟩
    exact hn.trans (ih (ps.dropWatch n))

theorem minds_record (ps : PrioritySet τ) (w : Watch) (e : Event) : Minds ps [e] (ps.record w e) :=
  have hwritten : Minds ps [e] (ps.writeEvent e) :=
    ⟨hears_writeEvent ps e, rfl, fun h => h.mono rfl rfl fun _ hk => hk⟩
  hwritten.trans (minds_dropWatches (ps.writeEvent e) w.drops)

theorem minds_notifyMembers (ps : PrioritySet τ) (added removed : List HostId) :
    ∃ new, Minds ps new (ps.notifyMembers added removed) ∧
      ∀ e ∈ new, ∃ n size, e = .members n added removed size := by
  unfold notifyMembers
  induction ps.memberObservers.callbacks generalizing ps with
  | nil => exact ⟨[], .refl ps, by simp⟩
  | cons w ws ih =>
    have hread : Minds ps [] ps.readMap :=
      ⟨hears_readMap ps, rfl, fun h => h.mono rfl rfl fun _ hk => hk⟩
    have hw := hread.trans
      (minds_record ps.readMap w (.members w.number added removed ps.readMap.publishedMap.length))
    obtain ⟨new, hnew, hmembers⟩ := ih (callMembers added removed ps w)
    refine ⟨_, hw.trans hnew, fun e he => ?_⟩
    rcases List.mem_append.1 he with he | he
    · exact ⟨_, _, List.mem_singleton.1 he⟩
    · exact hmembers e he

section Level

variable (p : Nat) (added removed : List HostId)

theorem minds_watches {α : Type} {call : PrioritySet τ → α → PrioritySet τ} {as : List α}
    (hcall : ∀ a ∈ as, ∀ qs, ∃ n, Minds qs [.level n p added removed qs.journal.census] (call qs a))
    (ps : PrioritySet τ) :
    ∃ new, Minds ps new (as.foldl call ps) ∧
      ∀ e ∈ new, ∃ n, e = .level n p added removed ps.journal.census := by
  induction as generalizing ps with
  | nil => exact ⟨[], .refl ps, by simp⟩
  | cons a as ih =>
    obtain ⟨n, ha⟩ := hcall a List.mem_cons_self ps
    obtain ⟨new, hnew, hevents⟩ := ih (fun b hb => hcall b (List.mem_cons_of_mem a hb)) (call ps a)
    refine ⟨_, ha.trans hnew, fun e he => ?_⟩
    rw [ha.census] at hevents
    rcases List.mem_append.1 he with he | he
    · exact ⟨n, List.mem_singleton.1 he⟩
    · exact hevents e he

def counted (ps : PrioritySet τ) : PrioritySet τ := callPriority p added removed ps .census

/-- Whoever is told of a change of a level is told after the members were counted. -/
theorem minds_notifyPriority (h : ps.enrollment.Led) :
    ∃ new, Minds (ps.counted p added removed) new (ps.notifyPriority p added removed) ∧
      ∀ e ∈ new, ∃ n, e = .level n p added removed (ps.recount added removed) := by
  obtain ⟨rest, hcallbacks, hrest⟩ := h.priorities.callbacks
  have hcallbacks : ps.priorityObservers.callbacks = .census :: rest := hcallbacks
  rw [notifyPriority, hcallbacks, List.foldl_cons]
  refine minds_watches p added removed (fun o ho qs => ?_) (ps.counted p added removed)
  cases o with
  | census => exact absurd rfl (hrest _ ho)
  | watch w => exact ⟨w.number, minds_record qs w _⟩

theorem minds_notifyLevel (h : ps.enrollment.Led) (hp : p < ps.levels.length) :
    ∃ new, Minds (ps.counted p added removed) new (ps.notifyLevel p added removed) ∧
      ∀ e ∈ new, ∃ n, e = .level n p added removed (ps.recount added removed) := by
  have hlevel : ps.level? p = some ps.levels[p] := List.getElem?_eq_getElem hp
  obtain ⟨rest, hcallbacks, hrest⟩ :=
    (h.levels _ (List.mem_map_of_mem (List.getElem_mem hp))).callbacks
  obtain ⟨new, hnew, hevents⟩ := minds_notifyPriority p added removed h
  have hcall : ∀ o ∈ rest, ∀ qs : PrioritySet τ, ∃ n,
      Minds qs [.level n p added removed qs.journal.census] (callLevel p added removed qs o) := by
    intro o ho qs
    cases o with
    | forward => exact absurd rfl (hrest _ ho)
    | watch w => exact ⟨w.number, minds_record qs w _⟩
  obtain ⟨more, hmore, hevents'⟩ :=
    minds_watches p added removed hcall (ps.notifyPriority p added removed)
  rw [hnew.census] at hevents'
  simp only [notifyLevel, hlevel, hcallbacks, List.foldl_cons]
  refine ⟨new ++ more, hnew.trans hmore, fun e he => ?_⟩
  rcases List.mem_append.1 he with he | he
  · exact hevents e he
  · exact hevents' e he

end Level

end PrioritySet

end Roster
