import Roster.PrioritySet.Batch
import Roster.Proofs.Enrolling
import Roster.Proofs.Levels

/-!
# Roster.Proofs.Notifying

Which events a sequence of updates and batches writes, exactly. Levels may be made, and watches
registered and dropped, at any point between them.

* `Call`         — what a caller asks of a set of levels.
* `Register.owed` — the events that a sequence of calls owes to those registered at the time.
* `Tells`        — the set only told observers, which wrote these events.
* `tallies_put`, `tallies_batch`, `tallies_perform` — one level, one batch, one call.
* `events_run`   — the events of a run are those that are owed.
-/

namespace Roster

/-- The event without what the watch read when it was called. -/
def Event.bare : Event → Event
  | .level n p added removed _ => .level n p added removed {}
  | .members n added removed _ => .members n added removed 0
  | .initialized => .initialized

/-- What a caller asks of a set of levels. -/
inductive PrioritySet.Call where
  | watchMembers
  | watchPriorities
  | watchLevel (priority : Nat)
  | takeCensus
  | unwatch (number : Nat)
  | getOrCreate (priority : Nat) (factor? : Option Nat)
  | update (store : HostStore) (u : Update)
  | batch (store : HostStore) (us : List Update)

namespace PrioritySet.Call

/-- No factor is zero, and a batch updates no level twice. -/
def Proper : Call → Prop
  | .getOrCreate _ factor? => factor? ≠ some 0
  | .update _ u => u.factor? ≠ some 0
  | .batch _ us => (us.map Update.priority).Nodup ∧ ∀ u ∈ us, u.factor? ≠ some 0
  | _ => True

variable {τ : Type} [Quantity τ]

def perform (c : Call) (ps : PrioritySet τ) : Attempt Fault (PrioritySet τ) :=
  match c with
  | .watchMembers => .done (ps.watchMembers [])
  | .watchPriorities => .done (ps.watchPriorities [])
  | .watchLevel p => .done (ps.watchLevel p [])
  | .takeCensus => .done ps.takeCensus
  | .unwatch n => .done (ps.dropWatch n)
  | .getOrCreate p factor? => ps.getOrCreate p factor?
  | .update store u => ps.update store u
  | .batch store us => Batch.updateAll store us ps

def run (calls : List Call) (ps : PrioritySet τ) : Attempt Fault (PrioritySet τ) :=
  Attempt.each perform calls ps

end PrioritySet.Call

/-! ## What is owed -/

namespace Batch

/-- The hosts gained and not lost, once each, in the order first seen. -/
def net (gained lost : List HostId) : List HostId :=
  gained.eraseDups.filter fun id => id ∉ lost

theorem mem_net {gained lost : List HostId} {id : HostId} :
    id ∈ net gained lost ↔ id ∈ gained ∧ id ∉ lost := by
  simp [net]

theorem nodup_eraseDups : ∀ ids : List HostId, ids.eraseDups.Nodup
  | [] => List.nodup_nil
  | id :: ids => by
    have : (ids.filter fun b => !b == id).length < ids.length + 1 :=
      Nat.lt_succ_of_le (List.length_filter_le _ _)
    rw [List.eraseDups_cons, List.nodup_cons]
    exact ⟨by simp, nodup_eraseDups _⟩
termination_by ids => ids.length

theorem nodup_net (gained lost : List HostId) : (net gained lost).Nodup :=
  (nodup_eraseDups gained).filter _

theorem extend_eraseDups (seen ids : List HostId) :
    extend seen.eraseDups ids = (seen ++ ids).eraseDups := by
  induction ids generalizing seen with
  | nil => rw [extend, List.append_nil]
  | cons id ids ih =>
    have hone : (if id ∈ seen.eraseDups then seen.eraseDups else seen.eraseDups ++ [id]) =
        (seen ++ [id]).eraseDups := by
      rw [List.eraseDups_append]
      have hself : [id].eraseDups = [id] := rfl
      by_cases hid : id ∈ seen <;> simp [List.removeAll, hid, hself]
    rw [extend, hone, ih, List.append_assoc, List.singleton_append]

theorem without_eraseDups (gained lost : List HostId) :
    without gained.eraseDups lost.eraseDups = net gained lost := by
  simp only [without, net, List.mem_eraseDups]

end Batch

namespace Register

/-- What a change of level `p` owes: to those who watch all levels first. -/
def reports (r : Register) (p : Nat) (added removed : List HostId) : List Event :=
  (r.priorities ++ (r.levels[p]?).getD []).map fun n => .level n p added removed {}

/-- What a change of the members owes. -/
def summary (r : Register) (added removed : List HostId) : List Event :=
  r.members.map fun n => .members n added removed 0

def after (r : Register) : PrioritySet.Call → Register
  | .watchMembers => r.watchMembers
  | .watchPriorities => r.watchPriorities
  | .watchLevel p => r.watchLevel p
  | .takeCensus => r
  | .unwatch n => r.drop n
  | .getOrCreate p _ => r.grow p
  | .update _ u => r.grow u.priority
  | .batch _ us => us.foldl (fun r u => r.grow u.priority) r

/-- An update is reported level and members; a batch level by level, then the members of all in one. -/
def owes (r : Register) : PrioritySet.Call → List Event
  | .update _ u => r.reports u.priority u.added u.removed ++ r.summary u.added u.removed
  | .batch _ us =>
    us.flatMap (fun u => r.reports u.priority u.added u.removed) ++
      r.summary (Batch.net (us.flatMap Update.added) (us.flatMap Update.removed))
        (Batch.net (us.flatMap Update.removed) (us.flatMap Update.added))
  | _ => []

/-- What a sequence of calls owes, each to those registered by then. -/
def owed (r : Register) : List PrioritySet.Call → List Event
  | [] => []
  | c :: calls => r.owes c ++ owed (r.after c) calls

theorem reports_grow (r : Register) (q p : Nat) (added removed : List HostId) :
    (r.grow q).reports p added removed = r.reports p added removed := by
  have hlevel : ((r.grow q).levels[p]?).getD [] = (r.levels[p]?).getD [] := by
    simp only [grow, List.getElem?_append, List.getElem?_replicate]
    split
    · rfl
    · rename_i hp
      rw [List.getElem?_eq_none (Nat.le_of_not_lt hp)]
      split <;> rfl
  rw [reports, reports, hlevel]
  rfl

theorem summary_growAll (r : Register) (us : List Update) (added removed : List HostId) :
    (us.foldl (fun r u => r.grow u.priority) r).summary added removed = r.summary added removed := by
  induction us generalizing r with
  | nil => rfl
  | cons u us ih => exact ih (r.grow u.priority)

end Register

/-! ## Telling -/

namespace PrioritySet

variable {τ : Type} {ps qs rs : PrioritySet τ} {r : Register} {new more : List Event}

/-- `qs` is `ps` after observers were told of something; they wrote `new`, and nobody left. -/
structure Tells (ps : PrioritySet τ) (new : List Event) (qs : PrioritySet τ) : Prop where
  enrollment : qs.enrollment = ps.enrollment
  events : qs.journal.events.map Event.bare = ps.journal.events.map Event.bare ++ new

namespace Tells

theorem refl (ps : PrioritySet τ) : Tells ps [] ps := ⟨rfl, (List.append_nil _).symm⟩

theorem trans (h₁ : Tells ps new qs) (h₂ : Tells qs more rs) : Tells ps (new ++ more) rs :=
  ⟨h₂.enrollment.trans h₁.enrollment, by rw [h₂.events, h₁.events, List.append_assoc]⟩

end Tells

theorem tells_record (ps : PrioritySet τ) (n : Nat) (e : Event) :
    Tells ps [e.bare] (ps.record (.quiet n) e) :=
  ⟨rfl, List.map_append⟩

/-- Observers called one after another: each finds the same observers registered. -/
theorem tells_foldl {α : Type} {call : PrioritySet τ → α → PrioritySet τ} {news : α → List Event}
    {as : List α} (hcall : ∀ a ∈ as, ∀ qs, qs.enrollment = ps.enrollment →
      Tells qs (news a) (call qs a)) :
    Tells ps (as.flatMap news) (as.foldl call ps) := by
  induction as generalizing ps with
  | nil => exact .refl ps
  | cons a as ih =>
    have ha := hcall a List.mem_cons_self ps rfl
    rw [List.flatMap_cons]
    exact ha.trans (ih fun b hb qs hqs =>
      hcall b (List.mem_cons_of_mem a hb) qs (hqs.trans ha.enrollment))

section Level

variable (p : Nat) (added removed : List HostId)

def priorityNews : PriorityObserver → List Event
  | .census => []
  | .watch w => [.level w.number p added removed {}]

theorem tells_notifyPriority (h : ps.enrollment.Lists r) :
    Tells ps (r.priorities.map fun n => .level n p added removed {})
      (ps.notifyPriority p added removed) := by
  have hnews : ps.priorityObservers.callbacks.flatMap (priorityNews p added removed) =
      r.priorities.map fun n => .level n p added removed {} := by
    have hcensus : ∀ os : List PriorityObserver, os.flatMap (priorityNews p added removed) =
        (os.filter (· ≠ .census)).flatMap (priorityNews p added removed) := by
      intro os
      induction os with
      | nil => rfl
      | cons o os ih =>
        cases o with
        | census => simpa [priorityNews] using ih
        | watch w => simpa [priorityNews] using ih
    have hlists : ps.priorityObservers.callbacks.filter (· ≠ .census) =
        r.priorities.map fun n => .watch (.quiet n) := h.priorities
    rw [hcensus, hlists, List.flatMap_map, List.map_eq_flatMap]
    rfl
  rw [← hnews]
  refine tells_foldl fun o ho qs _ => ?_
  cases o with
  | census => exact ⟨rfl, (List.append_nil _).symm⟩
  | watch w =>
    have hw : PriorityObserver.watch w ∈ ps.enrollment.priorities.callbacks.filter (· ≠ .census) :=
      List.mem_filter.2 ⟨ho, rfl⟩
    rw [h.priorities] at hw
    obtain ⟨n, _, hn⟩ := List.mem_map.1 hw
    cases hn
    exact tells_record qs n (.level n p added removed qs.journal.census)

theorem tells_notifyLevel (h : ps.enrollment.Lists r) (hp : p < ps.levels.length) :
    Tells ps (r.reports p added removed) (ps.notifyLevel p added removed) := by
  have hlevel : ps.level? p = some ps.levels[p] := List.getElem?_eq_getElem hp
  have hget := congrArg (fun os => os[p]?) h.levels
  simp only [enrollment, List.getElem?_map, List.getElem?_eq_getElem hp, Option.map_some] at hget
  obtain ⟨ns, hns, hcallbacks⟩ := Option.map_eq_some_iff.1 hget.symm
  rw [Register.reports, hns, Option.getD_some, List.map_append]
  simp only [notifyLevel, hlevel, ← hcallbacks, List.foldl_cons, List.foldl_map]
  refine (tells_notifyPriority p added removed h).trans ?_
  rw [List.map_eq_flatMap]
  exact tells_foldl fun n _ qs _ => tells_record qs n (.level n p added removed qs.journal.census)

end Level

theorem tells_notifyMembers (added removed : List HostId) (h : ps.enrollment.Lists r) :
    Tells ps (r.summary added removed) (ps.notifyMembers added removed) := by
  have hcallbacks : ps.memberObservers.callbacks = r.members.map Watch.quiet := h.members
  rw [Register.summary, List.map_eq_flatMap, notifyMembers, hcallbacks, List.foldl_map]
  refine tells_foldl fun n _ qs _ => ?_
  have hread : Tells qs [] qs.readMap := ⟨rfl, (List.append_nil _).symm⟩
  exact hread.trans
    (tells_record qs.readMap n (.members n added removed qs.readMap.publishedMap.length))

/-! ## One call -/

/-- Those enrolled are those of the register, and `written` is what was written so far. -/
structure Tallies (ps : PrioritySet τ) (r : Register) (written : List Event) : Prop where
  follows : ps.enrollment.Follows r
  events : ps.journal.events.map Event.bare = written

variable {written : List Event}

theorem Tallies.tells (h : ps.Tallies r written) (ht : Tells ps new qs) :
    qs.Tallies r (written ++ new) :=
  ⟨ht.enrollment ▸ h.follows, by rw [ht.events, h.events]⟩

variable [Quantity τ]

theorem levels_ensureLevel (ps : PrioritySet τ) (p : Nat) (factor? : Option Nat) :
    (ps.ensureLevel p factor?).enrollment.levels = ps.enrollment.levels ++
      List.replicate (p + 1 - ps.enrollment.levels.length)
        (Observers.add {} LevelObserver.forward).2 := by
  have hlength : ps.enrollment.levels.length = ps.levels.length := List.length_map _
  rw [hlength, ensureLevel]
  split
  · rename_i hp
    rw [Nat.sub_eq_zero_of_le hp, List.replicate_zero, List.append_nil]
  · simp only [enrollment, List.map_append, List.map_map]
    refine congrArg _ (List.eq_replicate_iff.2 ⟨by simp, fun o ho => ?_⟩)
    obtain ⟨i, _, rfl⟩ := List.mem_map.1 ho
    rfl

theorem enrollment_ensureLevel (ps : PrioritySet τ) (p : Nat) (factor? : Option Nat) :
    (ps.ensureLevel p factor?).enrollment =
      { ps.enrollment with
        levels := ps.enrollment.levels ++ List.replicate (p + 1 - ps.enrollment.levels.length)
          (Observers.add {} LevelObserver.forward).2 } := by
  rw [← levels_ensureLevel ps p factor?, ensureLevel]
  split <;> rfl

theorem follows_ensureLevel (h : ps.enrollment.Follows r) (p : Nat) (factor? : Option Nat) :
    (ps.ensureLevel p factor?).enrollment.Follows (r.grow p) := by
  obtain ⟨ho, hl⟩ := h
  rw [enrollment_ensureLevel]
  refine ⟨⟨ho.below, ho.single, ho.members, ho.priorities, fun q => ?_⟩,
    ⟨hl.next, hl.members, hl.priorities, ?_⟩⟩
  · have hq := ho.level q
    simp only [Enrollment.levelAt, List.getElem?_append, List.getElem?_replicate] at hq ⊢
    split
    · exact hq
    · rename_i hlt
      rw [List.getElem?_eq_none (Nat.le_of_not_lt hlt)] at hq
      split
      · exact hq.add_none rfl
      · exact hq
  · rw [Register.grow, ← hl.length_levels, List.map_append, List.map_append, hl.levels,
      List.map_replicate, List.map_replicate]
    rfl

theorem enrollment_install (ps : PrioritySet τ) (u : Update) :
    (ps.install u).enrollment = ps.enrollment := by
  refine Enrollment.ext rfl rfl rfl rfl (List.ext_getElem? fun i => ?_)
  simp only [enrollment, install, List.getElem?_map, List.getElem?_modify]
  cases ps.levels[i]? with
  | none => rfl
  | some l => by_cases hi : u.priority = i <;> simp [hi]

theorem tallies_put (h : ps.Tallies r written) (store : HostStore) (u : Update) :
    (ps.put store u).Tallies (r.grow u.priority)
      (written ++ r.reports u.priority u.added u.removed) := by
  let made := (ps.reindex store u).ensureLevel u.priority u.factor?
  have hreindexed : (ps.reindex store u).enrollment.Follows r := h.follows
  have hmade : made.enrollment.Follows (r.grow u.priority) :=
    follows_ensureLevel hreindexed u.priority u.factor?
  have hjournal : made.journal = ps.journal := journal_ensureLevel _ u.priority u.factor?
  have hinstalled : (made.install u).Tallies (r.grow u.priority) written := by
    refine ⟨(enrollment_install made u).symm ▸ hmade, ?_⟩
    rw [← h.events, ← hjournal]
    rfl
  have hp : u.priority < (made.install u).levels.length := by
    simp only [install, List.length_modify, made, length_ensureLevel]
    omega
  rw [← Register.reports_grow r u.priority]
  exact hinstalled.tells (tells_notifyLevel _ _ _ hinstalled.follows.lists hp)

theorem tallies_update (h : ps.Tallies r written) (store : HostStore) {u : Update}
    (hu : u.factor? ≠ some 0) :
    ∃ qs, ps.update store u = .done qs ∧ qs.Tallies (r.after (.update store u))
      (written ++ r.owes (.update store u)) := by
  have hput := tallies_put h store u
  refine ⟨(ps.put store u).notifyMembers u.added u.removed, ?_, ?_⟩
  · rw [update, putChecked, if_neg hu]
    rfl
  · have htold : Tells (ps.put store u) (r.summary u.added u.removed)
        ((ps.put store u).notifyMembers u.added u.removed) :=
      tells_notifyMembers (r := r.grow u.priority) u.added u.removed hput.follows.lists
    rw [Register.owes, ← List.append_assoc]
    exact hput.tells htold

theorem tallies_each (store : HostStore) {us : List Update} {b : Batch τ} {gained lost : List HostId}
    (h : b.priorities.Tallies r written) (hadded : b.added = gained.eraseDups)
    (hremoved : b.removed = lost.eraseDups) (hus : (us.map Update.priority).Nodup)
    (hfactor : ∀ u ∈ us, u.factor? ≠ some 0) (hnew : ∀ u ∈ us, u.priority ∉ b.touched) :
    ∃ b' : Batch τ, Attempt.each (fun u b => b.update store u) us b = .done b' ∧
      b'.added = (gained ++ us.flatMap Update.added).eraseDups ∧
      b'.removed = (lost ++ us.flatMap Update.removed).eraseDups ∧
      b'.priorities.Tallies (us.foldl (fun r u => r.grow u.priority) r)
        (written ++ us.flatMap fun u => r.reports u.priority u.added u.removed) := by
  induction us generalizing b r written gained lost with
  | nil => exact ⟨b, rfl, by simpa using hadded, by simpa using hremoved, by simpa using h⟩
  | cons u us ih =>
    obtain ⟨hfresh, hus⟩ := List.nodup_cons.1 hus
    have hput := tallies_put h store u
    let b₁ : Batch τ :=
      { priorities := b.priorities.put store u
        added := Batch.extend b.added u.added
        removed := Batch.extend b.removed u.removed
        touched := u.priority :: b.touched }
    have hupdate : b.update store u = .done b₁ := by
      rw [Batch.update, if_neg (hnew u List.mem_cons_self)]
      simp only [putChecked, if_neg (hfactor u List.mem_cons_self)]
      rfl
    have htouched : ∀ v ∈ us, v.priority ∉ b₁.touched := by
      intro v hv hin
      rcases List.mem_cons.1 hin with heq | hin
      · exact hfresh (List.mem_map.2 ⟨v, hv, heq⟩)
      · exact hnew v (List.mem_cons_of_mem u hv) hin
    obtain ⟨b', heach, hadded', hremoved', htallies⟩ := ih (b := b₁) hput
      ((congrArg (Batch.extend · u.added) hadded).trans (Batch.extend_eraseDups _ _))
      ((congrArg (Batch.extend · u.removed) hremoved).trans (Batch.extend_eraseDups _ _))
      hus (fun v hv => hfactor v (List.mem_cons_of_mem u hv)) htouched
    refine ⟨b', ?_, ?_, ?_, ?_⟩
    · rw [Attempt.each, hupdate]
      exact heach
    · rw [hadded', List.flatMap_cons, List.append_assoc]
    · rw [hremoved', List.flatMap_cons, List.append_assoc]
    · simpa only [List.flatMap_cons, List.append_assoc, Register.reports_grow, List.foldl_cons]
        using htallies

theorem tallies_batch (h : ps.Tallies r written) (store : HostStore) {us : List Update}
    (hus : (us.map Update.priority).Nodup) (hfactor : ∀ u ∈ us, u.factor? ≠ some 0) :
    ∃ qs, Batch.updateAll store us ps = .done qs ∧ qs.Tallies (r.after (.batch store us))
      (written ++ r.owes (.batch store us)) := by
  have hnone : (Batch.start ps).added = [].eraseDups ∧ (Batch.start ps).removed = [].eraseDups :=
    ⟨rfl, rfl⟩
  obtain ⟨b, heach, hadded, hremoved, htallies⟩ := tallies_each (b := .start ps) store h hnone.1
    hnone.2 hus hfactor (fun _ _ => List.not_mem_nil)
  rw [List.nil_append] at hadded hremoved
  refine ⟨b.finish, ?_, ?_⟩
  · rw [Batch.updateAll, heach]
    rfl
  · have htold := tells_notifyMembers b.netAdded b.netRemoved htallies.follows.lists
    have hnet : b.netAdded = Batch.net (us.flatMap Update.added) (us.flatMap Update.removed) ∧
        b.netRemoved = Batch.net (us.flatMap Update.removed) (us.flatMap Update.added) := by
      rw [Batch.netAdded, Batch.netRemoved, hadded, hremoved]
      exact ⟨Batch.without_eraseDups _ _, Batch.without_eraseDups _ _⟩
    rw [hnet.1, hnet.2, Register.summary_growAll] at htold
    have hfinish := htallies.tells htold
    rw [List.append_assoc] at hfinish
    rw [Batch.finish, hnet.1, hnet.2]
    exact hfinish

theorem tallies_perform (h : ps.Tallies r written) {c : Call} (hc : c.Proper) :
    ∃ qs, c.perform ps = .done qs ∧ qs.Tallies (r.after c) (written ++ r.owes c) := by
  have hquiet : ∀ {qs : PrioritySet τ} {r' : Register}, qs.enrollment.Follows r' →
      qs.journal = ps.journal → qs.Tallies r' (written ++ []) := fun hf hj =>
    ⟨hf, by rw [hj, h.events, List.append_nil]⟩
  cases c with
  | watchMembers => exact ⟨_, rfl, hquiet (follows_watchMembers h.follows) rfl⟩
  | watchPriorities => exact ⟨_, rfl, hquiet (follows_watchPriorities h.follows) rfl⟩
  | watchLevel p =>
    refine ⟨_, rfl, hquiet (follows_watchLevel h.follows p) ?_⟩
    rw [watchLevel]
    split <;> rfl
  | takeCensus => exact ⟨_, rfl, hquiet (follows_takeCensus h.follows) rfl⟩
  | unwatch n => exact ⟨_, rfl, hquiet (follows_dropWatch h.follows n) (journal_dropWatch ps n)⟩
  | getOrCreate p factor? =>
    have hfollows := follows_ensureLevel h.follows p factor?
    refine ⟨ps.ensureLevel p factor?, ?_, hquiet hfollows (journal_ensureLevel ps p factor?)⟩
    simp only [Call.perform, getOrCreate, if_neg (show factor? ≠ some 0 from hc)]
    split
    · rename_i hp
      rw [ensureLevel, if_pos hp]
    · rfl
  | update store u => exact tallies_update h store hc
  | batch store us => exact tallies_batch h store hc.1 hc.2

/-- The run writes what it owes after what is written already. -/
theorem tallies_run {calls : List Call} (hcalls : ∀ c ∈ calls, c.Proper) (h : ps.Tallies r written) :
    ∃ qs, Call.run calls ps = .done qs ∧
      qs.journal.events.map Event.bare = written ++ r.owed calls := by
  induction calls generalizing ps r written with
  | nil => exact ⟨ps, rfl, by rw [h.events, Register.owed, List.append_nil]⟩
  | cons c calls ih =>
    obtain ⟨qs, hdone, hqs⟩ := tallies_perform h (hcalls c List.mem_cons_self)
    obtain ⟨rs, hrun, hevents⟩ := ih (fun d hd => hcalls d (List.mem_cons_of_mem c hd)) hqs
    refine ⟨rs, ?_, by rw [hevents, Register.owed, List.append_assoc]⟩
    rw [Call.run, Attempt.each, hdone]
    exact hrun

/-- From a set without levels, indexed or not: every watch of all levels is told of each update once,
with its lists, in the order of the updates and of the registrations; a watch of the members is told
once of each update outside of batches, and once of each batch, of what it came to. -/
theorem events_run (index? : Option AddressIndex) {calls : List Call}
    (hcalls : ∀ c ∈ calls, c.Proper) :
    ∃ ps : PrioritySet τ, Call.run calls { index? } = .done ps ∧
      ps.journal.events.map Event.bare = Register.owed {} calls := by
  have hstart : ({ index? } : PrioritySet τ).Tallies {} [] := by
    refine ⟨⟨⟨by simp [enrollment], by simp [enrollment], ?_, ?_, fun p => ?_⟩,
      ⟨rfl, rfl, rfl, rfl⟩⟩, rfl⟩
    all_goals exact ⟨.empty, by simp [enrollment, Enrollment.levelAt]⟩
  exact tallies_run hcalls hstart

/-- Host 0 moves from level 0 to level 2 while host 1 comes twice; then a watch leaves. -/
def relocation : List Call :=
  [.watchPriorities, .watchMembers, .update {} { priority := 0, added := [0] }, .watchLevel 0,
    .batch {} [{ priority := 2, added := [1, 0, 1] }, { priority := 0, removed := [0] }],
    .unwatch 0, .update {} { priority := 0, removed := [0] }]

theorem events_relocation :
    ∃ ps : PrioritySet Rat, Call.run relocation { index? := some {} } = .done ps ∧
      ps.journal.events.map Event.bare =
        [.level 0 0 [0] [] {}, .members 1 [0] [] 0,
          .level 0 2 [1, 0, 1] [] {}, .level 0 0 [] [0] {}, .level 2 0 [] [0] {}, .members 1 [1] [] 0,
          .level 2 0 [] [0] {}, .members 1 [] [0] 0] :=
  events_run (some {}) (show ∀ c ∈ relocation, c.Proper by simp [relocation, Call.Proper])

end PrioritySet

end Roster
