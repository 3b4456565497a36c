import Mathlib.Data.List.Range
import Roster.Observers.Scripted

/-!
# Roster.Proofs.Firing

Who is called when a list of observers fires. Observers may register others and end any registration
while they are called, so nothing is assumed of what they do.

* `Move`     — what is done with a list, between firings or by an observer that is called.
* `fireWith` — a firing in which every observer makes the moves it likes; `fire` is one.
* `trace`    — the moves of a history in the order they were made.
* `Record`   — who was added and whose handle was dropped, as plain lists.
* `Record.stage` — the list and the handles that belong to a record; there is nothing else in a stage.
* `stage_move`, `stage_moveAll` — every move leads from the stage of a record to that of the next.
* `fires_registered` — so what is registered, and called by a firing, is read off the record.
-/

namespace Roster

namespace Stage

/-! ## Histories -/

inductive Move where
  | add (r : Reaction)
  | drop (number : Nat)
  | dropList

def move (s : Stage) : Move → Stage
  | .add r => s.add r
  | .drop number => s.drop number
  | .dropList => s.dropList

def moveAll (s : Stage) (ms : List Move) : Stage := ms.foldl move s

/-- Calls observers in order, each of which makes its moves; gives those called. -/
def call (does : Nat × Reaction → List Move) (s : Stage) :
    List (Nat × Reaction) → List (Nat × Reaction) × Stage
  | [] => ([], s)
  | observer :: rest =>
    let called := call does (s.moveAll (does observer)) rest
    (observer :: called.1, called.2)

def fireWith (does : Nat × Reaction → List Move) (s : Stage) : List (Nat × Reaction) × Stage :=
  match s.list? with
  | none => ([], s)
  | some list => s.call does list.callbacks

inductive Step where
  | move (m : Move)
  | fire (does : Nat × Reaction → List Move)

def step (s : Stage) : Step → Stage
  | .move m => s.move m
  | .fire does => (s.fireWith does).2

def play (s : Stage) (steps : List Step) : Stage := steps.foldl step s

/-- The moves of a step; those of a firing are made by the observers it calls. -/
def moves (s : Stage) : Step → List Move
  | .move m => [m]
  | .fire does => (s.fireWith does).1.flatMap does

def trace (s : Stage) : List Step → List Move
  | [] => []
  | st :: rest => s.moves st ++ trace (s.step st) rest

end Stage

def Reaction.moves : Reaction → List Stage.Move
  | .quiet removes => removes.map .drop
  | .spawning removes next => removes.map .drop ++ [.add next]

namespace Stage

theorem dropAll_eq (s : Stage) (numbers : List Nat) :
    s.dropAll numbers = s.moveAll (numbers.map .drop) := by
  rw [dropAll, moveAll, List.foldl_map]
  rfl

theorem react_eq (s : Stage) (r : Reaction) : s.react r = s.moveAll r.moves := by
  cases r with
  | quiet removes => exact s.dropAll_eq removes
  | spawning removes next =>
    rw [react, dropAll_eq, Reaction.moves, moveAll, moveAll, List.foldl_append]
    rfl

theorem run_eq (s : Stage) (observers : List (Nat × Reaction)) :
    s.run observers =
      ((s.call (fun o => o.2.moves) observers).1.map Prod.fst,
        (s.call (fun o => o.2.moves) observers).2) := by
  induction observers generalizing s with
  | nil => rfl
  | cons o observers ih =>
    simp only [run, call, List.map_cons, react_eq, ih]

/-- A firing of scripted observers is one where each makes the moves of its script. -/
theorem fire_eq (s : Stage) :
    s.fire = ((s.fireWith fun o => o.2.moves).1.map Prod.fst, (s.fireWith fun o => o.2.moves).2) := by
  rw [fire, fireWith]
  cases s.list? with
  | none => rfl
  | some list => exact s.run_eq list.callbacks

theorem call_fst (does : Nat × Reaction → List Move) (s : Stage) (observers : List (Nat × Reaction)) :
    (s.call does observers).1 = observers := by
  induction observers generalizing s with
  | nil => rfl
  | cons o observers ih => exact congrArg (o :: ·) (ih _)

/-- A firing calls the observers that are registered when it starts, whatever they do. -/
theorem fireWith_fst (does : Nat × Reaction → List Move) (s : Stage) :
    (s.fireWith does).1 = (s.list?.map Observers.callbacks).getD [] := by
  rw [fireWith]
  cases s.list? with
  | none => rfl
  | some list => exact call_fst does s list.callbacks

theorem call_snd (does : Nat × Reaction → List Move) (s : Stage) (observers : List (Nat × Reaction)) :
    (s.call does observers).2 = s.moveAll (observers.flatMap does) := by
  induction observers generalizing s with
  | nil => rfl
  | cons o observers ih =>
    rw [List.flatMap_cons, moveAll, List.foldl_append]
    exact ih _

theorem step_eq (s : Stage) (st : Step) : s.step st = s.moveAll (s.moves st) := by
  cases st with
  | move m => rfl
  | fire does =>
    rw [moves, fireWith_fst, step, fireWith]
    cases s.list? with
    | none => rfl
    | some list => exact call_snd does s list.callbacks

theorem play_eq (s : Stage) (steps : List Step) : s.play steps = s.moveAll (s.trace steps) := by
  induction steps generalizing s with
  | nil => rfl
  | cons st steps ih =>
    refine (ih (s.step st)).trans ?_
    rw [trace, moveAll, moveAll, List.foldl_append, step_eq]
    rfl

end Stage

/-! ## Records -/

/-- The observers that were added, in order, and the numbers of those whose handle was dropped. -/
structure Record where
  added : List Reaction := []
  dropped : List Nat := []
  gone : Bool := false
  known : ∀ n ∈ dropped, n < added.length

namespace Record

def blank : Record where
  known := List.forall_mem_nil _

def held (r : Record) : List Nat :=
  (List.range r.added.length).filter fun n => n ∉ r.dropped

/-- The observers whose handle was not dropped, with their numbers, in the order they were added. -/
def live (r : Record) : List (Nat × Reaction) :=
  (r.added.mapIdx fun n c => (n, c)).filter fun o => o.1 ∉ r.dropped

def add (r : Record) (c : Reaction) : Record :=
  if r.gone then r
  else
    { r with
      added := r.added ++ [c]
      known := fun n hn => by
        rw [List.length_append]
        exact Nat.lt_add_right _ (r.known n hn) }

def drop (r : Record) (number : Nat) : Record :=
  if h : number < r.added.length then
    { r with
      dropped := number :: r.dropped
      known := List.forall_mem_cons.2 ⟨h, r.known⟩ }
  else r

def note (r : Record) : Stage.Move → Record
  | .add c => r.add c
  | .drop number => r.drop number
  | .dropList => { r with gone := true }

def noteAll (r : Record) (ms : List Stage.Move) : Record := ms.foldl note r

/-- Numbers and tokens are given together, so that they are the same. -/
def stage (r : Record) : Stage where
  list? :=
    if r.gone then none
    else some { nextToken := r.added.length, entries := r.live.map fun o => (o.1, o) }
  handles := r.held.map fun n => (n, n)
  nextNumber := r.added.length

/-! ## Moves -/

variable {r : Record} {n : Nat}

theorem held_eq (r : Record) : r.live.map Prod.fst = r.held := by
  have hnumbers : (r.added.mapIdx fun n c => (n, c)).map Prod.fst = List.range r.added.length := by
    rw [List.mapIdx_eq_zipIdx_map, List.map_map, List.range_eq_range']
    exact List.zipIdx_map_snd 0 r.added
  rw [live, held, ← hnumbers, List.filter_map]
  rfl

theorem mem_held : n ∈ r.held ↔ n < r.added.length ∧ n ∉ r.dropped := by
  simp [held]

theorem pairwise_held (r : Record) : r.held.Pairwise (· < ·) :=
  List.pairwise_lt_range.filter _

theorem lookup_handles (r : Record) (n : Nat) :
    r.stage.handles.lookup n = if n ∈ r.held then some n else none := by
  have hlookup : ∀ ns : List Nat,
      (ns.map fun n => (n, n)).lookup n = if n ∈ ns then some n else none := by
    intro ns
    induction ns with
    | nil => rfl
    | cons m ns ih =>
      by_cases h : n = m
      · simp [h]
      · rw [List.map_cons, List.lookup_cons, beq_false_of_ne h, ih]
        simp [h]
  exact hlookup r.held

theorem live_add (h : r.gone = false) (c : Reaction) :
    (r.add c).live = r.live ++ [(r.added.length, c)] := by
  have hnew : r.added.length ∉ r.dropped := fun hm => Nat.lt_irrefl _ (r.known _ hm)
  simp [live, add, h, List.mapIdx_concat, hnew]

theorem held_add (h : r.gone = false) (c : Reaction) :
    (r.add c).held = r.held ++ [r.added.length] := by
  rw [← held_eq, live_add h, List.map_append, held_eq]
  rfl

theorem live_drop (r : Record) (n : Nat) : (r.drop n).live = r.live.filter fun o => o.1 ≠ n := by
  rw [drop]
  split
  case isTrue =>
    simp only [live, List.filter_filter, List.mem_cons, not_or]
    refine List.filter_congr fun o _ => ?_
    simp
  case isFalse hn =>
    refine (List.filter_eq_self.2 fun o ho => ?_).symm
    have hheld : o.1 ∈ r.held := held_eq r ▸ List.mem_map_of_mem ho
    simpa using fun heq : o.1 = n => hn (heq ▸ (mem_held.1 hheld).1)

theorem held_drop (r : Record) (n : Nat) : (r.drop n).held = r.held.filter fun m => m ≠ n := by
  rw [← held_eq, live_drop, ← held_eq, List.filter_map]
  rfl

theorem length_drop (r : Record) (n : Nat) : (r.drop n).added = r.added := by
  rw [drop]
  split <;> rfl

theorem gone_drop (r : Record) (n : Nat) : (r.drop n).gone = r.gone := by
  rw [drop]
  split <;> rfl

theorem stage_add (r : Record) (c : Reaction) : (r.add c).stage = r.stage.add c := by
  cases h : r.gone with
  | true =>
    have hadd : r.add c = r := by rw [add, if_pos h]
    simp [hadd, Stage.add, stage, h]
  | false =>
    have hgone : (r.add c).gone = false := by simp [add, h]
    have hlength : (r.add c).added.length = r.added.length + 1 := by simp [add, h]
    simp [Stage.add, stage, h, hgone, hlength, live_add h, held_add h, Observers.add]

theorem stage_drop (r : Record) (n : Nat) : (r.drop n).stage = r.stage.drop n := by
  have hlist : (r.drop n).stage.list? = r.stage.list?.map (·.remove n) := by
    simp only [stage, gone_drop, length_drop, live_drop]
    cases r.gone with
    | true => rfl
    | false => simp [Observers.remove, List.filter_map, Function.comp_def]
  have hhandles : (r.drop n).stage.handles = r.stage.handles.filter fun p => p.1 ≠ n := by
    simp [stage, held_drop, List.filter_map, Function.comp_def]
  rw [Stage.drop, lookup_handles]
  by_cases hn : n ∈ r.held
  · simp only [if_pos hn, ← hlist, ← hhandles]
    simp only [stage, length_drop]
  · have hsame : r.held.filter (fun m => m ≠ n) = r.held :=
      List.filter_eq_self.2 fun m hm => by simpa using fun heq : m = n => hn (heq ▸ hm)
    have hlive : (r.live.filter fun o => o.1 ≠ n) = r.live :=
      List.filter_eq_self.2 fun o ho => by
        simpa using fun heq : o.1 = n => hn (heq ▸ held_eq r ▸ List.mem_map_of_mem ho)
    rw [if_neg hn]
    simp only [stage, gone_drop, length_drop, live_drop, held_drop, hsame, hlive]

/-- Every move leads from the stage of a record to that of the next. -/
theorem stage_move (r : Record) (m : Stage.Move) : (r.note m).stage = r.stage.move m := by
  cases m with
  | add c => exact r.stage_add c
  | drop n => exact r.stage_drop n
  | dropList => rfl

theorem stage_moveAll (r : Record) (ms : List Stage.Move) :
    (r.noteAll ms).stage = r.stage.moveAll ms := by
  induction ms generalizing r with
  | nil => rfl
  | cons m ms ih =>
    refine (ih (r.note m)).trans ?_
    rw [stage_move]
    rfl

theorem callbacks_stage (r : Record) :
    r.stage.list?.map Observers.callbacks = if r.gone then none else some r.live := by
  cases h : r.gone <;> simp [stage, h, Observers.callbacks, Function.comp_def]

theorem holds_stage (r : Record) (n : Nat) : r.stage.holds n = true ↔ n ∈ r.held := by
  rw [Stage.holds, lookup_handles]
  split
  case isTrue h => simp [h]
  case isFalse h => simp [h]

end Record

/-! ## Firings -/

/-- After any history, those registered are the observers that were added whose handle was not dropped,
in the order they were added, as long as there is the list. A firing calls just these, each once and in
that order, whatever moves they make meanwhile, and in particular when each goes by its script. To drop
a handle ends its own registration and leaves every other one and its handle, with the list or without. -/
theorem Stage.fires_registered (steps : List Step) :
    let s := play {} steps
    let r := Record.blank.noteAll (trace {} steps)
    (s.list?.map Observers.callbacks = if r.gone then none else some r.live) ∧
    (r.live.map Prod.fst).Pairwise (· < ·) ∧
    (∀ n, s.holds n = true ↔ n < r.added.length ∧ n ∉ r.dropped) ∧
    (∀ does, (s.fireWith does).1 = (s.list?.map Observers.callbacks).getD []) ∧
    (s.fire.1 = ((s.list?.map Observers.callbacks).getD []).map Prod.fst ∧
      s.fire.2 = s.step (.fire fun o => o.2.moves)) ∧
    ∀ n, (s.drop n).list?.map Observers.callbacks =
        s.list?.map (fun list => list.callbacks.filter fun o => o.1 ≠ n) ∧
      (s.drop n).holds n = false ∧ ∀ m, m ≠ n → (s.drop n).holds m = s.holds m := by
  intro s r
  have hs : s = r.stage := (play_eq {} steps).trans (Record.stage_moveAll .blank _).symm
  have hfire := fire_eq s
  refine ⟨hs ▸ r.callbacks_stage, r.held_eq ▸ r.pairwise_held, fun n => ?_,
    fun does => fireWith_fst does s, ⟨?_, ?_⟩, fun n => ⟨?_, ?_, fun m hm => ?_⟩⟩
  · rw [hs, r.holds_stage, Record.mem_held]
  · rw [hfire, fireWith_fst]
  · rw [hfire]
    rfl
  · rw [hs, ← r.stage_drop, Record.callbacks_stage, Record.gone_drop, Record.live_drop]
    cases h : r.gone <;> simp [Record.stage, h, Observers.callbacks, Function.comp_def]
  · rw [hs, ← r.stage_drop, Bool.eq_false_iff]
    simp [Record.holds_stage, Record.held_drop]
  · rw [hs, ← r.stage_drop, Bool.eq_iff_iff, Record.holds_stage, Record.holds_stage,
      Record.held_drop]
    simp [hm]

namespace Stage

/-- Two observers; the first ends both registrations when it is called and adds a third observer. -/
def parting : List Step :=
  [.move (.add (.spawning [0, 1] (.quiet []))), .move (.add (.quiet []))]

theorem fires_registered_parting :
    (play {} parting).fire.1 = [0, 1] ∧
      (play {} (parting ++ [.fire fun o => o.2.moves])).list?.map Observers.callbacks =
        some [(2, .quiet [])] ∧
      ((play {} parting).drop 0).holds 1 = true := by
  obtain ⟨-, -, -, -, hscript, hdrop⟩ := fires_registered parting
  have hlater := (fires_registered (parting ++ [.fire fun o => o.2.moves])).1
  exact ⟨hscript.1.trans rfl, hlater.trans rfl, ((hdrop 0).2.2 1 (by decide)).trans rfl⟩

end Stage

end Roster
