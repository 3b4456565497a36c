import Roster.Observers

/-!
# Roster.Observers.Scripted

Observers that change the list they are registered in while it fires.

* `Reaction` — what an observer does when it is called: ends registrations, then may add an observer.
* `Stage`    — the list, if it is still there, and the registrations whose handle is still held.
* `fire`     — calls those registered at the start, each once and in order.
-/

namespace Roster

inductive Reaction where
  | quiet (removes : List Nat)
  | spawning (removes : List Nat) (next : Reaction)
deriving Inhabited

def Reaction.removes : Reaction → List Nat
  | .quiet removes => removes
  | .spawning removes _ => removes

structure Stage where
  list? : Option (Observers (Nat × Reaction)) := some {}
  /-- Observers by number, with the token of each. -/
  handles : List (Nat × Nat) := []
  nextNumber : Nat := 0

namespace Stage

/-- Registers an observer under the next number; nothing once the list is gone. -/
def add (s : Stage) (r : Reaction) : Stage :=
  match s.list? with
  | none => s
  | some list =>
    let (token, list) := list.add (s.nextNumber, r)
    { list? := some list
      handles := s.handles ++ [(s.nextNumber, token)]
      nextNumber := s.nextNumber + 1 }

def holds (s : Stage) (number : Nat) : Bool :=
  (s.handles.lookup number).isSome

def drop (s : Stage) (number : Nat) : Stage :=
  match s.handles.lookup number with
  | none => s
  | some token =>
    { s with
      list? := s.list?.map (·.remove token)
      handles := s.handles.filter fun p => p.1 ≠ number }

def dropAll (s : Stage) (numbers : List Nat) : Stage :=
  numbers.foldl drop s

def react (s : Stage) (r : Reaction) : Stage :=
  match r with
  | .quiet removes => s.dropAll removes
  | .spawning removes next => (s.dropAll removes).add next

def run (s : Stage) : List (Nat × Reaction) → List Nat × Stage
  | [] => ([], s)
  | (number, r) :: rest =>
    let called := run (s.react r) rest
    (number :: called.1, called.2)

def fire (s : Stage) : List Nat × Stage :=
  match s.list? with
  | none => ([], s)
  | some list => s.run list.callbacks

def dropList (s : Stage) : Stage :=
  { s with list? := none }

end Stage

end Roster
