import Roster.PrioritySet

/-!
# Roster.PrioritySet.Readers

Readers that hold on to a generation while others are installed. All who hold one generation, its
level included while it is installed there, share its schedules.

* `hold`        — keeps the generation that is installed now.
* `chooseAt?`   — chooses from the generation installed at a level.
* `chooseHeld?` — chooses from a held generation.
-/

namespace Roster

structure Readers (τ : Type) where
  priorities : PrioritySet τ
  held : List (Generation τ) := []

namespace Readers

variable {τ : Type}

/-- Puts a generation whose schedules moved in the place of every copy of it. -/
def share (r : Readers τ) (g : Generation τ) : Readers τ :=
  { priorities :=
      { r.priorities with
        levels := r.priorities.levels.map fun l =>
          if l.generation.stamp = g.stamp then { l with generation := g } else l }
    held := r.held.map fun h => if h.stamp = g.stamp then g else h }

def hold (r : Readers τ) (p : Nat) : Readers τ :=
  match r.priorities.level? p with
  | none => r
  | some l => { r with held := r.held ++ [l.generation] }

/-- Whether a generation is the one installed at a level. -/
def isCurrent (r : Readers τ) (g : Generation τ) (p : Nat) : Bool :=
  match r.priorities.level? p with
  | none => false
  | some l => l.generation.stamp = g.stamp

variable [Quantity τ]

def chooseFrom (r : Readers τ) (g : Generation τ) (kind : Eligibility) (n : Nat) :
    Except Fault (List (Option Nat) × Readers τ) :=
  match Generation.chooseMany kind n g with
  | .error e => .error e
  | .ok (choices, g) => .ok (choices, r.share g)

def chooseAt? (r : Readers τ) (p : Nat) (kind : Eligibility) (n : Nat) :
    Option (Except Fault (List (Option Nat) × Readers τ)) :=
  (r.priorities.level? p).map fun l => r.chooseFrom l.generation kind n

def chooseHeld? (r : Readers τ) (i : Nat) (kind : Eligibility) (n : Nat) :
    Option (Except Fault (List (Option Nat) × Readers τ)) :=
  r.held[i]?.map fun g => r.chooseFrom g kind n

end Readers

end Roster
