/-!
# Roster.Observers

Those to be told of a change, in the order they registered. A registration is named by a token that
is never given twice.

* `add`       — registers and gives the token.
* `remove`    — ends a registration.
* `callbacks` — all that are registered now.
-/

namespace Roster

structure Observers (α : Type) where
  nextToken : Nat := 0
  entries : List (Nat × α) := []
deriving Inhabited

namespace Observers

variable {α : Type}

def add (o : Observers α) (a : α) : Nat × Observers α :=
  (o.nextToken, { nextToken := o.nextToken + 1, entries := o.entries ++ [(o.nextToken, a)] })

def remove (o : Observers α) (token : Nat) : Observers α :=
  { o with entries := o.entries.filter fun p => p.1 ≠ token }

def callbacks (o : Observers α) : List α :=
  o.entries.map (·.2)

def size (o : Observers α) : Nat := o.entries.length

def isEmpty (o : Observers α) : Bool := o.entries.isEmpty

/-- Every token given so far is below the next one, and none is given twice. -/
structure Fresh (o : Observers α) : Prop where
  below : ∀ p ∈ o.entries, p.1 < o.nextToken
  distinct : o.entries.Pairwise fun p q => p.1 < q.1

theorem Fresh.empty : Fresh ({} : Observers α) :=
  ⟨by simp, .nil⟩

theorem Fresh.add {o : Observers α} (h : o.Fresh) (a : α) : (o.add a).2.Fresh := by
  constructor
  · intro p hp
    simp only [Observers.add, List.mem_append, List.mem_singleton] at hp ⊢
    rcases hp with hp | hp
    · exact Nat.lt_succ_of_lt (h.below p hp)
    · subst hp; exact Nat.lt_succ_self _
  · simp only [Observers.add, List.pairwise_append, List.mem_singleton]
    refine ⟨h.distinct, List.pairwise_singleton _ _, ?_⟩
    intro p hp q hq
    subst hq
    exact h.below p hp

end Observers

end Roster
