import Roster.Grouping
import Roster.Schedule

/-!
# Roster.LocalityShare

How often each locality is chosen.

* `effectiveWeight` — the configured weight, scaled by the share of the locality's hosts that can
  serve, amplified by the overprovisioning factor and never above the configured weight.
* `schedule?`       — the localities of positive effective weight, in their order; `none` when there
  is nothing to choose from.
-/

namespace Roster.LocalityShare

variable {τ : Type} [Quantity τ] {α : Type}

open Quantity

/-- The part of a locality that can serve: `eligible` of `count` hosts, amplified by `factor`
percent. -/
def availability (eligible count factor : Nat) : τ :=
  atMostOne (mul (div (ofNat factor) (ofNat 100)) (div (ofNat eligible) (ofNat count)))

def effectiveWeight (eligible excluded all : Grouping α) (weights : List Nat) (factor i : Nat) : τ :=
  let count := all.sizeAt i - excluded.sizeAt i
  if count = 0 then ofNat 0
  else mul (ofNat (weights[i]?.getD 0)) (availability (eligible.sizeAt i) count factor)

/-- Adds the localities of positive effective weight among `is`. -/
def addEach (weight : Nat → τ) (s : Schedule τ Nat) : List Nat → Schedule τ Nat
  | [] => s
  | i :: rest =>
    addEach weight (if positive (weight i) then s.add (weight i) i else s) rest

def schedule? (eligible : Grouping α) (eligibleHosts : List α) (all excluded : Grouping α)
    (weights? : Option (List Nat)) (factor : Nat) : Option (Schedule τ Nat) :=
  match weights? with
  | none => none
  | some weights =>
    if weights = [] ∨ eligibleHosts.isEmpty then none
    else
      let s := addEach (effectiveWeight eligible excluded all weights factor) .empty
        (List.range all.size)
      if s.isEmpty then none else some s

end Roster.LocalityShare
