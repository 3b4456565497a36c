import Roster.Quantity

/-!
# Roster.Schedule

Weighted turns: each entry comes up in proportion to its weight, without bursts.

* `add`  — a new entry, due one period from now.
* `pick` — the entry due first, which is due again one period later.
* `peek` — the entry `pick` would give.

The queue is kept in the order the entries are due; entries due together keep the order in which they
were queued.
-/

namespace Roster

structure Turn (τ ε : Type) where
  deadline : τ
  order : Nat
  weight : τ
  entry : ε

structure Schedule (τ ε : Type) where
  queue : List (Turn τ ε)
  now : τ
  nextOrder : Nat

namespace Schedule

variable {τ ε : Type} [Quantity τ]

open Quantity

def empty : Schedule τ ε := ⟨[], ofNat 0, 0⟩

def size (s : Schedule τ ε) : Nat := s.queue.length

def isEmpty (s : Schedule τ ε) : Bool := s.queue.isEmpty

/-- Whether `a` is due before `b`. -/
def before (a b : Turn τ ε) : Bool :=
  (order a.deadline b.deadline).then (compare a.order b.order) = .lt

def insert (t : Turn τ ε) : List (Turn τ ε) → List (Turn τ ε)
  | [] => [t]
  | u :: rest => if before t u then t :: u :: rest else u :: insert t rest

def push (s : Schedule τ ε) (deadline weight : τ) (entry : ε) : Schedule τ ε :=
  { s with
    queue := insert ⟨deadline, s.nextOrder, weight, entry⟩ s.queue
    nextOrder := s.nextOrder + 1 }

/-- Adds an entry; its weight is positive. -/
def add (s : Schedule τ ε) (weight : τ) (entry : ε) : Schedule τ ε :=
  s.push (Quantity.add s.now (period weight)) weight entry

def pick (s : Schedule τ ε) : Option ((ε × τ) × Schedule τ ε) :=
  match s.queue with
  | [] => none
  | t :: rest =>
    let s := { s with queue := rest, now := t.deadline }
    some ((t.entry, t.weight),
      s.push (Quantity.add t.deadline (period t.weight)) t.weight t.entry)

def peek (s : Schedule τ ε) : Option ε :=
  s.queue.head?.map Turn.entry

def picks : Nat → Schedule τ ε → List (ε × τ) × Schedule τ ε
  | 0, s => ([], s)
  | n + 1, s =>
    match s.pick with
    | none => ([], s)
    | some (p, s) =>
      let r := picks n s
      (p :: r.1, r.2)

end Schedule

end Roster
