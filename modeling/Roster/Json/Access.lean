import Roster.Json.Value

/-!
# Roster.Json.Access

Looking into values: a field that is missing reads as null, and a value of another kind as the empty
value of the kind that was asked for.
-/

namespace Roster.Json

def field? (v : Json) (name : String) : Option Json :=
  match v with
  | .obj fields => fields.lookup name
  | _ => none

def field (v : Json) (name : String) : Json :=
  (v.field? name).getD .null

def isNull : Json → Bool
  | .null => true
  | _ => false

/-- A field that is there and not null. -/
def given? (v : Json) (name : String) : Option Json :=
  (v.field? name).filter fun x => !x.isNull

def asString : Json → String
  | .str s => s
  | _ => ""

def asNat? : Json → Option Nat
  | .int (.ofNat n) => some n
  | _ => none

def asNat (v : Json) : Nat := v.asNat?.getD 0

def asFlag (v : Json) : Bool := v.asBool?.getD false

def asList : Json → List Json
  | .arr items => items
  | _ => []

def asNats (v : Json) : List Nat := v.asList.map asNat

def nat (n : Nat) : Json := .int n

def nats (ns : List Nat) : Json := .arr (ns.map nat)

def orNull {α : Type} (f : α → Json) : Option α → Json
  | none => .null
  | some a => f a

end Roster.Json
