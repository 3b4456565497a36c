import Roster.Json.Value

/-!
# Roster.Config.Format

What a configuration is read from.

* `Format ν`    — how documents of type `ν` show text, numbers, lists and records.
* `Format.json` — values of free form. A record may be written as the list of its first fields.
* `Format.record` — the fields of a record, none unknown and none twice.
* `required`, `optional`, `withDefault` — one field of a record.
-/

namespace Roster

structure Format (ν : Type) where
  string? : ν → Option String
  number? : ν → Option Nat
  flag? : ν → Option Bool
  /-- The name of an alternative that carries nothing. -/
  choice? : ν → Option String
  isNull : ν → Bool
  list? : ν → Option (List ν)
  /-- Any keys, as written; of two equal ones the later counts. -/
  table? : ν → Option (List (String × ν))
  /-- The fields as written, given the names of all fields in their order. -/
  fields? : List String → ν → Option (List (String × ν))
  value? : ν → Option Json

namespace Format

def json : Format Json where
  string?
    | .str s => some s
    | _ => none
  number?
    | .int (.ofNat n) => some n
    | _ => none
  flag?
    | .bool b => some b
    | _ => none
  choice?
    | .str s => some s
    | .obj [(s, .null)] => some s
    | _ => none
  isNull
    | .null => true
    | _ => false
  list?
    | .arr items => some items
    | _ => none
  table?
    | .obj fields => some fields
    | _ => none
  fields?
    | _, .obj fields => some fields
    | names, .arr items => if items.length ≤ names.length then some (names.zip items) else none
    | _, _ => none
  value? := some

variable {ν α : Type}

def distinct : List String → Bool
  | [] => true
  | n :: rest => !rest.contains n && distinct rest

def record (f : Format ν) (names : List String) (v : ν) : Option (List (String × ν)) :=
  match f.fields? names v with
  | none => none
  | some fields =>
    if fields.all (fun p => names.contains p.1) && distinct (fields.map (·.1)) then some fields
    else none

def required (fields : List (String × ν)) (name : String) (read : ν → Option α) : Option α :=
  match fields.lookup name with
  | none => none
  | some v => read v

def withDefault (fields : List (String × ν)) (name : String) (default : α) (read : ν → Option α) :
    Option α :=
  match fields.lookup name with
  | none => some default
  | some v => read v

/-- A field that may be missing or null. -/
def optional (f : Format ν) (fields : List (String × ν)) (name : String) (read : ν → Option α) :
    Option (Option α) :=
  match fields.lookup name with
  | none => some none
  | some v => if f.isNull v then some none else (read v).map some

/-- A number up to `bound`. -/
def bounded? (f : Format ν) (bound : Nat) (v : ν) : Option Nat :=
  match f.number? v with
  | none => none
  | some n => if n ≤ bound then some n else none

def each (read : ν → Option α) : List ν → Option (List α)
  | [] => some []
  | v :: rest =>
    match read v, each read rest with
    | some a, some as => some (a :: as)
    | _, _ => none

def listOf (f : Format ν) (read : ν → Option α) (v : ν) : Option (List α) :=
  match f.list? v with
  | none => none
  | some items => each read items

end Format

end Roster
