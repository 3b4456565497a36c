import Roster.Config.Format
import Roster.Text
import Roster.Binary64

/-!
# Roster.Yaml.Node

Documents of nested scalars, sequences and mappings, and what their scalars mean.

* `Yaml.resolve`  — a plain scalar as null, truth value, integer, double or text.
* `Yaml.depth`    — how deep collections nest.
* `Yaml.format`   — documents as a source of configurations. Text may be written in any style;
  numbers, truth values and null are plain. A sequence or mapping may be left empty.
-/

namespace Roster

inductive Yaml where
  | scalar (plain : Bool) (text : String)
  | sequence (items : List Yaml)
  | mapping (entries : List (String × Yaml))
deriving Inhabited

namespace Yaml

/-! ## Depth -/

mutual

def depth : Yaml → Nat
  | .scalar _ _ => 0
  | .sequence items => itemsDepth items + 1
  | .mapping entries => entriesDepth entries + 1

def itemsDepth : List Yaml → Nat
  | [] => 0
  | y :: rest => max (depth y) (itemsDepth rest)

def entriesDepth : List (String × Yaml) → Nat
  | [] => 0
  | (_, y) :: rest => max (depth y) (entriesDepth rest)

end

/-! ## Plain scalars -/

def isNullText (s : String) : Bool :=
  s = "null" || s = "Null" || s = "NULL" || s = "~"

def truth? (s : String) : Option Bool :=
  if s = "true" || s = "True" || s = "TRUE" then some true
  else if s = "false" || s = "False" || s = "FALSE" then some false
  else none

/-- The digits of a number in base `radix`, at least one. -/
def radixValue? (radix : Nat) (cs : List Char) : Option Nat :=
  match cs with
  | [] => none
  | cs => cs.foldl (fun n c => match n, Text.hexDigit? c with
      | some n, some d => if d < radix then some (radix * n + d) else none
      | _, _ => none) (some 0)

/-- A number with leading zeros is text. -/
def zeroPadded : List Char → Bool
  | '0' :: c :: cs => (c :: cs).all Char.isDigit
  | _ => false

/-- Digits in the base that a prefix names, or decimal digits. -/
def magnitude? : List Char → Option Nat
  | '0' :: 'x' :: cs => radixValue? 16 cs
  | '0' :: 'o' :: cs => radixValue? 8 cs
  | '0' :: 'b' :: cs => radixValue? 2 cs
  | cs => if zeroPadded cs then none else radixValue? 10 cs

def unsigned? : List Char → Option Nat
  | '+' :: cs => magnitude? cs
  | cs => magnitude? cs

def negative? : List Char → Option Nat
  | '-' :: cs => magnitude? cs
  | _ => none

/-- Decimal digits with an optional point, and their count after it. -/
def mantissa? (cs : List Char) : Option (Nat × Nat) :=
  match Text.split '.' cs with
  | [whole] => (Text.decimal? whole).map (·, 0)
  | [whole, frac] => (Text.decimal? (whole ++ frac)).map fun n => (n, frac.length)
  | _ => none

def signedDecimal? : List Char → Option Int
  | '+' :: cs => (Text.decimal? cs).map Int.ofNat
  | '-' :: cs => (Text.decimal? cs).map fun n => -(n : Int)
  | cs => (Text.decimal? cs).map Int.ofNat

def decimal? (cs : List Char) : Option UInt64 :=
  match cs.span fun c => !(c = 'e' || c = 'E') with
  | (m, []) =>
    (mantissa? m).bind fun p => Binary64.ofDecimal? p.1 (-(p.2 : Int))
  | (m, _ :: e) =>
    match mantissa? m, signedDecimal? e with
    | some p, some e => Binary64.ofDecimal? p.1 (e - p.2)
    | _, _ => none

def signBit : UInt64 := 0x8000000000000000

def float? : List Char → Option UInt64
  | '-' :: cs => (decimal? cs).map (· ||| signBit)
  | '+' :: cs => decimal? cs
  | cs => decimal? cs

def isInfinite (s : String) : Bool :=
  [".inf", ".Inf", ".INF", "+.inf", "+.Inf", "+.INF", "-.inf", "-.Inf", "-.INF"].contains s

def isNaN (s : String) : Bool :=
  [".nan", ".NaN", ".NAN"].contains s

/-- A value of free form holds no infinity and no NaN: they become null. An integer beyond 64 bits is
refused up to 128 bits and read as a double past that. -/
def resolve (s : String) : Option Json :=
  let cs := s.toList
  if s.isEmpty || isNullText s then some .null
  else
    match truth? s with
    | some b => some (.bool b)
    | none =>
      match unsigned? cs, negative? cs with
      | some n, _ =>
        if n < UInt64.size then some (.int n)
        else if n < 1 <<< 128 then none
        else some (ofFloat cs)
      | none, some n =>
        if n ≤ 1 <<< 63 then some (.int (-(n : Int)))
        else if n ≤ 1 <<< 127 then none
        else some (ofFloat cs)
      | none, none =>
        if isInfinite s || isNaN s then some .null
        else some (ofFloat cs)
where
  unsignedPart : List Char → List Char
    | '+' :: cs => cs
    | '-' :: cs => cs
    | cs => cs
  ofFloat (cs : List Char) : Json :=
    if zeroPadded (unsignedPart cs) then .str (String.ofList cs)
    else
      match float? cs with
      | some b => .float b
      | none => .str (String.ofList cs)

/-! ## As a source of configurations -/

mutual

def toJson? : Yaml → Option Json
  | .scalar true s => resolve s
  | .scalar false s => some (.str s)
  | .sequence items => (itemsToJson? items).map .arr
  | .mapping entries => (entriesToJson? entries).map Json.mkObj

def itemsToJson? : List Yaml → Option (List Json)
  | [] => some []
  | y :: rest =>
    match toJson? y, itemsToJson? rest with
    | some v, some vs => some (v :: vs)
    | _, _ => none

def entriesToJson? : List (String × Yaml) → Option (List (String × Json))
  | [] => some []
  | (k, y) :: rest =>
    match toJson? y, entriesToJson? rest with
    | some v, some vs => some ((k, v) :: vs)
    | _, _ => none

end

def format : Format Yaml where
  string?
    | .scalar _ s => some s
    | _ => none
  number?
    | .scalar true s =>
      match unsigned? s.toList with
      | some n => if n < UInt64.size then some n else none
      | none => none
    | _ => none
  flag?
    | .scalar true s => truth? s
    | _ => none
  choice?
    | .scalar _ s => some s
    | _ => none
  isNull
    | .scalar true s => s.isEmpty || isNullText s
    | _ => false
  list?
    | .sequence items => some items
    | .scalar true "" => some []
    | _ => none
  table?
    | .mapping entries => some entries
    | .scalar true "" => some []
    | _ => none
  fields?
    | _, .mapping entries => some entries
    | _, .scalar true "" => some []
    | _, _ => none
  value? := toJson?

end Yaml

end Roster
