import Roster.Json.Value
import Roster.Binary64

/-!
# Roster.Json.Printer

The text of a value, on one line and without spaces.

* `quoted`    — a string literal; control characters, quote and backslash are escaped.
* `floatText` — a double: positional while the point falls within sixteen places, else with an
  exponent, and never without a point or an exponent.
* `Json.text` — a whole value.
-/

namespace Roster.Json

def hexDigits (n width : Nat) : String :=
  let ds := Nat.toDigits 16 n
  String.ofList (List.replicate (width - ds.length) '0' ++ ds)

def escaped (c : Char) : String :=
  match c with
  | '"' => "\\\""
  | '\\' => "\\\\"
  | '\n' => "\\n"
  | '\r' => "\\r"
  | '\t' => "\\t"
  | '\x08' => "\\b"
  | '\x0c' => "\\f"
  | c => if c.toNat < 0x20 then "\\u" ++ hexDigits c.toNat 4 else c.toString

def quoted (s : String) : String :=
  s.foldl (fun acc c => acc ++ escaped c) "\"" ++ "\""

def zeros (n : Int) : String :=
  String.ofList (List.replicate n.toNat '0')

/-- Digits `ds` followed by `k` decimal places to the right (to the left when negative). -/
def decimalText (ds : List Char) (k : Int) : String :=
  let point : Int := ds.length + k
  if 0 ≤ k ∧ point ≤ 16 then String.ofList ds ++ zeros k ++ ".0"
  else if 0 < point ∧ point ≤ 16 then
    String.ofList (ds.take point.toNat) ++ "." ++ String.ofList (ds.drop point.toNat)
  else if -5 < point ∧ point ≤ 0 then "0." ++ zeros (-point) ++ String.ofList ds
  else
    match ds with
    | [] => "0.0"
    | [d] => String.ofList [d] ++ "e" ++ toString (point - 1)
    | d :: rest => String.ofList [d] ++ "." ++ String.ofList rest ++ "e" ++ toString (point - 1)

def floatText (bits : UInt64) : String :=
  let dk := Binary64.shortest bits
  (if Binary64.negative bits then "-" else "") ++ decimalText (Nat.toDigits 10 dk.1) dk.2

def separated : List String → String
  | [] => ""
  | [s] => s
  | s :: rest => rest.foldl (fun acc t => acc ++ "," ++ t) s

mutual

def text : Json → String
  | .null => "null"
  | .bool true => "true"
  | .bool false => "false"
  | .int n => toString n
  | .float bits => floatText bits
  | .str s => quoted s
  | .arr items => "[" ++ separated (itemTexts items) ++ "]"
  | .obj fields => "\x7b" ++ separated (fieldTexts fields) ++ "\x7d"

def itemTexts : List Json → List String
  | [] => []
  | v :: rest => text v :: itemTexts rest

def fieldTexts : List (String × Json) → List String
  | [] => []
  | (k, v) :: rest => (quoted k ++ ":" ++ text v) :: fieldTexts rest

end

end Roster.Json
