import Roster.Yaml.Node
import Roster.Yaml.Token

/-!
# Roster.Yaml.Reader

Reading a document from its tokens: collections by indentation and in brackets, keys that are scalars.
A node that is left out is the empty plain scalar.

* `node`      — one node; the tokens returned are those behind it.
* `document?` — the one document of a text.
* `parse?`    — the same for a document that does not nest too deep.
-/

namespace Roster.Yaml

def blank : Yaml := .scalar true ""

def name? : Yaml → Option String
  | .scalar _ s => some s
  | _ => none

def comes (ts : List Token) (ends : List Token) : Bool :=
  ts.head?.any ends.contains

/-- The comma between two parts in brackets; none before the first part. -/
def separated? (first : Bool) (ts : List Token) : Option (List Token) :=
  if first then some ts
  else
    match ts with
    | .comma :: ts => some ts
    | _ => none

mutual

/-- Collections by indentation begin here when `block`; without a token of their own only where `flush`,
the items of a sequence that is as deep as its key. -/
def node : Nat → Bool → Bool → List Token → Option (Yaml × List Token)
  | 0, _, _, _ => none
  | fuel + 1, block, flush, ts =>
    match ts with
    | .scalar p s :: ts => some (.scalar p s, ts)
    | .flowSequence :: ts => flowItems fuel true [] ts
    | .flowMapping :: ts => flowEntries fuel true [] ts
    | .blockSequence :: ts => if block then items fuel [] ts else none
    | .blockMapping :: ts => if block then entries fuel [] ts else none
    | .item :: _ => if flush then flushItems fuel [] ts else none
    | _ => none

/-- A node that is left out where one of `ends` comes next. -/
def nodeUnless : Nat → Bool → Bool → List Token → List Token → Option (Yaml × List Token)
  | 0, _, _, _, _ => none
  | fuel + 1, block, flush, ends, ts =>
    if comes ts ends then some (blank, ts) else node fuel block flush ts

/-- The items of a sequence with a token of its own, newest first in `acc`. -/
def items : Nat → List Yaml → List Token → Option (Yaml × List Token)
  | 0, _, _ => none
  | fuel + 1, acc, ts =>
    match ts with
    | .item :: ts =>
      (nodeUnless fuel true false [.item, .blockEnd] ts).bind fun r => items fuel (r.1 :: acc) r.2
    | .blockEnd :: ts => some (.sequence acc.reverse, ts)
    | _ => none

def flushItems : Nat → List Yaml → List Token → Option (Yaml × List Token)
  | 0, _, _ => none
  | fuel + 1, acc, ts =>
    match ts with
    | .item :: ts =>
      (nodeUnless fuel true false [.item, .key, .value, .blockEnd] ts).bind fun r =>
        flushItems fuel (r.1 :: acc) r.2
    | ts => some (.sequence acc.reverse, ts)

/-- The value of a key: left out without a colon, or where one of `ends` comes next. -/
def valueUnless : Nat → Bool → List Token → List Token → Option (Yaml × List Token)
  | 0, _, _, _ => none
  | fuel + 1, block, ends, ts =>
    match ts with
    | .value :: ts => nodeUnless fuel block block ends ts
    | ts => some (blank, ts)

def entries : Nat → List (String × Yaml) → List Token → Option (Yaml × List Token)
  | 0, _, _ => none
  | fuel + 1, acc, ts =>
    match ts with
    | .key :: ts => do
      let (k, ts) ← nodeUnless fuel true true [.key, .value, .blockEnd] ts
      let (v, ts) ← valueUnless fuel true [.key, .value, .blockEnd] ts
      entries fuel ((← name? k, v) :: acc) ts
    | .blockEnd :: ts => some (.mapping acc.reverse, ts)
    | _ => none

/-- The key of a lone entry in a sequence. One that is left out takes the token behind it along. -/
def loneKey : Nat → List Token → Option (Yaml × List Token)
  | 0, _ => none
  | fuel + 1, ts =>
    if comes ts [.value, .comma, .flowSequenceEnd] then some (blank, ts.tail)
    else node fuel false false ts

def flowItems : Nat → Bool → List Yaml → List Token → Option (Yaml × List Token)
  | 0, _, _, _ => none
  | fuel + 1, first, acc, ts =>
    match ts with
    | .flowSequenceEnd :: ts => some (.sequence acc.reverse, ts)
    | ts =>
      match separated? first ts with
      | none => none
      | some (.flowSequenceEnd :: ts) => some (.sequence acc.reverse, ts)
      | some (.key :: ts) => do
        let (k, ts) ← loneKey fuel ts
        let (v, ts) ← valueUnless fuel false [.comma, .flowSequenceEnd] ts
        flowItems fuel false (.mapping [(← name? k, v)] :: acc) ts
      | some ts => do
        let (v, ts) ← node fuel false false ts
        flowItems fuel false (v :: acc) ts

def flowEntries : Nat → Bool → List (String × Yaml) → List Token → Option (Yaml × List Token)
  | 0, _, _, _ => none
  | fuel + 1, first, acc, ts =>
    match ts with
    | .flowMappingEnd :: ts => some (.mapping acc.reverse, ts)
    | ts =>
      match separated? first ts with
      | none => none
      | some (.flowMappingEnd :: ts) => some (.mapping acc.reverse, ts)
      | some (.key :: ts) => do
        let (k, ts) ← nodeUnless fuel false false [.value, .comma, .flowMappingEnd] ts
        let (v, ts) ← valueUnless fuel false [.comma, .flowMappingEnd] ts
        flowEntries fuel false ((← name? k, v) :: acc) ts
      | some ts => do
        let (k, ts) ← node fuel false false ts
        flowEntries fuel false ((← name? k, blank) :: acc) ts

end

/-! ## Documents -/

/-- Every call but one that takes a token is followed by one that does, or ends. -/
def fuelFor (ts : List Token) : Nat := 4 * ts.length + 4

def document? (ts : List Token) : Option Yaml :=
  let content :=
    match ts with
    | [] => none
    | .documentStart :: ts =>
      if ts.isEmpty || comes ts [.documentStart, .documentEnd] then some (blank, ts)
      else node (fuelFor ts) true false ts
    | ts => node (fuelFor ts) true false ts
  content.bind fun r => if r.2.all (· == .documentEnd) then some r.1 else none

def maxDepth : Nat := 128

def parse? (text : String) : Option Yaml :=
  (Token.scan? text).bind document? |>.filter fun y => y.depth ≤ maxDepth

end Roster.Yaml
