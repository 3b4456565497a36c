import Roster.Yaml.Glyph

/-!
# Roster.Yaml.Scalar

The scalars of a document: plain ones and those in quotes.

* `Gap`                          — the blanks and line breaks between two words, and what they stand for.
* `singleQuoted`, `doubleQuoted` — what follows the opening quote.
* `plain`                        — a plain scalar from its first character on.

A reader returns the text with the characters left. A line feed inside a scalar is a space; of several
breaks in a row the first is dropped. No scalar goes on past the boundary of a document.
-/

namespace Roster.Yaml

/-! ## Gaps -/

/-- Blanks before the first break are kept until one comes; blanks after it are not. -/
structure Gap where
  blanks : List Char := []
  /-- The break that ends a line of text; none where that break is escaped. -/
  first? : Option Char := none
  more : List Char := []
  broken : Bool := false

namespace Gap

def escapedBreak : Gap := { broken := true }

def push (g : Gap) (c : Char) : Gap :=
  if isBreak c then
    if g.broken then { g with more := c :: g.more }
    else { first? := some c, broken := true }
  else if g.broken then g
  else { g with blanks := c :: g.blanks }

def isEmpty (g : Gap) : Bool :=
  g.blanks.isEmpty && !g.broken

/-- What a gap stands for, newest first. A lone line feed is a space. -/
def folded (g : Gap) : List Char :=
  if g.broken then
    match g.first? with
    | none => g.more
    | some '\n' => if g.more.isEmpty then [' '] else g.more
    | some c => g.more ++ [c]
  else g.blanks

end Gap

/-! ## Quoted scalars -/

def named? (c : Char) : Option Char :=
  match c with
  | '0' => some '\x00'
  | 'a' => some '\x07'
  | 'b' => some '\x08'
  | 't' => some '\t'
  | '\t' => some '\t'
  | 'n' => some '\n'
  | 'v' => some '\x0b'
  | 'f' => some '\x0c'
  | 'r' => some '\r'
  | 'e' => some '\x1b'
  | ' ' => some ' '
  | '"' => some '"'
  | '/' => some '/'
  | '\\' => some '\\'
  | 'N' => some '\u0085'
  | '_' => some '\u00a0'
  | 'L' => some '\u2028'
  | 'P' => some '\u2029'
  | _ => none

def codeWidth? (c : Char) : Option Nat :=
  match c with
  | 'x' => some 2
  | 'u' => some 4
  | 'U' => some 8
  | _ => none

/-- What a double-quoted scalar is in the middle of. -/
inductive Pending where
  | gap (g : Gap)
  | escape
  /-- So many digits are left of a code. -/
  | code (left value : Nat)

/-- `acc` holds the text so far, newest first. -/
def doubleQuoted : Pending → List Char → List Glyph → Option (String × List Glyph)
  | _, _, [] => none
  | .gap gap, acc, g :: gs =>
    if isSpace g.char then doubleQuoted (.gap (gap.push g.char)) acc gs
    else if boundaryAhead (g :: gs) then none
    else
      let acc := gap.folded ++ acc
      if g.char = '"' then some (String.ofList acc.reverse, gs)
      else if g.char = '\\' then doubleQuoted .escape acc gs
      else doubleQuoted (.gap {}) (g.char :: acc) gs
  | .escape, acc, g :: gs =>
    if isBreak g.char then doubleQuoted (.gap .escapedBreak) acc gs
    else
      match codeWidth? g.char, named? g.char with
      | some width, _ => doubleQuoted (.code width 0) acc gs
      | none, some c => doubleQuoted (.gap {}) (c :: acc) gs
      | none, none => none
  | .code left value, acc, g :: gs =>
    match Text.hexDigit? g.char with
    | none => none
    | some d =>
      let value := 16 * value + d
      if 1 < left then doubleQuoted (.code (left - 1) value) acc gs
      else if value.isValidChar then doubleQuoted (.gap {}) (Char.ofNat value :: acc) gs
      else none

/-- A quote inside the text is written twice. -/
def singleQuoted : Gap → List Char → List Glyph → Option (String × List Glyph)
  | _, _, [] => none
  | gap, acc, g :: gs =>
    if isSpace g.char then singleQuoted (gap.push g.char) acc gs
    else if boundaryAhead (g :: gs) then none
    else
      let acc := gap.folded ++ acc
      if g.char = '\'' then
        match gs with
        | h :: rest =>
          if h.char = '\'' then singleQuoted {} ('\'' :: acc) rest
          else some (String.ofList acc.reverse, gs)
        | [] => some (String.ofList acc.reverse, gs)
      else singleQuoted {} (g.char :: acc) gs

/-! ## Plain scalars -/

/-- What parts the items between brackets. -/
def isFlowMark (c : Char) : Bool :=
  c = ',' || c = '[' || c = ']' || c = '\x7b' || c = '\x7d'

def isReserved (c : Char) : Bool :=
  isFlowMark c || c = '#' || c = '&' || c = '*' || c = '!' || c = '|' || c = '>' || c = '\'' ||
    c = '"' || c = '%' || c = '@' || c = '\x60'

/-- What a plain scalar may begin with. -/
def startsPlain (inFlow : Bool) : List Glyph → Bool
  | [] => false
  | g :: gs =>
    if g.char = '-' then !spaceAhead gs
    else if g.char = '?' || g.char = ':' then !inFlow && !spaceAhead gs
    else !(isSpace g.char || isReserved g.char)

/-- A plain scalar, and whether a line break follows its text. Outside brackets it goes on only on lines
that reach `indent`, and a tab may not stand before that column. -/
structure Plain where
  text : String
  broken : Bool
  rest : List Glyph

def plain (inFlow : Bool) (indent : Int) : Gap → List Char → List Glyph → Option Plain
  | gap, acc, [] => some ⟨String.ofList acc.reverse, gap.broken, []⟩
  | gap, acc, g :: gs =>
    if isSpace g.char then
      if gap.broken && g.char = '\t' && g.column < indent then none
      else plain inFlow indent (gap.push g.char) acc gs
    else if !gap.isEmpty && ((!inFlow && g.column < indent) || boundaryAhead (g :: gs) || g.char = '#') then
      some ⟨String.ofList acc.reverse, gap.broken, g :: gs⟩
    else if inFlow && g.char = ':' && gs.head?.any (fun h => isFlowMark h.char || h.char = '?') then none
    else if (g.char = ':' && spaceAhead gs) || (inFlow && isFlowMark g.char) then
      some ⟨String.ofList acc.reverse, gap.broken, g :: gs⟩
    else plain inFlow indent {} (g.char :: (gap.folded ++ acc)) gs

end Roster.Yaml
