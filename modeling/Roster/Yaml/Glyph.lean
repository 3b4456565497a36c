import Roster.Text

/-!
# Roster.Yaml.Glyph

The characters of a document, each with its place.

* `Glyph.ofText?` — a text with one kind of line feed; refuses control characters.
* `spaceAhead`    — a blank, a line break, or the end comes next.
* `markerAhead`   — a line of three dashes or points comes next, which parts documents.
-/

namespace Roster.Yaml

structure Glyph where
  char : Char
  line : Nat
  column : Nat
  /-- Bytes before it on its line. -/
  offset : Nat
deriving Repr, DecidableEq

def isBlank (c : Char) : Bool :=
  c = ' ' || c = '\t'

/-- A line feed or one of the two separators of lines and paragraphs, which stay what they are. -/
def isBreak (c : Char) : Bool :=
  c = '\n' || c = '\u2028' || c = '\u2029'

def isSpace (c : Char) : Bool :=
  isBlank c || isBreak c

def byteOrderMark : Char := '\ufeff'

def permitted (c : Char) : Bool :=
  let n := c.toNat
  n = 0x09 || n = 0x0a || n = 0x0d || (0x20 ≤ n && n ≤ 0x7e) || n = 0x85 ||
    (0xa0 ≤ n && n ≤ 0xd7ff) || (0xe000 ≤ n && n ≤ 0xfffd) || 0x10000 ≤ n

/-- Carriage returns, alone or before a line feed, and next lines become line feeds. -/
def unifyBreaks : List Char → List Char
  | '\r' :: '\n' :: cs => '\n' :: unifyBreaks cs
  | '\r' :: cs => '\n' :: unifyBreaks cs
  | '\u0085' :: cs => '\n' :: unifyBreaks cs
  | c :: cs => c :: unifyBreaks cs
  | [] => []

namespace Glyph

def place (line column offset : Nat) : List Char → List Glyph
  | [] => []
  | c :: cs =>
    ⟨c, line, column, offset⟩ ::
      if isBreak c then place (line + 1) 0 0 cs
      else place line (column + 1) (offset + c.utf8Size) cs

def ofText? (text : String) : Option (List Glyph) :=
  let cs := text.toList
  if cs.all permitted then some (place 0 0 0 (unifyBreaks cs)) else none

end Glyph

def spaceAhead : List Glyph → Bool
  | [] => true
  | g :: _ => isSpace g.char

def ahead : List Char → List Glyph → Bool
  | [], _ => true
  | _, [] => false
  | c :: cs, g :: gs => g.char = c && ahead cs gs

def markerAhead (gs : List Glyph) (c : Char) : Bool :=
  gs.head?.any (·.column = 0) && ahead [c, c, c] gs && spaceAhead (gs.drop 3)

def boundaryAhead (gs : List Glyph) : Bool :=
  markerAhead gs '-' || markerAhead gs '.'

end Roster.Yaml
