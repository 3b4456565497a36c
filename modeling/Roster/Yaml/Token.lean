import Roster.Yaml.Scalar

/-!
# Roster.Yaml.Token

The tokens of a document. Indentation becomes tokens that open and close collections. A key is known
only by the colon behind it, so the place where one may have begun is remembered and its token put
there later.

* `Scanner`     — the characters left, the tokens so far, and what may come next.
* `Scanner.token` — one token more.
* `Token.scan?` — all tokens of a text. Anchors, aliases, tags, directives and block scalars are
  refused.
-/

namespace Roster.Yaml

inductive Token where
  | documentStart
  | documentEnd
  | blockSequence
  | blockMapping
  | blockEnd
  | item
  | key
  | value
  | flowSequence
  | flowSequenceEnd
  | flowMapping
  | flowMappingEnd
  | comma
  | scalar (isPlain : Bool) (text : String)
deriving Repr, DecidableEq

/-- Where a key may have begun. -/
structure KeyPlace where
  line : Nat
  column : Nat
  offset : Nat
  /-- The tokens before it. -/
  before : Nat
  /-- Nothing but a key may stand there. -/
  required : Bool

structure Scanner where
  ahead : List Glyph
  tokens : Array Token := #[]
  keyAllowed : Bool := true
  /-- The column of the innermost collection written by indentation. -/
  indent : Int := -1
  outer : List Int := []
  key? : Option KeyPlace := none
  /-- The places of keys around each open bracket. -/
  outerKeys : List (Option KeyPlace) := []

namespace Scanner

def inFlow (s : Scanner) : Bool :=
  !s.outerKeys.isEmpty

def emit (s : Scanner) (t : Token) : Scanner :=
  { s with tokens := s.tokens.push t }

def insertAt (s : Scanner) (n : Nat) (t : Token) : Scanner :=
  { s with tokens := s.tokens.extract 0 n ++ #[t] ++ s.tokens.extract n }

/-! ## Between tokens -/

/-- Passes blanks, comments and line breaks, and a byte order mark at the start of a line. A new line
allows a key; where a key is allowed outside brackets, a tab is no blank. -/
def skip (inFlow : Bool) (inComment keyAllowed : Bool) : List Glyph → Bool × List Glyph
  | [] => (keyAllowed, [])
  | g :: gs =>
    if isBreak g.char then skip inFlow false (keyAllowed || !inFlow) gs
    else if inComment then skip inFlow true keyAllowed gs
    else if g.char = ' ' then skip inFlow false keyAllowed gs
    else if g.char = '\t' && (inFlow || !keyAllowed) then skip inFlow false keyAllowed gs
    else if g.char = '#' then skip inFlow true keyAllowed gs
    else if g.char = byteOrderMark && g.column = 0 then skip inFlow false keyAllowed gs
    else (keyAllowed, g :: gs)

def next (s : Scanner) : Scanner :=
  let r := skip s.inFlow false s.keyAllowed s.ahead
  { s with keyAllowed := r.1, ahead := r.2 }

/-! ## Keys -/

/-- A key is written on one line and its colon follows within 1024 bytes. -/
def KeyPlace.reaches (k : KeyPlace) (g : Glyph) : Bool :=
  k.line = g.line && g.offset ≤ k.offset + 1024

/-- Gives up a place that has become too far; `none` when a key is required there. -/
def current? (g : Glyph) : Option KeyPlace → Option (Option KeyPlace)
  | none => some none
  | some k =>
    if KeyPlace.reaches k g then some (some k)
    else if k.required then none
    else some none

def dropStale (s : Scanner) (g : Glyph) : Option Scanner := do
  let key? ← current? g s.key?
  let outerKeys ← s.outerKeys.mapM (current? g)
  return { s with key?, outerKeys }

/-- No key began at the place remembered last. -/
def forgetKey (s : Scanner) : Option Scanner :=
  match s.key? with
  | some k => if k.required then none else some { s with key? := none }
  | none => some s

/-- Remembers that the next token may begin a key. -/
def markKey (s : Scanner) (g : Glyph) : Option Scanner :=
  if s.keyAllowed then
    s.forgetKey.map fun s =>
      { s with
        key? := some
          { line := g.line, column := g.column, offset := g.offset, before := s.tokens.size
            required := !s.inFlow && s.indent = g.column } }
  else some s

/-! ## Indentation -/

/-- Closes the collections written deeper than `column`; between brackets there are none. -/
def closeTo (s : Scanner) (column : Int) : Scanner :=
  if s.inFlow then s else go s.indent s.outer s.tokens
where
  go (indent : Int) : List Int → Array Token → Scanner
    | [], tokens => { s with indent, outer := [], tokens }
    | o :: outer, tokens =>
      if indent ≤ column then { s with indent, outer := o :: outer, tokens }
      else go o outer (tokens.push .blockEnd)

/-- Opens a collection at a column behind the first `n` tokens, unless one is open there. -/
def openAt (s : Scanner) (column n : Nat) (t : Token) : Scanner :=
  if !s.inFlow && s.indent < column then
    { s.insertAt n t with indent := column, outer := s.indent :: s.outer }
  else s

/-! ## One token -/

def mark (s : Scanner) (t : Token) (keyAllowed : Bool) (rest : List Glyph) : Scanner :=
  { s.emit t with keyAllowed, ahead := rest }

def boundary (s : Scanner) (t : Token) (rest : List Glyph) : Option Scanner :=
  (s.closeTo (-1)).forgetKey.map fun s => s.mark t false (rest.drop 3)

def openBracket (s : Scanner) (t : Token) (g : Glyph) (rest : List Glyph) : Option Scanner :=
  (s.markKey g).map fun s =>
    { s.mark t true rest with key? := none, outerKeys := s.key? :: s.outerKeys }

def closeBracket (s : Scanner) (t : Token) (rest : List Glyph) : Option Scanner :=
  s.forgetKey.map fun s =>
    let s := s.mark t false rest
    match s.outerKeys with
    | [] => s
    | k :: ks => { s with key? := k, outerKeys := ks }

/-- A dash or a question mark, which outside brackets opens a collection where none is open. -/
def opener (s : Scanner) (opened t : Token) (keyAllowed : Bool) (g : Glyph) (rest : List Glyph) :
    Option Scanner :=
  if !s.inFlow && !s.keyAllowed then none
  else
    (s.openAt g.column s.tokens.size opened).forgetKey.map fun s => s.mark t keyAllowed rest

def colon (s : Scanner) (g : Glyph) (rest : List Glyph) : Option Scanner :=
  match s.key? with
  | some k =>
    let s := (s.insertAt k.before .key).openAt k.column k.before .blockMapping
    some { s.mark .value false rest with key? := none }
  | none =>
    if s.inFlow then some (s.mark .value false rest)
    else if s.keyAllowed then
      some ((s.openAt g.column s.tokens.size .blockMapping).mark .value true rest)
    else none

def quoted (s : Scanner) (g : Glyph) (read : Option (String × List Glyph)) : Option Scanner := do
  let s ← s.markKey g
  let (text, rest) ← read
  return s.mark (.scalar false text) false rest

def plainScalar (s : Scanner) (g : Glyph) (rest : List Glyph) : Option Scanner := do
  let s ← s.markKey g
  let p ← plain s.inFlow (s.indent + 1) {} [] (g :: rest)
  return s.mark (.scalar true p.text) p.broken p.rest

def token (s : Scanner) (g : Glyph) (rest : List Glyph) : Option Scanner :=
  if markerAhead (g :: rest) '-' then s.boundary .documentStart (g :: rest)
  else if markerAhead (g :: rest) '.' then s.boundary .documentEnd (g :: rest)
  else
    match g.char with
    | '[' => s.openBracket .flowSequence g rest
    | '\x7b' => s.openBracket .flowMapping g rest
    | ']' => s.closeBracket .flowSequenceEnd rest
    | '\x7d' => s.closeBracket .flowMappingEnd rest
    | ',' => s.forgetKey.map fun s => s.mark .comma true rest
    | '\'' => s.quoted g (singleQuoted {} [] rest)
    | '"' => s.quoted g (doubleQuoted (.gap {}) [] rest)
    | c =>
      if c = '-' && spaceAhead rest then s.opener .blockSequence .item true g rest
      else if c = '?' && (s.inFlow || spaceAhead rest) then
        s.opener .blockMapping .key (!s.inFlow) g rest
      else if c = ':' && (s.inFlow || spaceAhead rest) then s.colon g rest
      else if startsPlain s.inFlow (g :: rest) then s.plainScalar g rest
      else none

/-- Every token takes a character, so `fuel` need not exceed their number by more than one. -/
def run : Nat → Scanner → Option (List Token)
  | 0, _ => none
  | fuel + 1, s =>
    let s := s.next
    match s.ahead with
    | [] => (s.closeTo (-1)).forgetKey.map (·.tokens.toList)
    | g :: rest =>
      match s.dropStale g with
      | none => none
      | some s => ((s.closeTo g.column).token g rest).bind (run fuel)

end Scanner

def Token.scan? (text : String) : Option (List Token) :=
  (Glyph.ofText? text).bind fun gs => Scanner.run (gs.length + 1) { ahead := gs }

end Roster.Yaml
