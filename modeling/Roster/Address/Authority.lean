import Roster.Address.Ip

/-!
# Roster.Address.Authority

The part of a locator after `scheme://`: credentials, host, port and path, for a scheme whose hosts
are opaque.

* `Authority.ofChars` — blanks at the end and breaks anywhere are dropped first; credentials, query
  and fragment are read over.
* `Host`              — absent, an `IPv6` in brackets, or a name in which control characters and
  everything beyond ASCII are percent-encoded.
* `bare`              — whether a path is empty or the root once its dot segments are resolved.
-/

namespace Roster

inductive AuthorityError where
  | emptyHost
  | invalidPort
  | invalidIPv6
  | invalidCharacter
deriving DecidableEq

namespace AuthorityError

def message : AuthorityError → String
  | .emptyHost => "empty host"
  | .invalidPort => "invalid port number"
  | .invalidIPv6 => "invalid IPv6 address"
  | .invalidCharacter => "invalid domain character"

end AuthorityError

namespace Authority

inductive Host where
  | absent
  | name (text : List Char)
  | ipv6 (address : IPv6)
deriving DecidableEq

end Authority

structure Authority where
  host : Authority.Host
  port : Option UInt16
  path : List Char
deriving DecidableEq

namespace Authority

/-- Blanks and control characters at the end. -/
def dropTrailing (cs : List Char) : List Char :=
  (cs.reverse.dropWhile fun c => c.toNat ≤ 0x20).reverse

def isBreak (c : Char) : Bool :=
  c = '\t' || c = '\n' || c = '\r'

def dropBreaks (cs : List Char) : List Char :=
  cs.filter fun c => !isBreak c

def endsAuthority (c : Char) : Bool :=
  c = '/' || c = '?' || c = '#'

/-! ## Credentials -/

/-- Reads over credentials up to the last at sign. The flag tells whether there was a user or a
password; a host must then follow. -/
def credentials (cs : List Char) : Except AuthorityError (Bool × List Char) :=
  match Text.splitLast '@' (cs.takeWhile fun c => !endsAuthority c) with
  | none => .ok (false, cs)
  | some (before, after) =>
    let rest := after ++ cs.dropWhile fun c => !endsAuthority c
    match before, rest with
    | [], c :: _ => if endsAuthority c then .error .emptyHost else .ok (false, rest)
    | [], [] => .ok (false, [])
    | before, _ => .ok (before ≠ [':'], rest)

/-! ## Host -/

/-- Splits after the host: before a colon outside brackets, or where the authority ends. -/
def hostSpan (inBrackets : Bool) : List Char → List Char × List Char
  | [] => ([], [])
  | c :: cs =>
    if endsAuthority c || (c = ':' && !inBrackets) then ([], c :: cs)
    else
      let inside := if c = '[' then true else if c = ']' then false else inBrackets
      let p := hostSpan inside cs
      (c :: p.1, p.2)

def forbidden (c : Char) : Bool :=
  c = '\x00' || c = '\t' || c = '\n' || c = '\r' || c = ' ' || c = '#' || c = '/' || c = ':' ||
  c = '<' || c = '>' || c = '?' || c = '@' || c = '[' || c = '\\' || c = ']' || c = '^' || c = '|'

def percent (b : UInt8) : List Char :=
  ['%', (Nat.digitChar (b.toNat / 16)).toUpper, (Nat.digitChar (b.toNat % 16)).toUpper]

/-- Control characters and everything beyond ASCII are written as percent-encoded bytes. -/
def encodeChar (c : Char) : List Char :=
  if 0x20 ≤ c.toNat ∧ c.toNat < 0x7f then [c] else (String.utf8EncodeChar c).flatMap percent

def readHost (cs : List Char) : Except AuthorityError Host :=
  match cs with
  | [] => .ok .absent
  | '[' :: inner =>
    match inner.getLast? with
    | some ']' =>
      match IPv6.ofChars? inner.dropLast with
      | some a => .ok (.ipv6 a)
      | none => .error .invalidIPv6
    | _ => .error .invalidIPv6
  | cs => if cs.any forbidden then .error .invalidCharacter else .ok (.name (cs.flatMap encodeChar))

/-! ## Port -/

/-- What may follow a port. -/
def endsPort (c : Char) : Bool :=
  endsAuthority c || c = '\\'

def readPort (cs : List Char) : Except AuthorityError (Option UInt16 × List Char) :=
  let digits := cs.takeWhile Char.isDigit
  let rest := cs.dropWhile Char.isDigit
  if 65535 < Text.decimal digits then .error .invalidPort
  else if rest.head?.all endsPort then
    .ok (if digits = [] then none else some (UInt16.ofNat (Text.decimal digits)), rest)
  else .error .invalidPort

/-! ## Path -/

def isDot (cs : List Char) : Bool :=
  cs = ['.'] || cs.map Char.toLower = ['%', '2', 'e']

def isDoubleDot (cs : List Char) : Bool :=
  match cs.map Char.toLower with
  | ['.', '.'] => true
  | ['.', '%', '2', 'e'] => true
  | ['%', '2', 'e', '.'] => true
  | ['%', '2', 'e', '%', '2', 'e'] => true
  | _ => false

/-- A segment that begins with a drive letter; a double dot does not remove it. -/
def isDrive : List Char → Bool
  | letter :: mark :: rest =>
    letter.isAlpha && (mark = ':' || mark = '|') && (rest.head?.all fun c => c = '\\')
  | _ => false

/-- Walks the segments of a path, the directories kept so far in `kept`, the innermost first; the
last segment names no directory. -/
def bareSegments (kept : List (List Char)) : List (List Char) → Bool
  | [] => kept.isEmpty
  | [last] =>
    if isDoubleDot last then
      match kept with
      | [] => true
      | dir :: outer => !isDrive dir && outer.isEmpty
    else if isDot last then kept.isEmpty
    else kept.isEmpty && last.isEmpty
  | segment :: rest =>
    if isDoubleDot segment then
      match kept with
      | [] => bareSegments [] rest
      | dir :: outer => bareSegments (if isDrive dir then kept else outer) rest
    else if isDot segment then bareSegments kept rest
    else bareSegments (segment :: kept) rest

/-- Whether what follows host and port is no path, or one that resolves to the root. A path that does
not begin with a slash is taken to follow one. -/
def bare (cs : List Char) : Bool :=
  match cs.takeWhile fun c => !(c = '?' || c = '#') with
  | [] => true
  | '/' :: path => bareSegments [] (Text.split '/' path)
  | path => bareSegments [] (Text.split '/' path)

/-! ## The whole -/

def ofChars (text : List Char) : Except AuthorityError Authority :=
  match credentials (dropBreaks (dropTrailing text)) with
  | .error e => .error e
  | .ok (credited, cs) =>
    let span := hostSpan false cs
    match readHost span.1 with
    | .error e => .error e
    | .ok host =>
      match host, span.2 with
      | .absent, ':' :: _ => .error .emptyHost
      | host, ':' :: afterColon =>
        match readPort afterColon with
        | .error e => .error e
        | .ok (port, path) => .ok ⟨host, port, path⟩
      | .absent, path => if credited then .error .emptyHost else .ok ⟨.absent, none, path⟩
      | host, path => .ok ⟨host, none, path⟩

end Authority

end Roster
