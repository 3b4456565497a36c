import Roster.Address.Authority

/-!
# Roster.Address

The network address of a host. Its text is the key hosts are matched on.

* `AddressKind.ofText` — an internet address, in brackets or not, else a name.
* `Address.parse`      — `host:port`, with an optional `tcp://` before it.
* `Address.text`       — `host:port`, an `IPv6` in brackets.
* `compare`            — names before `IPv4` before `IPv6`, then by text or number, then by port.
-/

namespace Roster

inductive AddressKind where
  | name (text : String)
  | ipv4 (address : IPv4)
  | ipv6 (address : IPv6)
deriving DecidableEq

namespace AddressKind

/-- The text inside a pair of brackets, or the text itself. -/
def unwrapped (cs : List Char) : List Char :=
  match cs with
  | '[' :: inner => if inner.getLast? = some ']' then inner.dropLast else cs
  | _ => cs

def ofText (text : String) : AddressKind :=
  let cs := unwrapped text.toList
  match IPv4.ofChars? cs with
  | some a => .ipv4 a
  | none =>
    match IPv6.ofChars? cs with
    | some a => .ipv6 a
    | none => .name text

def text : AddressKind → String
  | .name s => s
  | .ipv4 a => String.ofList a.chars
  | .ipv6 a => String.ofList a.chars

def compare : AddressKind → AddressKind → Ordering
  | .name s, .name t => Ord.compare s t
  | .name _, _ => .lt
  | _, .name _ => .gt
  | .ipv4 a, .ipv4 b => Ord.compare a.octets b.octets
  | .ipv4 _, .ipv6 _ => .lt
  | .ipv6 _, .ipv4 _ => .gt
  | .ipv6 a, .ipv6 b => Ord.compare a.groups b.groups

instance : Ord AddressKind := ⟨compare⟩

end AddressKind

structure Address where
  host : AddressKind
  port : UInt16
deriving DecidableEq

inductive AddressError where
  | unsupportedScheme
  | emptyHost
  | emptyPort
  | invalid (cause : AuthorityError)
  | pathsNotAllowed
deriving DecidableEq

namespace AddressError

def message : AddressError → String
  | .unsupportedScheme => "only tcp:// or scheme-less addresses are permitted"
  | .emptyHost => "hostname is required"
  | .emptyPort => "port is required"
  | .invalid cause => "parser error: " ++ cause.message
  | .pathsNotAllowed =>
    "No paths allowed in addresses, it must include only the hostname and port"

end AddressError

namespace Address

def unspecified : Address := ⟨.ipv4 .unspecified, 0⟩

instance : Inhabited Address := ⟨unspecified⟩

instance : Ord Address :=
  ⟨fun a b => (compare a.host b.host).then (compare a.port b.port)⟩

/-- The same host at another port; port 0 keeps the address. -/
def withPort (a : Address) (port : UInt16) : Address :=
  if port = 0 then a else { a with port }

def ofAuthority (a : Authority) : Except AddressError Address :=
  if !Authority.bare a.path then .error .pathsNotAllowed
  else
    match a.host, a.port with
    | .absent, _ => .error .emptyHost
    | _, none => .error .emptyPort
    | .name cs, some port => .ok ⟨AddressKind.ofText (String.ofList cs), port⟩
    | .ipv6 v6, some port => .ok ⟨.ipv6 v6, port⟩

def hasScheme : List Char → Bool
  | ':' :: '/' :: '/' :: _ => true
  | _ :: cs => hasScheme cs
  | [] => false

def parse (text : String) : Except AddressError Address :=
  match text.toList with
  | 't' :: 'c' :: 'p' :: ':' :: '/' :: '/' :: rest => read rest
  | cs => if hasScheme cs then .error .unsupportedScheme else read cs
where
  read (cs : List Char) : Except AddressError Address :=
    match Authority.ofChars cs with
    | .error e => .error (.invalid e)
    | .ok a => ofAuthority a

def text (a : Address) : String :=
  match a.host with
  | .ipv6 v6 => "[" ++ String.ofList v6.chars ++ "]:" ++ toString a.port.toNat
  | host => host.text ++ ":" ++ toString a.port.toNat

end Address

end Roster
