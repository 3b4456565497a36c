import Roster.HostStore

/-!
# Roster.AddressIndex

The hosts of all levels by the text of their address. Changes are gathered aside and become the
published map when the index is read next.

* `update` — removals before additions, so a host replaced at its address ends up mapped to its
  replacement.
* `read`   — publishes what was gathered.
-/

namespace Roster

abbrev AddressMap := List (String × HostId)

structure AddressIndex where
  published : AddressMap := []
  /-- Grows whenever another map is published. -/
  stamp : Nat := 0
  pending? : Option AddressMap := none
deriving Inhabited

namespace AddressIndex

def current (x : AddressIndex) : AddressMap :=
  x.pending?.getD x.published

/-- Whether the map sends the host's address to the host itself, which still belongs to the level. -/
def owns (store : HostStore) (priority : Nat) (m : AddressMap) (id : HostId) : Bool :=
  Assoc.find? (store.addressText id) m = some id && (store.get id).priority = priority

/-- Takes a host off the map; another host at its address may take its place. -/
def retire (store : HostStore) (priority : Nat) (surviving : HostId → Option HostId)
    (m : AddressMap) (id : HostId) : AddressMap :=
  if owns store priority m id then
    match surviving id with
    | some survivor => Assoc.insert (store.addressText id) survivor m
    | none => Assoc.erase (store.addressText id) m
  else m

def enter (store : HostStore) (m : AddressMap) (id : HostId) : AddressMap :=
  Assoc.insert (store.addressText id) id m

def update (x : AddressIndex) (store : HostStore) (priority : Nat) (added removed : List HostId)
    (surviving : HostId → Option HostId) : AddressIndex :=
  if added = [] ∧ removed = [] then x
  else
    let m := removed.foldl (retire store priority surviving) x.current
    { x with pending? := some (added.foldl (enter store) m) }

/-- The removed hosts for which `update` looks for a survivor, in order. -/
def asked (store : HostStore) (priority : Nat) (surviving : HostId → Option HostId)
    (m : AddressMap) : List HostId → List HostId
  | [] => []
  | id :: rest =>
    let later := asked store priority surviving (retire store priority surviving m id) rest
    if owns store priority m id then id :: later else later

/-- Publishes what was gathered; the map is `published` afterwards. -/
def read (x : AddressIndex) : AddressIndex :=
  match x.pending? with
  | none => x
  | some m => { published := m, stamp := x.stamp + 1, pending? := none }

end AddressIndex

end Roster
