import Roster.Text

/-!
# Roster.Locality

Where a host runs.

* `Locality.text`    — the parts joined by colons, an empty zone or sub-zone left out.
* `Locality.ofText?` — at most three parts between colons, by position.
* `compare`          — by region, then zone, then sub-zone.
-/

namespace Roster

structure Locality where
  region : String := ""
  zone : String := ""
  subZone : String := ""
deriving DecidableEq, Inhabited

namespace Locality

instance : Ord Locality :=
  ⟨fun a b =>
    (compare a.region b.region).then ((compare a.zone b.zone).then (compare a.subZone b.subZone))⟩

def isEmpty (l : Locality) : Bool :=
  l.region.isEmpty && l.zone.isEmpty && l.subZone.isEmpty

def ofRegion (region : String) : Locality := { region }

def withZone (l : Locality) (zone : String) : Locality := { l with zone }

def withSubZone (l : Locality) (subZone : String) : Locality := { l with subZone }

/-- A part after the first, with the colon before it; nothing for an empty part. -/
def suffix (part : String) : List Char :=
  match part.toList with
  | [] => []
  | cs => ':' :: cs

def chars (l : Locality) : List Char :=
  l.region.toList ++ suffix l.zone ++ suffix l.subZone

def text (l : Locality) : String :=
  String.ofList l.chars

def ofText? (text : String) : Option Locality :=
  match Text.split ':' text.toList with
  | [region] => some { region := String.ofList region }
  | [region, zone] => some { region := String.ofList region, zone := String.ofList zone }
  | [region, zone, subZone] =>
    some ⟨String.ofList region, String.ofList zone, String.ofList subZone⟩
  | _ => none

def refusal (text : String) : String :=
  "invalid locality identifier `" ++ text ++ "`"

end Locality

end Roster
