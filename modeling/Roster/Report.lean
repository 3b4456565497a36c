import Roster.Config.Codec
import Roster.Draft
import Roster.Json.Access
import Roster.Json.Printer
import Roster.LoadMetrics
import Roster.Schedule

/-!
# Roster.Report

Values that show addresses, hosts and the rest to those who inspect a cluster.

A double is shown by the sixteen hexadecimal digits of its bits, so that nothing is lost; a locality by
its three parts.
-/

namespace Roster.Report

open Json

def float (x : Float) : Json :=
  if Binary64.isNaN x.toBits then .str "nan" else .str (hexDigits x.toBits.toNat 16)

def locality (l : Locality) : Json :=
  .arr [.str l.region, .str l.zone, .str l.subZone]

def localityFields (l : Locality) : List (String × Json) :=
  [("locality", locality l), ("display", .str l.text), ("colon", .str l.text),
    ("is_empty", .bool l.isEmpty), ("json", l.encode)]

def kindName : AddressKind → String
  | .name _ => "name"
  | .ipv4 _ => "ipv4"
  | .ipv6 _ => "ipv6"

def addressKind (k : AddressKind) : List (String × Json) :=
  [("kind", .str (kindName k)), ("host", .str k.text)]

def address (a : Address) : List (String × Json) :=
  addressKind a.host ++ [("port", nat a.port.toNat), ("display", .str a.text)]

def flags (fs : HealthFlags) : Json :=
  .obj [("bits", nat fs.bits.toNat), ("display", .str fs.text), ("debug", .str fs.listing),
    ("iter", .arr (fs.toList.map fun f => .str f.name)), ("health", .str fs.health.name),
    ("excluded", .bool fs.excluded), ("is_empty", .bool fs.isEmpty),
    ("contains", .arr (HealthFlag.all.map fun f => .bool (fs.contains f)))]

/-! ## Hosts -/

def host (h : Host) : Json :=
  .obj [("display", .str h.address.text), ("health_check_address", .str h.healthCheckAddress.text),
    ("hostname", .str h.hostname), ("health_checks_hostname", .str h.checksHostname),
    ("locality", locality h.locality), ("disable_active_health_check", .bool h.disableActiveCheck),
    ("metadata", h.metadata.encode), ("canary", .bool h.canary), ("priority", nat h.priority),
    ("flags", .str h.flags.text), ("health", .str h.health.name), ("excluded", .bool h.excluded),
    ("weight", nat h.weight), ("used", .bool h.used), ("failure_type", .str h.failure.name)]

/-- What is fixed about a host, under a number. -/
def description (number : Nat) (h : Host) : Json :=
  .obj [("id", nat number), ("address", .str h.address.text),
    ("health_check_address", .str h.healthCheckAddress.text), ("hostname", .str h.hostname),
    ("health_checks_hostname", .str h.checksHostname), ("locality", locality h.locality),
    ("disable_active_health_check", .bool h.disableActiveCheck)]

/-- What changes about a host, under a number. -/
def row (number : Nat) (h : Host) : Json :=
  .arr [nat number, nat h.priority, nat h.weight, nat h.flags.bits.toNat, .bool h.canary,
    h.metadata.encode]

def load (stats : List (String × LoadStat)) : Json :=
  .arr (stats.map fun p => .arr [.str p.1, nat p.2.count, float p.2.total])

/-! ## Configurations -/

def endpoint (e : Endpoint) : Json :=
  .obj [("json", e.encode), ("weight", nat e.weight), ("address", .str e.address.text),
    ("health_check_address", .str e.healthCheckAddress.text)]

def member (m : EndpointGroup × Endpoint) : Json :=
  .arr [nat m.1.level, .str m.1.locality.text, .str m.2.address.text,
    .str m.2.healthCheckAddress.text, nat m.2.weight]

/-! ## Schedules -/

def scheduleSize {ε : Type} (s : Schedule Float ε) : List (String × Json) :=
  [("len", nat s.size), ("is_empty", .bool s.isEmpty)]

def picks (ps : List (Nat × Float)) : Json :=
  .arr (ps.map fun p => .arr [nat p.1, float p.2])

end Roster.Report
