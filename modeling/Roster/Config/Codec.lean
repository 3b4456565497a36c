import Roster.Config.Cluster
import Roster.Config.Format

/-!
# Roster.Config.Codec

Configurations as documents: `decode` reads one from any format, `encode` writes one as a value.

Encoding leaves out an absent option and an endpoint's empty hostname and metadata, and writes every
other field; an address is written as its text.
-/

namespace Roster

open Format

variable {ν : Type}

def maxWord32 : Nat := 4294967295

def maxWord16 : Nat := 65535

def word32? (f : Format ν) (v : ν) : Option UInt32 :=
  (f.bounded? maxWord32 v).map UInt32.ofNat

def word16? (f : Format ν) (v : ν) : Option UInt16 :=
  (f.bounded? maxWord16 v).map UInt16.ofNat

def encodeWord (w : UInt32) : Json := .int w.toNat

/-- An entry of a record that is left out when there is no value. -/
def entry? {α : Type} (name : String) (encode : α → Json) : Option α → List (String × Json)
  | none => []
  | some a => [(name, encode a)]

/-! ## Localities and metadata -/

namespace Locality

def fieldNames : List String := ["region", "zone", "sub_zone"]

def decode (f : Format ν) (v : ν) : Option Locality := do
  let fields ← f.record fieldNames v
  let region ← withDefault fields "region" "" f.string?
  let zone ← withDefault fields "zone" "" f.string?
  let subZone ← withDefault fields "sub_zone" "" f.string?
  return { region, zone, subZone }

def encode (l : Locality) : Json :=
  .obj [("region", .str l.region), ("sub_zone", .str l.subZone), ("zone", .str l.zone)]

end Locality

namespace Metadata

def decodeValues (f : Format ν) : List (String × ν) → Option (List (String × Json))
  | [] => some []
  | (k, v) :: rest =>
    match f.value? v, decodeValues f rest with
    | some v, some rest => some ((k, v) :: rest)
    | _, _ => none

def decodeFilters (f : Format ν) : List (String × ν) → Option (List (String × List (String × Json)))
  | [] => some []
  | (k, v) :: rest =>
    match (f.table? v).bind (decodeValues f), decodeFilters f rest with
    | some v, some rest => some ((k, v) :: rest)
    | _, _ => none

def decode (f : Format ν) (v : ν) : Option Metadata :=
  ((f.table? v).bind (decodeFilters f)).map ofFilters

def encode (m : Metadata) : Json :=
  .obj (m.filters.map fun p => (p.1, .obj p.2))

end Metadata

/-! ## Endpoints -/

namespace Address

def decode (f : Format ν) (v : ν) : Option Address :=
  match f.string? v with
  | none => none
  | some s =>
    match parse s with
    | .ok a => some a
    | .error _ => none

def encode (a : Address) : Json :=
  .str a.text

end Address

namespace HealthStatus

def decode (f : Format ν) (v : ν) : Option HealthStatus :=
  (f.choice? v).bind ofName?

def encode (h : HealthStatus) : Json :=
  .str h.name

end HealthStatus

namespace HealthCheck

def fieldNames : List String := ["port", "hostname"]

def decode (f : Format ν) (v : ν) : Option HealthCheck := do
  let fields ← f.record fieldNames v
  let port ← withDefault fields "port" 0 (word16? f)
  let hostname ← withDefault fields "hostname" "" f.string?
  return { port, hostname }

def encode (h : HealthCheck) : Json :=
  .obj [("hostname", .str h.hostname), ("port", .int h.port.toNat)]

end HealthCheck

namespace Endpoint

def fieldNames : List String :=
  ["address", "hostname", "health_check", "health_status", "load_balancing_weight", "metadata",
    "disable_active_health_check"]

def decode (f : Format ν) (v : ν) : Option Endpoint := do
  let fields ← f.record fieldNames v
  let address ← required fields "address" (Address.decode f)
  let hostname ← withDefault fields "hostname" "" f.string?
  let healthCheck ← withDefault fields "health_check" {} (HealthCheck.decode f)
  let healthStatus ← withDefault fields "health_status" .unknown (HealthStatus.decode f)
  let weight? ← f.optional fields "load_balancing_weight" (word32? f)
  let metadata ← withDefault fields "metadata" .empty (Metadata.decode f)
  let disableActiveCheck ← withDefault fields "disable_active_health_check" false f.flag?
  return { address, hostname, healthCheck, healthStatus, weight?, metadata, disableActiveCheck }

def encode (e : Endpoint) : Json :=
  .obj (
    [("address", e.address.encode), ("disable_active_health_check", .bool e.disableActiveCheck),
      ("health_check", e.healthCheck.encode), ("health_status", e.healthStatus.encode)] ++
    (if e.hostname.isEmpty then [] else [("hostname", .str e.hostname)]) ++
    entry? "load_balancing_weight" encodeWord e.weight? ++
    (if e.metadata.isEmpty then [] else [("metadata", e.metadata.encode)]))

end Endpoint

namespace EndpointGroup

def fieldNames : List String :=
  ["locality", "load_balancing_weight", "priority", "lb_endpoints"]

def decode (f : Format ν) (v : ν) : Option EndpointGroup := do
  let fields ← f.record fieldNames v
  let locality ← withDefault fields "locality" {} (Locality.decode f)
  let weight? ← f.optional fields "load_balancing_weight" (word32? f)
  let priority ← withDefault fields "priority" 0 (word32? f)
  let endpoints ← withDefault fields "lb_endpoints" [] (f.listOf (Endpoint.decode f))
  return { locality, weight?, priority, endpoints }

def encode (g : EndpointGroup) : Json :=
  .obj (
    [("lb_endpoints", .arr (g.endpoints.map Endpoint.encode))] ++
    entry? "load_balancing_weight" encodeWord g.weight? ++
    [("locality", g.locality.encode), ("priority", encodeWord g.priority)])

end EndpointGroup

namespace Assignment

def fieldNames : List String := ["endpoints", "overprovisioning_factor"]

def decode (f : Format ν) (v : ν) : Option Assignment := do
  let fields ← f.record fieldNames v
  let groups ← withDefault fields "endpoints" [] (f.listOf (EndpointGroup.decode f))
  let overprovisioningFactor? ← f.optional fields "overprovisioning_factor" (word32? f)
  return { groups, overprovisioningFactor? }

def encode (a : Assignment) : Json :=
  .obj (
    [("endpoints", .arr (a.groups.map EndpointGroup.encode))] ++
    entry? "overprovisioning_factor" encodeWord a.overprovisioningFactor?)

end Assignment

/-! ## Clusters -/

namespace ClusterConfig

def fieldNames : List String :=
  ["name", "overprovisioning_factor", "locality_weighted_lb", "ignore_health_on_host_removal",
    "ignore_new_hosts_until_first_hc", "local_locality", "local_cluster", "load_assignment"]

def decode (f : Format ν) (v : ν) : Option ClusterConfig := do
  let fields ← f.record fieldNames v
  let name ← required fields "name" f.string?
  let overprovisioningFactor ←
    withDefault fields "overprovisioning_factor" (UInt32.ofNat defaultFactor) (word32? f)
  let localityWeighted ← withDefault fields "locality_weighted_lb" false f.flag?
  let ignoreHealthOnRemoval ← withDefault fields "ignore_health_on_host_removal" false f.flag?
  let ignoreNewUntilFirstCheck ← withDefault fields "ignore_new_hosts_until_first_hc" false f.flag?
  let localLocality? ← f.optional fields "local_locality" (Locality.decode f)
  let localCluster ← withDefault fields "local_cluster" false f.flag?
  let assignment? ← f.optional fields "load_assignment" (Assignment.decode f)
  return {
    name, overprovisioningFactor, localityWeighted, ignoreHealthOnRemoval,
    ignoreNewUntilFirstCheck, localLocality?, localCluster, assignment? }

def encode (c : ClusterConfig) : Json :=
  .obj (
    [("ignore_health_on_host_removal", .bool c.ignoreHealthOnRemoval),
      ("ignore_new_hosts_until_first_hc", .bool c.ignoreNewUntilFirstCheck)] ++
    entry? "load_assignment" Assignment.encode c.assignment? ++
    [("local_cluster", .bool c.localCluster)] ++
    entry? "local_locality" Locality.encode c.localLocality? ++
    [("locality_weighted_lb", .bool c.localityWeighted), ("name", .str c.name),
      ("overprovisioning_factor", encodeWord c.overprovisioningFactor)])

end ClusterConfig

end Roster
