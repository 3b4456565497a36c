import Roster.Address
import Roster.Locality
import Roster.Metadata

/-!
# Roster.Config.Endpoint

Endpoints as they are configured or delivered.

* `Endpoint`      — one address with its health, weight and metadata.
* `EndpointGroup` — endpoints that share a locality and a priority.
* `Assignment`    — all groups of a cluster.
-/

namespace Roster

/-- The health a discovery source reports. -/
inductive HealthStatus where
  | unknown
  | healthy
  | unhealthy
  | draining
  | timeout
  | degraded
deriving DecidableEq, Inhabited

namespace HealthStatus

def all : List HealthStatus :=
  [.unknown, .healthy, .unhealthy, .draining, .timeout, .degraded]

def name : HealthStatus → String
  | .unknown => "UNKNOWN"
  | .healthy => "HEALTHY"
  | .unhealthy => "UNHEALTHY"
  | .draining => "DRAINING"
  | .timeout => "TIMEOUT"
  | .degraded => "DEGRADED"

def ofName? (s : String) : Option HealthStatus :=
  all.find? fun h => h.name = s

end HealthStatus

/-- Where health checks of an endpoint go; port 0 keeps the endpoint's port. -/
structure HealthCheck where
  port : UInt16 := 0
  hostname : String := ""
deriving DecidableEq, Inhabited

structure Endpoint where
  address : Address
  hostname : String := ""
  healthCheck : HealthCheck := {}
  healthStatus : HealthStatus := .unknown
  weight? : Option UInt32 := none
  metadata : Metadata := .empty
  disableActiveCheck : Bool := false
deriving BEq, Inhabited

namespace Endpoint

def weight (e : Endpoint) : Nat :=
  match e.weight? with
  | some w => w.toNat
  | none => 1

def healthCheckAddress (e : Endpoint) : Address :=
  e.address.withPort e.healthCheck.port

end Endpoint

structure EndpointGroup where
  locality : Locality := {}
  weight? : Option UInt32 := none
  priority : UInt32 := 0
  endpoints : List Endpoint := []
deriving BEq, Inhabited

namespace EndpointGroup

def level (g : EndpointGroup) : Nat := g.priority.toNat

end EndpointGroup

structure Assignment where
  groups : List EndpointGroup := []
  overprovisioningFactor? : Option UInt32 := none
deriving BEq, Inhabited

namespace Assignment

/-- Every endpoint with its group. -/
def members (a : Assignment) : List (EndpointGroup × Endpoint) :=
  a.groups.flatMap fun g => g.endpoints.map (g, ·)

end Assignment

end Roster
