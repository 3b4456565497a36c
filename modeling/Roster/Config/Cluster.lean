import Roster.Config.Endpoint

/-!
# Roster.Config.Cluster

The configuration of a cluster, and what makes it and its assignments acceptable.

* `validateAssignment` — positive weights and factors, priority 0 only in the local cluster, and
  no address twice in one group; the first violation in document order is reported.
* `validate`           — the same for a whole configuration.
-/

namespace Roster

def defaultFactor : Nat := 140

structure ClusterConfig where
  name : String := ""
  overprovisioningFactor : UInt32 := UInt32.ofNat defaultFactor
  localityWeighted : Bool := false
  ignoreHealthOnRemoval : Bool := false
  ignoreNewUntilFirstCheck : Bool := false
  localLocality? : Option Locality := none
  localCluster : Bool := false
  assignment? : Option Assignment := none
deriving BEq, Inhabited

inductive ValidationError where
  | zeroFactor (cluster : String)
  | zeroAssignmentFactor (cluster : String)
  | zeroLocalityWeight (locality : Locality)
  | zeroEndpointWeight (address : Address)
  | duplicateAddress (address : Address) (locality : Locality)
  | localClusterPriority (cluster : String) (priority : Nat)
deriving DecidableEq

namespace ValidationError

def weightClause (subject : String) : String :=
  "load_balancing_weight has invalid value: " ++ subject ++ " must have a positive weight"

def message : ValidationError → String
  | .zeroFactor cluster => "overprovisioning factor of " ++ cluster ++ " must be positive"
  | .zeroAssignmentFactor cluster =>
    "overprovisioning factor of " ++ cluster ++ " load assignment must be positive"
  | .zeroLocalityWeight locality => weightClause ("locality " ++ locality.text)
  | .zeroEndpointWeight address => weightClause ("endpoint " ++ address.text)
  | .duplicateAddress address locality =>
    "endpoint " ++ address.text ++ " appears more than once in locality group " ++ locality.text
  | .localClusterPriority cluster priority =>
    "local cluster " ++ cluster ++ " cannot have endpoints at priority " ++ toString priority

end ValidationError

namespace ClusterConfig

/-- Endpoints of one group in order: the weight of each before its uniqueness. -/
def validateEndpoints (locality : Locality) (seen : List Address) :
    List Endpoint → Except ValidationError Unit
  | [] => .ok ()
  | e :: rest =>
    if e.weight? = some 0 then .error (.zeroEndpointWeight e.address)
    else if e.address ∈ seen then .error (.duplicateAddress e.address locality)
    else validateEndpoints locality (e.address :: seen) rest

def validateGroup (c : ClusterConfig) (g : EndpointGroup) : Except ValidationError Unit :=
  if g.weight? = some 0 then .error (.zeroLocalityWeight g.locality)
  else if c.localCluster ∧ g.level ≠ 0 then .error (.localClusterPriority c.name g.level)
  else validateEndpoints g.locality [] g.endpoints

def validateGroups (c : ClusterConfig) : List EndpointGroup → Except ValidationError Unit
  | [] => .ok ()
  | g :: rest =>
    match c.validateGroup g with
    | .error e => .error e
    | .ok () => c.validateGroups rest

def validateAssignment (c : ClusterConfig) (a : Assignment) : Except ValidationError Unit :=
  if a.overprovisioningFactor? = some 0 then .error (.zeroAssignmentFactor c.name)
  else c.validateGroups a.groups

def validate (c : ClusterConfig) : Except ValidationError Unit :=
  if c.overprovisioningFactor = 0 then .error (.zeroFactor c.name)
  else
    match c.assignment? with
    | none => .ok ()
    | some a => c.validateAssignment a

/-- The local cluster takes endpoints of priority 0 only. -/
def checkZone (c : ClusterConfig) (g : EndpointGroup) : Except ValidationError Unit :=
  if c.localCluster ∧ 0 < g.level then .error (.localClusterPriority c.name g.level)
  else .ok ()

def checkZones (c : ClusterConfig) : List EndpointGroup → Except ValidationError Unit
  | [] => .ok ()
  | g :: rest =>
    match c.checkZone g with
    | .error e => .error e
    | .ok () => c.checkZones rest

def factorFor (c : ClusterConfig) (a : Assignment) : Nat :=
  (a.overprovisioningFactor?.getD c.overprovisioningFactor).toNat

/-- Nothing but the name differs from an empty configuration. -/
def isDefault (c : ClusterConfig) : Bool :=
  c == { name := c.name }

end ClusterConfig

end Roster
