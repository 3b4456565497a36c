import Roster.Config.Endpoint
import Roster.Health

/-!
# Roster.Host

A host: a description that is fixed when it is made, and what changes while it is a member.

* `HostSpec.make` — a new host; its weight is brought into range.
* `Host.ofEndpoint` — a new host for an endpoint of a group.
* `Host.reportStatus` — applies the health that a discovery source reports; it never clears a flag.
* `Host.Alike` — two hosts of one description; nothing that happens to a member changes it.
-/

namespace Roster

def minWeight : Nat := 1

def maxWeight : Nat := 128

def clampWeight (n : Nat) : Nat :=
  max minWeight (min n maxWeight)

structure Host where
  address : Address
  healthCheckAddress : Address
  hostname : String
  checkHostname : String
  locality : Locality
  disableActiveCheck : Bool
  metadata : Metadata
  canary : Bool
  priority : Nat
  flags : HealthFlags
  weight : Nat
  used : Bool
  failure : FailureKind
deriving Inhabited

namespace Host

def checksHostname (h : Host) : String :=
  if h.checkHostname.isEmpty then h.hostname else h.checkHostname

def health (h : Host) : Health := h.flags.health

def excluded (h : Host) : Bool := h.flags.excluded

def hasFlag (h : Host) (f : HealthFlag) : Bool := h.flags.contains f

def setFlag (h : Host) (f : HealthFlag) : Host := { h with flags := h.flags.insert f }

def clearFlag (h : Host) (f : HealthFlag) : Host := { h with flags := h.flags.remove f }

def setFlags (h : Host) (fs : List HealthFlag) : Host := fs.foldl setFlag h

def clearFlags (h : Host) (fs : List HealthFlag) : Host := fs.foldl clearFlag h

def setWeight (h : Host) (n : Nat) : Host := { h with weight := clampWeight n }

def setPriority (h : Host) (p : Nat) : Host := { h with priority := p }

def setCanary (h : Host) (b : Bool) : Host := { h with canary := b }

def setUsed (h : Host) (b : Bool) : Host := { h with used := b }

/-- Replaces the metadata; the canary flag stays as it is. -/
def setMetadata (h : Host) (m : Metadata) : Host := { h with metadata := m }

def setFailure (h : Host) (k : FailureKind) : Host := { h with failure := k }

def reportStatus (h : Host) : HealthStatus → Host
  | .unhealthy | .draining | .timeout => h.setFlag .failedDiscovery
  | .degraded => h.setFlag .degradedDiscovery
  | .unknown | .healthy => h

/-- The part of a host that is fixed when it is made is the same. -/
structure Alike (h k : Host) : Prop where
  address : k.address = h.address
  healthCheckAddress : k.healthCheckAddress = h.healthCheckAddress
  hostname : k.hostname = h.hostname
  checkHostname : k.checkHostname = h.checkHostname
  locality : k.locality = h.locality
  disableActiveCheck : k.disableActiveCheck = h.disableActiveCheck

namespace Alike

theorem refl (h : Host) : Alike h h := ⟨rfl, rfl, rfl, rfl, rfl, rfl⟩

theorem trans {h k l : Host} (h₁ : Alike h k) (h₂ : Alike k l) : Alike h l :=
  ⟨h₂.address.trans h₁.address, h₂.healthCheckAddress.trans h₁.healthCheckAddress,
    h₂.hostname.trans h₁.hostname, h₂.checkHostname.trans h₁.checkHostname,
    h₂.locality.trans h₁.locality, h₂.disableActiveCheck.trans h₁.disableActiveCheck⟩

end Alike

theorem alike_setFlag (h : Host) (f : HealthFlag) : Alike h (h.setFlag f) :=
  ⟨rfl, rfl, rfl, rfl, rfl, rfl⟩

theorem alike_clearFlag (h : Host) (f : HealthFlag) : Alike h (h.clearFlag f) :=
  ⟨rfl, rfl, rfl, rfl, rfl, rfl⟩

theorem alike_setFlags (h : Host) (fs : List HealthFlag) : Alike h (h.setFlags fs) := by
  induction fs generalizing h with
  | nil => exact .refl h
  | cons f fs ih => exact (alike_setFlag h f).trans (ih (h.setFlag f))

/-! ## Reading a flag after a change -/

@[simp] theorem hasFlag_setFlag (h : Host) (f g : HealthFlag) :
    (h.setFlag f).hasFlag g = (decide (g = f) || h.hasFlag g) := by
  simp [hasFlag, setFlag]

@[simp] theorem hasFlag_clearFlag (h : Host) (f g : HealthFlag) :
    (h.clearFlag f).hasFlag g = (decide (g ≠ f) && h.hasFlag g) := by
  simp [hasFlag, clearFlag]

theorem hasFlag_setFlags (h : Host) (fs : List HealthFlag) (g : HealthFlag) :
    (h.setFlags fs).hasFlag g = (decide (g ∈ fs) || h.hasFlag g) := by
  induction fs generalizing h with
  | nil => simp [setFlags]
  | cons f fs ih =>
    have := ih (h.setFlag f)
    simp only [setFlags, List.foldl_cons] at this ⊢
    rw [this, hasFlag_setFlag]
    by_cases hf : g = f <;> simp [hf]

theorem hasFlag_clearFlags (h : Host) (fs : List HealthFlag) (g : HealthFlag) :
    (h.clearFlags fs).hasFlag g = (decide (g ∉ fs) && h.hasFlag g) := by
  induction fs generalizing h with
  | nil => simp [clearFlags]
  | cons f fs ih =>
    have := ih (h.clearFlag f)
    simp only [clearFlags, List.foldl_cons] at this ⊢
    rw [this, hasFlag_clearFlag]
    by_cases hf : g = f <;> simp [hf]

theorem setFlag_setFlag (h : Host) (f : HealthFlag) : (h.setFlag f).setFlag f = h.setFlag f := by
  simp only [setFlag, HealthFlags.insert, BitVec.or_assoc, BitVec.or_self]

end Host

/-- What a host is made from. -/
structure HostSpec where
  address : Address
  healthCheckAddress? : Option Address := none
  hostname : String := ""
  checkHostname : String := ""
  locality : Locality := {}
  priority : Nat := 0
  weight : Nat := minWeight
  metadata : Metadata := .empty
  healthStatus : HealthStatus := .unknown
  disableActiveCheck : Bool := false

def HostSpec.make (s : HostSpec) : Host :=
  Host.reportStatus
    { address := s.address
      healthCheckAddress := s.healthCheckAddress?.getD s.address
      hostname := s.hostname
      checkHostname := s.checkHostname
      locality := s.locality
      disableActiveCheck := s.disableActiveCheck
      metadata := s.metadata
      canary := s.metadata.canary
      priority := s.priority
      flags := .empty
      weight := clampWeight s.weight
      used := false
      failure := .unknown }
    s.healthStatus

namespace Host

def ofEndpoint (g : EndpointGroup) (e : Endpoint) : Host :=
  HostSpec.make
    { address := e.address
      healthCheckAddress? := some e.healthCheckAddress
      hostname := e.hostname
      checkHostname := e.healthCheck.hostname
      locality := g.locality
      priority := g.level
      weight := e.weight
      metadata := e.metadata
      healthStatus := e.healthStatus
      disableActiveCheck := e.disableActiveCheck }

end Host

end Roster
