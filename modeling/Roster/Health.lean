/-!
# Roster.Health

The health of a host: independent flags, and what follows from the whole set of them.

* `HealthFlags`         — a word of flags; bits without a name are kept.
* `HealthFlags.health`  — unhealthy before degraded before healthy.
* `HealthFlags.excluded` — left out of the weight of a locality.
* `contains_insert`, `contains_remove` — what setting and clearing a flag does to every flag.
-/

namespace Roster

inductive HealthFlag where
  | failedActiveCheck
  | failedOutlierCheck
  | failedDiscovery
  | degradedActiveCheck
  | degradedDiscovery
  | pendingRemoval
  | pendingActiveCheck
  | excludedByFailure
deriving DecidableEq, Inhabited

namespace HealthFlag

/-- Every flag, in the order of their bits. -/
def all : List HealthFlag :=
  [.failedActiveCheck, .failedOutlierCheck, .failedDiscovery, .degradedActiveCheck,
    .degradedDiscovery, .pendingRemoval, .pendingActiveCheck, .excludedByFailure]

def index : HealthFlag → Nat
  | .failedActiveCheck => 0
  | .failedOutlierCheck => 1
  | .failedDiscovery => 2
  | .degradedActiveCheck => 3
  | .degradedDiscovery => 4
  | .pendingRemoval => 5
  | .pendingActiveCheck => 6
  | .excludedByFailure => 7

def name : HealthFlag → String
  | .failedActiveCheck => "FAILED_ACTIVE_HC"
  | .failedOutlierCheck => "FAILED_OUTLIER_CHECK"
  | .failedDiscovery => "FAILED_EDS_HEALTH"
  | .degradedActiveCheck => "DEGRADED_ACTIVE_HC"
  | .degradedDiscovery => "DEGRADED_EDS_HEALTH"
  | .pendingRemoval => "PENDING_DYNAMIC_REMOVAL"
  | .pendingActiveCheck => "PENDING_ACTIVE_HC"
  | .excludedByFailure => "EXCLUDED_VIA_IMMEDIATE_HC_FAIL"

def label : HealthFlag → String
  | .failedActiveCheck => "FailedActiveHc"
  | .failedOutlierCheck => "FailedOutlierCheck"
  | .failedDiscovery => "FailedEdsHealth"
  | .degradedActiveCheck => "DegradedActiveHc"
  | .degradedDiscovery => "DegradedEdsHealth"
  | .pendingRemoval => "PendingDynamicRemoval"
  | .pendingActiveCheck => "PendingActiveHc"
  | .excludedByFailure => "ExcludedViaImmediateHcFail"

def ofName? (s : String) : Option HealthFlag :=
  all.find? fun f => f.name = s

theorem index_lt (f : HealthFlag) : f.index < 32 := by
  cases f <;> decide

theorem index_inj {f g : HealthFlag} (h : f.index = g.index) : f = g := by
  cases f <;> cases g <;> first | rfl | simp [index] at h

def bit (f : HealthFlag) : BitVec 32 :=
  BitVec.twoPow 32 f.index

end HealthFlag

/-- The coarse health of a host. -/
inductive Health where
  | unhealthy
  | degraded
  | healthy
deriving DecidableEq, Inhabited

def Health.name : Health → String
  | .unhealthy => "Unhealthy"
  | .degraded => "Degraded"
  | .healthy => "Healthy"

structure HealthFlags where
  bits : BitVec 32 := 0
deriving DecidableEq, Inhabited

namespace HealthFlags

def empty : HealthFlags := {}

def contains (fs : HealthFlags) (f : HealthFlag) : Bool :=
  fs.bits.getLsbD f.index

def insert (fs : HealthFlags) (f : HealthFlag) : HealthFlags :=
  ⟨fs.bits ||| f.bit⟩

def remove (fs : HealthFlags) (f : HealthFlag) : HealthFlags :=
  ⟨fs.bits &&& ~~~f.bit⟩

def assign (fs : HealthFlags) (f : HealthFlag) (on : Bool) : HealthFlags :=
  if on then fs.insert f else fs.remove f

def ofList (flags : List HealthFlag) : HealthFlags :=
  flags.foldl insert empty

def toList (fs : HealthFlags) : List HealthFlag :=
  HealthFlag.all.filter fs.contains

def isEmpty (fs : HealthFlags) : Bool :=
  fs.bits = 0

def failing (fs : HealthFlags) : Bool :=
  fs.contains .failedActiveCheck || fs.contains .failedOutlierCheck || fs.contains .failedDiscovery

def degrading (fs : HealthFlags) : Bool :=
  fs.contains .degradedActiveCheck || fs.contains .degradedDiscovery

def health (fs : HealthFlags) : Health :=
  if fs.failing then .unhealthy else if fs.degrading then .degraded else .healthy

def excluded (fs : HealthFlags) : Bool :=
  fs.contains .pendingActiveCheck || fs.contains .excludedByFailure

def text (fs : HealthFlags) : String :=
  match fs.toList with
  | [] => "NONE"
  | flags => "|".intercalate (flags.map HealthFlag.name)

def listing (fs : HealthFlags) : String :=
  "\x7b" ++ ", ".intercalate (fs.toList.map HealthFlag.label) ++ "\x7d"

/-! ## Setting and clearing -/

theorem getLsbD_bit (f g : HealthFlag) : f.bit.getLsbD g.index = decide (g = f) := by
  have := g.index_lt
  simp only [HealthFlag.bit, BitVec.getLsbD_twoPow]
  by_cases h : g = f
  · subst h; simp [this]
  · have : f.index ≠ g.index := fun e => h (HealthFlag.index_inj e.symm)
    simp [h, this]

@[simp] theorem contains_empty (f : HealthFlag) : empty.contains f = false := by
  simp [contains, empty]

@[simp] theorem contains_insert (fs : HealthFlags) (f g : HealthFlag) :
    (fs.insert f).contains g = (decide (g = f) || fs.contains g) := by
  simp [contains, insert, getLsbD_bit, Bool.or_comm]

@[simp] theorem contains_remove (fs : HealthFlags) (f g : HealthFlag) :
    (fs.remove f).contains g = (decide (g ≠ f) && fs.contains g) := by
  have := g.index_lt
  simp only [contains, remove, BitVec.getLsbD_and, BitVec.getLsbD_not, getLsbD_bit, this]
  by_cases h : g = f <;> simp [h]

@[simp] theorem contains_assign (fs : HealthFlags) (f g : HealthFlag) (on : Bool) :
    (fs.assign f on).contains g = if g = f then on else fs.contains g := by
  by_cases h : g = f <;> cases on <;> simp [assign, h]

end HealthFlags

/-- The latest reason a host failed an active check. -/
inductive FailureKind where
  | unknown
  | unhealthy
  | timeout
deriving DecidableEq, Inhabited

namespace FailureKind

def name : FailureKind → String
  | .unknown => "Unknown"
  | .unhealthy => "Unhealthy"
  | .timeout => "Timeout"

def ofName? : String → Option FailureKind
  | "Unknown" => some .unknown
  | "Unhealthy" => some .unhealthy
  | "Timeout" => some .timeout
  | _ => none

end FailureKind

/-- How a completed check changed its host. -/
inductive Transition where
  | unchanged
  | changed
  | changePending
deriving DecidableEq, Inhabited

namespace Transition

def name : Transition → String
  | .unchanged => "Unchanged"
  | .changed => "Changed"
  | .changePending => "ChangePending"

def ofName? : String → Option Transition
  | "Unchanged" => some .unchanged
  | "Changed" => some .changed
  | "ChangePending" => some .changePending
  | _ => none

end Transition

end Roster
