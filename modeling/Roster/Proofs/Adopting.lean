import Roster.Cluster.Reconcile

/-!
# Roster.Proofs.Adopting

What an update in place changes of a host.

* `hasFlag_adopt` — two flags, those that a discovery source reports.
* `SameHealth`    — two hosts that a level splits alike.
* `shifts_eq`     — when an update asks for the level to be installed again.
* `sameHealth_adopt`, `shifts_adopt` — an update that does not leaves health and weight as they are,
  and whether the next one does is the same as before it.
-/

namespace Roster

namespace Host

theorem alike_adopt (existing delivered : Host) : Alike existing (existing.adopt delivered) := by
  simp only [adopt]
  split <;> exact ⟨rfl, rfl, rfl, rfl, rfl, rfl⟩

theorem hasFlag_adopt (existing delivered : Host) (f : HealthFlag) :
    (existing.adopt delivered).hasFlag f =
      if f = .failedDiscovery ∨ f = .degradedDiscovery then delivered.hasFlag f
      else existing.hasFlag f := by
  have hflags : (existing.adopt delivered).flags =
      (existing.flags.assign .failedDiscovery (delivered.hasFlag .failedDiscovery)).assign
        .degradedDiscovery (delivered.hasFlag .degradedDiscovery) := by
    simp only [adopt]
    split <;> rfl
  rw [hasFlag, hflags, HealthFlags.contains_assign, HealthFlags.contains_assign]
  by_cases hd : f = .degradedDiscovery
  · rw [if_pos hd, if_pos (.inr hd), hd]
  · by_cases hf : f = .failedDiscovery
    · rw [if_neg hd, if_pos hf, if_pos (.inl hf), hf]
    · rw [if_neg hd, if_neg hf, if_neg (not_or.2 ⟨hf, hd⟩)]
      rfl

theorem metadata_adopt (h d : Host) : ((h.adopt d).metadata == d.metadata) = true := by
  simp only [adopt]
  split
  · assumption
  · exact Metadata.same_refl _

theorem weight_adopt (h d : Host) : (h.adopt d).weight = d.weight := by
  simp only [adopt]
  split <;> rfl

theorem used_adopt (h d : Host) : (h.adopt d).used = h.used := by
  simp only [adopt]
  split <;> rfl

theorem failure_adopt (h d : Host) : (h.adopt d).failure = h.failure := by
  simp only [adopt]
  split <;> rfl

/-! ## Health -/

/-- The hosts have the same coarse health, and count alike in the weight of a locality. -/
structure SameHealth (h k : Host) : Prop where
  health : k.health = h.health
  excluded : k.excluded = h.excluded

theorem SameHealth.refl (h : Host) : SameHealth h h := ⟨rfl, rfl⟩

theorem SameHealth.trans {h k l : Host} (h₁ : SameHealth h k) (h₂ : SameHealth k l) :
    SameHealth h l :=
  ⟨h₂.health.trans h₁.health, h₂.excluded.trans h₁.excluded⟩

/-- Something other than the discovery source reports a failure. -/
def isFailing (h : Host) : Bool :=
  h.hasFlag .failedActiveCheck || h.hasFlag .failedOutlierCheck

/-- The discovery source, or a check, reports that the host is degraded. -/
def isDegrading (h : Host) : Bool :=
  h.hasFlag .degradedActiveCheck || h.hasFlag .degradedDiscovery

def healthOf (failing degrading : Bool) : Health :=
  if failing then .unhealthy else if degrading then .degraded else .healthy

theorem health_eq (h : Host) :
    h.health = healthOf (h.isFailing || h.hasFlag .failedDiscovery) h.isDegrading := rfl

theorem sameHealth_of_flags {h k : Host}
    (hf : ∀ f, f ≠ .pendingRemoval → k.hasFlag f = h.hasFlag f) : SameHealth h k := by
  constructor
  · simp only [health_eq, isFailing, isDegrading, hf _ (by simp : HealthFlag.failedActiveCheck ≠ _),
      hf _ (by simp : HealthFlag.failedOutlierCheck ≠ _), hf _ (by simp : HealthFlag.failedDiscovery ≠ _),
      hf _ (by simp : HealthFlag.degradedActiveCheck ≠ _),
      hf _ (by simp : HealthFlag.degradedDiscovery ≠ _)]
  · change (k.hasFlag .pendingActiveCheck || k.hasFlag .excludedByFailure) =
      (h.hasFlag .pendingActiveCheck || h.hasFlag .excludedByFailure)
    rw [hf _ (by simp), hf _ (by simp)]

theorem sameHealth_setPending (h : Host) : SameHealth h (h.setFlag .pendingRemoval) :=
  sameHealth_of_flags fun f hf => by simp [hf]

theorem sameHealth_clearPending (h : Host) : SameHealth h (h.clearFlag .pendingRemoval) :=
  sameHealth_of_flags fun f hf => by simp [hf]

/-! ## Shifts -/

/-- Whether health shifts when the discovery source reports other flags than before. -/
def healthShift (failing weak failed failed' degraded degraded' : Bool) : Bool :=
  !failing && (failed != failed' || (!failed' && !weak && degraded != degraded'))

theorem healthShift_eq : ∀ failing weak failed failed' degraded degraded' : Bool,
    healthShift failing weak failed failed' degraded degraded' =
      (decide (healthOf (failing || failed) (weak || degraded) ≠
          healthOf (failing || failed') (weak || degraded)) ||
        decide (healthOf (failing || failed') (weak || degraded) ≠
          healthOf (failing || failed') (weak || degraded'))) := by
  decide

theorem healthOf_of_not_shift : ∀ failing weak failed failed' degraded degraded' : Bool,
    healthShift failing weak failed failed' degraded degraded' = false →
      healthOf (failing || failed') (weak || degraded') =
        healthOf (failing || failed) (weak || degraded) := by
  decide

theorem healthShift_of_not_shift : ∀ failing weak failed f f' degraded d d' : Bool,
    healthShift failing weak failed f degraded d = false →
      healthShift failing weak f f' d d' = healthShift failing weak failed f' degraded d' := by
  decide

/-- A host that fails anyhow shifts by its weight and metadata only; another one also by the failure
that the discovery source reports and, unless it does report one, by degradation. -/
theorem shifts_eq (h d : Host) :
    h.shifts d =
      (decide (h.weight ≠ d.weight) ||
        healthShift h.isFailing (h.hasFlag .degradedActiveCheck) (h.hasFlag .failedDiscovery)
          (d.hasFlag .failedDiscovery) (h.hasFlag .degradedDiscovery) (d.hasFlag .degradedDiscovery) ||
        !(h.metadata == d.metadata)) := by
  rw [healthShift_eq]
  simp only [shifts, healthShifts, health_eq, isFailing, isDegrading, hasFlag,
    HealthFlags.contains_assign, reduceCtorEq, if_false, if_true, Bool.or_assoc]

theorem shifts_eq_false {h d : Host} :
    h.shifts d = false ↔ h.weight = d.weight ∧
      healthShift h.isFailing (h.hasFlag .degradedActiveCheck) (h.hasFlag .failedDiscovery)
        (d.hasFlag .failedDiscovery) (h.hasFlag .degradedDiscovery) (d.hasFlag .degradedDiscovery) =
          false ∧
      (h.metadata == d.metadata) = true := by
  rw [shifts_eq]
  simp [and_assoc]

theorem shifts_congr {h k : Host} (hweight : k.weight = h.weight) (hmetadata : k.metadata = h.metadata)
    (hf : ∀ f, f ≠ .pendingRemoval → k.hasFlag f = h.hasFlag f) (d : Host) :
    k.shifts d = h.shifts d := by
  simp only [shifts_eq, isFailing, hweight, hmetadata,
    hf _ (by simp : HealthFlag.failedActiveCheck ≠ _), hf _ (by simp : HealthFlag.failedOutlierCheck ≠ _),
    hf _ (by simp : HealthFlag.failedDiscovery ≠ _), hf _ (by simp : HealthFlag.degradedActiveCheck ≠ _),
    hf _ (by simp : HealthFlag.degradedDiscovery ≠ _)]

theorem shifts_setPending (h d : Host) : (h.setFlag .pendingRemoval).shifts d = h.shifts d :=
  shifts_congr (h := h) (k := h.setFlag .pendingRemoval) rfl rfl (fun f hf => by simp [hf]) d

theorem shifts_clearPending (h d : Host) : (h.clearFlag .pendingRemoval).shifts d = h.shifts d :=
  shifts_congr (h := h) (k := h.clearFlag .pendingRemoval) rfl rfl (fun f hf => by simp [hf]) d

theorem isFailing_adopt (h d : Host) : (h.adopt d).isFailing = h.isFailing := by
  simp [isFailing, hasFlag_adopt]

section NoShift

variable {h d : Host} (hno : h.shifts d = false)

include hno

theorem metadata_adopt_of_not_shifts : (h.adopt d).metadata = h.metadata := by
  simp [adopt, (shifts_eq_false.1 hno).2.2]

theorem sameHealth_adopt : SameHealth h (h.adopt d) := by
  have hhealth := healthOf_of_not_shift _ _ _ _ _ _ (shifts_eq_false.1 hno).2.1
  constructor
  · rw [health_eq, health_eq, isFailing_adopt, isDegrading, hasFlag_adopt, hasFlag_adopt, hasFlag_adopt]
    exact hhealth
  · change ((h.adopt d).hasFlag .pendingActiveCheck || (h.adopt d).hasFlag .excludedByFailure) =
      (h.hasFlag .pendingActiveCheck || h.hasFlag .excludedByFailure)
    simp [hasFlag_adopt]

/-- After an update that does not shift, the next one shifts exactly if it had shifted before. -/
theorem shifts_adopt (d' : Host) : (h.adopt d).shifts d' = h.shifts d' := by
  obtain ⟨hweight, hhealth, _⟩ := shifts_eq_false.1 hno
  rw [shifts_eq, shifts_eq, metadata_adopt_of_not_shifts hno, weight_adopt, hweight, isFailing_adopt,
    hasFlag_adopt, hasFlag_adopt, hasFlag_adopt]
  congr 2
  exact healthShift_of_not_shift _ _ _ _ _ _ _ _ hhealth

end NoShift

end Host

end Roster
