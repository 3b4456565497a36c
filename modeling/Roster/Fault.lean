/-!
# Roster.Fault

What a caller must not do.

* `Fault`   — a rule of use that was broken.
* `Attempt` — the outcome of a step that may be refused: the state after it in either case.
* `map_eq_done`, `andThen_eq_done`, `each_keeps` — taking apart steps that were not refused.
-/

namespace Roster

inductive Fault where
  | zeroFactor
  | localWithoutGroups
  | updatedTwice (priority : Nat)
  | weightlessLocality
  | initializedTwice (cluster : String)
  | secondChecker (cluster : String)
deriving DecidableEq

namespace Fault

def message : Fault → String
  | .zeroFactor => "the overprovisioning factor must be positive"
  | .localWithoutGroups => "a local locality requires at least one locality group"
  | .updatedTwice priority => "priority " ++ toString priority ++ " updated twice in one batch"
  | .weightlessLocality => "locality schedulers never hold zero weight entries"
  | .initializedTwice cluster => "cluster " ++ cluster ++ " initialized twice"
  | .secondChecker cluster => "cluster " ++ cluster ++ " already has a health checker"

end Fault

inductive Attempt (ε σ : Type) where
  | done (state : σ)
  | failed (error : ε) (state : σ)

namespace Attempt

variable {ε σ ρ : Type}

def state : Attempt ε σ → σ
  | .done s => s
  | .failed _ s => s

def error? : Attempt ε σ → Option ε
  | .done _ => none
  | .failed e _ => some e

def mapError {δ : Type} (f : ε → δ) : Attempt ε σ → Attempt δ σ
  | .done s => .done s
  | .failed e s => .failed (f e) s

def map (f : σ → ρ) : Attempt ε σ → Attempt ε ρ
  | .done s => .done (f s)
  | .failed e s => .failed e (f s)

/-- Goes on only from a step that was not refused. -/
def andThen (a : Attempt ε σ) (next : σ → Attempt ε σ) : Attempt ε σ :=
  match a with
  | .done s => next s
  | .failed e s => .failed e s

def each {α : Type} (step : α → σ → Attempt ε σ) : List α → σ → Attempt ε σ
  | [], s => .done s
  | a :: rest, s => (step a s).andThen (each step rest)

@[simp] theorem andThen_done (s : σ) (next : σ → Attempt ε σ) :
    (Attempt.done s).andThen next = next s := rfl

@[simp] theorem andThen_failed (e : ε) (s : σ) (next : σ → Attempt ε σ) :
    (Attempt.failed e s).andThen next = .failed e s := rfl

/-! ## Steps that were not refused -/

theorem map_eq_done {a : Attempt ε σ} {f : σ → ρ} {t : ρ} (h : a.map f = .done t) :
    ∃ s, a = .done s ∧ t = f s := by
  cases a with
  | failed e s => cases h
  | done s => cases h; exact ⟨s, rfl, rfl⟩

theorem mapError_eq_done {δ : Type} {a : Attempt ε σ} {f : ε → δ} {s : σ}
    (h : a.mapError f = .done s) : a = .done s := by
  cases a with
  | failed e t => cases h
  | done t => cases h; rfl

theorem andThen_eq_done {a : Attempt ε σ} {next : σ → Attempt ε σ} {t : σ}
    (h : a.andThen next = .done t) : ∃ s, a = .done s ∧ next s = .done t := by
  cases a with
  | failed e s => cases h
  | done s => exact ⟨s, rfl, h⟩

/-- What every step keeps, all of them keep. -/
theorem each_keeps {α : Type} {step : α → σ → Attempt ε σ} {P : σ → Prop} {as : List α}
    (hstep : ∀ a ∈ as, ∀ s t, P s → step a s = .done t → P t) {s t : σ} (hs : P s)
    (h : each step as s = .done t) : P t := by
  induction as generalizing s with
  | nil =>
    cases h
    exact hs
  | cons a as ih =>
    obtain ⟨u, hu, h⟩ := andThen_eq_done h
    exact ih (fun b hb => hstep b (List.mem_cons_of_mem a hb))
      (hstep a List.mem_cons_self s u hs hu) h

end Attempt

end Roster
