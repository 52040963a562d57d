import TempHumid.Library.Machine

/-!
# Simulations between machines

Two machines read the same inputs. A simulation is a relation between their
states that every admissible step keeps; in lockstep the outputs agree as well.

## Implementation notes

The condition on a step is read at the concrete state, so that the environment
of the concrete machine can be restricted without a word about the abstract one.
-/

namespace TempHumid.Machine

variable {σ τ ι ο κ : Type*}

/-- `R` is kept by every step of `f` that satisfies `P` and the step of `g` on
the same input. -/
def Simulates (f : Step σ ι ο) (g : Step τ ι κ) (P : σ → ι → Prop) (R : σ → τ → Prop) : Prop :=
  ∀ s t e, R s t → P s e → R (f s e).1 (g t e).1

/-- Related states take every step that satisfies `P` with the same outputs and stay
related. -/
structure Lockstep (f : Step σ ι ο) (g : Step τ ι ο) (P : σ → ι → Prop) (R : σ → τ → Prop) :
    Prop where
  next : Simulates f g P R
  outputs : ∀ s t e, R s t → P s e → (f s e).2 = (g t e).2

section Simulation

variable {f : Step σ ι ο} {R : σ → τ → Prop} {s : σ} {t : τ} {es : List ι}

theorem Simulates.finish {g : Step τ ι κ} {P : σ → ι → Prop} (h : Simulates f g P R)
    (hst : R s t) (hsteps : AllSteps f P s es) : R (finish f s es) (finish g t es) := by
  induction es generalizing s t with
  | nil => exact hst
  | cons e es ih => exact ih (h s t e hst hsteps.1) hsteps.2

/-- Every state of the run is related to the state of the other run at the same place. -/
theorem Simulates.forall_prefix {g : Step τ ι κ} {P : σ → ι → Prop} (h : Simulates f g P R)
    (hst : R s t) (hsteps : AllSteps f P s es) :
    ∀ xs, xs.IsPrefix es → R (Machine.finish f s xs) (Machine.finish g t xs) := by
  rintro xs ⟨ys, rfl⟩
  exact h.finish hst (allSteps_append.mp hsteps).1

/-- Machines in lockstep have the same outputs in every run. -/
theorem Lockstep.trace_outputs {g : Step τ ι ο} {P : σ → ι → Prop} (h : Lockstep f g P R)
    (hst : R s t) (hsteps : AllSteps f P s es) :
    (trace f s es).map Entry.outputs = (trace g t es).map Entry.outputs := by
  induction es generalizing s t with
  | nil => rfl
  | cons e es ih =>
      rw [trace_cons, trace_cons, List.map_cons, List.map_cons,
        ih (h.next s t e hst hsteps.1) hsteps.2]
      exact congrArg₂ List.cons (h.outputs s t e hst hsteps.1) rfl

end Simulation

end TempHumid.Machine
