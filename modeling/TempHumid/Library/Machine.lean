import Mathlib.Data.List.Basic

/-!
# Deterministic machines with outputs

A machine is a step function from a state and an input to the next state and
the outputs of that step. A run folds the step function over a list of inputs.
Its trace keeps every input with the outputs of the step and the states around it.

## Implementation notes

An observer folds a trace into a summary of the history. The paired machine
carries that summary beside the state, so an invariant of the paired machine
may relate the present state to the past. `finish_paired` says that the
summary carried along is the one computed from the trace.
-/

namespace TempHumid.Machine

variable {σ ι ο γ : Type*}

/-- A step reads the state and one input, and yields the next state and its outputs. -/
abbrev Step (σ ι ο : Type*) := σ → ι → σ × List ο

/-- One step of a run: the state it finds, its input, its outputs in order, and
the state it leaves. -/
structure Entry (σ ι ο : Type*) where
  before : σ
  input : ι
  outputs : List ο
  after : σ

/-- The entry that a step from `s` on `e` leaves in the trace. -/
def entry (step : Step σ ι ο) (s : σ) (e : ι) : Entry σ ι ο :=
  ⟨s, e, (step s e).2, (step s e).1⟩

/-- The state reached by a list of inputs. -/
def finish (step : Step σ ι ο) : σ → List ι → σ
  | s, [] => s
  | s, e :: es => finish step (step s e).1 es

/-- The steps taken on a list of inputs, oldest first. -/
def trace (step : Step σ ι ο) : σ → List ι → List (Entry σ ι ο)
  | _, [] => []
  | s, e :: es => entry step s e :: trace step (step s e).1 es

@[simp] theorem finish_nil (step : Step σ ι ο) (s : σ) : finish step s [] = s := rfl

@[simp] theorem finish_cons (step : Step σ ι ο) (s : σ) (e : ι) (es : List ι) :
    finish step s (e :: es) = finish step (step s e).1 es := rfl

theorem finish_append (step : Step σ ι ο) (s : σ) (xs ys : List ι) :
    finish step s (xs ++ ys) = finish step (finish step s xs) ys := by
  induction xs generalizing s with
  | nil => rfl
  | cons e xs ih => exact ih (step s e).1

@[simp] theorem trace_nil (step : Step σ ι ο) (s : σ) : trace step s [] = [] := rfl

@[simp] theorem trace_cons (step : Step σ ι ο) (s : σ) (e : ι) (es : List ι) :
    trace step s (e :: es) = entry step s e :: trace step (step s e).1 es := rfl

theorem trace_append (step : Step σ ι ο) (s : σ) (xs ys : List ι) :
    trace step s (xs ++ ys) = trace step s xs ++ trace step (finish step s xs) ys := by
  induction xs generalizing s with
  | nil => rfl
  | cons e xs ih => simp only [List.cons_append, trace_cons, finish_cons, ih]

@[simp] theorem trace_concat (step : Step σ ι ο) (s : σ) (es : List ι) (e : ι) :
    trace step s (es ++ [e]) = trace step s es ++ [entry step (finish step s es) e] := by
  rw [trace_append, trace_cons, trace_nil]

/-- The outputs of a run, oldest first. -/
def outputs (step : Step σ ι ο) : σ → List ι → List ο
  | _, [] => []
  | s, e :: es => (step s e).2 ++ outputs step (step s e).1 es

@[simp] theorem outputs_nil (step : Step σ ι ο) (s : σ) : outputs step s [] = [] := rfl

@[simp] theorem outputs_cons (step : Step σ ι ο) (s : σ) (e : ι) (es : List ι) :
    outputs step s (e :: es) = (step s e).2 ++ outputs step (step s e).1 es := rfl

/-- What the steps of a run amount to. -/
def total (amount : Entry σ ι ο → ℕ) : List (Entry σ ι ο) → ℕ
  | [] => 0
  | e :: es => amount e + total amount es

/-- Every step of the run from `s` satisfies `P`, read at the state before the step. -/
def AllSteps (step : Step σ ι ο) (P : σ → ι → Prop) : σ → List ι → Prop
  | _, [] => True
  | s, e :: es => P s e ∧ AllSteps step P (step s e).1 es

instance AllSteps.decidable (step : Step σ ι ο) (P : σ → ι → Prop) [∀ s e, Decidable (P s e)] :
    ∀ s es, Decidable (AllSteps step P s es)
  | _, [] => isTrue trivial
  | s, e :: es =>
      have := AllSteps.decidable step P (step s e).1 es
      inferInstanceAs (Decidable (P s e ∧ AllSteps step P (step s e).1 es))

section Steps

variable {step : Step σ ι ο} {P Q : σ → ι → Prop} {s : σ}

@[simp] theorem allSteps_nil : AllSteps step P s [] := trivial

@[simp] theorem allSteps_cons {e : ι} {es : List ι} :
    AllSteps step P s (e :: es) ↔ P s e ∧ AllSteps step P (step s e).1 es := Iff.rfl

theorem allSteps_append {xs ys : List ι} :
    AllSteps step P s (xs ++ ys) ↔ AllSteps step P s xs ∧ AllSteps step P (finish step s xs) ys := by
  induction xs generalizing s with
  | nil => simp
  | cons e xs ih => simp only [List.cons_append, allSteps_cons, finish_cons, ih, and_assoc]

theorem allSteps_concat {es : List ι} {e : ι} :
    AllSteps step P s (es ++ [e]) ↔ AllSteps step P s es ∧ P (finish step s es) e := by
  rw [allSteps_append, allSteps_cons, and_iff_left allSteps_nil]

theorem AllSteps.mono {es : List ι} (hPQ : ∀ s e, P s e → Q s e)
    (h : AllSteps step P s es) : AllSteps step Q s es := by
  induction es generalizing s with
  | nil => exact allSteps_nil
  | cons e es ih => exact ⟨hPQ s e h.1, ih h.2⟩

theorem AllSteps.and {es : List ι} (hP : AllSteps step P s es) (hQ : AllSteps step Q s es) :
    AllSteps step (fun s e => P s e ∧ Q s e) s es := by
  induction es generalizing s with
  | nil => exact allSteps_nil
  | cons e es ih => exact ⟨⟨hP.1, hQ.1⟩, ih hP.2 hQ.2⟩

/-- An invariant preserved by every step that satisfies `P` holds after a run of such steps. -/
theorem AllSteps.invariant {I : σ → Prop} {es : List ι} (h : AllSteps step P s es) (h₀ : I s)
    (hstep : ∀ s e, I s → P s e → I (step s e).1) : I (finish step s es) := by
  induction es generalizing s with
  | nil => exact h₀
  | cons e es ih => exact ih h.2 (hstep s e h₀ h.1)

/-- Under an invariant, a condition on the steps yields a property of the steps. -/
theorem AllSteps.of_invariant {I : σ → Prop} {es : List ι} (h : AllSteps step P s es) (h₀ : I s)
    (hstep : ∀ s e, I s → P s e → I (step s e).1) (hPQ : ∀ s e, I s → P s e → Q s e) :
    AllSteps step Q s es := by
  induction es generalizing s with
  | nil => exact allSteps_nil
  | cons e es ih => exact ⟨hPQ s e h₀ h.1, ih h.2 (hstep s e h₀ h.1)⟩

theorem allSteps_true {es : List ι} : AllSteps step (fun _ _ => True) s es := by
  induction es generalizing s with
  | nil => exact allSteps_nil
  | cons e es ih => exact ⟨trivial, ih⟩

/-- Under an invariant that good steps keep, a property of the steps and the
condition that makes a step good agree over every run. -/
theorem allSteps_congr {I : σ → Prop} {es : List ι} (h₀ : I s)
    (hiff : ∀ s e, I s → (P s e ↔ Q s e)) (hstep : ∀ s e, I s → Q s e → I (step s e).1) :
    AllSteps step P s es ↔ AllSteps step Q s es := by
  induction es generalizing s with
  | nil => exact Iff.rfl
  | cons e es ih =>
      constructor
      · rintro ⟨hP, hrest⟩
        have hQ := (hiff s e h₀).mp hP
        exact ⟨hQ, (ih (hstep s e h₀ hQ)).mp hrest⟩
      · rintro ⟨hQ, hrest⟩
        exact ⟨(hiff s e h₀).mpr hQ, (ih (hstep s e h₀ hQ)).mpr hrest⟩

/-- A condition on the inputs alone holds of every step. -/
theorem allSteps_of_forall_mem {es : List ι} (h : ∀ e ∈ es, ∀ s, P s e) :
    AllSteps step P s es := by
  induction es generalizing s with
  | nil => exact allSteps_nil
  | cons e es ih =>
      exact ⟨h e List.mem_cons_self s, ih fun e' he' => h e' (List.mem_cons_of_mem e he')⟩

/-- A property of every state that a run goes through holds at its start and after
every step. -/
theorem forall_prefix_iff {I : σ → Prop} {es : List ι} :
    (∀ xs, xs.IsPrefix es → I (finish step s xs)) ↔
      I s ∧ AllSteps step (fun s e => I (step s e).1) s es := by
  induction es generalizing s with
  | nil =>
      simp only [List.prefix_nil, forall_eq, finish_nil, allSteps_nil, and_true]
  | cons e es ih =>
      rw [allSteps_cons, ← ih]
      constructor
      · intro h
        refine ⟨h [] List.nil_prefix, fun xs hxs => ?_⟩
        exact h (e :: xs) (List.cons_prefix_cons.mpr ⟨rfl, hxs⟩)
      · rintro ⟨hs, hrest⟩ xs hxs
        cases xs with
        | nil => exact hs
        | cons x xs =>
            obtain ⟨rfl, htail⟩ := List.cons_prefix_cons.mp hxs
            exact hrest xs htail

/-- If every step opens as much as it closes and leaves held, so does every run. -/
theorem AllSteps.balance {I : σ → Prop} {held : σ → ℕ} {opened closed : Entry σ ι ο → ℕ}
    {es : List ι} (h : AllSteps step P s es) (h₀ : I s)
    (hstep : ∀ s e, I s → P s e → I (step s e).1)
    (hbalance : ∀ s e, I s → P s e →
      held s + opened (entry step s e) = closed (entry step s e) + held (step s e).1) :
    held s + total opened (trace step s es) =
      total closed (trace step s es) + held (finish step s es) := by
  induction es generalizing s with
  | nil => exact (Nat.add_comm _ _)
  | cons e es ih =>
      have hrest := ih h.2 (hstep s e h₀ h.1)
      have hhead := hbalance s e h₀ h.1
      rw [trace_cons, total, total, finish_cons]
      omega

end Steps

/-- An invariant preserved by every step holds after every run. -/
theorem finish_invariant (step : Step σ ι ο) {I : σ → Prop} {s : σ} (h₀ : I s)
    (hstep : ∀ s e, I s → I (step s e).1) (es : List ι) : I (finish step s es) :=
  allSteps_true.invariant h₀ fun s e hi _ => hstep s e hi

/-- Fold a trace into a summary of the history. -/
def watch (observe : γ → Entry σ ι ο → γ) (g : γ) (tr : List (Entry σ ι ο)) : γ :=
  tr.foldl observe g

/-- The machine that carries the summary of its own history beside its state. -/
def paired (step : Step σ ι ο) (observe : γ → Entry σ ι ο → γ) : Step (σ × γ) ι ο :=
  fun p e => (((step p.1 e).1, observe p.2 (entry step p.1 e)), (step p.1 e).2)

section Paired

variable {step : Step σ ι ο} {observe : γ → Entry σ ι ο → γ}

/-- The carried summary is the summary of the trace. -/
theorem finish_paired (s : σ) (g : γ) (es : List ι) :
    finish (paired step observe) (s, g) es =
      (finish step s es, watch observe g (trace step s es)) := by
  induction es generalizing s g with
  | nil => rfl
  | cons e es ih => exact ih (step s e).1 (observe g (entry step s e))

theorem watch_concat (s : σ) (g : γ) (es : List ι) (e : ι) :
    watch observe g (trace step s (es ++ [e])) =
      observe (watch observe g (trace step s es)) (entry step (finish step s es) e) := by
  simp only [watch, trace_concat, List.foldl_append, List.foldl_cons, List.foldl_nil]

/-- A condition that ignores the summary is a condition on the machine itself. -/
theorem allSteps_paired_iff {P : σ → ι → Prop} {s : σ} {g : γ} {es : List ι} :
    AllSteps (paired step observe) (fun p e => P p.1 e) (s, g) es ↔ AllSteps step P s es := by
  induction es generalizing s g with
  | nil => simp
  | cons e es ih => exact and_congr_right fun _ => ih

end Paired

/-- An invariant of the state and the history holds after every run. -/
theorem watch_invariant (step : Step σ ι ο) (observe : γ → Entry σ ι ο → γ)
    {I : σ → γ → Prop} {s : σ} {g : γ} (h₀ : I s g)
    (hstep : ∀ s g e, I s g → I (step s e).1 (observe g (entry step s e))) (es : List ι) :
    I (finish step s es) (watch observe g (trace step s es)) := by
  have h := finish_invariant (paired step observe) (I := fun p => I p.1 p.2)
    (s := (s, g)) h₀ (fun p e hi => hstep p.1 p.2 e hi) es
  rwa [finish_paired] at h

end TempHumid.Machine
