import Mathlib.Data.List.Induction

/-! # Runs of a step function

Rules for what holds after any sequence of operations: an invariant that every
step keeps, a relation to another run that every step keeps, and the origin of a
value that only some steps can bring in.
-/

namespace Run

variable {σ ι : Type} (step : σ → ι → σ)

def run (s : σ) (ops : List ι) : σ :=
  ops.foldl step s

@[simp] theorem run_nil (s : σ) : run step s [] = s := rfl

@[simp] theorem run_cons (s : σ) (op : ι) (ops : List ι) :
    run step s (op :: ops) = run step (step s op) ops := rfl

theorem run_append (s : σ) (ops ops' : List ι) :
    run step s (ops ++ ops') = run step (run step s ops) ops' :=
  List.foldl_append

variable {step} {Inv : σ → Prop} {s : σ}

theorem run_invariant (hinit : Inv s) (hstep : ∀ s op, Inv s → Inv (step s op)) (ops : List ι) :
    Inv (run step s ops) := by
  induction ops generalizing s with
  | nil => exact hinit
  | cons op ops ih => exact ih (hstep s op hinit)

/-- Every step of the run meets `P`, given the state it is taken in. -/
def Along (step : σ → ι → σ) (P : σ → ι → Prop) : σ → List ι → Prop
  | _, [] => True
  | s, op :: ops => P s op ∧ Along step P (step s op) ops

instance decidableAlong (P : σ → ι → Prop) [∀ s op, Decidable (P s op)] :
    (s : σ) → (ops : List ι) → Decidable (Along step P s ops)
  | _, [] => isTrue trivial
  | s, op :: ops =>
    have := decidableAlong P (step s op) ops
    inferInstanceAs (Decidable (P s op ∧ Along step P (step s op) ops))

variable {P : σ → ι → Prop} {ops : List ι}

theorem run_invariant_along (hinit : Inv s) (hstep : ∀ s op, Inv s → P s op → Inv (step s op))
    (h : Along step P s ops) : Inv (run step s ops) := by
  induction ops generalizing s with
  | nil => exact hinit
  | cons op ops ih => exact ih (hstep s op hinit h.1) h.2

/-- Under an invariant, a condition that follows on each step follows along a run. -/
theorem along_mono {Q : σ → ι → Prop} (hinit : Inv s)
    (hstep : ∀ s op, Inv s → P s op → Inv (step s op)) (himp : ∀ s op, Inv s → P s op → Q s op)
    (h : Along step P s ops) : Along step Q s ops := by
  induction ops generalizing s with
  | nil => trivial
  | cons op ops ih => exact ⟨himp s op hinit h.1, ih (hstep s op hinit h.1) h.2⟩

/-- Under an invariant, two conditions that agree on each step hold along the same runs. -/
theorem along_congr {Q R : σ → ι → Prop} (hinit : Inv s)
    (hstep : ∀ s op, Inv s → P s op → Inv (step s op))
    (hiff : ∀ s op, Inv s → P s op → (Q s op ↔ R s op)) (h : Along step P s ops) :
    Along step Q s ops ↔ Along step R s ops := by
  induction ops generalizing s with
  | nil => exact Iff.rfl
  | cons op ops ih =>
    exact and_congr (hiff s op hinit h.1) (ih (hstep s op hinit h.1) h.2)

theorem run_simulation {τ : Type} {step' : τ → ι → τ} {R : σ → τ → Prop} {t : τ} (hinit : R s t)
    (hstep : ∀ s t op, R s t → R (step s op) (step' t op)) (ops : List ι) :
    R (run step s ops) (run step' t ops) := by
  induction ops generalizing s t with
  | nil => exact hinit
  | cons op ops ih => exact ih (hstep s t op hinit)

/-- What does not hold at first, and what a step only keeps or brings in, was brought in by an
earlier step. -/
theorem run_origin (Holds : σ → Prop) {Produces : σ → ι → Prop} (hinit : ¬ Holds s)
    (hstep : ∀ s op, Holds (step s op) → Holds s ∨ Produces s op) (h : Holds (run step s ops)) :
    ∃ pre op post, ops = pre ++ op :: post ∧ Produces (run step s pre) op := by
  induction ops using List.reverseRecOn with
  | nil => exact absurd h hinit
  | append_singleton ops op ih =>
    rw [run_append] at h
    rcases hstep _ op h with hkept | hprod
    · obtain ⟨pre, op', post, rfl, hop'⟩ := ih hkept
      exact ⟨pre, op', post ++ [op], by simp, hop'⟩
    · exact ⟨ops, op, [], rfl, hprod⟩

end Run
