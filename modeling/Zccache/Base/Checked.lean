import Mathlib.Data.List.Forall2

/-! # Computations that may refuse

What it means that a computation with checks in it succeeds: every check holds, and
every part has a result.
-/

namespace Checked

variable {ε α β : Type}

def require (p : Prop) [Decidable p] (fault : ε) : Except ε Unit :=
  if p then .ok () else .error fault

def orFail (fault : ε) : Option α → Except ε α
  | some a => .ok a
  | none => .error fault

@[simp] theorem require_eq_ok {p : Prop} [Decidable p] {fault : ε} {u : Unit} :
    require p fault = .ok u ↔ p := by
  unfold require
  split <;> simp [*]

@[simp] theorem orFail_eq_ok {fault : ε} {o : Option α} {a : α} :
    orFail fault o = .ok a ↔ o = some a := by
  cases o <;> simp [orFail]

variable {x : Except ε α}

@[simp] theorem bind_eq_ok {f : α → Except ε β} {b : β} :
    (x >>= f) = .ok b ↔ ∃ a, x = .ok a ∧ f a = .ok b := by
  cases x with
  | error | ok => simp [bind, Except.bind]

@[simp] theorem pure_eq_ok {a b : α} : (pure a : Except ε α) = .ok b ↔ a = b := by
  simp [pure, Except.pure]

@[simp] theorem map_eq_ok {f : α → β} {b : β} : (f <$> x) = .ok b ↔ ∃ a, x = .ok a ∧ f a = b := by
  cases x with
  | error | ok => simp [Functor.map, Except.map]

theorem toOption_congr {ε' : Type} {y : Except ε' α} (h : ∀ a, x = .ok a ↔ y = .ok a) :
    x.toOption = y.toOption := by
  cases x with
  | ok a => rw [(h a).mp rfl]; rfl
  | error fault =>
    cases y with
    | ok a => exact absurd ((h a).mpr rfl) (by simp)
    | error fault' => rfl

theorem mapM_eq_ok {f : α → Except ε β} {l : List α} {r : List β} :
    l.mapM f = .ok r ↔ List.Forall₂ (fun a b => f a = .ok b) l r := by
  induction l generalizing r with
  | nil => rw [List.mapM_nil, pure_eq_ok, List.forall₂_nil_left_iff, eq_comm]
  | cons a l ih =>
    rw [List.mapM_cons, List.forall₂_cons_left_iff]
    simp only [bind_eq_ok, pure_eq_ok, ih]
    constructor
    · rintro ⟨b, hb, bs, hbs, rfl⟩
      exact ⟨b, bs, hb, hbs, rfl⟩
    · rintro ⟨b, bs, hb, hbs, rfl⟩
      exact ⟨b, hb, bs, hbs, rfl⟩

end Checked
