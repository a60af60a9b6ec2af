import Mathlib.Init

/-! # Commands that may fail

A command changes a state and may fail; what it did before it failed stays done.
What is known of a command is what holds where it ends and where it fails, with a
rule for every way to put commands together.
-/

namespace Actions

variable {σ α β : Type}

def Action (σ α : Type) : Type :=
  σ → Option α × σ

instance : Monad (Action σ) where
  pure a s := (some a, s)
  bind m f s :=
    match m s with
    | (some a, s') => f a s'
    | (none, s') => (none, s')

namespace Action

def fail : Action σ α :=
  fun s => (none, s)

def get : Action σ σ :=
  fun s => (some s, s)

def modify (f : σ → σ) : Action σ Unit :=
  fun s => (some (), f s)

def attempt (m : Action σ α) : Action σ (Option α) :=
  fun s => (some (m s).1, (m s).2)

/-- From `s` the command ends with `Q`, or fails with `E`. -/
def Ends (m : Action σ α) (s : σ) (Q : α → σ → Prop) (E : σ → Prop) : Prop :=
  match m s with
  | (some a, s') => Q a s'
  | (none, s') => E s'

variable {s : σ} {m m' : Action σ α} {f : α → Action σ β} {Q Q' : α → σ → Prop}
  {R : β → σ → Prop} {E E' : σ → Prop}

theorem Ends.pure {a : α} (h : Q a s) : Ends (pure a) s Q E := h

theorem Ends.fail (h : E s) : Ends (fail : Action σ α) s Q E := h

theorem Ends.modify {g : σ → σ} {Q : Unit → σ → Prop} (h : Q () (g s)) :
    Ends (modify g) s Q E := h

theorem Ends.get_bind {f : σ → Action σ β} (h : Ends (f s) s R E) : Ends (get >>= f) s R E := h

theorem Ends.modify_bind {g : σ → σ} {f : Unit → Action σ β} (h : Ends (f ()) (g s) R E) :
    Ends (Action.modify g >>= f) s R E := h

theorem Ends.imp (h : Ends m s Q E) (hQ : ∀ a s', Q a s' → Q' a s')
    (hE : ∀ s', E s' → E' s') : Ends m s Q' E' := by
  unfold Ends at h ⊢
  split at h
  · exact hQ _ _ h
  · exact hE _ h

theorem Ends.bind (h : Ends m s Q E) (hf : ∀ a s', Q a s' → Ends (f a) s' R E')
    (hE : ∀ s', E s' → E' s') : Ends (m >>= f) s R E' := by
  have hbind : (m >>= f) s =
      match m s with
      | (some a, s') => f a s'
      | (none, s') => (none, s') := rfl
  unfold Ends at h ⊢
  rw [hbind]
  split at h
  · exact hf _ _ h
  · exact hE _ h

theorem Ends.attempt_bind {f : Option α → Action σ β}
    (h : Ends m s (fun a s' => Ends (f (some a)) s' R E) fun s' => Ends (f none) s' R E) :
    Ends (m.attempt >>= f) s R E := by
  have hbind : (m.attempt >>= f) s = f (m s).1 (m s).2 := rfl
  unfold Ends at h ⊢
  rw [hbind]
  split at h
  · next heq => rwa [heq]
  · next heq => rwa [heq]

theorem Ends.ite {c : Prop} [Decidable c] (hthen : c → Ends m s Q E)
    (helse : ¬ c → Ends m' s Q E) : Ends (if c then m else m') s Q E := by
  split
  · next h => exact hthen h
  · next h => exact helse h

end Action

end Actions
