import Mathlib.Data.List.Basic

/-! # Reading an input that may still grow

A reader takes its value from an input at a position. A reader is safe if it never
moves back and if the end of the input can stop it with one fault only: whatever else
it does on an input, it does on every longer one. Readers that are put together from
safe ones are safe.
-/

namespace Incremental

variable {α ε β γ : Type}

def Reader (α ε β : Type) := List α → ℕ → Except ε (β × ℕ)

instance : Monad (Reader α ε) where
  pure b := fun _ pos => .ok (b, pos)
  bind m f := fun data pos =>
    match m data pos with
    | .ok (b, pos') => f b data pos'
    | .error fault => .error fault

namespace Reader

def fail (fault : ε) : Reader α ε β := fun _ _ => .error fault

def orFail (fault : ε) : Option β → Reader α ε β
  | some b => pure b
  | none => fail fault

def move (f : ℕ → ℕ) : Reader α ε Unit := fun _ pos => .ok ((), f pos)

/-- The values of `n` reads in a row. -/
def times (m : Reader α ε β) : ℕ → Reader α ε (List β)
  | 0 => pure []
  | n + 1 => do
    let b ← m
    let rest ← times m n
    pure (b :: rest)

theorem bind_apply (m : Reader α ε β) (f : β → Reader α ε γ) (data : List α) (pos : ℕ) :
    (m >>= f) data pos =
      match m data pos with
      | .ok (b, pos') => f b data pos'
      | .error fault => .error fault := rfl

variable {m : Reader α ε β} {f : β → Reader α ε γ} {data : List α} {pos : ℕ}

theorem bind_of_error {fault : ε} (h : m data pos = .error fault) :
    (m >>= f) data pos = .error fault := by
  rw [bind_apply, h]

theorem bind_eq_ok {r : γ × ℕ} :
    (m >>= f) data pos = .ok r ↔ ∃ b pos', m data pos = .ok (b, pos') ∧ f b data pos' = .ok r := by
  rw [bind_apply]
  rcases m data pos with fault | ⟨b, pos'⟩
  · simp
  · constructor
    · intro h
      exact ⟨b, pos', rfl, h⟩
    · rintro ⟨b', pos'', h, hr⟩
      cases h
      exact hr

theorem ite_eq_ok {p : Prop} [Decidable p] {n : Reader α ε β} {r : β × ℕ} :
    (if p then m else n) data pos = .ok r ↔
      p ∧ m data pos = .ok r ∨ ¬ p ∧ n data pos = .ok r := by
  by_cases h : p <;> simp [h]

variable {short : ε}

structure Safe (short : ε) (m : Reader α ε β) : Prop where
  stable : ∀ data more pos, m data pos = .error short ∨ m (data ++ more) pos = m data pos
  forward : ∀ {data pos b pos'}, m data pos = .ok (b, pos') → pos ≤ pos'

namespace Safe

theorem pure (b : β) : Safe short (pure b : Reader α ε β) where
  stable _ _ _ := Or.inr rfl
  forward h := by
    cases h
    exact Nat.le_refl _

theorem fail (fault : ε) : Safe short (fail fault : Reader α ε β) where
  stable _ _ _ := Or.inr rfl
  forward h := nomatch h

theorem orFail (fault : ε) (o : Option β) : Safe short (orFail fault o : Reader α ε β) := by
  cases o with
  | none => exact .fail fault
  | some b => exact .pure b

theorem move {f : ℕ → ℕ} (h : ∀ pos, pos ≤ f pos) : Safe short (move f : Reader α ε Unit) where
  stable _ _ _ := Or.inr rfl
  forward hok := by
    cases hok
    exact h _

variable {m : Reader α ε β}

theorem bind {f : β → Reader α ε γ} (hm : Safe short m) (hf : ∀ b, Safe short (f b)) :
    Safe short (m >>= f) where
  stable data more pos := by
    rcases hm.stable data more pos with h | h
    · exact Or.inl (bind_of_error h)
    · rw [bind_apply, bind_apply, h]
      rcases m data pos with fault | ⟨b, pos'⟩
      · exact Or.inr rfl
      · exact (hf b).stable data more pos'
  forward h := by
    obtain ⟨b, mid, hb, hr⟩ := bind_eq_ok.mp h
    exact Nat.le_trans (hm.forward hb) ((hf b).forward hr)

theorem ite {p : Prop} [Decidable p] {n : Reader α ε β} (hm : p → Safe short m)
    (hn : ¬ p → Safe short n) : Safe short (if p then m else n) := by
  split
  · next h => exact hm h
  · next h => exact hn h

theorem times (hm : Safe short m) (n : ℕ) : Safe short (times m n) := by
  induction n with
  | zero => exact .pure []
  | succ n ih => exact hm.bind fun b => ih.bind fun rest => .pure (b :: rest)

/-- A reader that takes its fuel from its input is safe if more fuel changes nothing. -/
theorem of_fuel {fueled : ℕ → Reader α ε β} (hfueled : ∀ n, Safe short (fueled n))
    (hm : ∀ data pos n, data.length ≤ n → m data pos = fueled n data pos) : Safe short m where
  stable data more pos := by
    have hlong := hm (data ++ more) pos (data ++ more).length (Nat.le_refl _)
    have hshort := hm data pos (data ++ more).length (by simp)
    rw [hlong, hshort]
    exact (hfueled _).stable data more pos
  forward {data pos b pos'} h := by
    rw [hm data pos data.length (Nat.le_refl _)] at h
    exact (hfueled _).forward h

end Safe

/-- The first reader is safe, and from `start` on it reads what the second one reads. -/
structure SafeFrom (short : ε) (data : List α) (start : ℕ) (m m' : Reader α ε β) : Prop where
  safe : Safe short m
  agree : ∀ pos, start ≤ pos → m data pos = m' data pos

namespace SafeFrom

variable {start : ℕ} {m m' n n' : Reader α ε β} {f g : β → Reader α ε γ}

theorem refl (h : Safe short m) : SafeFrom short data start m m :=
  ⟨h, fun _ _ => rfl⟩

theorem bind_later (step : ℕ) (hm : SafeFrom short data start m m')
    (hlater : ∀ pos b pos', m data pos = .ok (b, pos') → pos + step ≤ pos')
    (hf : ∀ b, SafeFrom short data (start + step) (f b) (g b)) :
    SafeFrom short data start (m >>= f) (m' >>= g) := by
  refine ⟨hm.safe.bind fun b => (hf b).safe, fun pos hpos => ?_⟩
  rw [bind_apply, bind_apply, ← hm.agree pos hpos]
  rcases hr : m data pos with fault | ⟨b, pos'⟩
  · rfl
  · have hle := hlater pos b pos' hr
    exact (hf b).agree pos' (by omega)

theorem bind (hm : SafeFrom short data start m m')
    (hf : ∀ b, SafeFrom short data start (f b) (g b)) :
    SafeFrom short data start (m >>= f) (m' >>= g) :=
  .bind_later 0 hm (fun _ _ _ h => hm.safe.forward h) hf

theorem ite {p : Prop} [Decidable p] (hm : SafeFrom short data start m m')
    (hn : SafeFrom short data start n n') :
    SafeFrom short data start (if p then m else n) (if p then m' else n') := by
  split
  · exact hm
  · exact hn

end SafeFrom

end Reader

end Incremental
