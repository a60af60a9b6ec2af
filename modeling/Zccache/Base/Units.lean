import Mathlib.Data.List.Basic

/-! # Reading a list by one or by two

A reader takes an item alone, or with the item after it as its value. Of two readers
the one that takes values more rarely finds all values of the other, or they part.
-/

namespace Units

open List

variable {α : Type} {takes takes' : α → Bool}

def units (takes : α → Bool) : List α → List (α × Option α)
  | [] => []
  | [a] => [(a, none)]
  | a :: b :: rest =>
    if takes a then (a, some b) :: units takes rest
    else (a, none) :: units takes (b :: rest)

/-- The positions of the values in a list that starts at position `i`. -/
def valuePositions (takes : α → Bool) (i : ℕ) : List α → List ℕ
  | [] => []
  | [_] => []
  | a :: b :: rest =>
    if takes a then (i + 1) :: valuePositions takes (i + 2) rest
    else valuePositions takes (i + 1) (b :: rest)

variable {l : List α}

theorem takes_of_mem_units {a b : α} (h : (a, some b) ∈ units takes l) : takes a = true := by
  fun_induction units takes l with
  | case1 => cases h
  | case2 => simp at h
  | case3 a' b' rest htakes ih =>
    rcases mem_cons.mp h with heq | h
    · cases heq
      exact htakes
    · exact ih h
  | case4 a' b' rest htakes ih =>
    rcases mem_cons.mp h with heq | h
    · cases heq
    · exact ih h

theorem lt_of_mem_valuePositions {i j : ℕ} (h : j ∈ valuePositions takes i l) : i < j := by
  fun_induction valuePositions takes i l with
  | case1 | case2 => cases h
  | case3 i a b rest htakes ih =>
    rcases mem_cons.mp h with rfl | h
    · omega
    · have := ih h
      omega
  | case4 i a b rest htakes ih =>
    have := ih h
    omega

variable (hle : ∀ a, takes' a = true → takes a = true)

include hle

/-- The values of a reader are values of a rarer one just when that one takes each of them. -/
theorem valuePositions_subset_iff (i : ℕ) (l : List α) :
    valuePositions takes i l ⊆ valuePositions takes' i l ↔
      ∀ u ∈ units takes l, u.2.isSome → takes' u.1 = true := by
  fun_induction valuePositions takes i l with
  | case1 | case2 => simp [units]
  | case3 i a b rest htakes ih =>
    rw [units, if_pos htakes, forall_mem_cons, ← ih]
    constructor
    · intro hsub
      have hmem := hsub mem_cons_self
      rw [valuePositions] at hmem hsub
      split at hmem
      · next htakes' =>
        rw [if_pos htakes'] at hsub
        refine ⟨fun _ => htakes', fun j hj => ?_⟩
        have hlt := lt_of_mem_valuePositions hj
        rcases mem_cons.mp (hsub (mem_cons_of_mem _ hj)) with rfl | hj'
        · omega
        · exact hj'
      · exact absurd (lt_of_mem_valuePositions hmem) (Nat.lt_irrefl _)
    · rintro ⟨htakes', hsub⟩
      rw [valuePositions, if_pos (htakes' rfl)]
      exact cons_subset_cons _ hsub
  | case4 i a b rest htakes ih =>
    have htakes' : ¬ takes' a = true := fun h => htakes (hle a h)
    rw [units, if_neg htakes, valuePositions, if_neg htakes', forall_mem_cons, ih]
    simp

end Units
