import Mathlib.Algebra.GroupWithZero.Nat
import Mathlib.Data.List.Induction
import Mathlib.Data.List.Sort

/-! # Maps as sorted lists

The entries of a map in ascending order of their keys. An entry that is inserted
replaces the one of its key, so that of several entries in a list the last counts.
-/

namespace SortedMap

open List

variable {α κ : Type} [LinearOrder κ] (key : α → κ)

def Sorted (l : List α) : Prop :=
  l.Pairwise fun a b => key a < key b

def insert (a : α) : List α → List α
  | [] => [a]
  | b :: rest =>
    if key a < key b then a :: b :: rest
    else if key a = key b then a :: rest
    else b :: insert a rest

def ofList (l : List α) : List α :=
  l.foldl (fun m a => insert key a m) []

variable {key} {l : List α}

theorem mem_of_mem_insert {a b : α} (h : b ∈ insert key a l) : b = a ∨ b ∈ l := by
  induction l with
  | nil => exact .inl (mem_singleton.mp h)
  | cons x l ih =>
    rw [insert] at h
    split at h
    · exact mem_cons.mp h
    · split at h
      · exact (mem_cons.mp h).imp_right (mem_cons_of_mem x)
      · rcases mem_cons.mp h with rfl | hmem
        · exact .inr mem_cons_self
        · exact (ih hmem).imp_right (mem_cons_of_mem x)

theorem Sorted.insert (h : Sorted key l) (a : α) : Sorted key (insert key a l) := by
  induction l with
  | nil => exact pairwise_singleton _ a
  | cons x l ih =>
    obtain ⟨hx, hl⟩ := pairwise_cons.mp h
    rw [SortedMap.insert]
    split
    · next hlt =>
      refine pairwise_cons.mpr ⟨fun b hb => ?_, h⟩
      rcases mem_cons.mp hb with rfl | hmem
      · exact hlt
      · exact hlt.trans (hx b hmem)
    · next hge =>
      split
      · next heq => exact pairwise_cons.mpr ⟨fun b hb => heq ▸ hx b hb, hl⟩
      · next hne =>
        refine pairwise_cons.mpr ⟨fun b hb => ?_, ih hl⟩
        rcases mem_of_mem_insert hb with rfl | hmem
        · exact lt_of_le_of_ne (not_lt.mp hge) (Ne.symm hne)
        · exact hx b hmem

theorem sorted_ofList (l : List α) : Sorted key (ofList key l) := by
  have hfold : ∀ m, Sorted key m → Sorted key (l.foldl (fun m a => insert key a m) m) := by
    induction l with
    | nil => exact fun m hm => hm
    | cons a l ih => exact fun m hm => ih _ (hm.insert a)
  exact hfold [] List.Pairwise.nil

theorem insert_of_lt {a : α} (h : ∀ b ∈ l, key b < key a) : insert key a l = l ++ [a] := by
  induction l with
  | nil => rfl
  | cons x l ih =>
    have hx := h x mem_cons_self
    rw [insert, if_neg hx.not_gt, if_neg hx.ne', ih fun b hb => h b (mem_cons_of_mem x hb)]
    rfl

theorem ofList_of_sorted (h : Sorted key l) : ofList key l = l := by
  induction l using List.reverseRecOn with
  | nil => rfl
  | append_singleton l a ih =>
    obtain ⟨hl, -, hlt⟩ := pairwise_append.mp h
    have hprev : l.foldl (fun m a => insert key a m) [] = l := ih hl
    rw [ofList, foldl_append, hprev]
    exact insert_of_lt fun b hb => hlt b hb a mem_cons_self

variable (key)

theorem sum_insert_le (weight : α → ℕ) (a : α) (l : List α) :
    ((insert key a l).map weight).sum ≤ weight a + (l.map weight).sum := by
  induction l with
  | nil => exact le_rfl
  | cons x l ih =>
    rw [insert]
    split
    · exact le_rfl
    · split
      all_goals
        simp only [map_cons, sum_cons]
        omega

theorem sum_ofList_le (weight : α → ℕ) (l : List α) :
    ((ofList key l).map weight).sum ≤ (l.map weight).sum := by
  have hfold : ∀ m, ((l.foldl (fun m a => insert key a m) m).map weight).sum ≤
      (m.map weight).sum + (l.map weight).sum := by
    induction l with
    | nil => exact fun m => le_rfl
    | cons a l ih =>
      intro m
      have hins := sum_insert_le key weight a m
      have hrest := ih (insert key a m)
      rw [foldl_cons, map_cons, sum_cons]
      omega
  have hempty := hfold []
  rw [map_nil, sum_nil, Nat.zero_add] at hempty
  exact hempty

theorem length_ofList_le (l : List α) : (ofList key l).length ≤ l.length := by
  simpa using sum_ofList_le key (fun _ => 1) l

end SortedMap
