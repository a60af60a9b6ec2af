import Mathlib.Data.List.Sort

/-! # Stable sorting by a key, and repeated elements -/

namespace StableSort

open List

variable {α β κ : Type} [LinearOrder κ]

variable (key : α → κ) (l : List α)

/-- Sort by `key`; elements with equal keys keep their order. -/
def sortBy : List α :=
  l.insertionSort fun a b => key a ≤ key b

theorem sortBy_perm : (sortBy key l).Perm l :=
  perm_insertionSort _ l

theorem sortBy_sorted :
    (sortBy key l).Pairwise fun a b => key a ≤ key b := by
  exact pairwise_insertionSort _ l

variable {key : α → κ} {l : List α}

theorem sortBy_of_sorted (h : l.Pairwise fun a b => key a ≤ key b) : sortBy key l = l :=
  List.Pairwise.insertionSort_eq h

@[simp] theorem sortBy_sortBy (key : α → κ) (l : List α) :
    sortBy key (sortBy key l) = sortBy key l :=
  sortBy_of_sorted (sortBy_sorted key l)

theorem sortBy_eq_nil : sortBy key l = [] ↔ l = [] := by
  rw [← length_eq_zero_iff, (sortBy_perm key l).length_eq, length_eq_zero_iff]

@[simp] theorem mem_sortBy {a : α} : a ∈ sortBy key l ↔ a ∈ l :=
  (sortBy_perm key l).mem_iff

variable {l' : List α}

theorem perm_of_sortBy_eq (h : sortBy key l = sortBy key l') : l.Perm l' :=
  (sortBy_perm key l).symm.trans (h ▸ sortBy_perm key l')

theorem sortBy_eq_of_perm (hkey : Function.Injective key) (h : l.Perm l') :
    sortBy key l = sortBy key l' := by
  have hsort : (sortBy key l).Perm (sortBy key l') :=
    (sortBy_perm key l).trans (h.trans (sortBy_perm key l').symm)
  exact hsort.eq_of_pairwise (fun _ _ _ _ hle hge => hkey (le_antisymm hle hge))
    (sortBy_sorted key l) (sortBy_sorted key l')

theorem sortBy_eq_of_perm_of_nodup (hnodup : (l.map key).Nodup) (h : l.Perm l') :
    sortBy key l = sortBy key l' := by
  have hsort : (sortBy key l).Perm (sortBy key l') :=
    (sortBy_perm key l).trans (h.trans (sortBy_perm key l').symm)
  refine hsort.eq_of_pairwise (fun a b ha hb hle hge => ?_) (sortBy_sorted key l)
    (sortBy_sorted key l')
  exact inj_on_of_nodup_map hnodup (mem_sortBy.mp ha) (h.mem_iff.mpr (mem_sortBy.mp hb))
    (le_antisymm hle hge)

theorem sortBy_id_eq_of_perm {l l' : List κ} (h : l.Perm l') : sortBy id l = sortBy id l' :=
  sortBy_eq_of_perm Function.injective_id h

theorem map_sortBy {key' : β → κ} {f : α → β} (h : ∀ a, key' (f a) = key a) (l : List α) :
    (sortBy key l).map f = sortBy key' (l.map f) :=
  map_insertionSort _ _ f l fun a _ b _ => by rw [h a, h b]

section Repeats

variable [DecidableEq α] {a : α}

/-- Of a run of equal elements one is left. -/
def dedupRuns : List α → List α
  | [] => []
  | [a] => [a]
  | a :: b :: rest => if a = b then dedupRuns (b :: rest) else a :: dedupRuns (b :: rest)

theorem mem_dedupRuns : a ∈ dedupRuns l ↔ a ∈ l := by
  fun_induction dedupRuns l with
  | case1 | case2 => rfl
  | case3 b rest ih => simp [ih]
  | case4 b c rest hne ih => rw [mem_cons, ih, ← mem_cons]

/-- Of equal elements the first is left. -/
def eraseRepeats (l : List α) : List α :=
  l.foldl (fun seen a => if a ∈ seen then seen else seen ++ [a]) []

theorem mem_eraseRepeats : a ∈ eraseRepeats l ↔ a ∈ l := by
  have hfold : ∀ seen : List α,
      a ∈ l.foldl (fun seen a => if a ∈ seen then seen else seen ++ [a]) seen ↔
        a ∈ seen ∨ a ∈ l := by
    induction l with
    | nil => simp
    | cons x l ih =>
      intro seen
      rw [foldl_cons, ih, mem_cons]
      split
      · next hx =>
        constructor
        · rintro (h | h)
          · exact .inl h
          · exact .inr (.inr h)
        · rintro (h | rfl | h)
          · exact .inl h
          · exact .inl hx
          · exact .inr h
      · rw [mem_append, mem_singleton, or_assoc]
  simpa [eraseRepeats] using hfold []

end Repeats

end StableSort
