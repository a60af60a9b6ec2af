import Mathlib.Data.List.Infix

/-! # Texts with holes

The occurrences of a word in a text can be cut out, from the left and without
overlaps. What is left is a template, a text with holes, which can be filled with
any word. Cutting a word out and filling it in again gives the text back, and a
template is found again in its filled text if the word occurs only in the holes.
-/

namespace Templates

open List

variable {α : Type}

abbrev Template (α : Type) := List (Option α)

def fill (word : List α) (t : Template α) : List α :=
  t.flatMap fun
    | none => word
    | some c => [c]

section Fill

variable (word : List α)

@[simp] theorem fill_nil : fill word [] = [] := rfl

@[simp] theorem fill_none (t : Template α) : fill word (none :: t) = word ++ fill word t := rfl

@[simp] theorem fill_some (c : α) (t : Template α) :
    fill word (some c :: t) = c :: fill word t := rfl

@[simp] theorem fill_append (t t' : Template α) :
    fill word (t ++ t') = fill word t ++ fill word t' :=
  flatMap_append

@[simp] theorem fill_map_some (text : List α) : fill word (text.map some) = text := by
  induction text with
  | nil => rfl
  | cons c text ih => rw [map_cons, fill_some, ih]

variable {t : Template α}

theorem infix_fill {text : List α} (h : text.map some <:+: t) : text <:+: fill word t := by
  obtain ⟨pre, post, rfl⟩ := h
  exact ⟨fill word pre, fill word post, by simp⟩

theorem prefix_fill {text : List α} (h : text.map some <+: t) : text <+: fill word t := by
  obtain ⟨post, rfl⟩ := h
  exact ⟨fill word post, by simp⟩

theorem infix_fill_of_mem (h : none ∈ t) : word <:+: fill word t := by
  obtain ⟨pre, post, rfl⟩ := append_of_mem h
  exact ⟨fill word pre, fill word post, by simp⟩

/-- A character that the word does not hold is first met where the template has it. -/
theorem drop_dropWhile_fill [DecidableEq α] {c : α} (hc : c ∉ word) (t : Template α) :
    ((fill word t).dropWhile (· ≠ c)).drop 1 =
      fill word ((t.dropWhile (· ≠ some c)).drop 1) := by
  have hword : ∀ d ∈ word, decide (d ≠ c) = true := by
    intro d hd
    rw [decide_eq_true_eq]
    exact ne_of_mem_of_not_mem hd hc
  induction t with
  | nil => rfl
  | cons x t ih =>
    cases x with
    | none => rw [fill_none, dropWhile_append_of_pos hword, ih, dropWhile_cons_of_pos (by simp)]
    | some d =>
      by_cases hd : d = c
      · simp [hd]
      · rw [fill_some, dropWhile_cons_of_pos (by simpa using hd), ih,
          dropWhile_cons_of_pos (by simpa using hd)]

theorem length_fill_le_of_suffix {t' : Template α} (h : t' <:+ t) :
    (fill word t').length ≤ (fill word t).length := by
  obtain ⟨pre, rfl⟩ := h
  rw [fill_append, length_append]
  exact Nat.le_add_left _ _

theorem eq_map_some_of_notMem (h : none ∉ t) : t = (fill word t).map some := by
  induction t with
  | nil => rfl
  | cons x t ih =>
    rw [mem_cons, not_or] at h
    cases x with
    | none => exact absurd rfl h.1
    | some c => rw [fill_some, map_cons, ← ih h.2]

end Fill

section Cut

variable [DecidableEq α] (word : List α) (accept : List α → List α → Bool)

/-- The accepted occurrences of a word become holes. An occurrence is looked for where the one
before it ends; it is judged by what is before it, backwards, and what follows it. `skip` letters
belong to the last occurrence. -/
def cut (before : List α) : ℕ → List α → Template α
  | _, [] => []
  | skip + 1, c :: rest => cut (c :: before) skip rest
  | 0, c :: rest =>
    if word.isPrefixOf (c :: rest) then
      (if accept before ((c :: rest).drop word.length) then [none] else word.map some) ++
        cut (c :: before) (word.length - 1) rest
    else some c :: cut (c :: before) 0 rest

variable {word accept}

theorem fill_cut_drop (hword : word ≠ []) (text : List α) (before : List α) (skip : ℕ) :
    fill word (cut word accept before skip text) = text.drop skip := by
  induction text generalizing before skip with
  | nil => cases skip <;> rfl
  | cons c rest ih =>
    cases skip with
    | succ skip => exact ih (c :: before) skip
    | zero =>
      rw [cut]
      split
      · next hbeg =>
        obtain ⟨tail, htail⟩ := isPrefixOf_iff_prefix.mp hbeg
        have hkept : fill word (if accept before ((c :: rest).drop word.length) then [none]
            else word.map some) = word := by
          split
          all_goals simp
        obtain ⟨d, word', rfl⟩ := exists_cons_of_ne_nil hword
        rw [fill_append, hkept, ih]
        obtain ⟨rfl, hrest⟩ := cons_eq_cons.mp htail
        rw [← hrest]
        simp
      · rw [fill_some, ih]
        rfl

theorem fill_cut (hword : word ≠ []) (text : List α) :
    fill word (cut word accept [] 0 text) = text :=
  fill_cut_drop hword text [] 0

theorem cut_append (text rest before : List α) :
    cut word accept before text.length (text ++ rest) =
      cut word accept (text.reverse ++ before) 0 rest := by
  induction text generalizing before with
  | nil => rfl
  | cons c text ih =>
    rw [length_cons, cons_append, cut, ih, reverse_cons, append_assoc]
    rfl

variable (word accept)

/-- The holes are accepted, and the word is found nowhere else. -/
def Cuttable (before : List α) : Template α → Prop
  | [] => True
  | none :: t => accept before (fill word t) = true ∧ Cuttable (word.reverse ++ before) t
  | some c :: t => ¬ word <+: c :: fill word t ∧ Cuttable (c :: before) t

variable {word accept}

/-- A template is found again in its filled text. -/
theorem cut_fill (hword : word ≠ []) {before : List α} {t : Template α}
    (h : Cuttable word accept before t) : cut word accept before 0 (fill word t) = t := by
  induction t generalizing before with
  | nil => rfl
  | cons x t ih =>
    cases x with
    | none =>
      obtain ⟨c, word', rfl⟩ := exists_cons_of_ne_nil hword
      rw [fill_none, cons_append, cut, if_pos]
      · rw [← cons_append, drop_left, if_pos h.1, length_cons, Nat.add_sub_cancel,
          cut_append]
        have hrest := ih h.2
        rw [reverse_cons, append_assoc] at hrest
        exact congrArg _ hrest
      · exact isPrefixOf_iff_prefix.mpr (prefix_append (c :: word') _)
    | some c =>
      rw [fill_some, cut, if_neg fun hbeg => h.1 <| isPrefixOf_iff_prefix.mp hbeg, ih h.2]

end Cut

variable {c : α} {word : List α}

theorem map_some_prefix_of_prefix_fill {text : List α} {t : Template α} (hc : c ∉ text)
    (h : text <+: fill (c :: word) t) : text.map some <+: t := by
  induction text generalizing t with
  | nil => exact nil_prefix
  | cons d text ih =>
    rw [mem_cons, not_or] at hc
    cases t with
    | nil => exact absurd h (by simp)
    | cons x t =>
      cases x with
      | none =>
        rw [fill_none, cons_append, cons_prefix_cons] at h
        exact absurd h.1.symm hc.1
      | some e =>
        rw [fill_some, cons_prefix_cons] at h
        obtain ⟨rfl, h⟩ := h
        rw [map_cons, cons_prefix_cons]
        exact ⟨rfl, ih hc.2 h⟩

/-- A word whose first letter does not come again is found in the holes only, if it is not in the
template itself. -/
theorem cuttable_of_notMem (hc : c ∉ word) {before : List α} {t : Template α}
    (h : ¬ (c :: word).map some <:+: t) :
    Cuttable (c :: word) (fun _ _ => true) before t := by
  induction t generalizing before with
  | nil => trivial
  | cons x t ih =>
    have hrest : ¬ (c :: word).map some <:+: t :=
      fun h' => h (h'.trans (infix_cons infix_rfl))
    cases x with
    | none => exact ⟨rfl, ih hrest⟩
    | some d =>
      refine ⟨fun hbeg => ?_, ih hrest⟩
      rw [cons_prefix_cons] at hbeg
      obtain ⟨rfl, hbeg⟩ := hbeg
      refine h (List.IsPrefix.isInfix ?_)
      rw [map_cons, cons_prefix_cons]
      exact ⟨rfl, map_some_prefix_of_prefix_fill hc hbeg⟩

end Templates
