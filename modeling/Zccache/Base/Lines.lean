import Mathlib.Data.List.Basic
import Mathlib.Data.List.DropRight
import Mathlib.Data.List.TakeDrop
import Mathlib.Data.List.TakeWhile

/-! # Lines of a stream

A sequence is cut after each terminator. What is cut does not depend on the pieces
in which the sequence arrives (`cut_append`), and a sequence that is put together
from lines is cut into them again (`lines_flatten`). A line of characters may be
trimmed at both ends.
-/

namespace Lines

open List

variable {α : Type} [DecidableEq α] (z : α)

/-- The finished lines with their terminators, and the line that is not finished. -/
def cut : List α → List (List α) × List α
  | [] => ([], [])
  | a :: l =>
    if a = z then ([a] :: (cut l).1, (cut l).2)
    else
      match cut l with
      | ([], rest) => ([], a :: rest)
      | (line :: more, rest) => ((a :: line) :: more, rest)

def lines (l : List α) : List (List α) :=
  let (finished, rest) := cut z l
  if rest = [] then finished else finished ++ [rest]

def body (line : List α) : List α :=
  line.takeWhile (· ≠ z)

/-- A word, unless it is empty. -/
def flush (word : List α) : List (List α) :=
  if word.isEmpty then [] else [word]

/-- The property `White_Space` of Unicode. -/
def isWhitespace (c : Char) : Bool :=
  (0x9 ≤ c.toNat && c.toNat ≤ 0xd) || (0x2000 ≤ c.toNat && c.toNat ≤ 0x200a) ||
    c.toNat ∈ [0x20, 0x85, 0xa0, 0x1680, 0x2028, 0x2029, 0x202f, 0x205f, 0x3000]

def trimEnd (t : List Char) : List Char :=
  t.rdropWhile isWhitespace

def trim (t : List Char) : List Char :=
  trimEnd (t.dropWhile isWhitespace)

variable {z}

variable (l : List α)

@[simp] theorem cut_terminator :
    cut z (z :: l) = ([z] :: (cut z l).1, (cut z l).2) := by
  rw [cut, if_pos rfl]

theorem cut_of_notMem {l : List α} (h : z ∉ l) : cut z l = ([], l) := by
  induction l with
  | nil => rfl
  | cons a l ih =>
    rw [mem_cons, not_or] at h
    rw [cut, if_neg (Ne.symm h.1), ih h.2]

theorem cut_line {l : List α} (h : z ∉ l) (m : List α) :
    cut z (l ++ z :: m) = ((l ++ [z]) :: (cut z m).1, (cut z m).2) := by
  induction l with
  | nil => exact cut_terminator m
  | cons a l ih =>
    rw [mem_cons, not_or] at h
    rw [cons_append, cut, if_neg (Ne.symm h.1), ih h.2]
    rfl

theorem exists_line :
    z ∉ l ∨ ∃ first rest, l = first ++ z :: rest ∧ z ∉ first := by
  by_cases h : z ∈ l
  · right
    obtain ⟨first, rest, rfl, hfirst⟩ := eq_append_cons_of_mem h
    exact ⟨first, rest, rfl, hfirst⟩
  · exact .inl h

/-- The rule for a function that takes a sequence line by line. -/
theorem line_induction {P : List α → Prop} (hrest : ∀ l, z ∉ l → P l)
    (hline : ∀ first rest, z ∉ first → P rest → P (first ++ z :: rest)) (l : List α) : P l := by
  induction hn : l.length using Nat.strongRecOn generalizing l with
  | _ n ih =>
    rcases exists_line (z := z) l with h | ⟨first, rest, rfl, hfirst⟩
    · exact hrest l h
    · apply hline first rest hfirst
      apply ih rest.length _ rest rfl
      rw [← hn, length_append, length_cons]
      omega

theorem notMem_cut_snd : z ∉ (cut z l).2 := by
  induction l using line_induction (z := z) with
  | hrest l h => rwa [cut_of_notMem h]
  | hline first rest h ih => rwa [cut_line h]

theorem cut_append (m : List α) :
    cut z (l ++ m) =
      ((cut z l).1 ++ (cut z ((cut z l).2 ++ m)).1, (cut z ((cut z l).2 ++ m)).2) := by
  induction l using line_induction (z := z) with
  | hrest l h => rw [cut_of_notMem h, nil_append]
  | hline first rest h ih =>
    rw [append_assoc, cons_append, cut_line h, cut_line h, ih]
    rfl

section Lines

variable {l : List α}

theorem lines_of_notMem (h : z ∉ l) (hne : l ≠ []) : lines z l = [l] := by
  simp [lines, cut_of_notMem h, hne]

theorem lines_line (h : z ∉ l) (m : List α) : lines z (l ++ z :: m) = (l ++ [z]) :: lines z m := by
  simp only [lines, cut_line h]
  split <;> rfl

theorem lines_append (l m : List α) :
    lines z (l ++ m) = (cut z l).1 ++ lines z ((cut z l).2 ++ m) := by
  simp only [lines, cut_append l m]
  split
  · rfl
  · rw [append_assoc]

theorem body_terminated (h : z ∉ l) : body z (l ++ [z]) = l := by
  rw [body, takeWhile_append_of_pos]
  · simp
  · intro a ha
    exact decide_eq_true (ne_of_mem_of_not_mem ha h)

theorem body_of_notMem (h : z ∉ l) : body z l = l := by
  rw [body, takeWhile_eq_self_iff]
  intro a ha
  exact decide_eq_true (ne_of_mem_of_not_mem ha h)

theorem span_of_notMem (h : z ∉ l) : l.span (· ≠ z) = (l, []) := by
  have hdrop : l.dropWhile (fun a => decide (a ≠ z)) = [] :=
    dropWhile_eq_nil_iff.mpr fun a ha => decide_eq_true (ne_of_mem_of_not_mem ha h)
  rw [span_eq_takeWhile_dropWhile, hdrop]
  exact congrArg (·, []) (body_of_notMem h)

theorem span_line (h : z ∉ l) (m : List α) : (l ++ z :: m).span (· ≠ z) = (l, z :: m) := by
  have hall : ∀ a ∈ l, decide (a ≠ z) = true := fun a ha =>
    decide_eq_true (ne_of_mem_of_not_mem ha h)
  rw [span_eq_takeWhile_dropWhile, takeWhile_append_of_pos hall,
    dropWhile_append_of_pos hall]
  simp

/-- An unfinished line is the beginning of a line of the whole. -/
theorem exists_prefix_body (l m : List α) (hne : (cut z l).2 ≠ []) :
    ∃ line ∈ lines z (l ++ m), (cut z l).2 <+: body z line := by
  have hnot := notMem_cut_snd (z := z) l
  rw [lines_append]
  rcases exists_line (z := z) m with h | ⟨first, rest, rfl, hfirst⟩
  · have hall : z ∉ (cut z l).2 ++ m := by
      rw [mem_append, not_or]
      exact ⟨hnot, h⟩
    refine ⟨(cut z l).2 ++ m, ?_, ?_⟩
    · rw [lines_of_notMem hall (append_ne_nil_of_left_ne_nil hne m)]
      exact mem_append_right _ (mem_singleton_self _)
    · rw [body_of_notMem hall]
      exact prefix_append _ _
  · have hall : z ∉ (cut z l).2 ++ first := by
      rw [mem_append, not_or]
      exact ⟨hnot, hfirst⟩
    refine ⟨(cut z l).2 ++ first ++ [z], ?_, ?_⟩
    · rw [← append_assoc, lines_line hall]
      exact mem_append_right _ mem_cons_self
    · rw [body_terminated hall]
      exact prefix_append _ _

end Lines

variable (z)

/-- Lines of which only the last may be unfinished. -/
inductive IsLines : List (List α) → Prop
  | nil : IsLines []
  | last {l : List α} (h : z ∉ l) (hne : l ≠ []) : IsLines [l]
  | cons {l : List α} {ls : List (List α)} (h : z ∉ l) (hls : IsLines ls) :
      IsLines ((l ++ [z]) :: ls)

variable {z}

theorem isLines_lines (l : List α) : IsLines z (lines z l) := by
  induction l using line_induction (z := z) with
  | hrest l h =>
    by_cases hne : l = []
    · rw [hne]
      exact .nil
    · rw [lines_of_notMem h hne]
      exact .last h hne
  | hline first rest h ih =>
    rw [lines_line h]
    exact .cons h ih

omit [DecidableEq α] in
theorem IsLines.sublist {ls ks : List (List α)} (h : IsLines z ls) (hsub : ks.Sublist ls) :
    IsLines z ks := by
  induction h generalizing ks with
  | nil =>
    rw [sublist_nil.mp hsub]
    exact .nil
  | last hl hne =>
    rcases sublist_singleton.mp hsub with rfl | rfl
    · exact .nil
    · exact .last hl hne
  | cons hl _ ih =>
    cases hsub with
    | cons _ hsub => exact ih hsub
    | cons_cons _ hsub => exact .cons hl (ih hsub)

theorem lines_flatten {ls : List (List α)} (h : IsLines z ls) : lines z ls.flatten = ls := by
  induction h with
  | nil => rfl
  | last hl hne =>
    rw [flatten_singleton]
    exact lines_of_notMem hl hne
  | cons hl _ ih =>
    rw [flatten_cons, append_assoc, singleton_append, lines_line hl, ih]

theorem eq_of_flatten_eq {l : List α} {ks ks' : List (List α)} (hks : ks.Sublist (lines z l))
    (hks' : ks'.Sublist (lines z l)) (h : ks.flatten = ks'.flatten) : ks = ks' := by
  rw [← lines_flatten ((isLines_lines l).sublist hks), h,
    lines_flatten ((isLines_lines l).sublist hks')]

end Lines
