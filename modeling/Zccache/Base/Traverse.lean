import Mathlib.Data.List.Basic

/-! # Lists of optional values

A function that may fail, applied to every entry of a list: the result is there
if no entry fails.
-/

namespace Traverse

open List Option

variable {α β : Type} {f f' : α → Option β} {l : List α} {r : List β}

theorem mapM_cons_eq_some {x : α} :
    (x :: l).mapM f = some r ↔ ∃ b bs, f x = some b ∧ l.mapM f = some bs ∧ r = b :: bs := by
  rw [mapM_cons]
  cases f x with
  | none => simp
  | some b => cases l.mapM f <;> simp [eq_comm]

section

variable (h : l.mapM f = some r)

include h

theorem mem_mapM {x : α} (hx : x ∈ l) : ∃ b ∈ r, f x = some b := by
  induction l generalizing r with
  | nil => exact absurd hx not_mem_nil
  | cons y l ih =>
    obtain ⟨b, bs, hb, hbs, rfl⟩ := mapM_cons_eq_some.mp h
    rcases mem_cons.mp hx with rfl | hx
    · exact ⟨b, mem_cons_self, hb⟩
    · obtain ⟨b', hb', hfx⟩ := ih hbs hx
      exact ⟨b', mem_cons_of_mem b hb', hfx⟩

theorem mem_of_mapM {b : β} (hb : b ∈ r) : ∃ x ∈ l, f x = some b := by
  induction l generalizing r with
  | nil =>
    cases h
    exact absurd hb not_mem_nil
  | cons y l ih =>
    obtain ⟨b', bs, hb', hbs, rfl⟩ := mapM_cons_eq_some.mp h
    rcases mem_cons.mp hb with rfl | hb
    · exact ⟨y, mem_cons_self, hb'⟩
    · obtain ⟨x, hx, hfx⟩ := ih hbs hb
      exact ⟨x, mem_cons_of_mem y hx, hfx⟩

theorem mapM_mono (hf : ∀ x ∈ l, ∀ b, f x = some b → f' x = some b) : l.mapM f' = some r := by
  induction l generalizing r with
  | nil => exact h
  | cons y l ih =>
    obtain ⟨b, bs, hb, hbs, rfl⟩ := mapM_cons_eq_some.mp h
    exact mapM_cons_eq_some.mpr ⟨b, bs, hf y mem_cons_self b hb,
      ih hbs fun x hx => hf x (mem_cons_of_mem y hx), rfl⟩

theorem length_mapM : r.length = l.length := by
  induction l generalizing r with
  | nil =>
    cases h
    rfl
  | cons y l ih =>
    obtain ⟨b, bs, -, hbs, rfl⟩ := mapM_cons_eq_some.mp h
    rw [length_cons, length_cons, ih hbs]

end

theorem isSome_mapM : (l.mapM f).isSome = true ↔ ∀ x ∈ l, (f x).isSome = true := by
  induction l with
  | nil => simp
  | cons y l ih =>
    rw [forall_mem_cons, ← ih, isSome_iff_exists]
    constructor
    · rintro ⟨r, h⟩
      obtain ⟨b, bs, hb, hbs, -⟩ := mapM_cons_eq_some.mp h
      exact ⟨isSome_of_eq_some hb, isSome_of_eq_some hbs⟩
    · rintro ⟨hy, hl⟩
      obtain ⟨b, hb⟩ := isSome_iff_exists.mp hy
      obtain ⟨bs, hbs⟩ := isSome_iff_exists.mp hl
      exact ⟨b :: bs, mapM_cons_eq_some.mpr ⟨b, bs, hb, hbs, rfl⟩⟩

theorem mapM_eq_none_iff : l.mapM f = none ↔ ∃ x ∈ l, f x = none := by
  rw [← not_iff_not, ← ne_eq, ← isSome_iff_ne_none, isSome_mapM]
  simp [isSome_iff_ne_none]

end Traverse
