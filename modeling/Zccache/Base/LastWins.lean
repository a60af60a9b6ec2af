import Mathlib.Data.List.Basic

/-! # The last entry wins

An entry of a list may say something about a question. The last entry that does
decides it. The answer is independent of the order when the entries agree.
-/

namespace LastWins

variable {α β : Type} {f : α → Option β} {l l' : List α}

def lastBy (f : α → Option β) (l : List α) : Option β :=
  (l.filterMap f).getLast?

/-- All answers are the same. -/
def Consistent (f : α → Option β) (l : List α) : Prop :=
  ∀ a ∈ l, ∀ b ∈ l, ∀ v w, f a = some v → f b = some w → v = w

theorem lastBy_concat {a : α} {v : β} (h : f a = some v) : lastBy f (l ++ [a]) = some v := by
  simp [lastBy, h]

theorem exists_of_lastBy_eq_some {v : β} (h : lastBy f l = some v) : ∃ a ∈ l, f a = some v :=
  List.mem_filterMap.mp (List.mem_of_getLast? h)

theorem lastBy_eq_none_iff : lastBy f l = none ↔ ∀ a ∈ l, f a = none := by
  rw [lastBy, List.getLast?_eq_none_iff, List.filterMap_eq_nil_iff]

theorem Consistent.lastBy_congr (hl : Consistent f l)
    (hmem : ∀ a v, f a = some v → (a ∈ l ↔ a ∈ l')) : lastBy f l = lastBy f l' := by
  cases hlast' : lastBy f l' with
  | none =>
    rw [lastBy_eq_none_iff] at hlast' ⊢
    intro a ha
    refine Option.eq_none_iff_forall_ne_some.mpr fun v hv => ?_
    rw [hlast' a ((hmem a v hv).mp ha)] at hv
    cases hv
  | some v =>
    obtain ⟨b, hb, hbv⟩ := exists_of_lastBy_eq_some hlast'
    have hbl := (hmem b v hbv).mpr hb
    cases hlast : lastBy f l with
    | none =>
      rw [lastBy_eq_none_iff.mp hlast b hbl] at hbv
      cases hbv
    | some w =>
      obtain ⟨a, ha, haw⟩ := exists_of_lastBy_eq_some hlast
      rw [hl a ha b hbl w v haw hbv]

theorem exists_overruled (h : ¬ Consistent f l) :
    ∃ a ∈ l, ∃ v, f a = some v ∧ lastBy f l ≠ some v := by
  simp only [Consistent, not_forall] at h
  obtain ⟨a, ha, b, hb, v, w, hav, hbw, hne⟩ := h
  by_cases hlast : lastBy f l = some v
  · refine ⟨b, hb, w, hbw, fun hw => hne ?_⟩
    rw [hlast] at hw
    exact Option.some.inj hw
  · exact ⟨a, ha, v, hav, hlast⟩

end LastWins
