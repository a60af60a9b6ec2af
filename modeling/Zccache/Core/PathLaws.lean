import Zccache.Core.NormalizedPath

/-! # Laws of normalised paths

A `..` stays at the front of a relative path. It also stays behind a root, where it stands for the
root itself.
-/

namespace Zccache

open List Unix Component

/-- No `..` is met with fewer names left before it. -/
def staysBelow : ℕ → Path → Bool
  | _, [] => true
  | depth, parentDir :: rest => 0 < depth && staysBelow (depth - 1) rest
  | depth, normal _ :: rest => staysBelow (depth + 1) rest
  | depth, _ :: rest => staysBelow depth rest

theorem parentDir_mem_foldl {p : Path} (hp : rootDir ∉ p) {acc : Path} (h : parentDir ∈ acc) :
    parentDir ∈ p.foldl normalStep acc := by
  induction p generalizing acc with
  | nil => exact h
  | cons c rest ih =>
    rw [mem_cons, not_or] at hp
    apply ih hp.2
    cases c with
    | rootDir => exact absurd rfl hp.1
    | curDir => exact h
    | normal name => exact mem_append_left _ h
    | parentDir =>
      rcases eq_nil_or_concat acc with rfl | ⟨init, last, rfl⟩
      · cases h
      · cases last <;> simp_all [normalStep]

theorem parentDir_notMem_foldl_iff {p : Path} (hp : rootDir ∉ p) (names : List FileName) :
    parentDir ∉ p.foldl normalStep (rootDir :: names.map normal) ↔
      staysBelow names.length p = true := by
  induction p generalizing names with
  | nil => simp [staysBelow]
  | cons c rest ih =>
    rw [mem_cons, not_or] at hp
    cases c with
    | rootDir => exact absurd rfl hp.1
    | curDir => exact ih hp.2 names
    | normal name => simpa [normalStep, staysBelow] using ih hp.2 (names ++ [name])
    | parentDir =>
      rcases eq_nil_or_concat names with rfl | ⟨init, last, rfl⟩
      · have hmem : parentDir ∈ rest.foldl normalStep [rootDir, parentDir] :=
          parentDir_mem_foldl hp.2 (by simp)
        simpa [normalStep, staysBelow] using hmem
      · have hstep := normalStep_parentDir_of_name (rootDir :: init.map normal) last
        rw [cons_append] at hstep
        simpa [staysBelow, hstep] using ih hp.2 init

namespace NormalizedPath

theorem path_join {p q : NormalizedPath} (hq : q.path.head? ≠ some parentDir) :
    (p.join q.path).path = if q.path.head? = some rootDir then q.path else p.path ++ q.path := by
  obtain ⟨root, hroot, n, names, hpath⟩ := isNormalForm_iff.mp q.isNormal
  change normalize (Unix.join p.path q.path) = _
  rcases hroot with rfl | rfl
  · cases n with
    | zero =>
      have hrel : (names.map normal).head? ≠ some rootDir := by cases names <;> simp
      rw [normalize_join, hpath, normalize_path]
      simp only [nil_append, replicate_zero]
      rw [foldl_normalStep_names, if_neg hrel]
    | succ n => simp [hpath, replicate_succ] at hq
  · have habs : q.path.head? = some rootDir := by simp [hpath]
    rw [Unix.join, if_pos habs, if_pos habs, normalize_path]

/-- The laws of normalised paths. An absolute path keeps no `..` as long as it does not climb above
its root, and a path that is joined can be stripped again unless it is absolute. -/
theorem normalize_laws (t : Text) (p q : NormalizedPath) :
    new (toText (new t).path) = new t ∧
    normalize (normalize (components t)) = normalize (components t) ∧
    curDir ∉ normalize (components t) ∧
    (normalize (components t)).Pairwise (fun c c' => c.isNormal = true → c' ≠ parentDir) ∧
    (t.head? = some sep → (normalize (components t)).head? = some rootDir ∧
      (parentDir ∉ normalize (components t) ↔ staysBelow 0 (components t) = true)) ∧
    normalizeForKey (components (normalizeForKey (components t))) =
      normalizeForKey (components t) ∧
    (∀ t', normalize (components t') = normalize (components t) →
      normalizeForKey (components t') = normalizeForKey (components t)) ∧
    (p.path.head? ≠ some parentDir → q.path.head? ≠ some parentDir →
      ((p.join q.path).stripPrefix p = some q.path ∧ (p.join q.path).startsWith p = true ↔
        q.path.head? ≠ some rootDir ∨ p.path = [])) := by
  have hnormal := normalize_isNormalForm (components t)
  obtain ⟨root, hroot, n, names, hpath⟩ := isNormalForm_iff.mp hnormal
  refine ⟨?_, normalize_normalize _, ?_, ?_, fun habs => ?_, ?_, fun t' h => ?_, fun _ hq => ?_⟩
  · rw [← caseKey_eq, new_caseKey]
  · rw [hpath]
    rcases hroot with rfl | rfl <;> simp
  · rw [hpath]
    rcases hroot with rfl | rfl <;>
      simp [pairwise_append, pairwise_map, Component.isNormal, pairwise_of_forall]
  · obtain ⟨rest, hrest, hinner⟩ := isAbsolute_components habs
    refine ⟨?_, ?_⟩
    · obtain ⟨rest, hrest⟩ := (isAbsolute_components habs).normalize
      simp [hrest]
    · rw [hrest]
      exact parentDir_notMem_foldl_iff (by simpa using rootDir_notMem_of_inner hinner) []
  · rw [normalizeForKey, normalizeForKey, components_toText hnormal, normalize_normalize]
  · rw [normalizeForKey, h, normalizeForKey]
  · simp only [stripPrefix_eq, startsWith, components_caseKey, startsWith_iff, path_join hq,
      stripPrefix_eq_some]
    split_ifs with habs
    · simp only [habs, self_eq_append_left, ne_eq, not_true, false_or, and_iff_left_iff_imp]
      rintro hnil
      simp [hnil]
    · simp [habs]

/-- The parent of the root is kept. An absolute path replaces what it is joined to. -/
theorem parentDir_behind_root :
    (new "/..").path = [rootDir, parentDir] ∧
      ((new "a").join (new "/b").path).stripPrefix (new "a") = none := by
  decide

end NormalizedPath

end Zccache
