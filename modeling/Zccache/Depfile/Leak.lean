import Zccache.Depfile.Tokens

/-! # Depfiles that lead back to their worktree

A delivered depfile should name no path of the worktree that it was written in.
A path with `..` behind the root can lead there from the other root, which the
check of the stored depfile does not see.
-/

namespace Zccache

open List Unix Templates
open Lines (flush)

section Leak

variable (keyRoot : Text)

/-- The depfile with holes in place of the roots that are replaced. -/
def rootTemplate (bytes : Text) : Template Char :=
  match rootSpelling keyRoot with
  | none => bytes.map some
  | some root =>
    cut (quoteMakeDepfilePath root)
      (fun before after => unescapedWhitespaceBefore before && rootEndsAt after) [] 0 bytes

def Below (path : Text) : Prop :=
  isAbsolute path = true ∧
    Unix.startsWith (NormalizedPath.new path).path (normalize (components keyRoot)) = true
  deriving Decidable

/-- A path of the depfile that does not start with a replaced root is below the root. -/
def NamesRoot (bytes : Text) : Prop :=
  ∃ path ∈ holePaths (rootTemplate keyRoot bytes), path.head? ≠ some none ∧
    Below keyRoot (fill depfileWorktreeRootMarker path)
  deriving Decidable

/-- A path of the depfile in which a root was replaced is below the root when it is seen from the
other one. -/
def LeadsBack (other bytes : Text) : Prop :=
  ∃ path ∈ holePaths (rootTemplate keyRoot bytes), none ∈ path ∧ Below keyRoot (fill other path)
  deriving Decidable

/-- What is delivered at the other root names no path below the root. -/
def NeverLeaks (other bytes : Text) : Prop :=
  ∀ delivered ∈ rehydrateDepfileRoot (canonicalizeCapturedDepfileRoot bytes keyRoot) (some other),
    ∀ path ∈ depfilePathTokens delivered, ¬ Below keyRoot path
  deriving Decidable

end Leak

section Paths

theorem lineFeed_notMem_splitAndUnescape {current : Text} {run : ℕ} {text token : Text}
    (hcur : '\n' ∉ current) (h : token ∈ splitAndUnescape current run text) :
    '\n' ∉ token := by
  have hflush {current token : Text} {n : ℕ} (hcur : '\n' ∉ current)
      (h : token ∈ flush (current ++ List.replicate n '\\')) : '\n' ∉ token := by
    unfold flush at h
    split at h
    · cases h
    · rw [mem_singleton.mp h]
      simp [hcur]
  fun_induction splitAndUnescape current run text with
  | case1 current run => exact hflush hcur h
  | case2 current run text ih => exact ih hcur h
  | case3 current run text ih => exact ih (by simp [hcur]) h
  | case4 current run c text hbs hdollar hblank hodd ih =>
    refine ih ?_ h
    rcases hblank with rfl | rfl <;> simp [hcur]
  | case5 current run c text hbs hdollar hblank hodd ih
  | case7 current run c text hbs hdollar hblank hhash hline ih =>
    rcases mem_append.mp h with h | h
    · exact hflush hcur h
    · exact ih not_mem_nil h
  | case6 current run c text hbs hdollar hblank hhash ih =>
    exact ih (by simp [hcur]) h
  | case8 current run c text hbs hdollar hblank hhash hline ih =>
    rw [not_or] at hline
    exact ih (by simp [hcur, Ne.symm hline.1]) h

theorem lineFeed_notMem_depfilePathTokens {content path : Text}
    (h : path ∈ depfilePathTokens content) : '\n' ∉ path := by
  obtain ⟨token, htok, hpath⟩ := mem_filterMap.mp h
  have hsub : path ⊆ token := by
    rw [Option.ite_none_left_eq_some] at hpath
    rw [← Option.some.inj hpath.2]
    split
    · exact dropLast_subset token
    · exact List.Subset.refl token
  exact fun hmem => lineFeed_notMem_splitAndUnescape not_mem_nil htok (hsub hmem)

variable {keyRoot : Text}

theorem Below.lineFeed_notMem {path : Text} (h : Below keyRoot path) (hnul : nul ∉ keyRoot)
    (hnormal : isNormalForm (components keyRoot) = true) (hpath : '\n' ∉ path) :
    '\n' ∉ keyRoot := by
  intro hmem
  obtain ⟨s, hs, hin⟩ := exists_mem_splitOn hmem (show '\n' ≠ sep by decide)
  have hname : s ≠ [] ∧ s ≠ ['.'] ∧ s ≠ ['.', '.'] ∧ sep ∉ s ∧ nul ∉ s := by
    refine ⟨?_, ?_, ?_, notMem_of_mem_splitOn hs, fun h => hnul (mem_of_mem_splitOn hs h)⟩
    · rintro rfl
      cases hin
    all_goals
      rintro rfl
      simp at hin
  have hcomp : Component.normal ⟨s, hname⟩ ∈ components keyRoot :=
    mem_append_right _ (mem_filterMap.mpr ⟨s, hs, dif_pos hname⟩)
  have hbelow := startsWith_iff.mp h.2
  rw [normalize_of_isNormalForm hnormal] at hbelow
  have hpath' := mem_of_mem_normalize (hbelow.subset hcomp)
  exact hpath (mem_of_mem_components hpath' hin)

end Paths

section Templates

variable (keyRoot : Text) (bytes : Text)

theorem canonicalize_eq_fill : canonicalizeDepfileRoot bytes keyRoot =
    fill depfileWorktreeRootMarker (rootTemplate keyRoot bytes) := by
  unfold canonicalizeDepfileRoot rootTemplate
  cases rootSpelling keyRoot with
  | none => exact (fill_map_some _ _).symm
  | some root => rfl

theorem exists_fill_rootTemplate : ∃ word, fill word (rootTemplate keyRoot bytes) = bytes := by
  unfold rootTemplate
  cases hroot : rootSpelling keyRoot with
  | none => exact ⟨[], fill_map_some _ _⟩
  | some root => exact ⟨_, fill_cut (quoteMakeDepfilePath_ne_nil hroot) bytes⟩

variable {keyRoot bytes}

theorem marker_notMem_rootTemplate (h : ¬ depfileWorktreeRootMarker <:+: bytes) :
    ¬ depfileWorktreeRootMarker.map some <:+: rootTemplate keyRoot bytes := by
  obtain ⟨word, hword⟩ := exists_fill_rootTemplate keyRoot bytes
  intro hwith
  rw [← hword] at h
  exact h (infix_fill _ hwith)

theorem header_notMem_rootTemplate (h : ¬ depfileRootBoundPrefix <+: bytes) :
    ¬ depfileRootBoundPrefix.map some <+: rootTemplate keyRoot bytes := by
  obtain ⟨word, hword⟩ := exists_fill_rootTemplate keyRoot bytes
  intro hbeg
  rw [← hword] at h
  exact h (prefix_fill _ hbeg)

theorem plain_marker : Plain (depfileWorktreeRootMarker.map some) := by
  intro c hc hmem
  have hplain : special.all (· ∉ depfileWorktreeRootMarker) := by decide
  exact of_decide_eq_true (all_eq_true.mp hplain c hc) (by simpa using hmem)

/-- A stored path starts with the marker only in place of a replaced root. -/
theorem marker_prefix_iff {path : Template Char} (hmarker : ¬ depfileWorktreeRootMarker <:+: bytes)
    (hpath : path ∈ holePaths (rootTemplate keyRoot bytes)) :
    depfileWorktreeRootMarker <+: fill depfileWorktreeRootMarker path ↔
      path.head? = some none := by
  constructor
  · intro h
    obtain ⟨tail, htail, hsep⟩ := marker_eq
    cases path with
    | nil => exact absurd h (by simp [htail])
    | cons x path =>
      cases x with
      | none => rfl
      | some c =>
        -- Then the marker is in the depfile itself.
        rw [htail, fill_some, cons_prefix_cons] at h
        have hlit : depfileWorktreeRootMarker.map some <+: some c :: path := by
          rw [htail, map_cons, cons_prefix_cons]
          exact ⟨congrArg some h.1, map_some_prefix_of_prefix_fill hsep h.2⟩
        exact absurd (infix_of_mem_holePaths hpath plain_marker hlit.isInfix)
          (marker_notMem_rootTemplate hmarker)
  · intro h
    obtain ⟨rest, rfl⟩ := head?_eq_some_iff.mp h
    exact prefix_append _ _

/-- The check of the stored depfile finds the paths below the root that were not replaced. -/
theorem namesUnrewrittenRootPath_iff (hnormal : isNormalForm (components keyRoot) = true)
    (hmarker : ¬ depfileWorktreeRootMarker <:+: bytes) :
    namesUnrewrittenRootPath (canonicalizeDepfileRoot bytes keyRoot) keyRoot = true ↔
      NamesRoot keyRoot bytes := by
  have htoks := isRoot_marker.depfilePathTokens_fill (rootTemplate keyRoot bytes)
  rw [quote_marker] at htoks
  unfold namesUnrewrittenRootPath NamesRoot Below
  rw [canonicalize_eq_fill, htoks, any_eq_true, normalize_of_isNormalForm hnormal]
  constructor
  · rintro ⟨token, htok, h⟩
    obtain ⟨path, hpath, rfl⟩ := mem_map.mp htok
    simp only [Bool.and_eq_true, Bool.not_eq_true'] at h
    refine ⟨path, hpath, fun hhead => ?_, h.1.1, h.2⟩
    have hbeg := isPrefixOf_iff_prefix.mpr ((marker_prefix_iff hmarker hpath).mpr hhead)
    rw [hbeg] at h
    cases h.1.2
  · rintro ⟨path, hpath, hhead, habs, hbelow⟩
    refine ⟨_, mem_map_of_mem hpath, ?_⟩
    simp only [Bool.and_eq_true, Bool.not_eq_true']
    refine ⟨⟨habs, ?_⟩, hbelow⟩
    rw [Bool.eq_false_iff]
    exact fun h => hhead <| (marker_prefix_iff hmarker hpath).mp <| isPrefixOf_iff_prefix.mp h

theorem none_mem_of_mem_holePaths {path t : Template Char} (hpath : path ∈ holePaths t)
    (h : none ∈ path) : none ∈ t := by
  have hplain : Plain [none] := fun c _ hmem => by simp at hmem
  obtain ⟨pre, post, rfl⟩ := append_of_mem h
  have hwith : ([none] : Template Char) <:+: pre ++ none :: post := ⟨pre, post, by simp⟩
  exact (infix_of_mem_holePaths hpath hplain hwith).subset (mem_singleton_self _)

end Templates

variable {keyRoot other bytes : Text}

/-- Below a root with a line feed there is no path that a depfile can name. -/
theorem not_below_of_lineFeed {content path : Text} (hnul : nul ∉ keyRoot)
    (hnormal : isNormalForm (components keyRoot) = true) (hn : '\n' ∈ keyRoot)
    (hpath : path ∈ depfilePathTokens content) : ¬ Below keyRoot path :=
  fun h => h.lineFeed_notMem hnul hnormal (lineFeed_notMem_depfilePathTokens hpath) hn

/-- A replaced root alone, or with names behind it. -/
def NamesBehindRoot (path : Template Char) : Prop :=
  path = [none] ∨ ∃ rest : Text, path = none :: some sep :: rest.map some ∧
    Component.parentDir ∉ components rest

/-- Neither of two paths lies below the other. -/
def Apart (p q : Path) : Prop :=
  ¬ p <+: q ∧ ¬ q <+: p

theorem not_below_of_names {root : Text} (hroot : root ≠ [])
    (hapart : Apart (normalize (components keyRoot)) (normalize (components root)))
    {path : Template Char} (h : NamesBehindRoot path) : ¬ Below keyRoot (fill root path) := by
  rintro ⟨-, hbelow⟩
  obtain ⟨names, hnames⟩ : ∃ names : List FileName, normalize (components (fill root path)) =
      normalize (components root) ++ names.map .normal := by
    rcases h with rfl | ⟨rest, rfl, hrest⟩
    · exact ⟨[], by simp [fill]⟩
    · obtain ⟨names, hnames⟩ := exists_names hrest
      refine ⟨names, ?_⟩
      rw [fill_none, fill_some, fill_map_some, components_append_sep hroot, hnames, Unix.normalize,
        foldl_append, foldl_normalStep_names]
      rfl
  have hpre := startsWith_iff.mp hbelow
  change _ <+: normalize (components (fill root path)) at hpre
  rw [hnames] at hpre
  rcases prefix_or_prefix_of_prefix hpre (prefix_append _ _) with h | h
  · exact hapart.1 h
  · exact hapart.2 h

/-- A depfile in which only names stand behind the replaced roots never leads back from a root that
lies apart. -/
theorem not_leadsBack_of_names {root : Text} (hroot : root ∈ rootSpelling other)
    (hapart : Apart (normalize (components keyRoot)) (normalize (components root)))
    (h : ∀ path ∈ holePaths (rootTemplate keyRoot bytes), none ∈ path → NamesBehindRoot path) :
    ¬ LeadsBack keyRoot root bytes := by
  obtain ⟨⟨names, rfl⟩, -⟩ := rootSpelling_eq_some hroot
  rintro ⟨path, hpath, hhole, hbelow⟩
  exact not_below_of_names (cons_ne_nil _ _) hapart (h path hpath hhole) hbelow

theorem neverLeaks_of_unbound (hnormal : isNormalForm (components keyRoot) = true)
    (hn : '\n' ∉ other) (hr : '\r' ∉ other)
    (hmarker : ¬ depfileWorktreeRootMarker <:+: bytes)
    (hheader : ¬ depfileRootBoundPrefix <+: bytes) (hnames : ¬ NamesRoot keyRoot bytes) :
    NeverLeaks keyRoot other bytes ↔
      ∀ root ∈ rootSpelling other, ¬ LeadsBack keyRoot root bytes := by
  have hstored : canonicalizeCapturedDepfileRoot bytes keyRoot =
      fill depfileWorktreeRootMarker (rootTemplate keyRoot bytes) := by
    rw [canonicalizeCapturedDepfileRoot, if_neg, canonicalize_eq_fill]
    rwa [namesUnrewrittenRootPath_iff hnormal hmarker]
  -- A path without a replaced root was checked before it was stored.
  have hlit : ∀ path ∈ holePaths (rootTemplate keyRoot bytes), none ∉ path →
      ∀ root, ¬ Below keyRoot (fill root path) := by
    intro path hpath hholes root hbelow
    refine hnames ⟨path, hpath, fun hhead => hholes (mem_of_head? hhead), ?_⟩
    rw [eq_map_some_of_notMem root hholes]
    simpa using hbelow
  unfold NeverLeaks
  rw [hstored]
  cases hroot : rootSpelling other with
  | some root =>
    rw [rehydrateDepfileRoot_fill hroot (marker_notMem_rootTemplate hmarker)
      (header_notMem_rootTemplate hheader)]
    have htoks := (isRoot_of_rootSpelling hroot hn hr).depfilePathTokens_fill
      (rootTemplate keyRoot bytes)
    simp only [Option.mem_def, Option.some.injEq, forall_eq', htoks, forall_mem_map]
    constructor
    · rintro h ⟨path, hpath, -, hbelow⟩
      exact h path hpath hbelow
    · intro h path hpath hbelow
      by_cases hholes : none ∈ path
      · exact h ⟨path, hpath, hholes, hbelow⟩
      · exact hlit path hpath hholes root hbelow
  | none =>
    -- Without a spelling for the other root, only a depfile without holes is delivered.
    refine iff_of_true (fun delivered hdeliv path hpath => ?_) fun root h => (nomatch h)
    rw [rehydrateDepfileRoot, dropBoundHeader_of_not_prefix fun h =>
      header_notMem_rootTemplate hheader (header_of_prefix_fill_marker h)] at hdeliv
    simp only [Option.bind_some, replaceDepfileRootMarker, hroot, Option.map_none,
      Option.mem_def, Option.ite_none_left_eq_some, Option.some.injEq] at hdeliv
    obtain ⟨hno, rfl⟩ := hdeliv
    have htoks := isRoot_marker.depfilePathTokens_fill (rootTemplate keyRoot bytes)
    rw [quote_marker] at htoks
    rw [htoks] at hpath
    obtain ⟨path, hmem, rfl⟩ := mem_map.mp hpath
    refine hlit path hmem (fun hholes => hno (decide_eq_true ?_)) _
    exact infix_fill_of_mem _ (none_mem_of_mem_holePaths hmem hholes)

/-- A delivered depfile names no path of its first worktree exactly if it is bound to it, or no
path with a replaced root leads back to it from the other root. -/
theorem neverLeaks_iff (hnul : nul ∉ keyRoot)
    (hnormal : isNormalForm (components keyRoot) = true) (hne : keyRoot ≠ other)
    (hn : '\n' ∉ other) (hr : '\r' ∉ other)
    (hmarker : ¬ depfileWorktreeRootMarker <:+: bytes)
    (hheader : ¬ depfileRootBoundPrefix <+: bytes) :
    NeverLeaks keyRoot other bytes ↔
      NamesRoot keyRoot bytes ∨ ∀ root ∈ rootSpelling other, ¬ LeadsBack keyRoot root bytes := by
  by_cases hfeed : '\n' ∈ keyRoot
  · refine iff_of_true (fun delivered _ path hpath => ?_) (.inr ?_)
    · exact not_below_of_lineFeed hnul hnormal hfeed hpath
    · rintro root hroot ⟨path, hpath, -, hbelow⟩
      have hmem := mem_map_of_mem (f := fill root) hpath
      rw [← (isRoot_of_rootSpelling hroot hn hr).depfilePathTokens_fill] at hmem
      exact not_below_of_lineFeed hnul hnormal hfeed hmem hbelow
  · by_cases hnames : NamesRoot keyRoot bytes
    · refine iff_of_true (fun delivered hdeliv => ?_) (.inl hnames)
      rw [canonicalizeCapturedDepfileRoot,
        if_pos ((namesUnrewrittenRootPath_iff hnormal hmarker).mpr hnames), rehydrateDepfileRoot,
        dropBoundHeader_bind_of_notMem hfeed, if_neg hne] at hdeliv
      cases hdeliv
    · rw [neverLeaks_of_unbound hnormal hn hr hmarker hheader hnames, or_iff_right hnames]

/-- A path that climbs out of the root leads back to it from the other root. So do a marker in the
depfile itself, a root that is not normalised, a line break in the other root, and a header in the
depfile that the other root accepts. -/
theorem depfile_leaks :
    (¬ NeverLeaks "/a/w1" "/a/w2" "m.o: /a/w1/../w1/x.h\n") ∧
    (¬ NeverLeaks "/a/w1" "/a/w" (depfileWorktreeRootMarker ++ "1/x.h")) ∧
    (¬ NeverLeaks "/a/b/../w1" "/c" "m.o: /a/w1/x.h") ∧
    (¬ NeverLeaks "/a/w1" "/c\n/a/w1" "m.o: /a/w1/x.h") ∧
    (¬ NeverLeaks "/a/w1" "/a/w2\\\\"
      "# zccache-worktree-bound /a/w2\\\\\n/a/./w1/x.h") := by
  decide +kernel

theorem neverLeaks_sampleDepfile :
    NeverLeaks "/a/w1" "/a/w2" "m.o: /a/w1/m.c \\\n /a/w1/d/../x.h\n" :=
  (neverLeaks_iff (by decide +kernel) (by decide +kernel) (by decide +kernel) (by decide +kernel)
    (by decide +kernel) (by decide +kernel) (by decide +kernel)).mpr (by decide +kernel)

end Zccache
