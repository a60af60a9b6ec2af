import Zccache.Context.ArtifactKeys

/-! # Paths of remembered requests

A remembered request keeps its paths relative to the root it was made in, where they lie under it,
and is answered in another worktree only if all of them do.
-/

namespace Zccache

open List Unix

inductive CachedRequestPath where
  | rootRelative (relative : NormalizedPath)
  | absolute (path : NormalizedPath)

namespace CachedRequestPath

def capture (path : Path) (keyRoot : Option Path) : CachedRequestPath :=
  match keyRoot.bind (stripPrefix path) with
  | some relative => .rootRelative (.ofPath relative)
  | none => .absolute (.ofPath path)

def resolve : CachedRequestPath → Option Path → NormalizedPath
  | .rootRelative relative, some root => .ofPath (join root relative.path)
  | .rootRelative path, none | .absolute path, _ => path

def isRootRelative : CachedRequestPath → Bool
  | .rootRelative _ => true
  | .absolute _ => false

variable {p rest root : Path}

theorem capture_append : capture (root ++ rest) (some root) = .rootRelative (.ofPath rest) := by
  simp [capture]

theorem capture_outside (h : ¬ root <+: p) : capture p (some root) = .absolute (.ofPath p) := by
  simp [capture, stripPrefix_eq_none.mpr h]

theorem isRootRelative_capture :
    (capture p (some root)).isRootRelative = true ↔ root <+: p := by
  constructor
  · intro h
    by_contra hout
    rw [capture_outside hout] at h
    cases h
  · rintro ⟨rest, rfl⟩
    rw [capture_append]
    rfl

theorem resolve_rootRelative (rest root : Path) :
    (rootRelative (.ofPath rest)).resolve (some root) = .ofPath (root ++ rest) := by
  apply NormalizedPath.ext
  calc normalize (join root (normalize rest))
      = normalize (join root rest) := normalize_join_normalize root rest
    _ = normalize (root ++ rest) := by
      rw [normalize_join, Unix.normalize, Unix.normalize, foldl_append]

theorem resolve_capture (p : NormalizedPath) (root : Option Path) :
    (capture p.path root).resolve root = p := by
  cases root with
  | none => exact p.ofPath_path
  | some root =>
    by_cases h : root <+: p.path
    · obtain ⟨rest, hrest⟩ := h
      rw [← hrest, capture_append, resolve_rootRelative, hrest, NormalizedPath.ofPath_path]
    · rw [capture_outside h]
      exact p.ofPath_path

end CachedRequestPath

open CachedRequestPath

structure RequestCacheEntry (D : Type) where
  contextKey : ContextKey D
  root : Option NormalizedPath
  sourcePath : CachedRequestPath
  outputPath : CachedRequestPath
  depfilePath : Option CachedRequestPath
  inputPaths : List CachedRequestPath
  crossRootShareable : Bool
  testHarness : Bool

variable {D : Type}

def requestCacheEntry (contextKey : ContextKey D) (sourcePath outputPath : NormalizedPath)
    (depfilePath : Option NormalizedPath) (inputPaths : List NormalizedPath)
    (keyRoot : Option NormalizedPath) (worktreeBound : Bool) : RequestCacheEntry D :=
  let rootPath := keyRoot.map (·.path)
  let sourcePath := capture sourcePath.path rootPath
  let outputPath := capture outputPath.path rootPath
  let depfilePath := depfilePath.map fun p => capture p.path rootPath
  let inputPaths := inputPaths.map fun p => capture p.path rootPath
  { contextKey, root := keyRoot, sourcePath, outputPath, depfilePath, inputPaths,
    crossRootShareable := !worktreeBound && keyRoot.isSome && sourcePath.isRootRelative &&
      outputPath.isRootRelative && depfilePath.all isRootRelative && inputPaths.all isRootRelative,
    testHarness := false }

def requestCacheEntryMatchesRoot (entry : RequestCacheEntry D) (keyRoot : Option NormalizedPath) :
    Bool :=
  if entry.root = keyRoot then true
  else entry.crossRootShareable && entry.root.isSome && keyRoot.isSome

/-- The inputs of a remembered request in another worktree. -/
def requestCacheResolvedInputs (entry : RequestCacheEntry D) (root : NormalizedPath) :
    Option (List NormalizedPath) :=
  if !entry.crossRootShareable then none
  else
    entry.inputPaths.mapM fun path =>
      if !path.isRootRelative then none else some (path.resolve (some root.path))

def RequestCacheEntry.paths (entry : RequestCacheEntry D) : List CachedRequestPath :=
  entry.sourcePath :: entry.outputPath :: entry.depfilePath.toList ++ entry.inputPaths

variable (key : ContextKey D) (source output : NormalizedPath) (depfile : Option NormalizedPath)
variable (inputs : List NormalizedPath) (root : Option NormalizedPath) (bound : Bool)

theorem paths_requestCacheEntry :
    (requestCacheEntry key source output depfile inputs root bound).paths =
      (source :: output :: depfile.toList ++ inputs).map
        fun p => capture p.path (root.map (·.path)) := by
  cases depfile <;> rfl

theorem isRootRelative_of_shareable {c : CachedRequestPath}
    (h : (requestCacheEntry key source output depfile inputs root bound).crossRootShareable = true)
    (hc : c ∈ (requestCacheEntry key source output depfile inputs root bound).paths) :
    c.isRootRelative = true := by
  simp only [requestCacheEntry, Bool.and_eq_true, all_eq_true] at h
  obtain ⟨⟨⟨⟨-, hsrc⟩, houtput⟩, hdepfile⟩, hins⟩ := h
  simp only [RequestCacheEntry.paths, mem_append, mem_cons] at hc
  rcases hc with (rfl | rfl | hc) | hc
  · exact hsrc
  · exact houtput
  · exact (Option.all_eq_true ..).mp hdepfile c (Option.mem_toList.mp hc)
  · exact hins c hc

/-- At the root of its capture a path is resolved as itself. At another root it is its remainder
below that root, if it has one, and itself otherwise. An entry matches its own root, and otherwise
a root where every path of the request is the remainder that the entry holds, below that root. -/
theorem requestPaths_follow_root (p R₁ R₂ : NormalizedPath) (root' : Option NormalizedPath) :
    (capture p.path (some R₁.path)).resolve (some R₁.path) = p ∧
    (∀ rest, p.path = R₁.path ++ rest →
      (capture p.path (some R₁.path)).resolve (some R₂.path) = .ofPath (R₂.path ++ rest)) ∧
    (¬ R₁.path <+: p.path → (capture p.path (some R₁.path)).resolve (some R₂.path) = p) ∧
    (requestCacheEntryMatchesRoot (requestCacheEntry key source output depfile inputs root bound)
        root' = true →
      Forall₂ (fun q c => root' = root ∧ c.resolve (root'.map (·.path)) = q ∨
          ∃ r ∈ root, ∃ r' ∈ root', ∃ rest, q.path = r.path ++ rest ∧
            c = .rootRelative (.ofPath rest) ∧
            c.resolve (some r'.path) = .ofPath (r'.path ++ rest))
        (source :: output :: depfile.toList ++ inputs)
        (requestCacheEntry key source output depfile inputs root bound).paths) := by
  refine ⟨resolve_capture p _, ?_, ?_, ?_⟩
  · intro rest hrest
    rw [hrest, capture_append, resolve_rootRelative]
  · intro hout
    rw [capture_outside hout]
    exact p.ofPath_path
  intro hmatch
  have hpaths := paths_requestCacheEntry key source output depfile inputs root bound
  rw [hpaths, forall₂_map_right_iff, forall₂_same]
  intro q hq
  unfold requestCacheEntryMatchesRoot at hmatch
  split_ifs at hmatch with hroot
  · subst hroot
    exact .inl ⟨rfl, resolve_capture q _⟩
  · simp only [Bool.and_eq_true] at hmatch
    obtain ⟨⟨hshare, hsome⟩, hsome'⟩ := hmatch
    obtain ⟨r, rfl⟩ := Option.isSome_iff_exists.mp hsome
    obtain ⟨r', rfl⟩ := Option.isSome_iff_exists.mp hsome'
    have hrel := isRootRelative_of_shareable _ _ _ _ _ _ _ hshare
      (hpaths ▸ mem_map_of_mem hq)
    obtain ⟨rest, hrest⟩ := isRootRelative_capture.mp hrel
    have hcapture : capture q.path (some r.path) = .rootRelative (.ofPath rest) :=
      hrest ▸ capture_append
    exact .inr ⟨r, rfl, r', rfl, rest, hrest.symm, hcapture,
      hcapture ▸ resolve_rootRelative rest r'.path⟩

end Zccache
