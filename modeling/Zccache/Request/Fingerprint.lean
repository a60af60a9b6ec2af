import Zccache.Request.GnuArgs

/-! # Parts of request fingerprints

Absolute paths are rewritten relative to the worktree, so that a request can be found
again from another checkout. A request for a dependency file has its arguments as given
in the fingerprint too.
-/

namespace Zccache

open List Unix

def requestRootMarker : Text := "$ZCCACHE_WORKTREE_ROOT"

def normalizePathForRequestKey (path : Path) (keyRoot : Option Path) : Text :=
  match keyRoot.bind (stripPrefix path) with
  | some relative =>
    if normalizeForKey relative = [] then requestRootMarker
    else requestRootMarker ++ sep :: normalizeForKey relative
  | none => normalizeForKey path

def normalizeRequestPathValue (value : Text) (keyRoot : Option Path) : Option Text :=
  if isAbsolute value then some (normalizePathForRequestKey (components value) keyRoot) else none

def ccPrefixMapFlags : List Text :=
  texts ["-ffile-prefix-map", "-fmacro-prefix-map", "-fdebug-prefix-map", "-fcoverage-prefix-map",
    "-fprofile-prefix-map"]

variable (arg : Text) (keyRoot : Option Path)

def splitCcPrefixMapArg : Option (Text × Text × Text) :=
  ccPrefixMapFlags.findSome? fun flag =>
    ((arg.dropPrefix? flag).bind (·.dropPrefix? ['='])).bind fun rest =>
      (splitOnce '=' rest).map fun (old, new) => (flag, old, new)

def normalizeCcPrefixMapArgForKey : Option Text :=
  (splitCcPrefixMapArg arg).bind fun (flag, old, new) =>
    (normalizeRequestPathValue old keyRoot).map fun old => flag ++ '=' :: (old ++ '=' :: new)

def normalizeJoinedPath (option : String) (arg : Text) (keyRoot : Option Path) : Option Text :=
  ((arg.dropPrefix? option.toList).bind (normalizeRequestPathValue · keyRoot)).map
    (option.toList ++ ·)

/-- The arguments as given, without the destinations of depfiles. -/
def rawArgv : List Text → List Text
  | [] => []
  | [arg] =>
    if arg = "-MF" then []
    else if arg = "-MF-" then ["-MF-stdout"]
    else if "-MF".toList.isPrefixOf arg then []
    else [arg]
  | arg :: next :: rest =>
    if arg = "-MF" then
      if next = "-" then "-MF-stdout" :: rawArgv rest else rawArgv rest
    else if arg = "-MF-" then "-MF-stdout" :: rawArgv (next :: rest)
    else if "-MF".toList.isPrefixOf arg then rawArgv (next :: rest)
    else arg :: rawArgv (next :: rest)

def wantsDepfile (args : List Text) : Bool :=
  args.any (· ∈ texts ["-MD", "-MMD"])

def rawArgvTag : Text := "user-depfile-raw-argv"

def rawSection (args : List Text) : List Text :=
  if wantsDepfile args then rawArgvTag :: rawArgv args else []

theorem mem_rawArgv {args : List Text} {t : Text} (h : t ∈ rawArgv args) :
    t ∈ args ∨ t = "-MF-stdout" := by
  fun_induction rawArgv args with
  | case1 | case2 | case4 => cases h
  | case3 => exact .inr (mem_singleton.mp h)
  | case5 => exact .inl h
  | case6 rest ih =>
    rcases mem_cons.mp h with h | h
    · exact .inr h
    · exact (ih h).imp_left fun h => mem_cons_of_mem _ (mem_cons_of_mem _ h)
  | case7 next rest _ ih =>
    exact (ih h).imp_left fun h => mem_cons_of_mem _ (mem_cons_of_mem _ h)
  | case8 next rest _ ih =>
    rcases mem_cons.mp h with h | h
    · exact .inr h
    · exact (ih h).imp_left (mem_cons_of_mem _)
  | case9 arg next rest _ _ _ ih => exact (ih h).imp_left (mem_cons_of_mem _)
  | case10 arg next rest _ _ _ ih =>
    rcases mem_cons.mp h with rfl | h
    · exact .inl mem_cons_self
    · exact (ih h).imp_left (mem_cons_of_mem _)

theorem nul_notMem_rawSection {args : List Text} (h : ∀ t ∈ args, nul ∉ t) :
    ∀ t ∈ rawSection args, nul ∉ t := by
  intro t ht
  unfold rawSection at ht
  split at ht
  · rcases mem_cons.mp ht with rfl | ht
    · decide
    · rcases mem_rawArgv ht with hmem | rfl
      · exact h t hmem
      · decide
  · cases ht

end Zccache
