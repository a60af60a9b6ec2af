import Mathlib.Data.List.MinMax
import Zccache.Context.CompileContext
import Zccache.Graph.Basic

/-! # Resolution of include directives

The resolver is given the directory of the including file and not the search directory that the
file was found at, which is where `#include_next` continues from. It takes the deepest search
directory above the file.
-/

namespace Zccache

open List Unix

namespace IncludeSearchPaths

variable (search : IncludeSearchPaths)

def angleSearchDirs : List Path :=
  (search.user ++ search.system ++ search.after).map (·.path)

def quotedSearchDirs : List Path :=
  search.iquote.map (·.path) ++ search.angleSearchDirs

end IncludeSearchPaths

namespace Scanner

section Resolution

variable (canonicalize : Path → Option NormalizedPath) (regular : NormalizedPath → Bool)

def isFile (p : Path) : Bool :=
  (canonicalize p).any regular

def normalize (p : Path) : NormalizedPath :=
  (canonicalize p).getD (.ofPath p)

/-- The file of a name in the first directory that has it. -/
def findIn (path : Text) (dirs : List Path) : Option NormalizedPath :=
  dirs.findSome? fun dir =>
    let candidate := Unix.join dir (components path)
    if isFile canonicalize regular candidate then some (normalize canonicalize candidate) else none

/-- The place and the depth of each search directory above `including`. -/
def rootsAbove (dirs : List Path) (including : NormalizedPath) : List (ℕ × ℕ) :=
  dirs.zipIdx.filterMap fun entry =>
    ((canonicalize entry.1).filter including.startsWith).map fun root =>
      (entry.2, root.path.length)

def currentRoot (dirs : List Path) (including : NormalizedPath) : Option ℕ :=
  ((rootsAbove canonicalize dirs including).argmax Prod.snd).map Prod.fst

def resolveIncludeNext (path : Text) (searchDirs : List Path) (includingFileDir : Path) :
    Option NormalizedPath :=
  (canonicalize includingFileDir).bind fun including =>
    let start := (currentRoot canonicalize searchDirs including).elim 0 (· + 1)
    findIn canonicalize regular path (searchDirs.drop start)

def resolveInclude (directive : IncludeDirective) (search : IncludeSearchPaths)
    (includingFileDir : Path) : Option NormalizedPath :=
  let find := findIn canonicalize regular directive.path
  let findNext dirs := resolveIncludeNext canonicalize regular directive.path dirs includingFileDir
  match directive.kind with
  | .quoted => find (includingFileDir :: search.quotedSearchDirs)
  | .angleBracket => find search.angleSearchDirs
  | .quotedNext => findNext search.quotedSearchDirs
  | .angleBracketNext => findNext search.angleSearchDirs
  | .computed _ => none

/-- The directory in a place is above the file, and the first of the deepest ones that are. -/
def DeepestAt (dirs : List Path) (including : NormalizedPath) (i : ℕ) : Prop :=
  ∃ depth, (i, depth) ∈ rootsAbove canonicalize dirs including ∧
    ∀ root ∈ rootsAbove canonicalize dirs including,
      root.2 ≤ depth ∧ (root.1 < i → root.2 < depth)

end Resolution

theorem argmax_eq_some_iff_of_pairwise {α : Type} [DecidableEq α] {f g : α → ℕ} {l : List α}
    (h : l.Pairwise (g · < g ·)) {m : α} :
    l.argmax f = some m ↔ m ∈ l ∧ ∀ a ∈ l, f a ≤ f m ∧ (g a < g m → f a < f m) := by
  have hplace : ∀ a ∈ l, ∀ b ∈ l, l.idxOf a < l.idxOf b → g a < g b := by
    intro a ha b hb hlt
    simpa using pairwise_iff_getElem.mp h _ _ (idxOf_lt_length_of_mem ha)
      (idxOf_lt_length_of_mem hb) hlt
  rw [argmax_eq_some_iff, and_congr_right_iff]
  intro hm
  constructor
  · rintro ⟨hmax, hfirst⟩ a ha
    refine ⟨hmax a ha, fun hlt => lt_of_not_ge fun hge => ?_⟩
    obtain heq | hidx := (hfirst a ha hge).eq_or_lt
    · rw [(idxOf_inj hm).mp heq] at hlt
      omega
    · have := hplace m hm a ha hidx
      omega
  · intro hmax
    refine ⟨fun a ha => (hmax a ha).1, fun a ha hle => le_of_not_gt fun hidx => ?_⟩
    have := (hmax a ha).2 (hplace a ha m hm hidx)
    omega

variable {canonicalize : Path → Option NormalizedPath} {regular : NormalizedPath → Bool}
  {path : Text} {dirs : List Path} {including : NormalizedPath} {i : ℕ}

theorem pairwise_rootsAbove : (rootsAbove canonicalize dirs including).Pairwise (·.1 < ·.1) := by
  have hplaces : dirs.zipIdx.Pairwise (·.2 < ·.2) := by
    rw [← pairwise_map, zipIdx_map_snd]
    exact pairwise_lt_range'
  refine hplaces.filterMap _ fun x y hlt a ha b hb => ?_
  simp only [Option.map_eq_some_iff] at ha hb
  obtain ⟨⟨_, -, rfl⟩, ⟨_, -, rfl⟩⟩ := And.intro ha hb
  exact hlt

theorem currentRoot_eq_some : currentRoot canonicalize dirs including = some i ↔
    DeepestAt canonicalize dirs including i := by
  simp [currentRoot, argmax_eq_some_iff_of_pairwise pairwise_rootsAbove, DeepestAt]

theorem findIn_eq_find {files : List NormalizedPath}
    (h : dirs.map (canonicalize <| Unix.join · (components path)) = files.map some) :
    findIn canonicalize regular path dirs = files.find? regular := by
  have hfile : findIn canonicalize regular path dirs = (files.map some).findSome?
      (·.filter regular) := by
    rw [← h, findSome?_map]
    refine congrArg (findSome? · dirs) (funext fun dir => ?_)
    cases hdir : canonicalize (Unix.join dir (components path)) <;>
      simp [isFile, normalize, hdir, Option.filter]
  rw [hfile, findSome?_map, find?_eq_findSome?_guard]
  rfl

/-- Two searches that find the same for every set of files start in one place. -/
theorem le_of_findIn_drop {files : List NormalizedPath}
    (hfiles : dirs.map (canonicalize <| Unix.join · (components path)) = files.map some)
    (hnodup : files.Nodup) {m n : ℕ} (hm : m ≤ dirs.length)
    (h : ∀ regular, findIn canonicalize regular path (dirs.drop m) =
      findIn canonicalize regular path (dirs.drop n)) : m ≤ n := by
  by_contra! hlt
  have hlen : files.length = dirs.length := by simpa using congrArg length hfiles.symm
  have hn : n < files.length := by omega
  have hdrop : ∀ k, (dirs.drop k).map (canonicalize <| Unix.join · (components path)) =
      (files.drop k).map some := by
    simp [hfiles]
  have hfind := h (· == files[n])
  rw [findIn_eq_find (hdrop m), findIn_eq_find (hdrop n), drop_eq_getElem_cons hn] at hfind
  simp only [find?_cons, beq_self_eq_true] at hfind
  exact disjoint_take_drop hnodup hlt (mem_take_iff_getElem.mpr ⟨n, by omega, rfl⟩)
    (mem_of_find?_eq_some hfind)

/-- `#include_next` continues from a place if that is the first of the deepest search directories
above the file, and only then if the candidates are different files. -/
theorem includeNext_continues (canonicalize : Path → Option NormalizedPath) (dirs : List Path)
    (dir : Path) (i : Fin dirs.length) :
    ((∀ including ∈ canonicalize dir, DeepestAt canonicalize dirs including i) →
      ∀ path regular, resolveIncludeNext canonicalize regular path dirs dir =
        (canonicalize dir).bind fun _ => findIn canonicalize regular path (dirs.drop (i + 1))) ∧
    ∀ path (files : List NormalizedPath),
      dirs.map (canonicalize <| Unix.join · (components path)) = files.map some → files.Nodup →
      (∀ regular, resolveIncludeNext canonicalize regular path dirs dir =
        (canonicalize dir).bind fun _ => findIn canonicalize regular path (dirs.drop (i + 1))) →
      ∀ including ∈ canonicalize dir, DeepestAt canonicalize dirs including i := by
  constructor
  · intro h path regular
    refine Option.bind_congr fun including hincl => ?_
    simp [currentRoot_eq_some.mpr (h including hincl)]
  · intro path files hfiles hnodup h including hincl
    simp only [resolveIncludeNext, Option.mem_def.mp hincl, Option.bind_some] at h
    rw [← currentRoot_eq_some]
    have hstart := le_of_findIn_drop hfiles hnodup (m := i + 1) (by omega)
      fun regular => (h regular).symm
    cases hroot : currentRoot canonicalize dirs including with
    | none => simp [hroot] at hstart
    | some k =>
      rw [hroot] at h hstart
      obtain ⟨_, hk, -⟩ := currentRoot_eq_some.mp hroot
      obtain ⟨entry, hentry, hplace⟩ := mem_filterMap.mp hk
      obtain ⟨_, -, ⟨⟩⟩ := Option.map_eq_some_iff.mp hplace
      have hlt : entry.2 < dirs.length := by simpa using (mem_zipIdx hentry).2.1
      have hend := le_of_findIn_drop hfiles hnodup (m := entry.2 + 1) (by omega) h
      simp at hstart
      congr
      omega

def nestedDirs : IncludeSearchPaths where
  iquote := []
  user := [.new "/a", .new "/a/sub"]
  system := []
  after := []

def headers : List NormalizedPath :=
  [.new "/a/sub/x.h", .new "/a/sub/y.h"]

/-- A file that was found at the outer of two directories lies in the inner one, and the search
goes on behind that: its header is not found. -/
theorem nested_root_skipped :
    findIn (some <| .ofPath ·) (· ∈ headers) "sub/x.h" (nestedDirs.angleSearchDirs.take 1) =
        some (.new "/a/sub/x.h") ∧
      findIn (some <| .ofPath ·) (· ∈ headers) "y.h" (nestedDirs.angleSearchDirs.drop 1) =
        some (.new "/a/sub/y.h") ∧
      resolveInclude (some <| .ofPath ·) (· ∈ headers) ⟨.angleBracketNext, "y.h", 1⟩ nestedDirs
        (NormalizedPath.new "/a/sub").path = none := by
  decide

end Scanner

end Zccache
