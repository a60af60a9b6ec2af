import Zccache.Link.Key

/-! # The libraries that a link reads

The linker looks for each library in the search directories, in each first for
the shared and then for the static one. The key searches in its own way and only
below the key root. A change of a library changes the key exactly if the file
that the linker finds is one that the key hashes.
-/

namespace Zccache

open List Unix StableSort

variable {C D : Type}

/-- Some options of GNU ld and of drivers whose value is the next word. -/
def linkerValueOptions : List Text :=
  texts ["-o", "-T", "--script", "--version-script", "-z", "-soname", "-h", "-Map", "-e", "--entry",
    "-u", "--undefined", "-m", "-y", "-rpath", "--rpath", "-rpath-link", "--dependency-file",
    "-dynamic-linker", "--dynamic-linker", "--out-implib", "-target", "--target", "-isysroot"]

/-- The search directories and the libraries in their order. A library is static if static linking
is requested where it stands. -/
structure LinkerSearch where
  dirs : List Text := []
  libs : List (Text × Bool) := []

namespace LinkerSearch

def dir (t : Text) (more : LinkerSearch) : LinkerSearch :=
  { more with dirs := t :: more.dirs }

def lib (t : Text) (static : Bool) (more : LinkerSearch) : LinkerSearch :=
  { more with libs := (t, static) :: more.libs }

def word (static : Bool) (t : Text) (more : LinkerSearch) : LinkerSearch :=
  match (t.dropPrefix? "-L").or (t.dropPrefix? "--library-path="),
    (t.dropPrefix? "-l").or (t.dropPrefix? "--library=") with
  | some rest, _ => dir rest more
  | none, some rest => lib rest static more
  | none, none => more

def staticAfter (static : Bool) (t : Text) : Bool :=
  if t ∈ texts ["-static", "-Bstatic", "-dn", "-non_shared"] then true
  else if t ∈ texts ["-Bdynamic", "-dy", "-call_shared"] then false
  else static

/-- `valued` are the other options that take the next word. -/
def ofWords (valued : List Text) (static : Bool) : List Text → LinkerSearch
  | [] => {}
  | [t] => word static t {}
  | t :: value :: rest =>
    if t ∈ texts ["-L", "--library-path"] then dir value (ofWords valued static rest)
    else if t ∈ texts ["-l", "--library"] then lib value static (ofWords valued static rest)
    else if t ∈ valued then ofWords valued static rest
    else word static t (ofWords valued (staticAfter static t) (value :: rest))

end LinkerSearch

/-- A driver hands `-static` on before all other words. -/
def requestsStatic (valued : List Text) : List Text → Bool
  | [] => false
  | [arg] => arg = "-static".toList
  | arg :: next :: rest =>
    arg = "-static".toList ||
      if arg ∈ "-L".toList :: valued then requestsStatic valued rest
      else requestsStatic valued (next :: rest)

def linkerWords (args : List Text) : List Text :=
  args.flatMap fun arg =>
    match arg.dropPrefix? "-Wl," with
    | some parts => parts.splitOn ','
    | none => if arg = "-Xlinker" then [] else [arg]

def linkerSearch (valued : List Text) : LinkTool → List Text → LinkerSearch
  | .gnuLd, args => .ofWords valued false args
  | .compilerDriver, args => .ofWords valued (requestsStatic valued args) (linkerWords args)

def linkerCandidateNames (lib : Text × Bool) : List Text :=
  match lib.1.dropPrefix? [':'] with
  | some exact => [exact]
  | none =>
    if lib.2 then ["lib" ++ lib.1 ++ ".a"]
    else ["lib" ++ lib.1 ++ ".so", "lib" ++ lib.1 ++ ".a"]

/-- A command line of a linker that is accepted as cacheable. -/
structure LinkCommand where
  tool : LinkTool
  args : List Text
  link : CacheableLink
  accepted : parseLinkerInvocation tool args = .ok link

namespace LinkCommand

variable (command : LinkCommand) (r : LinkRequest) (valued : List Text) (tree : FileTree C)

/-- The places at which the linker looks for a library, in this order. -/
def linkerPlaces (lib : Text × Bool) : List NormalizedPath :=
  libraryCandidates ((linkerSearch valued command.tool command.args).dirs.map fun dir =>
    join r.cwd (components dir)) (linkerCandidateNames lib)

def keyPlaces (lib : Text) : List NormalizedPath :=
  libraryCandidates ((analyzeLinkSearchFlags command.link.cacheRelevantFlags).searchDirs.map
    fun dir => linkPathToAbsolute dir.path r.cwd) (linkLibraryCandidateNames lib)

def foundLibraries : List (Option NormalizedPath) :=
  (linkerSearch valued command.tool command.args).libs.map fun lib =>
    firstFile tree (command.linkerPlaces r valued lib)

/-- The contents that the link reads in the order of the command line: the objects, and the library
found for each option. -/
def contents : List (Option C) × List (Option C) :=
  (command.link.inputFiles.map fun p => tree (r.absolute p),
    (command.foundLibraries r valued tree).map (·.bind tree))

/-- The file goes into the key: the tool, an object, or a library below the key root that the
search of the key finds. -/
def IsKeyed (p : NormalizedPath) : Prop :=
  p = r.tool ∨ (∃ input ∈ command.link.inputFiles, r.absolute input = p) ∨
    ∃ root ∈ r.keyRoot, ∃ lib ∈ (analyzeLinkSearchFlags command.link.cacheRelevantFlags).libNames,
      ∃ q ∈ firstFile tree (command.keyPlaces r lib),
        pathIsUnderRoot q.path root ∧ r.absolute q = p

/-- The search of the linker and that of the key find the same files in both trees. -/
def SameFound (tree tree' : FileTree C) : Prop :=
  command.foundLibraries r valued tree = command.foundLibraries r valued tree' ∧
  ∀ lib ∈ (analyzeLinkSearchFlags command.link.cacheRelevantFlags).libNames,
    firstFile tree (command.keyPlaces r lib) = firstFile tree' (command.keyPlaces r lib)

end LinkCommand

section Search

variable {tree tree' : FileTree C} {paths : List NormalizedPath} {p : NormalizedPath}

theorem firstFile_congr (h : ∀ p ∈ paths, (tree p).isSome = (tree' p).isSome) :
    firstFile tree paths = firstFile tree' paths := by
  induction paths with
  | nil => rfl
  | cons p paths ih =>
    rw [forall_mem_cons] at h
    have hrest := ih h.2
    unfold firstFile at hrest ⊢
    rw [find?_cons, find?_cons, h.1, hrest]

theorem isSome_of_firstFile (h : firstFile tree paths = some p) : (tree p).isSome :=
  find?_some (p := fun p => (tree p).isSome) h

end Search

namespace LinkRequest

variable (r : LinkRequest) (link : CacheableLink) {tree tree' : FileTree C} {H : Hasher D}
  {hashOf : C → D} {d : D}

/-- With one plan for both trees the same key means the same contents of the tool and of all inputs
that are hashed. -/
theorem eq_of_key_eq (hdigest : Function.Injective H.digest) (hhash : Function.Injective hashOf)
    (hplan : r.plan link tree = r.plan link tree') (h : r.key link tree H hashOf = some d)
    (h' : r.key link tree' H hashOf = some d) :
    tree r.tool = tree' r.tool ∧ ∀ p ∈ r.inputs link tree, tree p = tree' p := by
  have hins : r.inputs link tree = r.inputs link tree' := by rw [inputs, inputs, hplan]
  obtain ⟨toolContent, htool, hall, hd⟩ := (r.key_eq_some_iff link _).mp h
  obtain ⟨toolContent', htool', hall', hd'⟩ := (r.key_eq_some_iff link _).mp h'
  obtain ⟨htools, hhashes⟩ := LinkCacheKeyBuilder.hashes_inj hdigest (hd.trans hd'.symm)
  rw [← hins] at hall' hhashes
  refine ⟨by rw [htool, htool', hhash htools], ?_⟩
  rw [← map_inj_left, map_tree_eq hall, map_tree_eq hall',
    map_injective_iff.mpr hhash hhashes]

theorem key_congr (hplan : r.plan link tree = r.plan link tree')
    (htool : tree r.tool = tree' r.tool)
    (hins : ∀ p ∈ r.inputs link tree, tree p = tree' p) :
    r.key link tree H hashOf = r.key link tree' H hashOf := by
  have hsame : r.inputs link tree = r.inputs link tree' := by rw [inputs, inputs, hplan]
  have hflags : r.keyFlags link tree = r.keyFlags link tree' := by rw [keyFlags, keyFlags, hplan]
  have hall : ((r.inputs link tree).all fun p => (tree p).isSome) =
      (r.inputs link tree).all fun p => (tree' p).isSome := by
    rw [Bool.eq_iff_iff, all_eq_true, all_eq_true]
    exact forall₂_congr fun p hp => by rw [hins p hp]
  rw [key, key, htool, ← hsame, ← hflags, hall, filterMap_congr hins]

end LinkRequest

namespace LinkCommand

variable {command : LinkCommand} {r : LinkRequest} {tree tree' : FileTree C} {H : Hasher D}
  {hashOf : C → D} {p : NormalizedPath} {valued : List Text}

theorem SameFound.plan_eq (h : command.SameFound r valued tree tree') :
    r.plan command.link tree = r.plan command.link tree' := by
  have hfound : (analyzeLinkSearchFlags command.link.cacheRelevantFlags).libNames.map
      (resolveLinkLibrary tree ·
        (analyzeLinkSearchFlags command.link.cacheRelevantFlags).searchDirs r.cwd) =
      (analyzeLinkSearchFlags command.link.cacheRelevantFlags).libNames.map
      (resolveLinkLibrary tree' ·
        (analyzeLinkSearchFlags command.link.cacheRelevantFlags).searchDirs r.cwd) :=
    map_congr_left h.2
  unfold LinkRequest.plan
  cases r.keyRoot with
  | none => rfl
  | some root => rw [buildLinkPathRemapKeyPlan, buildLinkPathRemapKeyPlan, hfound]

theorem sameFound_of_isSome (h : ∀ p, (tree p).isSome = (tree' p).isSome) :
    command.SameFound r valued tree tree' :=
  ⟨map_congr_left fun _ _ => firstFile_congr fun p _ => h p,
    fun _ _ => firstFile_congr fun p _ => h p⟩

theorem isKeyed_iff : command.IsKeyed r tree p ↔ p = r.tool ∨ p ∈ r.inputs command.link tree := by
  have hextra : p ∈ (r.plan command.link tree).extraInputFiles.map r.absolute ↔
      ∃ root ∈ r.keyRoot,
        ∃ lib ∈ (analyzeLinkSearchFlags command.link.cacheRelevantFlags).libNames,
        ∃ q ∈ firstFile tree (command.keyPlaces r lib),
          pathIsUnderRoot q.path root ∧ r.absolute q = p := by
    unfold LinkRequest.plan
    cases r.keyRoot with
    | none => simp [buildLinkPathRemapKeyPlan]
    | some root =>
      simp only [buildLinkPathRemapKeyPlan, mem_map, mem_dedupRuns, mem_sortBy,
        mem_filter, mem_filterMap, Option.mem_def, Option.some.injEq]
      constructor
      · rintro ⟨q, ⟨⟨-, ⟨lib, hlib, rfl⟩, hq⟩, hroot⟩, rfl⟩
        exact ⟨root, rfl, lib, hlib, q, hq, hroot, rfl⟩
      · rintro ⟨_, rfl, lib, hlib, q, hq, hroot, rfl⟩
        exact ⟨q, ⟨⟨_, ⟨lib, hlib, rfl⟩, hq⟩, hroot⟩, rfl⟩
  rw [IsKeyed, ← hextra, LinkRequest.inputs, map_append, mem_append]
  exact or_congr_right (or_congr_left mem_map.symm)

/-- A file that does not go into the key may get another content. -/
theorem key_update_of_not_isKeyed {c : C} (hnot : ¬ command.IsKeyed r tree p)
    (hc : tree p = some c) (c' : C) :
    command.SameFound r valued tree (Function.update tree p (some c')) ∧
      r.key command.link (Function.update tree p (some c')) H hashOf =
        r.key command.link tree H hashOf := by
  rw [isKeyed_iff, not_or] at hnot
  have hother : ∀ q, q ≠ p → tree q = Function.update tree p (some c') q := fun q hq =>
    (Function.update_of_ne hq (some c') tree).symm
  have hsearch : command.SameFound r valued tree (Function.update tree p (some c')) := by
    refine sameFound_of_isSome fun q => ?_
    by_cases hq : q = p
    · rw [hq, hc, Function.update_self]
      rfl
    · rw [hother q hq]
  refine ⟨hsearch, Eq.symm ?_⟩
  exact r.key_congr command.link hsearch.plan_eq (hother _ (Ne.symm hnot.1))
    fun q hq => hother q fun h => hnot.2 (h ▸ hq)

/-- A link in the directory `/w`. -/
def linkIn (keyRoot : Option String) : LinkRequest where
  tool := .new "/usr/bin/ld"
  cwd := components "/w"
  keyRoot := keyRoot.map fun root => components root.toList
  env := []

/-- The files of the list, with the tool and the object `/w/m.o`. -/
def treeWith (files : List (String × String)) : FileTree Text :=
  .ofList (("/usr/bin/ld", "ld") :: ("/w/m.o", "m") :: files)

def commandOf (tool : LinkTool) (args : List String) : Option LinkCommand :=
  match h : parseLinkerInvocation tool (texts args) with
  | .ok link => some ⟨tool, texts args, link, h⟩
  | .error _ => none

/-- The key does not change although the link reads something else. -/
def SharesKey (tool : LinkTool) (args : List String) (keyRoot : Option String)
    (files files' : List (String × String)) : Bool :=
  (commandOf tool args).any fun command =>
    (linkIn keyRoot).key command.link (treeWith files) .transparent id ≠ none ∧
    (linkIn keyRoot).key command.link (treeWith files) .transparent id =
      (linkIn keyRoot).key command.link (treeWith files') .transparent id ∧
    command.contents (linkIn keyRoot) linkerValueOptions (treeWith files) ≠
      command.contents (linkIn keyRoot) linkerValueOptions (treeWith files')

def staticLink : LinkCommand :=
  (commandOf .gnuLd ["-o", "m", "m.o", "-Llib", "-lx"]).get (by decide +kernel)

def libraryTree : FileTree Text :=
  treeWith [("/w/lib/libx.a", "1")]

end LinkCommand

end Zccache
