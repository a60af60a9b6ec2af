import Zccache.Link.Parse
import Zccache.Request.Fingerprint

/-! # Keys of links and archives

A link is keyed by the tool, the flags, the linker's environment and the
contents of the inputs in their order. Under a key root the flags are spelled
relative to the root, and the libraries found below it count as inputs.
-/

namespace Zccache

open List Unix StableSort

variable {C D : Type}

def normalizeLinkPathValueForKey (value : Text) (keyRoot : Option Path) : Text :=
  if keyRoot.isNone then value else (normalizeRequestPathValue value keyRoot).getD value

def normalizeCaselessJoinedPath (option : String) (atom : Text) (keyRoot : Option Path) :
    Option Text :=
  if eqIgnoreAsciiCase (atom.take option.length) option.toList then
    (normalizeRequestPathValue (atom.drop option.length) keyRoot).map (atom.take option.length ++ ·)
  else none

def normalizeLinkFlagAtomForKey (atom : Text) (keyRoot : Option Path) : Text :=
  if keyRoot.isNone then atom
  else
    ((normalizeCcPrefixMapArgForKey atom keyRoot).or <|
      (normalizeJoinedPath "-L" atom keyRoot).or <|
      (["--library-path=", "--version-script=", "--script=", "--sysroot="].findSome?
        (normalizeJoinedPath · atom keyRoot)).or <|
      (["/LIBPATH:", "/DEF:"].findSome? (normalizeCaselessJoinedPath · atom keyRoot)).or <|
      (splitOnce '=' atom).bind fun (left, right) =>
        (normalizeRequestPathValue right keyRoot).map (left ++ '=' :: ·)).getD atom

/-- The parts of a `-Wl,` argument after the first. -/
def normalizeWlParts (keyRoot : Option Path) : List Text → List Text
  | [] => []
  | [part] => [normalizeLinkFlagAtomForKey part keyRoot]
  | part :: value :: rest =>
    if part ∈ texts ["-L", "-T", "--script", "--version-script", "--library-path",
      "--sysroot"] then
      part :: normalizeLinkPathValueForKey value keyRoot :: normalizeWlParts keyRoot rest
    else normalizeLinkFlagAtomForKey part keyRoot :: normalizeWlParts keyRoot (value :: rest)

def normalizeWlFlagForKey (flag : Text) (keyRoot : Option Path) : Text :=
  match flag.splitOn ',' with
  | [] => []
  | lead :: parts => [','].intercalate (lead :: normalizeWlParts keyRoot parts)

def normalizeLinkCacheFlagForKey (flag : Text) (keyRoot : Option Path) : Text :=
  if "-Wl,".toList.isPrefixOf flag then normalizeWlFlagForKey flag keyRoot
  else normalizeLinkFlagAtomForKey flag keyRoot

/-- `previousPathFlag` says that the flag before takes a path. -/
def normalizeLinkCacheFlagsForKey (keyRoot : Option Path) (previousPathFlag : Bool) :
    List Text → List Text
  | [] => []
  | flag :: rest =>
    if previousPathFlag then
      normalizeLinkPathValueForKey flag keyRoot ::
        normalizeLinkCacheFlagsForKey keyRoot false rest
    else
      normalizeLinkCacheFlagForKey flag keyRoot ::
        normalizeLinkCacheFlagsForKey keyRoot
          (flag ∈ texts ["-L", "-T", "--script", "--version-script", "--library-path",
            "-isysroot"] || eqIgnoreAsciiCase flag "/DEF") rest

section Search

structure LinkSearchAnalysis where
  searchDirs : List NormalizedPath := []
  libNames : List Text := []

namespace LinkSearchAnalysis

def append (a b : LinkSearchAnalysis) : LinkSearchAnalysis :=
  ⟨a.searchDirs ++ b.searchDirs, a.libNames ++ b.libNames⟩

def dir (t : Text) : LinkSearchAnalysis :=
  { searchDirs := [.new t] }

def lib (t : Text) : LinkSearchAnalysis :=
  { libNames := if t.isEmpty then [] else [t] }

/-- The first of the prefixes that a word has, with what follows it. -/
def joined (word : Text) (rules : List (String × (Text → LinkSearchAnalysis))) :
    LinkSearchAnalysis :=
  (rules.findSome? fun rule =>
    ((word.dropPrefix? rule.1.toList).filter (!·.isEmpty)).map rule.2).getD
    {}

/-- The parts of a `-Wl,` argument. -/
def ofWlParts : List Text → LinkSearchAnalysis
  | [] => {}
  | [part] =>
    if part ∈ texts ["-L", "--library-path", "-l"] then {}
    else joined part [("-L", dir), ("--library-path=", dir), ("-l", lib)]
  | part :: value :: rest =>
    if part ∈ texts ["-L", "--library-path"] then (dir value).append (ofWlParts rest)
    else if part = "-l" then (lib value).append (ofWlParts rest)
    else
      (joined part [("-L", dir), ("--library-path=", dir), ("-l", lib)]).append
        (ofWlParts (value :: rest))

def ofFlag (flag : Text) : LinkSearchAnalysis :=
  match (flag.dropPrefix? "-L").filter (!·.isEmpty),
      flag.dropPrefix? "--library-path=",
    (flag.dropPrefix? "-l").filter (!·.isEmpty), flag.dropPrefix? "-Wl," with
  | some rest, _, _, _ => dir rest
  | none, some rest, _, _ => dir rest
  | none, none, some rest, _ => lib rest
  | none, none, none, some rest => ofWlParts (rest.splitOn ',')
  | none, none, none, none => {}

end LinkSearchAnalysis

def analyzeLinkSearchFlags : List Text → LinkSearchAnalysis
  | [] => {}
  | [flag] => if flag ∈ texts ["-L", "--library-path"] then {} else .ofFlag flag
  | flag :: value :: rest =>
    if flag ∈ texts ["-L", "--library-path"] then
      (LinkSearchAnalysis.dir value).append (analyzeLinkSearchFlags rest)
    else (LinkSearchAnalysis.ofFlag flag).append (analyzeLinkSearchFlags (value :: rest))

def linkLibraryCandidateNames (lib : Text) : List Text :=
  match lib.dropPrefix? [':'] with
  | some exact => [exact]
  | none =>
    ["lib" ++ lib ++ ".a", "lib" ++ lib ++ ".so",
      "lib" ++ lib ++ ".dylib", lib ++ ".lib",
      "lib" ++ lib ++ ".dll.a", lib ++ ".dll.a"]

def linkPathToAbsolute (path cwd : Path) : Path :=
  if path.head? = some .rootDir then path else join cwd path

/-- The files of a machine, without links between directories. -/
abbrev FileTree (C : Type) := NormalizedPath → Option C

def FileTree.ofList (files : List (String × String)) : FileTree Text := fun p =>
  (files.find? fun file => NormalizedPath.new file.1.toList = p).map fun file => file.2.toList

variable (tree : FileTree C)

def firstFile (paths : List NormalizedPath) : Option NormalizedPath :=
  paths.find? fun p => (tree p).isSome

def libraryCandidates (dirs : List Path) (names : List Text) : List NormalizedPath :=
  dirs.flatMap fun dir => names.map fun name => .ofPath (join dir (components name))

def resolveLinkLibrary (lib : Text) (searchDirs : List NormalizedPath)
    (cwd : Path) : Option NormalizedPath :=
  firstFile tree (libraryCandidates (searchDirs.map fun dir => linkPathToAbsolute dir.path cwd)
    (linkLibraryCandidateNames lib))

def pathIsUnderRoot (path root : Path) : Bool :=
  (stripPrefix path root).isSome

structure LinkPathRemapKeyPlan where
  flags : List Text
  extraInputFiles : List NormalizedPath := []
  rootSpecific : Bool := false

/-- A search below the key root that finds nothing there makes the key depend on the root. -/
def buildLinkPathRemapKeyPlan (flags : List Text) (cwd : Path) :
    Option Path → LinkPathRemapKeyPlan
  | none => { flags := normalizeLinkCacheFlagsForKey none false flags }
  | some root =>
    let analysis := analyzeLinkSearchFlags flags
    let rootLocalSearch := analysis.searchDirs.any fun dir =>
      pathIsUnderRoot (linkPathToAbsolute dir.path cwd) root
    let found := analysis.libNames.map (resolveLinkLibrary tree · analysis.searchDirs cwd)
    { flags := normalizeLinkCacheFlagsForKey (some root) false flags
      extraInputFiles := dedupRuns (sortBy NormalizedPath.caseKey
        ((found.filterMap id).filter fun p => pathIsUnderRoot p.path root))
      rootSpecific := rootLocalSearch && (analysis.libNames.isEmpty ||
        found.any fun p => !p.any fun p => pathIsUnderRoot p.path root) }

end Search

def keyedLinkEnv (env : Env) : List (Text × Text) :=
  collectLinkTable env ++ collect env appleEnvKeyed false

structure LinkCacheKeyBuilder (D : Type) where
  toolId : D
  flags : List Text
  envVars : List (Text × Text)
  inputHashes : List D

variable (b : LinkCacheKeyBuilder D)

def LinkCacheKeyBuilder.envTexts : List Text :=
  (sortBy Prod.fst b.envVars).map fun e => e.1 ++ '=' :: e.2

/-- The bytes of the key. Each flag and each variable is ended by a NUL. -/
def LinkCacheKeyBuilder.preimage : List (Atom D) :=
  text "zccache-link-key-v1" ++ raw b.toolId ++ framed ((b.flags ++ b.envTexts).map text) ++
    b.inputHashes.map Atom.digest

def LinkCacheKeyBuilder.build (H : Hasher D) (b : LinkCacheKeyBuilder D) : D :=
  H.digest b.preimage

def Atom.digestOf : Atom D → Option D
  | ch _ => none
  | digest d => some d

theorem filterMap_digestOf_framed (ts : List Text) :
    (framed (ts.map text) : List (Atom D)).filterMap Atom.digestOf = [] := by
  unfold framed text
  induction ts with
  | nil => rfl
  | cons t ts ih =>
    rw [map_cons, Framing.frame_cons, filterMap_append, filterMap_map]
    exact append_eq_nil_iff.mpr ⟨filterMap_eq_nil_iff.mpr fun _ _ => rfl, ih⟩

theorem LinkCacheKeyBuilder.filterMap_digestOf_preimage :
    b.preimage.filterMap Atom.digestOf = b.toolId :: b.inputHashes := by
  have htag : (text "zccache-link-key-v1" : Field D).filterMap Atom.digestOf = [] := rfl
  have hins : (b.inputHashes.map Atom.digest).filterMap Atom.digestOf = b.inputHashes := by
    rw [filterMap_map]
    exact filterMap_some
  rw [preimage, filterMap_append, filterMap_append, filterMap_append,
    filterMap_digestOf_framed, htag, hins]
  rfl

theorem LinkCacheKeyBuilder.hashes_inj {H : Hasher D} (hdig : Function.Injective H.digest)
    {b b' : LinkCacheKeyBuilder D} (h : b.build H = b'.build H) :
    b.toolId = b'.toolId ∧ b.inputHashes = b'.inputHashes := by
  have hdigs := congrArg (List.filterMap Atom.digestOf) (hdig h)
  rw [filterMap_digestOf_preimage, filterMap_digestOf_preimage] at hdigs
  exact List.cons.inj hdigs

def linkPathRemapAutoKeyFlag : Text := "zccache:path-remap=auto"

def linkPathRemapRootSpecificFlag : Text := "zccache:path-remap=root-specific"

/-- Where and how a link is requested. -/
structure LinkRequest where
  tool : NormalizedPath
  cwd : Path
  keyRoot : Option Path
  env : Env

namespace LinkRequest

variable (r : LinkRequest) (link : CacheableLink) (tree : FileTree C)

def plan : LinkPathRemapKeyPlan :=
  buildLinkPathRemapKeyPlan tree link.cacheRelevantFlags r.cwd r.keyRoot

def absolute (p : NormalizedPath) : NormalizedPath :=
  .ofPath (linkPathToAbsolute p.path r.cwd)

def inputs : List NormalizedPath :=
  (link.inputFiles ++ (r.plan link tree).extraInputFiles).map r.absolute

def keyFlags : List Text :=
  (if r.keyRoot.isSome then [linkPathRemapAutoKeyFlag] else []) ++
    (if (r.plan link tree).rootSpecific then
      [linkPathRemapRootSpecificFlag ++ ':' :: (r.keyRoot.map normalizeForKey).getD []]
    else []) ++ (r.plan link tree).flags

/-- The key of the link. A file that cannot be read keeps the link out of the cache. -/
def key (H : Hasher D) (hashOf : C → D) : Option D :=
  (tree r.tool).bind fun toolContent =>
    if (r.inputs link tree).all fun p => (tree p).isSome then
      some (LinkCacheKeyBuilder.build H
        { toolId := hashOf toolContent
          flags := r.keyFlags link tree
          envVars := keyedLinkEnv r.env
          inputHashes := ((r.inputs link tree).filterMap tree).map hashOf })
    else none

theorem map_tree_eq {tree : FileTree C} {paths : List NormalizedPath}
    (h : paths.all fun p => (tree p).isSome) :
    paths.map tree = (paths.filterMap tree).map some := by
  induction paths with
  | nil => rfl
  | cons p paths ih =>
    rw [all_cons, Bool.and_eq_true] at h
    obtain ⟨c, hc⟩ := Option.isSome_iff_exists.mp h.1
    rw [map_cons, filterMap_cons_some hc, map_cons, hc, ih h.2]

theorem key_eq_some_iff {H : Hasher D} {hashOf : C → D} {d : D} :
    r.key link tree H hashOf = some d ↔ ∃ toolContent, tree r.tool = some toolContent ∧
      ((r.inputs link tree).all fun p => (tree p).isSome) ∧
      LinkCacheKeyBuilder.build H
        { toolId := hashOf toolContent
          flags := r.keyFlags link tree
          envVars := keyedLinkEnv r.env
          inputHashes := ((r.inputs link tree).filterMap tree).map hashOf } = d := by
  unfold key
  rw [Option.bind_eq_some_iff]
  constructor
  · rintro ⟨toolContent, htool, h⟩
    split_ifs at h with hall
    exact ⟨toolContent, htool, hall, Option.some.inj h⟩
  · rintro ⟨toolContent, htool, hall, rfl⟩
    exact ⟨toolContent, htool, if_pos hall⟩

end LinkRequest

end Zccache
