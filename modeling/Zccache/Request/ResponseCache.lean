import Zccache.Base.Checked
import Zccache.Base.Map
import Zccache.Base.Run
import Zccache.Request.GnuArgs
import Zccache.Request.ResponseFile

/-! # Expansion of response files

The arguments of a response file may name further response files. The daemon
remembers the expansion of a file with the hashes of all files that were read for
it. As long as these files have the same contents, the expansion is the same.
-/

namespace Zccache.ResponseFile

open Unix FinMap Checked

variable {B D : Type}

section Files

def parent (p : Path) : Option Path :=
  match p.getLast? with
  | none => none
  | some .rootDir => none
  | some _ => some p.dropLast

/-- Files without links, under their absolute paths. Every file is in a directory. -/
structure FileMap (B : Type) where
  files : Map NormalizedPath B
  absolute : ∀ p ∈ files, p.path.head? = some .rootDir
  parent : ∀ p ∈ files, (parent p.path).isSome = true

inductive ResponseFileError where
  | readError (path : NormalizedPath)
  | circularReference (path : NormalizedPath)
  | tooDeep (path : NormalizedPath)
  deriving DecidableEq

variable (here : Path)

/-- The path of an existing file, from the process's own directory. -/
def canonicalize (F : FileMap B) (path : NormalizedPath) : Option NormalizedPath :=
  let canonical := NormalizedPath.ofPath (Unix.join here path.path)
  if canonical ∈ F.files then some canonical else none

/-- The name of the response file that an argument refers to. -/
def fileArg : Text → Option Text
  | '@' :: c :: rest => some (c :: rest)
  | _ => none

end Files

section Expansion

/-- The expansion of one response file, with a state `σ` that is carried along. -/
abbrev Expander (σ : Type) :=
  NormalizedPath → σ → Except ResponseFileError (List Text × σ)

variable {σ : Type}

def expandArg (expand : Expander σ) (base : Path) (arg : Text) (s : σ) :
    Except ResponseFileError (List Text × σ) :=
  match fileArg arg with
  | none => .ok ([arg], s)
  | some filename => expand (resolvePath base filename) s

def expandEach (expand : Expander σ) (base : Path) :
    List Text → σ → Except ResponseFileError (List Text × σ)
  | [], s => .ok ([], s)
  | arg :: rest, s => do
    let expanded ← expandArg expand base arg s
    let tail ← expandEach expand base rest expanded.2
    .ok (expanded.1 ++ tail.1, tail.2)

/- How the text of a file is read, and the hash of its content. -/
variable (decode : B → Option Text) (hash : B → D) (here : Path) (F : FileMap B)

/-- Response files nest up to this depth. -/
def maxDepth : ℕ := 10

/-- The response file at `resolved`, named in the directory `base`, with `left` levels left. -/
def expandFile : ℕ → Path → Expander (List NormalizedPath)
  | 0, _, resolved, seen => do
    let canonical ← orFail (.readError resolved) (canonicalize here F resolved)
    require (canonical ∉ seen) (.circularReference resolved)
    .error (.tooDeep resolved)
  | left + 1, base, resolved, seen => do
    let canonical ← orFail (.readError resolved) (canonicalize here F resolved)
    require (canonical ∉ seen) (.circularReference resolved)
    let content ← orFail (.readError resolved) ((F.files.lookup canonical).bind decode)
    let parentDir := (parent canonical.path).getD base
    let nested ← expandEach (expandFile left parentDir) parentDir
      (parseResponseFileContent content) (canonical :: seen)
    .ok (nested.1, nested.2.erase canonical)

def expandRecursive (left : ℕ) (args : List Text) (base : Path) (seen : List NormalizedPath) :
    Except ResponseFileError (List Text × List NormalizedPath) :=
  expandEach (expandFile decode here F left base) base args seen

def expandResponseFilesIn (args : List Text) (base : Path) :
    Except ResponseFileError (List Text) :=
  Prod.fst <$> expandRecursive decode here F maxDepth args base []

/-- The files that are being expanded, and the files that have been read, with their hashes. -/
structure Progress (D : Type) where
  seen : List NormalizedPath
  dependencies : List (NormalizedPath × D)

def expandRspRecursive : ℕ → Expander (Progress D)
  | 0, path, _ => .error (.tooDeep path)
  | left + 1, path, progress => do
    let canonical ← orFail (.readError path) (canonicalize here F path)
    require (canonical ∉ progress.seen) (.circularReference canonical)
    let contentHash ← orFail (.readError canonical) ((F.files.lookup canonical).map hash)
    let content ← orFail (.readError canonical) ((F.files.lookup canonical).bind decode)
    let baseDir := (parent canonical.path).getD [.curDir]
    let expanded ← expandEach (expandRspRecursive left) baseDir
      (parseResponseFileContent content)
      { seen := canonical :: progress.seen
        dependencies := progress.dependencies ++ [(canonical, contentHash)] }
    .ok (expanded.1, { expanded.2 with seen := expanded.2.seen.erase canonical })

end Expansion

structure RspCacheEntry (D : Type) where
  expanded : List Text
  dependencies : List (NormalizedPath × D)

abbrev RspCache (D : Type) := Map NormalizedPath (RspCacheEntry D)

variable [DecidableEq D] (decode : B → Option Text) (hash : B → D) (here : Path) (F : FileMap B)

def isFresh (dependencies : List (NormalizedPath × D)) : Bool :=
  dependencies.all fun dep => (F.files.lookup dep.1).map hash = some dep.2

def expandRspArgCached (cache : RspCache D) (resolved : NormalizedPath) :
    Except ResponseFileError (List Text) × RspCache D :=
  match canonicalize here F resolved with
  | none => (.error (.readError resolved), cache)
  | some canonical =>
    match (cache.lookup canonical).filter fun cached => isFresh hash F cached.dependencies with
    | some cached => (.ok cached.expanded, cache)
    | none =>
      match expandRspRecursive decode hash here F maxDepth canonical ⟨[], []⟩ with
      | .error fault => (.error fault, cache)
      | .ok expanded =>
        (.ok expanded.1, cache.insert canonical ⟨expanded.1, expanded.2.dependencies⟩)

def expandEachCached (cwd : Path) : RspCache D → List Text → List Text × RspCache D
  | cache, [] => ([], cache)
  | cache, arg :: rest =>
    match fileArg arg with
    | none =>
      let tail := expandEachCached cwd cache rest
      (arg :: tail.1, tail.2)
    | some filename =>
      let expanded := expandRspArgCached decode hash here F cache (resolvePath cwd filename)
      let tail := expandEachCached cwd expanded.2 rest
      (expanded.1.toOption.getD [arg] ++ tail.1, tail.2)

def expandArgsCached (cache : RspCache D) (args : List Text) (cwd : Path) :
    List Text × RspCache D :=
  if args.any fun arg => (fileArg arg).isSome then
    expandEachCached decode hash here F cwd cache args
  else (args, cache)

/-- The files and the daemon's cache. -/
structure State (B D : Type) where
  files : FileMap B
  cache : RspCache D

/-- The files change in any way, a request is expanded, or old entries are dropped. -/
inductive Event (B : Type) where
  | edit (files : FileMap B)
  | expand (args : List Text) (cwd : Path)
  | trim (keep : NormalizedPath → Bool)

def State.step (s : State B D) : Event B → State B D
  | .edit files => { s with files := files }
  | .expand args cwd =>
    { s with cache := (expandArgsCached decode hash here s.files s.cache args cwd).2 }
  | .trim keep => { s with cache := FinMap.filter (fun path _ => keep path) s.cache }

end Zccache.ResponseFile
