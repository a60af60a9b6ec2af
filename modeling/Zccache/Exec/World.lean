import Zccache.Base.Map
import Zccache.Base.Run
import Zccache.Exec.Depfile
import Zccache.Exec.Key
import Zccache.Fscache.Oracle

/-! # Generic tool runs

A request names a tool and its inputs. Its key is computed from the files when
it comes in; it is answered from the cache at once or after a run with the same
key, or the tool is run. A request that declares a depfile has the listed files
stored in a sidecar under the primary key, and the sidecar completes the key of
the next request.
-/

namespace Zccache.Exec

open Unix StableSort FinMap
open Lines (trim)

variable {D : Type}

abbrev Contents := Map NormalizedPath Text

/-- The files, and the digests that the metadata cache holds for them. -/
structure Files (D : Type) where
  contents : Contents
  known : Remembered D

inductive CachePolicy where
  | normal
  | bypass
  | readOnly
  deriving DecidableEq

structure Request (D : Type) where
  tool : Path
  toolHash : Option D
  args : List Text
  keyArgsFilter : List Text
  cwd : Path
  env : List (Text × Text)
  inputFiles : List NormalizedPath
  includeScanFiles : List NormalizedPath
  includeDirs : List NormalizedPath
  systemIncludeDirs : List NormalizedPath
  iquoteDirs : List NormalizedPath
  outputFiles : List NormalizedPath
  inputExtra : Text
  cwdInKey : Bool
  depfile : Option Path
  policy : CachePolicy
  nonDeterministic : Bool

/-- The hash functions, the compilation of a regular expression and the include scanner. -/
structure Services (D : Type) extends Hasher D where
  regex : Text → Option (Text → Bool)
  includeScan : Request D → Files D → Option (List (Text × D))

/-- A run's result. The history keeps the files that its depfile listed, with the digests of the
contents they had when the depfile was read. -/
structure Artifact (D : Type) where
  exitCode : ℤ
  output : Text
  harvest : Option (List (NormalizedPath × D))

/-- A request under way, with what its key was computed from. -/
structure Pending (D : Type) where
  request : Request D
  material : ExecKeyMaterial D
  deps : Option (List (Text × D))

/-- The files, the sidecars and artifacts under their keys, and the requests under way. -/
structure State (D : Type) where
  files : Files D
  sidecars : Map D Text
  artifacts : Map D (Artifact D)
  pending : Map ℕ (Pending D)

def State.start (contents : Contents) : State D :=
  ⟨⟨contents, ∅⟩, ∅, ∅, ∅⟩

section Keys

/-- Backslashes become slashes, whatever the platform. -/
def normalizeForKey (path : Text) : Text :=
  path.map fun c => if c = '\\' then '/' else c

def absolutize (p cwd : Path) : Text :=
  toText (join cwd p)

variable (S : Services D)

def currentHash (contents : Contents) (path : NormalizedPath) : Option D :=
  (contents.lookup path).map S.hashText

def hashFileViaCache (files : Files D) (path : Text) : Option D :=
  files.known.hashFile (.new path) (currentHash S files.contents (.new path))

def hashPair (files : Files D) (path : Text) : Option (Text × D) :=
  (hashFileViaCache S files path).map fun hash => (normalizeForKey path, hash)

def applyKeyArgsFilter (args patterns : List Text) : Option (List Text) :=
  (patterns.mapM S.regex).map fun regexes => args.filter fun arg => !regexes.any fun r => r arg

namespace Request

variable (r : Request D)

def inputPaths : List Text :=
  r.inputFiles.map fun input => absolutize input.path r.cwd

def keyMaterial (files : Files D) : Option (ExecKeyMaterial D) := do
  let keyArgs ← applyKeyArgsFilter S r.args r.keyArgsFilter
  let toolId ← r.toolHash.or (hashFileViaCache S files (toText r.tool))
  let inputPairs ← r.inputPaths.mapM (hashPair S files)
  let scanPairs ← S.includeScan r files
  some
    { toolId := toolId
      args := keyArgs
      env := r.env
      cwd := if r.cwdInKey then some (normalizeForKey (toText r.cwd)) else none
      inputPairs := sortBy Prod.fst inputPairs
      scanPairs := scanPairs
      outputNames := r.outputFiles.map NormalizedPath.caseKey
      inputExtra := r.inputExtra }

def bypass : Bool :=
  r.nonDeterministic || r.policy = .bypass

def lookupAllowed : Bool :=
  !r.bypass && (r.policy = .normal || r.policy = .readOnly)

def storeAllowed : Bool :=
  !r.bypass && r.policy = .normal

end Request

def sidecarPaths (content : Text) : List Text :=
  ((content.splitOn '\n').map trim).filter fun line => !line.isEmpty

def persistDepfileSidecar (depPairs : List (Text × D)) : Text :=
  depPairs.flatMap fun pair => pair.1 ++ ['\n']

variable [DecidableEq D] (s : State D)

/-- The stored files with their digests now. A file that is gone makes the sidecar useless. -/
def loadDepfileSidecar (primary : D) : Option (List (Text × D)) :=
  (s.sidecars.lookup primary).bind fun content =>
    ((sidecarPaths content).mapM (hashPair S s.files)).map (sortBy Prod.fst)

def beginRequest (r : Request D) : Option (Pending D) :=
  (r.keyMaterial S s.files).map fun material =>
    { request := r
      material := material
      deps :=
        if r.depfile.isSome then
          loadDepfileSidecar S s (composePrimaryKey S.toHasher material)
        else none }

end Keys

variable (S : Services D)

namespace Pending

variable (p : Pending D)

def primaryKey : D :=
  composePrimaryKey S.toHasher p.material

/-- The key of the lookup. It is the primary key if the sidecar is of no use. -/
def fullKey : D :=
  match p.deps with
  | some deps => composeFullKey S.toHasher (p.primaryKey S) deps
  | none => p.primaryKey S

variable [DecidableEq D]

def answer (s : State D) : Option (Artifact D) :=
  if p.request.lookupAllowed then s.artifacts.lookup (p.fullKey S) else none

end Pending

/-- How a run of the tool ended. Large or incomplete outputs are not stored. -/
structure ToolResult where
  exitCode : ℤ
  output : Text
  storable : Bool

/-- The files that the depfile of a request lists, with their digests. -/
def listedFiles (files : Files D) (r : Request D) (depfile : Path) :
    Option (List (NormalizedPath × D)) := do
  let content ← files.contents.lookup (.new (absolutize depfile r.cwd))
  let deps ← parseDepfile content (.ofPath r.cwd) r.cwd
  deps.mapM fun dep => (hashFileViaCache S files dep.caseKey).map fun hash => (dep, hash)

def withContents (contents : Contents) (listed : List (NormalizedPath × D)) :
    Option (List (NormalizedPath × D)) :=
  listed.mapM fun file => (currentHash S contents file.1).map fun hash => (file.1, hash)

variable [DecidableEq D]

def harvestPairs (listed : List (NormalizedPath × D)) (inputPairs : List (Text × D)) :
    List (Text × D) :=
  sortBy Prod.fst
    ((listed.map fun file => (normalizeForKey file.1.caseKey, file.2)).filter fun pair =>
      pair.1 ∉ inputPairs.map Prod.fst)

namespace State

variable (s : State D)

def storeExecArtifact (p : Pending D) (result : ToolResult) (key : D)
    (harvest : Option (List (NormalizedPath × D))) : State D :=
  if p.request.storeAllowed && result.storable then
    { s with artifacts := s.artifacts.insert key ⟨result.exitCode, result.output, harvest⟩ }
  else s

/-- The end of a run. With a depfile, a failed run and a depfile that cannot be read are not
stored; the sidecar is written even if the artifact is not. -/
def finishRun (p : Pending D) (result : ToolResult) : State D :=
  match p.request.depfile with
  | none => s.storeExecArtifact p result (p.fullKey S) none
  | some depfile =>
    if result.exitCode ≠ 0 then s
    else
      match listedFiles S s.files p.request depfile with
      | none => s
      | some listed =>
        let pairs := harvestPairs listed p.material.inputPairs
        { s with
          sidecars := s.sidecars.insert (p.primaryKey S) (persistDepfileSidecar pairs) }
          |>.storeExecArtifact p result (composeFullKey S.toHasher (p.primaryKey S) pairs)
            (withContents S s.files.contents listed)

end State

/-- An edit of a file, also by a tool that runs, an update of the metadata cache by this or another
lookup, or a step of a request. -/
inductive Event (D : Type) where
  | edit (path : NormalizedPath) (content : Option Text) (sameStat : Bool)
  | remember (path : NormalizedPath) (digest : Option D)
  | begin (id : ℕ) (request : Request D)
  | answer (id : ℕ)
  | finish (id : ℕ) (result : ToolResult)

def edited (contents : Contents) (path : NormalizedPath) : Option Text → Contents
  | some content => contents.insert path content
  | none => contents.erase path

def step (s : State D) : Event D → State D
  | .edit path content sameStat =>
    { s with files := ⟨edited s.files.contents path content, s.files.known.edited path sameStat⟩ }
  | .remember path digest =>
    { s with files := { s.files with known := s.files.known.updated path digest } }
  | .begin id request =>
    match beginRequest S s request with
    | none => s
    | some p => { s with pending := s.pending.insert id p }
  | .answer id =>
    match s.pending.lookup id with
    | none => s
    | some p => if (p.answer S s).isSome then { s with pending := s.pending.erase id } else s
  | .finish id result =>
    match s.pending.lookup id with
    | none => s
    | some p => { s.finishRun S p result with pending := s.pending.erase id }

end Zccache.Exec
