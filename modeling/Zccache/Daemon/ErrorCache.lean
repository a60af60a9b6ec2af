import Zccache.Daemon.DepInfo
import Zccache.Fscache.Oracle
import Zccache.Graph.History

/-! # Cached errors of rustc

A failed run of rustc is stored as a verdict beside the outputs of its artifact
key. The daemon is followed through failed and successful runs of one unit,
edits of files, changes of the client's environment and lookups.
-/

namespace Zccache

open Unix FinMap

variable {D : Type}

/-- A crate that is compiled again and again. -/
structure RustcUnit (D : Type) where
  key : ContextKey D
  source : NormalizedPath
  forceIncludes : List NormalizedPath
  cwd : Path
  emitTypes : List Text

/-- What a run saw of its source, of every file in its dep-info and of every variable in it. -/
structure RunRecord (D : Type) where
  files : List (NormalizedPath × Option D)
  env : List (Text × Option Text)

structure ArtifactVerdict (D : Type) where
  exitCode : ℤ
  run : RunRecord D

structure ArtifactIndex (D : Type) where
  outputNames : List Text
  rustcVerdicts : Map Text (ArtifactVerdict D)

/-- The current result wins; one without outputs keeps those that are there. -/
def mergeRustcIndex (preferred fallback : ArtifactIndex D) : ArtifactIndex D :=
  if preferred.outputNames = [] ∧ fallback.outputNames ≠ [] then
    { fallback with rustcVerdicts := preferred.rustcVerdicts ∪ fallback.rustcVerdicts }
  else { preferred with rustcVerdicts := preferred.rustcVerdicts ∪ fallback.rustcVerdicts }

/-- The key of a verdict. Dylint has verdicts of its own. -/
def computeRustcVerdictKey (H : Hasher D) (artifactKeyHex : Text) (dylintInputHash : Option Text) :
    ArtifactKey D :=
  ⟨H.digest (framed [text "zccache-rustc-verdict-key-v1", text artifactKeyHex,
      text "mode"] ++
    match dylintInputHash with
    | some hash => framed [text "dylint"] ++ text hash
    | none => text "plain")⟩

structure ErrorWorld (D : Type) where
  disk : NormalizedPath → Option D
  /-- The digests that the metadata cache remembers. -/
  known : Remembered D
  /-- The file at the place where the unit's dep-info goes. -/
  depinfo : Option Text
  env : Text → Option Text
  graph : DepGraph D
  artifacts : Map Text (ArtifactIndex D)

/-- How a run of rustc ended. -/
structure FailedRun where
  exitCode : ℤ
  stderr : Text
  /-- There is a file at the usual place of the dep-info. -/
  depinfoExists : Bool
  /-- The dep-info that this run wrote. -/
  depinfo : Option Text
  /-- The outputs went to a place of their own, as they do by default, and are removed. -/
  staged : Bool
  dylintInputHash : Option Text
  now : ℕ

structure SuccessfulRun where
  depinfo : Option Text
  outputNames : List Text
  /-- The variables as they go into the key, with their values. -/
  envDepNames : List Name
  keyValue : Name → Option Text
  dylintInputHash : Option Text
  now : ℕ

structure Lookup where
  isFresh : NormalizedPath → Bool
  keyValue : Name → Option Text
  dylintInputHash : Option Text
  now : ℕ

inductive ErrorEvent (D : Type) where
  | edit (path : NormalizedPath) (content : Option D) (sameStat : Bool)
  /-- Another request of the daemon leaves a digest in the metadata cache, or it goes. -/
  | remember (path : NormalizedPath) (digest : Option D)
  /-- A hit is delivered, or someone else writes or removes the dep-info. -/
  | setDepinfo (content : Option Text)
  | setEnv (env : Text → Option Text)
  | failed (run : FailedRun)
  | succeeded (run : SuccessfulRun)
  | lookup (lookup : Lookup)

def reportsOperatingSystemFailure (stderr : Text) : Bool :=
  "(os error " <:+: stderr

namespace ErrorWorld

variable [DecidableEq D] (H : Host D) (u : RustcUnit D) (w : ErrorWorld D)

variable (run : FailedRun) (artifactKey : ArtifactKey D) (depinfo : Option Text)
variable (p : NormalizedPath)

def fileExists : Bool :=
  (w.disk p).isSome

def hashFile : Option D :=
  w.known.hashFile p (w.disk p)

def scanRustcDeps : RustcDepScan :=
  if "dep-info".toList ∈ u.emitTypes then
    (depinfo.map fun content => parseRustcDepinfo content u.source u.cwd w.fileExists).getD .empty
  else .empty

def recordRun : RunRecord D where
  files := (u.source :: (depinfo.map (depinfoFiles · u.cwd)).getD []).map fun p => (p, w.disk p)
  env := ((depinfo.map depinfoEnvNames).getD []).map fun name => (name, w.env name)

def shouldCacheRustcError : Bool :=
  !run.stderr.isEmpty && 0 < run.exitCode && !reportsOperatingSystemFailure run.stderr &&
    ("dep-info".toList ∈ u.emitTypes && run.depinfoExists) && "link".toList ∉ u.emitTypes

def commitRustcVerdict (outputNames : List Text)
    (dylintInputHash : Option Text) (verdict : ArtifactVerdict D) : Map Text (ArtifactIndex D) :=
  let artifactKeyHex := H.toHex artifactKey.hash
  let verdictKey := computeRustcVerdictKey H.toHasher artifactKeyHex dylintInputHash
  let incoming : ArtifactIndex D :=
    ⟨outputNames, AList.singleton (H.toHex verdictKey.hash) verdict⟩
  w.artifacts.insert artifactKeyHex
    (((w.artifacts.lookup artifactKeyHex).map (mergeRustcIndex incoming)).getD incoming)

/-- The files that are hashed for a failed run. The externs are not among them. -/
def trackedPaths : List NormalizedPath :=
  u.source :: ((w.scanRustcDeps u w.depinfo).scan.resolved ++ u.forceIncludes)

def trackedHash : Option D :=
  if p ∈ w.trackedPaths u then w.hashFile p else none

/-- The dep-info is read from its place, whoever wrote it. Its variables are left aside. -/
def maybeStoreRustcErrorArtifact : ErrorWorld D :=
  if shouldCacheRustcError u run && (w.trackedPaths u).all w.fileExists then
    let result := w.graph.updateWithEnv H (w.trackedHash u) (fun _ => none) u.key
      (w.scanRustcDeps u w.depinfo).scan [] run.now
    { w with
      graph := result.1
      artifacts := (result.2.map fun artifactKey =>
        w.commitRustcVerdict H artifactKey [] run.dylintInputHash
          ⟨run.exitCode, w.recordRun u run.depinfo⟩).getD w.artifacts }
  else w

def storeSuccessfulCompile (run : SuccessfulRun) : ErrorWorld D :=
  let result := w.graph.updateWithEnv H w.hashFile run.keyValue u.key
    (w.scanRustcDeps u run.depinfo).scan run.envDepNames run.now
  { w with
    graph := result.1
    artifacts := (result.2.map fun artifactKey =>
      w.commitRustcVerdict H artifactKey run.outputNames run.dylintInputHash
        ⟨0, w.recordRun u run.depinfo⟩).getD w.artifacts }

/-- The graph's verdict on the unit: first by the stored key alone, then in full. -/
def hashAndVerify (l : Lookup) : DepGraph D × Option (ArtifactKey D) :=
  match w.graph.tryFastHitWithEnv H w.hashFile l.keyValue u.key with
  | (graph, some artifactKey) => (graph, some artifactKey)
  | (graph, none) =>
    match graph.checkDiagnosticWithEnv H l.isFresh w.hashFile l.keyValue u.key l.now with
    | (graph, .hit artifactKey, _) => (graph, some artifactKey)
    | (graph, .sourceChanged artifactKey, _) => (graph, some artifactKey)
    | (graph, _, _) => (graph, none)

def cachedVerdict (dylintInputHash : Option Text) :
    Option (ArtifactVerdict D) :=
  (w.artifacts.lookup (H.toHex artifactKey.hash)).bind fun index =>
    index.rustcVerdicts.lookup (H.toHex (computeRustcVerdictKey H.toHasher
      (H.toHex artifactKey.hash) dylintInputHash).hash)

def answer (l : Lookup) : Option (ArtifactVerdict D) :=
  (w.hashAndVerify H u l).2.bind fun artifactKey =>
    w.cachedVerdict H artifactKey l.dylintInputHash

/-- What a failed run leaves at the place of the dep-info. -/
def leftDepinfo : Option Text :=
  if run.staged then w.depinfo else run.depinfo.or w.depinfo

def step : ErrorEvent D → ErrorWorld D
  | .edit path content sameStat =>
    { w with
      disk := Function.update w.disk path content
      known := w.known.edited path sameStat }
  | .remember path digest => { w with known := w.known.updated path digest }
  | .setDepinfo content => { w with depinfo := content }
  | .setEnv env => { w with env := env }
  | .failed run => { w with depinfo := w.leftDepinfo run }.maybeStoreRustcErrorArtifact H u run
  | .succeeded run => { w with depinfo := run.depinfo.or w.depinfo }.storeSuccessfulCompile H u run
  | .lookup l => { w with graph := (w.hashAndVerify H u l).1 }

end ErrorWorld

end Zccache
