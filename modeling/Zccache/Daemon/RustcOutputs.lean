import Zccache.Request.ResponseCache
import Zccache.Request.RustcOutputs

/-! # The outputs that the daemon expects and collects

Before a run of rustc the daemon lists the outputs that it expects, and after the
run it collects those that it finds. Both start at the announced output and go
through the emitted kinds and their paths.
-/

namespace Zccache

open Unix
open Lines (trim)

/-- The parsed arguments with the options that say where the outputs go. -/
structure RustcOutputArgs extends RustcParsedArgs where
  explicitEmitPaths : List (Text × NormalizedPath)
  outDir : Option NormalizedPath
  linker : Option NormalizedPath

section Args

variable (cwd : Path)

/-- A path of its own for a kind, unless it is empty or the standard output. -/
def explicitEmitPath : Text × Option Text → Option (Text × NormalizedPath)
  | (kind, some path) =>
    if path ≠ "-" ∧ path ≠ [] then some (kind, resolvePath cwd path) else none
  | (_, none) => none

def RustcOutputArgs.ofActions (actions : List RustcAction) : RustcOutputArgs where
  toRustcParsedArgs := .ofActions cwd actions
  explicitEmitPaths := (actions.flatMap RustcAction.emitPartsOf).filterMap (explicitEmitPath cwd)
  outDir := (actions.filterMap (RustcAction.unkeyedOf "--out-dir")).getLast?.map (resolvePath cwd)
  linker :=
    (lastCodegenValue "linker" (actions.filterMap RustcAction.codegenOf)).map (resolvePath cwd)

namespace RustcOutputArgs

variable (p : RustcOutputArgs)

def effectiveCodegenValue (key : String) : Option Text :=
  lastCodegenValue key p.codegenFlags

def effectiveCrateName : Text :=
  p.crateName.getD ((fileStem p.sourceFile.path).getD "unknown")

def stem : Text :=
  p.effectiveCrateName ++ p.extraFilename.getD []

def inOutputDir (filename : Text) : NormalizedPath :=
  .ofPath (join ((p.outDir.map (·.path)).getD cwd) (components filename))

end RustcOutputArgs

end Args

section Sidecars

variable (host : RustcHost) (cwd : Path) (p : RustcOutputArgs) (primary : NormalizedPath)

def withExtension (path : Path) (ext : Text) : Path :=
  match fileName path with
  | none => path
  | some name =>
    join path.dropLast (components ((splitAtLastDot name).1 ++ '.' :: ext))

def envValue (env : Env) (name : String) : Option Text :=
  (env.find? fun e => e.1.val = name.toList).map fun e => e.2.val

/-- The copy that dylint's linker makes of a library, named after the toolchain. -/
def dylintLibrarySidecarOutputPath (clientEnv : Option Env) : Option NormalizedPath := do
  guard (p.crateTypes = ["cdylib".toList])
  let stem ← p.linker.bind fun linker => fileStem linker.path
  guard (eqIgnoreAsciiCase stem "dylint-link")
  let env ← clientEnv
  let package ← envValue env "CARGO_PKG_NAME"
  let crateName ← p.crateName
  guard (package.map (fun c => if c = '-' then '_' else c) = crateName)
  let toolchain ← (envValue env "RUSTUP_TOOLCHAIN").map trim
  guard (!toolchain.isEmpty)
  let dir ← ResponseFile.parent (NormalizedPath.ofPath (join cwd primary.path)).path
  let dir ← if fileName dir = some "deps".toList then ResponseFile.parent dir else some dir
  some (.ofPath (join dir
    (components (hostLibraryFilename (crateName ++ '@' :: toolchain) host))))

def msvcTargetWritesPdb : Bool :=
  match p.target with
  | some triple => "-pc-windows-msvc".toList.isSuffixOf triple
  | none => host = .windows

def primaryHasExtension (extensions : List String) : Bool :=
  (extension primary.path).any fun ext =>
    (texts extensions).any (eqIgnoreAsciiCase ext ·)

def msvcPdbSidecarOutputPath : Option NormalizedPath :=
  if primaryHasExtension primary ["exe", "dll"] then
    some (.ofPath (withExtension primary.path "pdb"))
  else none

/-- The import library of a dynamic library and its export file. -/
def msvcDllImplibSidecarOutputPaths : List NormalizedPath :=
  if p.crateTypes = ["cdylib".toList] && primaryHasExtension primary ["dll"] &&
      msvcTargetWritesPdb host p then
    let implib := NormalizedPath.new (toText primary.path ++ ".lib")
    [implib, .ofPath (withExtension implib.path "exp")]
  else []

def linuxPackedDwarfSidecarOutputPath : Option NormalizedPath :=
  let isLinux :=
    match p.target with
    | some triple => (triple.splitOn '-').contains "linux"
    | none => host = .linux
  let linksImage := p.crateTypes.any fun kind =>
    kind ∈ texts ["bin", "dylib", "cdylib", "proc-macro"]
  let emitsLink := p.emitTypes.isEmpty || p.emitTypes.contains "link"
  let packed := p.effectiveCodegenValue "split-debuginfo" = some "packed".toList
  let debuginfoEnabled := (p.effectiveCodegenValue "debuginfo").any fun value =>
    value ∉ texts ["0", "none"]
  if isLinux && linksImage && emitsLink && packed && debuginfoEnabled then
    some (.new (toText primary.path ++ ".dwp"))
  else none

end Sidecars

section Expected

variable (host : RustcHost) (cwd : Path) (p : RustcOutputArgs) (primary : NormalizedPath)

def pushUniqueOutputPath (paths : List NormalizedPath) (path : NormalizedPath) :
    List NormalizedPath :=
  if path ∈ paths then paths else paths ++ [path]

def kindExtensions : List (Text × Text) :=
  [("metadata", "rmeta"), ("dep-info", "d"),
    ("obj", "o"), ("asm", "s"), ("llvm-ir", "ll"),
    ("llvm-bc", "bc"), ("bitcode", "bc"), ("mir", "mir")]

/-- The file of an emitted kind. The kind `link` has the announced output. -/
def expectedFilename (kind stem : Text) : Option Text :=
  (kindExtensions.lookup kind).map fun ext =>
    (if kind = "metadata".toList then "lib".toList else []) ++ stem ++ '.' :: ext

def expectedPath (kind : Text) : Option NormalizedPath :=
  (expectedFilename kind p.stem).map (p.inOutputDir cwd)

def isOutputOf (kind : Text) (path : NormalizedPath) : Bool :=
  if kind = "link" then
    (extension path.path).all fun ext => ext ∈ texts ["rlib", "a", "exe"]
  else (kindExtensions.lookup kind).any fun ext => extension path.path = some ext

def placeExplicit (paths : List NormalizedPath) (entry : Text × NormalizedPath) :
    List NormalizedPath :=
  match paths.findIdx? (isOutputOf entry.1) with
  | some i => paths.set i entry.2
  | none => pushUniqueOutputPath paths entry.2

def sidecarPaths (clientEnv : Option Env) : List NormalizedPath :=
  (dylintLibrarySidecarOutputPath host cwd p primary clientEnv).toList ++
    (if msvcTargetWritesPdb host p then (msvcPdbSidecarOutputPath primary).toList else []) ++
    (linuxPackedDwarfSidecarOutputPath host p primary).toList

def rustcExpectedOutputPaths (clientEnv : Option Env) : List NormalizedPath :=
  let explicitLink := (p.explicitEmitPaths.find? (·.1 = "link".toList)).map (·.2)
  let byKind := p.emitTypes.filter fun kind => !p.explicitEmitPaths.any (·.1 = kind)
  let paths := (byKind.filterMap (expectedPath cwd p)).foldl pushUniqueOutputPath
    [explicitLink.getD primary]
  let paths := p.explicitEmitPaths.foldl placeExplicit paths
  (sidecarPaths host cwd p primary clientEnv).foldl pushUniqueOutputPath paths

end Expected

structure EntryMetadata where
  isFile : Bool
  len : ℕ

structure RustcOutputFile where
  name : Text
  path : NormalizedPath
  size : ℕ

variable (fs : NormalizedPath → Option EntryMetadata) (host : RustcHost) (cwd : Path)
  (p : RustcOutputArgs) (primary : NormalizedPath)

/-- A file is added unless one with its name is there. -/
def addOutputFile (outputs : List RustcOutputFile) (path : NormalizedPath) :
    List RustcOutputFile :=
  let name := (fileName path.path).getD []
  if outputs.any (·.name = name) then outputs
  else
    match fs path with
    | some entry => if entry.isFile then outputs ++ [⟨name, path, entry.len⟩] else outputs
    | none => outputs

def collectedCandidate (kind : Text) : Option NormalizedPath :=
  let secondary (extension : String) : Option NormalizedPath :=
    some (p.inOutputDir cwd ("lib" ++ p.stem ++ extension.toList))
      |>.filter fun path => path ≠ primary ∧ (fs path).isSome
  if kind = "metadata" then secondary ".rmeta"
  else if kind = "link" then (secondary ".rlib").or (secondary ".a")
  else if kind = "dep-info" then
    some (p.inOutputDir cwd (p.stem ++ ".d")) |>.filter fun path => (fs path).isSome
  else none

/-- The files beside the announced output that are looked for, in their order. -/
def collectedCandidates : List NormalizedPath :=
  p.emitTypes.filterMap (collectedCandidate fs cwd p primary) ++
    (p.explicitEmitPaths.map (·.2)).filter (· ≠ primary) ++
    (msvcPdbSidecarOutputPath primary).toList ++
    (linuxPackedDwarfSidecarOutputPath host p primary).toList ++
    msvcDllImplibSidecarOutputPaths host p primary

/-- Nothing is collected when the announced output is missing. -/
def collectRustcOutputFiles : List RustcOutputFile :=
  match fs primary with
  | none => []
  | some entry =>
    (collectedCandidates fs host cwd p primary).foldl (addOutputFile fs)
      [⟨(fileName primary.path).getD [], primary, entry.len⟩]

end Zccache
