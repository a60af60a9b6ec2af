import Zccache.Graph.Index

/-! # Saving and restoring the graph

A snapshot lists the files and contexts of a graph as plain texts and digests.
Restoring rebuilds the maps, in whatever order the contexts come.
-/

namespace Zccache

open Unix FinMap NormalizedPath

variable {D : Type}

structure IncludeDirectiveSnapshot where
  kind : ℕ
  path : Text
  line : ℕ
  deriving DecidableEq

structure FileEntrySnapshot where
  path : Text
  includes : List IncludeDirectiveSnapshot
  deriving DecidableEq

structure ContextEntrySnapshot (D : Type) where
  contextKey : D
  logicalContextKey : D
  keyRoot : Option Text
  sourceFile : Text
  iquote : List Text
  user : List Text
  system : List Text
  after : List Text
  defines : List Text
  undefines : List Text
  flags : List Text
  forceIncludes : List Text
  unknownFlags : List Text
  resolvedIncludes : List Text
  unresolvedIncludes : List Text
  hasComputedIncludes : Bool
  artifactKey : Option D
  lastFileHashes : List (Text × D)
  rustcExterns : List (Name × Text)
  rustcEnvDeps : List (Name × Option D)
  state : ℕ
  lastAccessedUnixMs : ℕ
  deriving DecidableEq

structure DepGraphSnapshot (D : Type) where
  files : List FileEntrySnapshot
  contexts : List (ContextEntrySnapshot D)
  savedAtEpochSecs : ℕ
  fileCount : ℕ
  contextCount : ℕ

def pathsToStrings (paths : List NormalizedPath) : List Text :=
  paths.map fun p => toText p.path

def stringsToPaths (texts : List Text) : List NormalizedPath :=
  texts.map new

def IncludeDirective.toSnapshot (d : IncludeDirective) : IncludeDirectiveSnapshot where
  kind :=
    match d.kind with
    | .quoted => 0
    | .angleBracket => 1
    | .computed _ => 2
    | .quotedNext => 3
    | .angleBracketNext => 4
  path := d.path
  line := d.line

def IncludeDirectiveSnapshot.restore (d : IncludeDirectiveSnapshot) : IncludeDirective where
  kind :=
    match d.kind with
    | 0 => .quoted
    | 1 => .angleBracket
    | 3 => .quotedNext
    | 4 => .angleBracketNext
    | _ => .computed d.path
  path := d.path
  line := d.line

def ContextState.code : ContextState → ℕ
  | .cold => 0
  | .warm => 1
  | .stale => 2

def ContextState.ofCode : ℕ → ContextState
  | 0 => .cold
  | 1 => .warm
  | _ => .stale

def ContextEntry.toSnapshot (key : ContextKey D) (e : ContextEntry D) (externs : Externs) :
    ContextEntrySnapshot D where
  contextKey := key.hash
  logicalContextKey := e.logicalKey.hash
  keyRoot := e.keyRoot.map fun p => toText p.path
  sourceFile := toText e.context.sourceFile.path
  iquote := pathsToStrings e.context.includeSearch.iquote
  user := pathsToStrings e.context.includeSearch.user
  system := pathsToStrings e.context.includeSearch.system
  after := pathsToStrings e.context.includeSearch.after
  defines := e.context.defines
  undefines := e.context.undefines
  flags := e.context.flags
  forceIncludes := pathsToStrings e.context.forceIncludes
  unknownFlags := e.context.unknownFlags
  resolvedIncludes := pathsToStrings e.resolvedIncludes
  unresolvedIncludes := e.unresolvedIncludes
  hasComputedIncludes := e.hasComputedIncludes
  artifactKey := e.artifactKey.map ArtifactKey.hash
  lastFileHashes := e.lastFileHashes.map fun f => (toText f.1.path, f.2)
  rustcExterns := externs.map fun x => (x.1, toText x.2.path)
  rustcEnvDeps := e.rustcEnvDeps
  state := e.state.code
  lastAccessedUnixMs := e.lastAccessedUnixMs

namespace ContextEntrySnapshot

variable (c : ContextEntrySnapshot D)

def key : ContextKey D := ⟨c.contextKey⟩

def logicalKey : ContextKey D := ⟨c.logicalContextKey⟩

def externs : Externs :=
  c.rustcExterns.map fun x => (x.1, new x.2)

/-- The compiler hash is not saved; `zeroHash` stands in for it. -/
def restore (zeroHash : D) (c : ContextEntrySnapshot D) : ContextEntry D where
  logicalKey := c.logicalKey
  context :=
    { sourceFile := .new c.sourceFile
      includeSearch := ⟨stringsToPaths c.iquote, stringsToPaths c.user, stringsToPaths c.system,
        stringsToPaths c.after⟩
      defines := c.defines
      undefines := c.undefines
      flags := c.flags
      forceIncludes := stringsToPaths c.forceIncludes
      unknownFlags := c.unknownFlags
      compilerHash := zeroHash }
  keyRoot := c.keyRoot.map new
  resolvedIncludes := stringsToPaths c.resolvedIncludes
  unresolvedIncludes := c.unresolvedIncludes
  hasComputedIncludes := c.hasComputedIncludes
  artifactKey := c.artifactKey.map ArtifactKey.mk
  lastFileHashes := c.lastFileHashes.map fun f => (new f.1, f.2)
  rustcEnvDeps := c.rustcEnvDeps
  lastAccessedUnixMs := c.lastAccessedUnixMs
  state := .ofCode c.state

end ContextEntrySnapshot

namespace DepGraph

variable [DecidableEq D]

def toSnapshotAt (g : DepGraph D) (nowUnixMs : ℕ) : DepGraphSnapshot D where
  files := g.files.entries.map fun s => ⟨toText s.1.path, s.2.map IncludeDirective.toSnapshot⟩
  contexts := g.contexts.entries.map fun s =>
    s.2.toSnapshot s.1 ((g.getRustcExterns s.1).getD [])
  savedAtEpochSecs := nowUnixMs / 1000
  fileCount := g.files.entries.length
  contextCount := g.contexts.entries.length

def restoreContext (zeroHash : D) (g : DepGraph D) (c : ContextEntrySnapshot D) : DepGraph D :=
  { g with
    contexts := g.contexts.insert c.key (c.restore zeroHash)
    equivalentContexts := g.equivalentContexts.insert c.logicalKey
      ((g.equivalentContexts.lookup c.logicalKey).getD [] ++ [c.key])
    rustcExterns :=
      if c.externs.isEmpty then g.rustcExterns else g.rustcExterns.insert c.key c.externs }

def fromSnapshot (zeroHash : D) (snap : DepGraphSnapshot D) : DepGraph D :=
  snap.contexts.foldl (restoreContext zeroHash)
    { DepGraph.new with
      files := snap.files.foldl
        (fun files f =>
          files.insert (.new f.path) (f.includes.map IncludeDirectiveSnapshot.restore)) ∅ }

end DepGraph

end Zccache
