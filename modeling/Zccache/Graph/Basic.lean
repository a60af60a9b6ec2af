import Zccache.Base.Map
import Zccache.Base.Traverse
import Zccache.Context.CompileContext

/-! # The dependency graph

Per-context entries with their include lists and the key of their last artifact,
the indexes over them, and the helpers that the graph operations share.
-/

namespace Zccache

open Unix FinMap Traverse Option

variable {D : Type}

inductive IncludeKind where
  | quoted
  | angleBracket
  | quotedNext
  | angleBracketNext
  | computed (macroName : Text)
  deriving DecidableEq

structure IncludeDirective where
  kind : IncludeKind
  path : Text
  line : ℕ
  deriving DecidableEq

structure ScanResult where
  resolved : List NormalizedPath
  unresolved : List Text
  hasComputed : Bool
  deriving DecidableEq

inductive ContextState where
  | cold
  | warm
  | stale
  deriving DecidableEq

structure ContextEntry (D : Type) where
  logicalKey : ContextKey D
  context : CompileContext D
  keyRoot : Option NormalizedPath
  resolvedIncludes : List NormalizedPath
  unresolvedIncludes : List Text
  hasComputedIncludes : Bool
  artifactKey : Option (ArtifactKey D)
  lastFileHashes : List (NormalizedPath × D)
  rustcEnvDeps : List (Name × Option D)
  lastAccessedUnixMs : ℕ
  state : ContextState
  deriving DecidableEq

inductive CacheVerdict (D : Type) where
  | hit (artifactKey : ArtifactKey D)
  | sourceChanged (artifactKey : ArtifactKey D)
  | headersChanged (changed : List NormalizedPath)
  | cold
  | needsPreprocessor
  deriving DecidableEq

abbrev Externs := List (Name × NormalizedPath)

structure DepGraph (D : Type) where
  files : Map NormalizedPath (List IncludeDirective)
  contexts : Map (ContextKey D) (ContextEntry D)
  rustcExterns : Map (ContextKey D) Externs
  rustcCheckMetadataCompat : Map (ContextKey D) (ContextKey D)
  equivalentContexts : Map (ContextKey D) (List (ContextKey D))
  checks : ℕ
  hits : ℕ
  misses : ℕ
  dirty : Bool

/-- Checkout-specific identity of an entry. -/
structure ContextInstanceKey (D : Type) where
  logical : ContextKey D
  concrete : D
  deriving DecidableEq

def ContextInstanceKey.new (H : Hasher D) (logical : ContextKey D) (sourceFile : NormalizedPath)
    (keyRoot : Option NormalizedPath) : ContextInstanceKey D where
  logical := logical
  concrete := H.digest (framed [text "zccache-context-instance-v1"] ++
    raw logical.hash ++ framed [text sourceFile.caseKey] ++
      match keyRoot with
      | some root => text root.caseKey
      | none => text "no-key-root")

def ContextInstanceKey.mapKey (key : ContextInstanceKey D) : ContextKey D :=
  ⟨key.concrete⟩

/-- Moves a path from one root to another; paths outside the old root stay. -/
def rebaseProjectPath (path : NormalizedPath) (oldRoot newRoot : Option NormalizedPath) :
    NormalizedPath :=
  match oldRoot, newRoot with
  | some oldRoot, some newRoot =>
    match path.stripPrefix oldRoot with
    | some relative => newRoot.join relative
    | none => path
  | _, _ => path

section Oracles

variable (getHash : NormalizedPath → Option D) (envValue : Name → Option Text)

def hashFiles (paths : List NormalizedPath) : Option (List (NormalizedPath × D)) :=
  paths.mapM fun p => (getHash p).map (Prod.mk p)

def collectRustcExternHashes (externs : Externs) : Option (List (Name × D)) :=
  externs.mapM fun e => (getHash e.2).map (Prod.mk e.1)

def hashEnvDepValue (H : Hasher D) (value : Option Text) : Option D :=
  value.map H.hashText

def collectRustcEnvHashes (H : Hasher D) (names : List (Name × Option D)) :
    List (Name × Option D) :=
  names.map fun e => (e.1, hashEnvDepValue H (envValue e.1))

theorem hashFiles_cons (p : NormalizedPath) (rest : List NormalizedPath) :
    hashFiles getHash (p :: rest) =
      (getHash p).bind fun h => (hashFiles getHash rest).map ((p, h) :: ·) := by
  rw [hashFiles, List.mapM_cons]
  cases getHash p with
  | none => rfl
  | some h =>
    change (hashFiles getHash rest).bind _ = (hashFiles getHash rest).map _
    cases hashFiles getHash rest <;> rfl

theorem hashFiles_append (paths rest : List NormalizedPath) :
    hashFiles getHash (paths ++ rest) =
      (hashFiles getHash paths).bind fun hashes =>
        (hashFiles getHash rest).map (hashes ++ ·) := by
  induction paths with
  | nil => simp [hashFiles]
  | cons p paths ih =>
    rw [List.cons_append, hashFiles_cons, hashFiles_cons, ih]
    cases getHash p <;> cases hashFiles getHash paths <;> cases hashFiles getHash rest <;> rfl

variable {getHash}

variable {current : NormalizedPath → Option D} {paths : List NormalizedPath}
variable {fileHashes : List (NormalizedPath × D)} {externs : Externs}
variable {externHashes : List (Name × D)}

section

variable (h : hashFiles getHash paths = some fileHashes)

include h

theorem mem_hashFiles {p : NormalizedPath} (hp : p ∈ paths) :
    ∃ d, getHash p = some d ∧ (p, d) ∈ fileHashes := by
  obtain ⟨x, hx, hmap⟩ := mem_mapM h hp
  obtain ⟨d, hd, rfl⟩ := map_eq_some_iff.mp hmap
  exact ⟨d, hd, hx⟩

theorem mem_of_hashFiles {x : NormalizedPath × D} (hx : x ∈ fileHashes) :
    x.1 ∈ paths ∧ getHash x.1 = some x.2 := by
  obtain ⟨p, hp, hmap⟩ := mem_of_mapM h hx
  obtain ⟨d, hd, rfl⟩ := map_eq_some_iff.mp hmap
  exact ⟨hp, hd⟩

theorem hashFiles_mono (hcur : ∀ p ∈ paths, ∀ d, getHash p = some d → current p = some d) :
    hashFiles current paths = some fileHashes := by
  refine mapM_mono h fun p hp x hx => ?_
  obtain ⟨d, hd, rfl⟩ := map_eq_some_iff.mp hx
  rw [hcur p hp d hd, map_some]

end

theorem collectRustcExternHashes_mono
    (h : collectRustcExternHashes getHash externs = some externHashes)
    (hcur : ∀ p ∈ externs.map Prod.snd, ∀ d, getHash p = some d → current p = some d) :
    collectRustcExternHashes current externs = some externHashes := by
  refine mapM_mono h fun dep hdep x hx => ?_
  obtain ⟨d, hd, rfl⟩ := map_eq_some_iff.mp hx
  rw [hcur dep.2 (List.mem_map_of_mem hdep) d hd, map_some]

end Oracles

/-- The files whose hash differs from, or is missing in, the last recorded hashes. -/
def driftedPaths [DecidableEq D] (lastFileHashes current : List (NormalizedPath × D)) :
    List NormalizedPath :=
  if lastFileHashes.isEmpty then []
  else
    -- of two records for one path the later one counts
    let oldHash p := (lastFileHashes.reverse.find? (·.1 = p)).map Prod.snd
    (current.filter fun f => oldHash f.1 ≠ some f.2).map Prod.fst

def fileNameText (p : NormalizedPath) : Text :=
  match p.path.getLast? with
  | some (.normal name) => name.val
  | _ => toText p.path

def formatDriftForLog (drifted : List NormalizedPath) : Text :=
  if drifted.isEmpty then []
  else ", drifted=[" ++ [','].intercalate ((drifted.take 5).map fileNameText) ++ [']']

namespace ContextEntry

/-- The files an artifact key covers: source, resolved includes, force includes. -/
def inputFiles (e : ContextEntry D) : List NormalizedPath :=
  e.context.sourceFile :: (e.resolvedIncludes ++ e.context.forceIncludes)

theorem hashFiles_inputFiles (getHash : NormalizedPath → Option D) (e : ContextEntry D) :
    hashFiles getHash e.inputFiles = (getHash e.context.sourceFile).bind fun h =>
      (hashFiles getHash e.resolvedIncludes).bind fun hashes =>
        (hashFiles getHash e.context.forceIncludes).map fun hashes' =>
          (e.context.sourceFile, h) :: (hashes ++ hashes') := by
  rw [inputFiles, hashFiles_cons, hashFiles_append]
  cases getHash e.context.sourceFile <;> cases hashFiles getHash e.resolvedIncludes <;>
    cases hashFiles getHash e.context.forceIncludes <;> rfl

def keyRootPath (e : ContextEntry D) : Option Path :=
  e.keyRoot.map NormalizedPath.path

end ContextEntry

namespace DepGraph

variable [DecidableEq D]

def new : DepGraph D where
  files := ∅
  contexts := ∅
  rustcExterns := ∅
  rustcCheckMetadataCompat := ∅
  equivalentContexts := ∅
  checks := 0
  hits := 0
  misses := 0
  dirty := false

/-- A key that names an instance stands for itself; a logical key stands for its instance
when there is exactly one. -/
def resolveInstanceKey (g : DepGraph D) (key : ContextKey D) : Option (ContextKey D) :=
  if (g.contexts.lookup key).isSome then some key
  else
    match g.equivalentContexts.lookup key with
    | some [instanceKey] => some instanceKey
    | _ => none

def entryFor (g : DepGraph D) (key : ContextKey D) : Option (ContextEntry D) :=
  (g.resolveInstanceKey key).bind g.contexts.lookup

/-- Only the files, the contexts and the counters may differ. -/
structure SameIndexes (g g' : DepGraph D) : Prop where
  externs : g'.rustcExterns = g.rustcExterns
  index : g'.equivalentContexts = g.equivalentContexts
  compat : g'.rustcCheckMetadataCompat = g.rustcCheckMetadataCompat

theorem resolveInstanceKey_congr {g g' : DepGraph D}
    (hlive : ∀ k, (g'.contexts.lookup k).isSome = (g.contexts.lookup k).isSome)
    (hidx : g'.equivalentContexts = g.equivalentContexts) (key : ContextKey D) :
    g'.resolveInstanceKey key = g.resolveInstanceKey key := by
  simp only [resolveInstanceKey, hlive, hidx]

theorem resolveInstanceKey_insert {g g' : DepGraph D} {instanceKey : ContextKey D}
    {e : ContextEntry D} (hctxs : g'.contexts = g.contexts.insert instanceKey e)
    (hidx : g'.equivalentContexts = g.equivalentContexts)
    (hlive : (g.contexts.lookup instanceKey).isSome) (key : ContextKey D) :
    g'.resolveInstanceKey key = g.resolveInstanceKey key := by
  refine resolveInstanceKey_congr (fun k => ?_) hidx key
  rw [hctxs, lookup_insert_eq_ite]
  split
  · next h => rw [h, hlive, isSome_some]
  · rfl

end DepGraph

end Zccache
