import Mathlib.Data.List.Lex
import Zccache.Base.Sort
import Zccache.Core.Hash
import Zccache.Core.NormalizedPath

/-! # Artifact keys

The key of a compilation output, computed from the context key and the content
hashes of its inputs. The write side and the read side of the graph name their
files by different routes, which agree (`computeArtifactKeyNormalizedWithRoot_eq`).
-/

namespace Zccache

open Unix StableSort

variable {D : Type}

/-- Identifies a source file with its flags. -/
structure ContextKey (D : Type) where
  hash : D
  deriving DecidableEq

instance {D : Type} [DecidableEq D] : LawfulBEq (ContextKey D) :=
  instLawfulBEq

/-- Identifies one compilation output. -/
structure ArtifactKey (D : Type) where
  hash : D
  deriving DecidableEq

/-- The key text of a path, relative to the key root when the path lies under it. -/
def normalizeKeyPath (path : Path) (keyRoot : Option Path) : Text :=
  match keyRoot.bind (stripPrefix path) with
  | some stripped => normalizeForKey stripped
  | none => normalizeForKey path

theorem nul_notMem_normalizeKeyPath (p : Path) (keyRoot : Option Path) :
    nul ∉ normalizeKeyPath p keyRoot := by
  unfold normalizeKeyPath
  split
  all_goals exact nul_notMem_toText _

def fileFields (indexed : List (Text × D)) : List (Field D) :=
  indexed.flatMap fun file => [text file.1, raw file.2]

def artifactFields (contextKey : ContextKey D) (indexed : List (Text × D)) : List (Field D) :=
  text "zccache-artifact-key-v1" :: raw contextKey.hash :: fileFields indexed

def externFields (externs : List (Name × D)) : List (Field D) :=
  externs.flatMap fun e => [text e.1.val, raw e.2]

def rustcArtifactFields (contextKey : ContextKey D) (indexed : List (Text × D))
    (externs : List (Name × D)) : List (Field D) :=
  text "zccache-rustc-artifact-key-v1" :: raw contextKey.hash ::
    (fileFields indexed ++ text "externs" :: externFields externs)

def envFields (envHashes : List (Name × Option D)) : List (Field D) :=
  envHashes.flatMap fun e =>
    [text e.1.val, match e.2 with
      | some h => raw h
      | none => text "unset"]

def envDepsFields (base : ArtifactKey D) (envHashes : List (Name × Option D)) :
    List (Field D) :=
  text "zccache-rustc-env-deps-v1" :: raw base.hash :: envFields envHashes

section Keys

variable (H : Hasher D)

variable (contextKey : ContextKey D) (fileHashes : List (NormalizedPath × D))
variable (keyRoot : Option Path)

def computeArtifactKeyWith (normalize : Path → Option Path → Text) : ArtifactKey D :=
  let indexed := fileHashes.map fun f => (normalize f.1.path keyRoot, f.2)
  ⟨H.digest (framed (artifactFields contextKey (sortBy Prod.fst indexed)))⟩

/-- The write side's key text: the cached key unless the path lies under the root. -/
def pathKeyWithRoot (np : NormalizedPath) (keyRoot : Option Path) : Text :=
  match keyRoot with
  | some root =>
    if Unix.startsWith np.path root then normalizeKeyPath np.path (some root) else np.caseKey
  | none => np.caseKey

def computeArtifactKeyNormalizedWithRoot : ArtifactKey D :=
  let indexed := fileHashes.map fun f => (pathKeyWithRoot f.1 keyRoot, f.2)
  ⟨H.digest (framed (artifactFields contextKey (sortBy Prod.fst indexed)))⟩

def computeRustcArtifactKeyWithRootWith (externHashes : List (Name × D))
    (keyRoot : Option Path) (normalize : Path → Option Path → Text) : ArtifactKey D :=
  let indexed := fileHashes.map fun f => (normalize f.1.path keyRoot, f.2)
  let externs := sortBy (fun e : Name × D => e.1.val) externHashes
  ⟨H.digest (framed (rustcArtifactFields contextKey (sortBy Prod.fst indexed) externs))⟩

/-- `compute_artifact_key_with` over borrowed paths. -/
def computeArtifactKeyOfPaths (fileHashes : List (Path × D))
    (keyRoot : Option Path) (normalize : Path → Option Path → Text) : ArtifactKey D :=
  let indexed := fileHashes.map fun f => (normalize f.1 keyRoot, f.2)
  ⟨H.digest (framed (artifactFields contextKey (sortBy Prod.fst indexed)))⟩

def computeRustcArtifactKeyOfPaths
    (fileHashes : List (Path × D)) (externHashes : List (Name × D)) (keyRoot : Option Path)
    (normalize : Path → Option Path → Text) : ArtifactKey D :=
  let indexed := fileHashes.map fun f => (normalize f.1 keyRoot, f.2)
  let externs := sortBy (fun e : Name × D => e.1.val) externHashes
  ⟨H.digest (framed (rustcArtifactFields contextKey (sortBy Prod.fst indexed) externs))⟩

/-- Folds the environment values into a key, and returns them as the fold sorted them. -/
def foldRustcEnvDepsIntoArtifactKey (base : ArtifactKey D)
    (envHashes : List (Name × Option D)) : ArtifactKey D × List (Name × Option D) :=
  if envHashes.isEmpty then (base, envHashes)
  else
    let sorted := sortBy (fun e : Name × Option D => e.1.val) envHashes
    (⟨H.digest (framed (envDepsFields base sorted))⟩, sorted)

end Keys

theorem pathKeyWithRoot_eq (np : NormalizedPath) (keyRoot : Option Path) :
    pathKeyWithRoot np keyRoot = normalizeKeyPath np.path keyRoot := by
  cases keyRoot with
  | none => rfl
  | some root =>
    rw [pathKeyWithRoot]
    split
    · rfl
    · next h =>
      have hstrip : stripPrefix np.path root = none := by
        simpa [Unix.startsWith] using h
      rw [normalizeKeyPath, Option.bind_some, hstrip]
      rfl

theorem computeArtifactKeyNormalizedWithRoot_eq (H : Hasher D) (contextKey : ContextKey D)
    (fileHashes : List (NormalizedPath × D)) (keyRoot : Option Path) :
    computeArtifactKeyNormalizedWithRoot H contextKey fileHashes keyRoot =
      computeArtifactKeyWith H contextKey fileHashes keyRoot normalizeKeyPath := by
  simp only [computeArtifactKeyNormalizedWithRoot, computeArtifactKeyWith, pathKeyWithRoot_eq]

theorem foldRustcEnvDeps_idem (H : Hasher D) (base : ArtifactKey D)
    (envHashes : List (Name × Option D)) :
    foldRustcEnvDepsIntoArtifactKey H base
        (foldRustcEnvDepsIntoArtifactKey H base envHashes).2 =
      foldRustcEnvDepsIntoArtifactKey H base envHashes := by
  cases envHashes with
  | nil => rfl
  | cons e rest =>
    simp only [foldRustcEnvDepsIntoArtifactKey, List.isEmpty_cons, Bool.false_eq_true, if_false]
    simp [sortBy_eq_nil]

theorem foldRustcEnvDeps_snd_perm (H : Hasher D) (base : ArtifactKey D)
    (envHashes : List (Name × Option D)) :
    (foldRustcEnvDepsIntoArtifactKey H base envHashes).2.Perm envHashes := by
  unfold foldRustcEnvDepsIntoArtifactKey
  split
  · exact List.Perm.refl _
  · exact sortBy_perm _ _

end Zccache
