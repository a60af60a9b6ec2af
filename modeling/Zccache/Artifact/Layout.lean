import Zccache.Artifact.Format
import Zccache.Base.Checked
import Zccache.Base.Lines
import Zccache.Base.Map
import Zccache.Base.Sort

/-! # Layouts of the artifact directory

The outputs of an artifact are kept as a staged generation, in a pack, or as flat
files. A staged generation is named by a digest over its manifest, which has a
digest for every output; a pointer names the generation that counts.
-/

namespace Zccache.Store

open Codecs Checked FinMap StableSort
open PrefixCode (utf8)
open Utf8 (fromUtf8Lossy)
open Lines (trim)

abbrev Content := List UInt8

inductive ArtifactPath where
  | pointer (key : Str)
  | manifest (key : Str) (generation : Content)
  | output (key : Str) (generation : Content) (index : ℕ)
  | pack (key : Str)
  | flat (key : Str) (index : ℕ)
  deriving DecidableEq

def ArtifactPath.key : ArtifactPath → Str
  | pointer key => key
  | manifest key _ => key
  | output key _ _ => key
  | pack key => key
  | flat key _ => key

abbrev ArtifactFiles := Map ArtifactPath Content

structure StagedOutput where
  index : UInt64
  size : UInt64
  digestHex : Str
  deriving DecidableEq

structure StagedManifest where
  version : UInt32
  keyHex : Str
  generationHex : Str
  outputs : Vec StagedOutput

inductive SnapshotFault where
  | notFound
  | notUtf8
  | invalidKey
  | invalidGeneration
  | manifestUndecodable
  | manifestIdentity
  | generationDigest
  | outputCount
  | outputMetadata
  | outputIndex
  | outputSize
  | outputDigest
  | stagedMissing
  | payloadMissing
  | payloadSize
  | metadataCount
  | compatibilityIdentity
  | compatibilityMismatch
  | manifestJson
  | indexDigest
  | indexUndecodable
  | alreadyExists
  deriving DecidableEq

/-- The messages; faults of the file system and of decoders have their own. -/
def SnapshotFault.message : SnapshotFault → Option String
  | notFound => none
  | notUtf8 => none
  | invalidKey => some "artifact key must be a bounded hexadecimal string"
  | invalidGeneration => some "staged artifact generation is not a blake3 digest"
  | manifestUndecodable => none
  | manifestIdentity => some "staged manifest identity/version mismatch"
  | generationDigest => some "staged generation digest does not match its manifest"
  | outputCount => some "staged output count does not match artifact metadata"
  | outputMetadata => some "staged output size does not match artifact metadata"
  | outputIndex => some "staged manifest has a duplicate or out-of-range output index"
  | outputSize => some "staged output size does not match its manifest"
  | outputDigest => some "staged output digest does not match its manifest"
  | stagedMissing => some "transport snapshot is missing its staged generation"
  | payloadMissing => some "snapshot payload is missing or invalid"
  | payloadSize => some "snapshot payload changed size"
  | metadataCount => some "compiler output metadata count mismatch"
  | compatibilityIdentity => some "compatibility identity must be 64 lowercase hex digits"
  | compatibilityMismatch => some "snapshot schema or compatibility mismatch"
  | manifestJson => none
  | indexDigest => some "snapshot index digest mismatch"
  | indexUndecodable => none
  | alreadyExists => some "snapshot already exists"

def isHexDigit (b : UInt8) : Bool :=
  (0x30 ≤ b && b ≤ 0x39) || (0x61 ≤ b && b ≤ 0x66) || (0x41 ≤ b && b ≤ 0x46)

/-- The text that the bytes are, without the blanks around it. -/
def trimText (bytes : Content) : Content :=
  utf8 (trim (fromUtf8Lossy bytes))

/-- A hash function whose digests are written as 64 hexadecimal digits. -/
structure ContentHasher where
  hex : Content → Str
  length_hex : ∀ content, (hex content).bytes.toList.length = 64
  isHexDigit_hex : ∀ content, ∀ b ∈ (hex content).bytes.toList, isHexDigit b = true

def stagedOutput : Codec StagedOutput :=
  xmap (pair u64 (pair u64 str))
    ⟨fun o => ⟨o.1, o.2.1, o.2.2⟩, fun o => (o.index, o.size, o.digestHex), fun _ => rfl,
      fun _ => rfl⟩

def stagedManifest : Codec StagedManifest :=
  xmap (pair u32 (pair str (pair str (vec stagedOutput))))
    ⟨fun m => ⟨m.1, m.2.1, m.2.2.1, m.2.2.2⟩,
      fun m => (m.version, m.keyHex, m.generationHex, m.outputs), fun _ => rfl, fun _ => rfl⟩

def stagedManifestVersion : UInt32 :=
  1

def StagedOutput.record (o : StagedOutput) : Content :=
  u64.put o.index ++ u64.put o.size ++ o.digestHex.bytes.toList

def generationRecord (key : Str) (outputs : List StagedOutput) : Content :=
  key.bytes.toList ++ outputs.flatMap StagedOutput.record

def ValidKey (key : Str) : Prop :=
  key.bytes.toList ≠ [] ∧ key.bytes.toList.length ≤ 128 ∧
    key.bytes.toList.all isHexDigit = true
  deriving Decidable

def ValidGeneration (generation : Content) : Prop :=
  generation.length = 64 ∧ generation.all isHexDigit = true
  deriving Decidable

structure PublishedGeneration where
  generation : Content
  outputs : List StagedOutput

inductive ResolvedArtifactPayload where
  | file (path : ArtifactPath)
  | bytes (content : Content)

inductive SnapshotLayout where
  | normalizeLegacy
  | stagedOnly
  deriving DecidableEq

section Staged

variable (hasher : ContentHasher) (files : ArtifactFiles) (key : Str)

/-- A manifest may be followed by anything. -/
def loadManifest (generation : Content) : Except SnapshotFault (List StagedOutput) := do
  let bytes ← orFail .notFound (files.lookup (.manifest key generation))
  let decoded ← orFail .manifestUndecodable (stagedManifest.get bytes)
  require (decoded.1.version = stagedManifestVersion ∧ decoded.1.keyHex = key ∧
    decoded.1.generationHex.bytes.toList = generation) .manifestIdentity
  pure decoded.1.outputs.toList

def generationDigest (outputs : List StagedOutput) : Content :=
  (hasher.hex (generationRecord key outputs)).bytes.toList

def loadGeneration (pointer : Content) : Except SnapshotFault PublishedGeneration := do
  require (isUtf8 pointer = true) .notUtf8
  let generation := trimText pointer
  require (ValidGeneration generation) .invalidGeneration
  let outputs ← loadManifest files key generation
  require (generationDigest hasher key outputs = generation) .generationDigest
  pure ⟨generation, outputs⟩

def loadPublishedGeneration : Except SnapshotFault (Option PublishedGeneration) := do
  require (ValidKey key) .invalidKey
  match files.lookup (.pointer key) with
  | none => pure none
  | some pointer => some <$> loadGeneration hasher files key pointer

/-- The outputs are checked in the order of the manifest; `seen` are the indices so far. -/
def verifyOutputs (generation : Content) (count : ℕ) (seen : List ℕ) :
    List StagedOutput → Except SnapshotFault (List ℕ)
  | [] => pure []
  | o :: rest => do
    require (o.index.toNat < count ∧ o.index.toNat ∉ seen) .outputIndex
    let content ← orFail .notFound (files.lookup (.output key generation o.index.toNat))
    require (content.length = o.size.toNat) .outputSize
    require (hasher.hex content = o.digestHex) .outputDigest
    let indices ← verifyOutputs generation count (o.index.toNat :: seen) rest
    pure (o.index.toNat :: indices)

variable (sizes : List UInt64) (g : PublishedGeneration)

def verifyGenerationOutputs : Except SnapshotFault (List ℕ) := do
  let indices ← verifyOutputs hasher files key g.generation g.outputs.length [] g.outputs
  pure (sortBy id indices)

def validateGeneration :
    Except SnapshotFault (List ℕ) := do
  require (g.outputs.length = sizes.length) .outputCount
  require (∀ o ∈ g.outputs, sizes[o.index.toNat]? = some o.size) .outputMetadata
  verifyGenerationOutputs hasher files key g

/-- The published generation, and the indices of its outputs in order. -/
def validatedStagedGeneration :
    Except SnapshotFault (Option (PublishedGeneration × List ℕ)) := do
  match ← loadPublishedGeneration hasher files key with
  | none => pure none
  | some g => do
    let indices ← validateGeneration hasher files key sizes g
    pure (some (g, indices))

def resolveStagedArtifactFiles :
    Except SnapshotFault (Option (List ArtifactPath)) := do
  match ← validatedStagedGeneration hasher files key sizes with
  | none => pure none
  | some (g, indices) => pure (some (indices.map (.output key g.generation)))

end Staged

section Legacy

variable (files : ArtifactFiles) (key : Str)

def packMagic : Content :=
  [0x5A, 0x43, 0x50, 0x4B]

variable (data : Content) (sizes : List UInt64)

def slice (start len : ℕ) : Content :=
  (data.drop start).take len

def packedPayloadCount : Option ℕ :=
  if data.length < 8 ∨ data.take 4 ≠ packMagic then none
  else
    let count := leValue (slice data 4 4)
    if 8 + count * 16 ≤ data.length then some count else none

def packedPayload (index : ℕ) : Option Content := do
  let count ← packedPayloadCount data
  if count ≤ index then none
  else
    let offset := leValue (slice data (8 + index * 16) 8)
    let size := leValue (slice data (8 + index * 16 + 8) 8)
    if offset < 8 + count * 16 ∨ data.length < offset + size then none
    else some (slice data offset size)

def resolvePackPayloads : Option (List ResolvedArtifactPayload) := do
  let data ← files.lookup (.pack key)
  let count ← packedPayloadCount data
  if count ≠ sizes.length then none
  else
    sizes.zipIdx.mapM fun s => do
      let bytes ← packedPayload data s.2
      if bytes.length ≠ s.1.toNat then none else some (.bytes bytes)

def resolveFlatPayloads : Option (List ResolvedArtifactPayload) :=
  sizes.zipIdx.mapM fun s => do
    let content ← files.lookup (.flat key s.2)
    if content.length ≠ s.1.toNat then none else some (.file (.flat key s.2))

end Legacy

variable (hasher : ContentHasher)

variable (source files : ArtifactFiles) (key : Str) (sizes : List UInt64)
variable (destination : ArtifactFiles)

/-- A staged generation comes first, then a pack, then flat files. -/
def resolveArtifactPayloads
    (includeStaged : Bool) : Except SnapshotFault (Option (List ResolvedArtifactPayload)) := do
  require (ValidKey key) .invalidKey
  let staged ←
    if includeStaged then resolveStagedArtifactFiles hasher files key sizes else pure none
  match staged with
  | some paths => pure (some (paths.map .file))
  | none => pure ((resolvePackPayloads files key sizes).or (resolveFlatPayloads files key sizes))

def ResolvedArtifactPayload.read :
    ResolvedArtifactPayload → Except SnapshotFault Content
  | file path => orFail .notFound (files.lookup path)
  | bytes content => pure content

def payloadContents :
    Except SnapshotFault (Option (List Content)) := do
  match ← resolveArtifactPayloads hasher files key sizes true with
  | none => pure none
  | some payloads => some <$> payloads.mapM (ResolvedArtifactPayload.read files)

/-- The pointer is written last, and what was copied is checked again. -/
def publishSnapshotPointer (key : Str) (generation : Content)
    (sizes : List UInt64) : Except SnapshotFault ArtifactFiles := do
  let pointed := destination.insert (.pointer key) generation
  let _ ← resolveStagedArtifactFiles hasher pointed key sizes
  pure pointed

def copySnapshotFile (path : ArtifactPath) :
    Except SnapshotFault ArtifactFiles := do
  let content ← orFail .notFound (source.lookup path)
  pure (destination.insert path content)

def copyStagedGeneration : Except SnapshotFault (Option ArtifactFiles) := do
  match ← validatedStagedGeneration hasher source key sizes with
  | none => pure none
  | some (g, indices) => do
    let paths := indices.map (.output key g.generation) ++ [.manifest key g.generation]
    let copied ← paths.foldlM (copySnapshotFile source) destination
    some <$> publishSnapshotPointer hasher copied key g.generation sizes

def stagedOutputs (sizes : Vec UInt64) (contents : List Content) : Vec StagedOutput :=
  sizes.mapIdx fun i size => ⟨UInt64.ofNat i, size, hasher.hex (contents.getD i [])⟩

def stageContents (sizes : Vec UInt64) (contents : List Content)
    (destination : ArtifactFiles) : Except SnapshotFault ArtifactFiles := do
  require (contents.map List.length = sizes.toList.map UInt64.toNat) .payloadSize
  let outputs := stagedOutputs hasher sizes contents
  let generationHex := hasher.hex (generationRecord key outputs.toList)
  let generation := generationHex.bytes.toList
  let manifest := stagedManifest.put ⟨stagedManifestVersion, key, generationHex, outputs⟩
  let written := contents.zipIdx.foldl
    (fun files c => files.insert (.output key generation c.2) c.1) destination
  publishSnapshotPointer hasher (written.insert (.manifest key generation) manifest) key
    generation sizes.toList

def copyArtifactGeneration (sizes : Vec UInt64)
    (destination : ArtifactFiles) (layout : SnapshotLayout) :
    Except SnapshotFault ArtifactFiles := do
  match ← copyStagedGeneration hasher source key sizes.toList destination with
  | some copied => pure copied
  | none => do
    require (layout ≠ .stagedOnly) .stagedMissing
    let resolved ← resolveArtifactPayloads hasher source key sizes.toList false
    let payloads ← orFail .payloadMissing resolved
    let contents ← payloads.mapM (ResolvedArtifactPayload.read source)
    stageContents hasher key sizes contents destination

end Zccache.Store
