import Zccache.Base.Files
import Zccache.Core.Hash
import Zccache.Core.NormalizedPath

/-! # The hardlink registry

Cache blobs are delivered as hardlinks, and the registry keeps for every such
blob the digest that its bytes must have, the outputs that share its inode and
whether something may have been written through one of them. The functions are
given what they observe of the file system.
-/

namespace Zccache

open Unix FinMap Files

variable {D : Type}

/-- What an inode holds, as far as deliveries are concerned. -/
structure Inode where
  bytes : Text
  mtime : ℤ
  deriving DecidableEq

abbrev Disk := FileSystem NormalizedPath Inode

abbrev FileIdentity := ℕ

abbrev StatSignature := ℤ × ℕ

def statSignature (disk : Disk) (path : NormalizedPath) : Option StatSignature :=
  (disk.read path).map fun inode => (inode.mtime, inode.bytes.length)

def hashFile (H : Hasher D) (disk : Disk) (path : NormalizedPath) : Option D :=
  (disk.read path).map fun inode => H.hashText inode.bytes

/-- The links of the file at a path; a file that cannot be asked has none. -/
def hardLinkCount (disk : Disk) (path : NormalizedPath) : ℕ :=
  ((disk.identity path).map disk.linkCount).getD 0

structure LinkRecord (D : Type) where
  blobPath : NormalizedPath
  expectedHash : D
  statSignature : Option StatSignature
  outputs : Finset NormalizedPath
  suspect : Bool

/-- The records by inode, and the inodes of the outputs. -/
structure Registry (D : Type) where
  records : Map FileIdentity (LinkRecord D)
  outputIds : Map NormalizedPath FileIdentity

namespace Registry

variable (r : Registry D)

def empty : Registry D :=
  ⟨∅, ∅⟩

def forgetOutputs (outputs : Finset NormalizedPath) : Registry D :=
  { r with outputIds := FinMap.filter (fun path _ => path ∉ outputs) r.outputIds }

/-- The blob gets a record with the digest of its bytes, unless it has one. A record of another
blob is left over from an inode that was used before. -/
def prepareHardlinkRegistration (blobPath outputPath : NormalizedPath) (id : FileIdentity)
    (signature : Option StatSignature) (hash : Option D) : Registry D × Option FileIdentity :=
  let insertRecord (r : Registry D) : Registry D × Option FileIdentity :=
    match hash with
    | none => (r, none)
    | some expectedHash =>
      ({ records := r.records.insert id ⟨blobPath, expectedHash, signature, ∅, false⟩
         outputIds := r.outputIds.insert outputPath id }, some id)
  match r.records.lookup id with
  | none => insertRecord r
  | some record =>
    if record.blobPath = blobPath then
      ({ r with outputIds := r.outputIds.insert outputPath id }, some id)
    else insertRecord (r.forgetOutputs record.outputs)

theorem records_prepare (blobPath outputPath : NormalizedPath) (id : FileIdentity)
    (signature : Option StatSignature) (hash : Option D) :
    let r' := (r.prepareHardlinkRegistration blobPath outputPath id signature hash).1
    r'.records = r.records ∨ ∃ expectedHash, hash = some expectedHash ∧
      (∀ record ∈ r.records.lookup id, record.blobPath ≠ blobPath) ∧
      r'.records = r.records.insert id ⟨blobPath, expectedHash, signature, ∅, false⟩ := by
  unfold prepareHardlinkRegistration
  cases hid : r.records.lookup id with
  | none =>
    cases hash with
    | none => exact .inl rfl
    | some expectedHash => exact .inr ⟨expectedHash, rfl, nofun, rfl⟩
  | some record =>
    dsimp only
    split
    · exact .inl rfl
    · next hne =>
      cases hash with
      | none => exact .inl rfl
      | some expectedHash =>
        refine .inr ⟨expectedHash, rfl, ?_, rfl⟩
        rintro _ ⟨⟩
        exact hne

variable (id : FileIdentity) (path : NormalizedPath) (actual : Option FileIdentity)
variable (outputPath : NormalizedPath)

def cancelHardlinkRegistration : Registry D :=
  if r.outputIds.lookup outputPath = some id then
    { r with outputIds := r.outputIds.erase outputPath }
  else r

def setRecord (f : LinkRecord D → LinkRecord D) : Registry D :=
  match r.records.lookup id with
  | none => r
  | some record => { r with records := r.records.insert id (f record) }

def markSuspect : Registry D :=
  r.setRecord id fun record => { record with suspect := true }

/-- The output joins the record if it has the blob's inode. If it has another one, something was
swapped, and the blob becomes suspect. -/
def commitHardlinkRegistration
    (actual : Option FileIdentity) : Registry D × Bool :=
  match r.records.lookup id with
  | none => (r.cancelHardlinkRegistration id outputPath, false)
  | some _ =>
    match actual with
    | some actual =>
      if actual = id then
        (r.setRecord id fun record =>
          { record with outputs := insert outputPath record.outputs }, true)
      else ((r.markSuspect id).cancelHardlinkRegistration id outputPath, false)
    | none => (r.cancelHardlinkRegistration id outputPath, false)

def prepareRegisteredDetach :
    Option (FileIdentity × NormalizedPath) :=
  ((r.outputIds.lookup path).or actual).bind fun id =>
    (r.records.lookup id).map fun record => (id, record.blobPath)

/-- The output leaves the record; whether the record is to be removed then. -/
def detachOutput : Registry D × Bool :=
  let r := { r with outputIds := r.outputIds.erase path }
  match r.records.lookup id with
  | none => (r, false)
  | some record =>
    let record := { record with outputs := record.outputs.erase path }
    ({ r with records := r.records.insert id record },
      decide (record.outputs = ∅) && !record.suspect)

def removeRecord : Registry D :=
  { r with records := r.records.erase id }

def commitRegisteredDetach : Registry D :=
  let (r, remove) := r.detachOutput id path
  if remove then r.removeRecord id else r

/-- The inode of a removed output is known from the index only. -/
def markRemovedLinkSuspect : Registry D :=
  match r.outputIds.lookup path with
  | none => r
  | some id =>
    { r with outputIds := r.outputIds.erase path }.setRecord id fun record =>
      { record with suspect := true, outputs := record.outputs.erase path }

def unregisterBlobId : Registry D :=
  match r.records.lookup id with
  | none => r
  | some record => (r.removeRecord id).forgetOutputs record.outputs

def sweepSnapshot : List (FileIdentity × NormalizedPath × Option StatSignature) :=
  (r.records.entries.filter fun e => !e.2.suspect).map fun e =>
    (e.1, e.2.blobPath, e.2.statSignature)

/-- A blob with another signature than the recorded one becomes suspect, unless its record was
replaced in the meantime. -/
def sweepOne (recorded current : Option StatSignature) : Registry D :=
  if recorded.isSome ∧ current = recorded then r
  else r.setRecord id fun record =>
    if !record.suspect && decide (record.statSignature = recorded) then
      { record with suspect := true }
    else record

end Registry

end Zccache
