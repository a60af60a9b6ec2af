import Zccache.Base.Action
import Zccache.Persist.LinkRegistry
import Zccache.Request.Classifier

/-! # Delivering a cached file

A verified cache blob is delivered to an output path as a clone, as a hardlink or
as a copy. Every call may fail, and then the next way is tried or the delivery
fails. What the disk was after each change is kept in a log.
-/

namespace Zccache

open Unix FinMap Files Actions

variable {D : Type}

inductive MaterializationMode where
  | auto
  | reflinkOrLinkOrCopy
  | link
  | copy
  | reflink
  deriving DecidableEq

/-- What two volumes can do; `copyOnly` when it is not asked for. -/
structure VolumeCaps where
  reflink : Bool
  hardlink : Bool
  hardlinkLimit : ℕ

def VolumeCaps.copyOnly : VolumeCaps :=
  ⟨false, false, 0⟩

structure TierPlan where
  reflink : Bool
  hardlink : Bool

def hardlinkPermitted (mode : MaterializationMode) (hardlinkEligible : Bool) : Bool :=
  hardlinkEligible && (mode = .reflinkOrLinkOrCopy || mode = .link)

def hardlinkBelowLimit (caps : VolumeCaps) (linkCount : ℕ) : Bool :=
  caps.hardlink && linkCount < caps.hardlinkLimit

def planTiers (mode : MaterializationMode) (hardlinkEligible : Bool) (caps : VolumeCaps)
    (linkCount : ℕ) : TierPlan where
  reflink := caps.reflink &&
    match mode with
    | .auto | .reflinkOrLinkOrCopy | .reflink => true
    | .link => !hardlinkEligible
    | .copy => false
  hardlink := hardlinkPermitted mode hardlinkEligible && hardlinkBelowLimit caps linkCount

/-- The calls that can fail, each at most once in a delivery. -/
inductive FileCall where
  | sameFile
  | blobLength
  | sealShared
  | mtimeStat
  | listing
  | detachIdentity
  | detachWritable
  | detachRemove
  | sealDetached
  | oldStat
  | oldWritable
  | oldRemove
  | reflink
  | reflinkWritable
  | reflinkStamp
  | linkCount
  | prepareLink
  | hardLink
  | sealLinked
  | commitLink
  | cleanupWritable
  | cleanupRemove
  | copyOpen
  | copyWrite
  | copyRemove
  | copyWritable
  | copyStamp
  deriving DecidableEq

/-- What is delivered and where, and how the calls turn out: which of them fail, which siblings
cannot be asked for their time, what a failed clone leaves at the output, how much a failed copy
has written, and the time of the copy. -/
structure Job where
  outPath : NormalizedPath
  cacheFile : NormalizedPath
  mode : MaterializationMode
  hardlinkEligible : Bool
  probedCaps : VolumeCaps
  floorDisabled : Bool
  fails : FileCall → Bool
  entryFails : NormalizedPath → Bool
  leftover : Option Inode
  written : ℕ
  now : ℤ

/-- The disk and the registry, and the disks after each change so far. -/
structure Delivery (D : Type) where
  disk : Disk
  registry : Registry D
  log : List Disk

structure HitMtime where
  mtime : ℤ
  raised : Bool

def siblingExtensions : List Text :=
  ["rlib", "rmeta", "so", "dylib", "dll", "exe", "a", "lib"].map String.toList

def isSiblingArtifact (outPath path : NormalizedPath) : Bool :=
  path ≠ outPath && path.path.dropLast = outPath.path.dropLast &&
    (extension path.path).any (· ∈ siblingExtensions)

/-- The times of the sibling artifacts that `visible` admits. -/
def siblingMtimes (disk : Disk) (outPath : NormalizedPath) (visible : NormalizedPath → Bool) :
    List ℤ :=
  (disk.names.keys.filter fun path => isSiblingArtifact outPath path && visible path).filterMap
    fun path => (disk.read path).map Inode.mtime

def newest (base : ℤ) (times : List ℤ) : ℤ :=
  times.foldl max base

namespace Job

variable (job : Job) (H : Hasher D)

abbrev Act (D : Type) := Action (Delivery D)

variable (disk : Disk) (id : FileIdentity) (call : FileCall)

def check : Act D Unit :=
  if job.fails call then .fail else pure ()

def setDisk (f : Disk → Disk) : Act D Unit :=
  .modify fun s => { s with disk := f s.disk, log := f s.disk :: s.log }

def setRegistry (f : Disk → Registry D → Registry D) : Act D Unit :=
  .modify fun s => { s with registry := f s.disk s.registry }

def removeFile (path : NormalizedPath) : Act D Unit := do
  job.check call
  let s ← .get
  if (s.disk.identity path).isSome then setDisk (·.unlink path) else .fail

def stampMtime (mtime : ℤ) : Act D Unit := do
  job.check call
  setDisk (·.modify job.outPath fun inode => { inode with mtime := mtime })

/-- The bytes of the blob as they are now, written to the output. -/
def writeBlob (limit : ℕ) : Act D Unit :=
  setDisk fun disk => disk.modify job.outPath fun _ =>
    ⟨(((disk.read job.cacheFile).map Inode.bytes).getD []).take limit, job.now⟩

def blobLength : Act D ℕ := do
  let s ← .get
  match s.disk.read job.cacheFile with
  | none => .fail
  | some inode => pure inode.bytes.length

/-- `std::fs::copy` opens the output with truncation, whatever it is. -/
def stdCopy : Act D Unit := do
  let length ← job.blobLength
  job.check .copyOpen
  setDisk fun disk =>
    match disk.identity job.outPath with
    | some _ => disk.modify job.outPath fun _ => ⟨[], job.now⟩
    | none => disk.create job.outPath ⟨[], job.now⟩
  if job.fails .copyWrite then do
    job.writeBlob job.written
    .fail
  else job.writeBlob length

/-- The copy of the mode `COPY` makes a new file, and removes it if it cannot be filled. -/
def byteCopy : Act D Unit := do
  let length ← job.blobLength
  job.check .copyOpen
  let s ← .get
  if (s.disk.identity job.outPath).isSome then .fail
  else do
    setDisk (·.create job.outPath ⟨[], job.now⟩)
    if job.fails .copyWrite then do
      job.writeBlob job.written
      let _ ← (job.removeFile .copyRemove job.outPath).attempt
      .fail
    else job.writeBlob length

def copyFile : Act D Unit :=
  if job.mode = .copy then job.byteCopy else job.stdCopy

/-- A directory that cannot be listed counts as one without siblings. -/
def siblingFloorAbove (base : ℤ) : Option ℤ :=
  if job.floorDisabled || job.fails .listing then none
  else
    let floor := newest base (siblingMtimes disk job.outPath fun path => !job.entryFails path)
    if base < floor then some floor else none

/-- The time that the output is to have, as far as the siblings are seen. -/
def hit (blob : Inode) : HitMtime :=
  match job.siblingFloorAbove disk blob.mtime with
  | some floor => ⟨floor, true⟩
  | none => ⟨blob.mtime, false⟩

def resolveHitMtime : Act D HitMtime := do
  job.check .mtimeStat
  let s ← .get
  match s.disk.read job.cacheFile with
  | none => .fail
  | some blob => pure (job.hit s.disk blob)

def detachedFrom (s : Delivery D) : Option (FileIdentity × NormalizedPath) :=
  s.registry.prepareRegisteredDetach job.outPath
    (if job.fails .detachIdentity then none else s.disk.identity job.outPath)

def commitDetach (registration : Option (FileIdentity × NormalizedPath)) : Act D Unit :=
  match registration with
  | none => pure ()
  | some (id, _) => setRegistry fun _ r => r.commitRegisteredDetach id job.outPath

def detachWithFlooredMtime (floor : ℤ) : Act D Unit := do
  let s ← .get
  job.check .detachWritable
  job.removeFile .detachRemove job.outPath
  job.copyFile
  job.check .copyWritable
  let result ← (job.stampMtime .copyStamp floor).attempt
  job.check .sealDetached
  job.commitDetach (job.detachedFrom s)
  if result.isSome then pure () else .fail

def removeMaterializedOutput : Act D Unit := do
  job.check .oldStat
  let s ← .get
  if (s.disk.identity job.outPath).isSome then do
    job.check .oldWritable
    job.removeFile .oldRemove job.outPath
    job.commitDetach (job.detachedFrom s)
  else pure ()

def prepareRegistration : Act D FileIdentity := do
  job.check .prepareLink
  let s ← .get
  match s.disk.identity job.cacheFile with
  | none => .fail
  | some id =>
    setRegistry fun disk r => (r.prepareHardlinkRegistration job.cacheFile job.outPath id
      (statSignature disk job.cacheFile) (hashFile H disk job.cacheFile)).1
    pure id

def commitRegistration : Act D Unit := do
  let s ← .get
  let actual := if job.fails .commitLink then none else s.disk.identity job.outPath
  let committed := s.registry.commitHardlinkRegistration id job.outPath actual
  setRegistry fun _ _ => committed.1
  if committed.2 then pure () else .fail

def registerHardlink : Act D Unit := do
  let id ← job.prepareRegistration H
  job.commitRegistration id

/-- The link goes, if it can be removed. -/
def cleanupFailedHardlink : Act D Unit := do
  setRegistry fun _ r => r.cancelHardlinkRegistration id job.outPath
  job.check .cleanupWritable
  job.removeFile .cleanupRemove job.outPath
  setRegistry fun _ r => r.commitRegisteredDetach id job.outPath

def hardLink : Act D Unit := do
  job.check .hardLink
  let s ← .get
  if (s.disk.identity job.outPath).isSome then .fail
  else setDisk (·.link job.cacheFile job.outPath)

def protectAndCommit : Act D Unit := do
  job.check .sealLinked
  job.commitRegistration id

def tryHardlink : Act D Bool := do
  match ← (job.prepareRegistration H).attempt with
  | none => pure false
  | some id =>
    match ← job.hardLink.attempt with
    | none => do
      setRegistry fun _ r => r.cancelHardlinkRegistration id job.outPath
      setRegistry fun _ r => r.commitRegisteredDetach id job.outPath
      pure false
    | some () =>
      match ← (job.protectAndCommit id).attempt with
      | some () => pure true
      | none => do
        let _ ← (job.cleanupFailedHardlink id).attempt
        pure false

/-- A clone has the bytes of the blob in an inode of its own. -/
def reflinkFile : Act D Unit := do
  if job.fails .reflink then do
    match job.leftover with
    | none => pure ()
    | some inode => setDisk (·.create job.outPath inode)
    .fail
  else
    setDisk fun disk =>
      disk.create job.outPath ⟨((disk.read job.cacheFile).map Inode.bytes).getD [], job.now⟩

def caps : VolumeCaps :=
  if job.mode = .copy then .copyOnly else job.probedCaps

def tryReflink : Act D Bool := do
  if (planTiers job.mode job.hardlinkEligible job.caps 0).reflink then do
    let cloned ← job.reflinkFile.attempt
    pure cloned.isSome
  else pure false

def permitted : Bool :=
  hardlinkPermitted job.mode job.hardlinkEligible

/-- The hardlink tier is tried for a hit that may share the inode. -/
def linkCandidate (hit : HitMtime) : Bool :=
  let linkCount :=
    if job.permitted && !hit.raised && job.caps.hardlink && !job.fails .linkCount then
      hardLinkCount disk job.cacheFile
    else 0
  (planTiers job.mode job.hardlinkEligible job.caps linkCount).hardlink && !hit.raised

def copyTier (mtime : ℤ) : Act D Unit := do
  job.copyFile
  job.check .copyWritable
  job.stampMtime .copyStamp mtime

def tiers (hit : HitMtime) : Act D Unit := do
  if ← job.tryReflink then do
    job.check .reflinkWritable
    job.stampMtime .reflinkStamp hit.mtime
  else do
    let s ← .get
    if job.linkCandidate s.disk hit then do
      if ← job.tryHardlink H then pure () else job.copyTier hit.mtime
    else job.copyTier hit.mtime

def isSameFile : Bool :=
  !job.fails .sameFile && (disk.identity job.outPath).isSome &&
    disk.identity job.outPath = disk.identity job.cacheFile

/-- An output that is the blob already is left, registered or replaced by a copy. -/
def keepOrDetach : Act D Unit := do
  if job.permitted then do
    job.check .sealShared
    let hit ← job.resolveHitMtime
    if hit.raised then do
      job.check .blobLength
      job.detachWithFlooredMtime hit.mtime
    else job.registerHardlink H
  else do
    job.check .blobLength
    let hit ← job.resolveHitMtime
    job.detachWithFlooredMtime hit.mtime

def materializeVerifiedCachedFileTiers : Act D Unit := do
  let s ← .get
  if job.isSameFile s.disk then job.keepOrDetach H
  else do
    job.removeMaterializedOutput
    let hit ← job.resolveHitMtime
    job.tiers H hit

end Job

end Zccache
