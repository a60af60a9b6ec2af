import Zccache.Persist.LinkRegistry

/-! # Verifying hardlinked blobs

Before a blob is delivered it is verified. A registered blob is trusted without
a look at its bytes if nothing marked it as suspect and the watcher works, or if
no other name of its inode is left. Calls of the verification, registrations,
the watcher and the programs that write to delivered files take their steps in
any order. A call that reads a record keeps others from changing it until it
lets go; whoever wants to change it then has to try again.
-/

namespace Zccache

open Unix FinMap Files

variable {D : Type}

/-- Where a verification stands. -/
inductive VerifyPc (D : Type) where
  | start
  | identified (id : FileIdentity)
  | settled (id : FileIdentity)
  | unregistered (id : FileIdentity)
  | digestRead (id : FileIdentity) (expectedHash : D)
  | matched (id : FileIdentity) (expectedHash : D) (signature : Option StatSignature)
  | held (id : FileIdentity)
  | hashing (id : FileIdentity) (signature : Option StatSignature)
  | confirmed (id : FileIdentity) (signature : Option StatSignature) (remove : Bool)
  | evicting
  | unregistering (id : Option FileIdentity)

def VerifyPc.guard : VerifyPc D → Option FileIdentity
  | .held id => some id
  | .hashing id _ => some id
  | _ => none

/-- The bytes were hashed with success, and the registry does not know yet. -/
def VerifyPc.hashed : VerifyPc D → Bool
  | .matched _ _ _ => true
  | .confirmed _ _ _ => true
  | _ => false

/-- The answer of a failed system call is made up: that there is no such file, or that it has no
further name. -/
def VerifyPc.guesses (watcherAvailable : Bool) : VerifyPc D → Bool
  | .start => true
  | .held _ => !watcherAvailable
  | _ => false

/-- A call under way. The history keeps whether the blob had the right bytes at some moment
since the call began. -/
structure VerifyCall (D : Type) where
  blobPath : NormalizedPath
  pc : VerifyPc D
  good : Bool

/-- The files, the registry and the calls. The history keeps the writes that the watcher still
has to report, and for every finished call whether it accepted the blob and whether the blob was
good. -/
structure VerifyWorld (D : Type) where
  disk : Disk
  registry : Registry D
  sidecars : Map NormalizedPath D
  watcherAvailable : Bool
  calls : Map ℕ (VerifyCall D)
  removals : List FileIdentity
  sweep : List (FileIdentity × NormalizedPath × Option StatSignature)
  owed : List (NormalizedPath × FileIdentity)
  answers : List (Bool × Bool)

inductive VerifyEvent where
  | start (call : ℕ) (blobPath : NormalizedPath)
  | advance (call : ℕ)
  | fail (call : ℕ)
  | prepare (blobPath outputPath : NormalizedPath)
  | commit (id : FileIdentity) (outputPath : NormalizedPath)
  | cancel (id : FileIdentity) (outputPath : NormalizedPath)
  | commitDetach (id : FileIdentity) (path : NormalizedPath)
  | removeDetached (id : FileIdentity)
  | mark (path : NormalizedPath)
  | markRemoved (path : NormalizedPath)
  | sweepStart
  | sweepNext
  | setWatcher (available : Bool)
  | link (blobPath outputPath : NormalizedPath)
  | write (path : NormalizedPath) (inode : Inode)
  | unlink (path : NormalizedPath)

namespace VerifyWorld

variable (H : Hasher D) (w : VerifyWorld D)

variable (path : NormalizedPath) (id : FileIdentity)

def locked : Bool :=
  w.calls.entries.any fun e => e.2.pc.guard = some id

def setPc (call : ℕ) (c : VerifyCall D) (pc : VerifyPc D) : VerifyWorld D :=
  { w with calls := w.calls.insert call { c with pc := pc } }

def finish (call : ℕ) (c : VerifyCall D) (ok : Bool) : VerifyWorld D :=
  { w with calls := w.calls.erase call, answers := (ok, c.good) :: w.answers }

def whenUnlocked (w' : VerifyWorld D) : VerifyWorld D :=
  if w.locked id then w else w'

/-- One step of `verify_registered_blob`. -/
def verifyStep [DecidableEq D] (call : ℕ) (c : VerifyCall D) : VerifyWorld D :=
  match c.pc with
  | .start =>
    match w.disk.identity c.blobPath with
    | none => w.finish call c true
    | some id => w.setPc call c (.identified id)
  | .identified id =>
    match w.registry.records.lookup id with
    | some record =>
      if record.blobPath = c.blobPath then w.setPc call c (.settled id)
      else w.whenUnlocked id
        { w.setPc call c (.settled id) with registry := w.registry.removeRecord id }
    | none => w.setPc call c (.settled id)
  | .settled id =>
    match w.registry.records.lookup id with
    | some _ => w.setPc call c (.held id)
    | none => w.setPc call c (.unregistered id)
  -- After a restart the digest that was stored with the blob decides.
  | .unregistered id =>
    match w.sidecars.lookup c.blobPath with
    | some expectedHash => w.setPc call c (.digestRead id expectedHash)
    | none => w.setPc call c .evicting
  | .digestRead id expectedHash =>
    match hashFile H w.disk c.blobPath with
    | none => w.finish call c false
    | some actual =>
      if actual = expectedHash then
        w.setPc call c (.matched id expectedHash (statSignature w.disk c.blobPath))
      else w.setPc call c .evicting
  | .matched id expectedHash signature =>
    w.whenUnlocked id
      { w.finish call c true with
        registry := { w.registry with
          records := w.registry.records.insert id
            ⟨c.blobPath, expectedHash, signature, ∅, false⟩ } }
  | .held id =>
    match w.registry.records.lookup id with
    | none => w.finish call c false
    | some record =>
      if !record.suspect &&
          (w.watcherAvailable || decide (hardLinkCount w.disk c.blobPath ≤ 1)) then
        w.finish call c true
      else w.setPc call c (.hashing id (statSignature w.disk c.blobPath))
  | .hashing id signature =>
    match w.registry.records.lookup id, hashFile H w.disk c.blobPath with
    | some record, some actual =>
      if actual = record.expectedHash then
        w.setPc call c (.confirmed id signature (decide (record.outputs = ∅)))
      else w.setPc call c .evicting
    | _, _ => w.finish call c false
  -- The record was let go in between.
  | .confirmed id signature remove =>
    w.whenUnlocked id
      { w.finish call c true with
        registry :=
          if remove then w.registry.removeRecord id
          else w.registry.setRecord id fun record =>
            { record with suspect := false, statSignature := signature } }
  | .evicting =>
    match w.disk.identity c.blobPath with
    | none => w.finish call c false
    | some id =>
      { w.setPc call c (.unregistering ((w.registry.records.lookup id).map fun _ => id)) with
        disk := w.disk.unlink c.blobPath }
  | .unregistering none =>
    { w.finish call c false with sidecars := w.sidecars.erase c.blobPath }
  | .unregistering (some id) =>
    w.whenUnlocked id
      { w.finish call c false with
        registry := w.registry.unregisterBlobId id
        sidecars := w.sidecars.erase c.blobPath }

/-- A step in which the system call that it makes fails. Most failures are answered with an
error. -/
def failStep (call : ℕ) (c : VerifyCall D) : VerifyWorld D :=
  match c.pc with
  -- A blob without an identity is taken for one that nobody registered.
  | .start => w.finish call c true
  -- Names that cannot be counted are none, and a signature that cannot be read is left out.
  | .held id =>
    match w.registry.records.lookup id with
    | none => w.finish call c false
    | some record =>
      if record.suspect then w.setPc call c (.hashing id none) else w.finish call c true
  | .unregistered _ | .digestRead _ _ | .hashing _ _ | .evicting => w.finish call c false
  | .identified _ | .settled _ | .matched _ _ _ | .confirmed _ _ _ => w
  -- The digest stays behind.
  | .unregistering none => w.finish call c false
  | .unregistering (some id) =>
    w.whenUnlocked id { w.finish call c false with registry := w.registry.unregisterBlobId id }

def prepare (blobPath outputPath : NormalizedPath) : VerifyWorld D :=
  match w.disk.identity blobPath with
  | none => w
  | some id =>
    w.whenUnlocked id
      { w with
        registry := (w.registry.prepareHardlinkRegistration blobPath outputPath id
          (statSignature w.disk blobPath) (hashFile H w.disk blobPath)).1 }

def commitDetach (path : NormalizedPath) : VerifyWorld D :=
  let (registry, remove) := w.registry.detachOutput id path
  w.whenUnlocked id
    { w with registry := registry, removals := if remove then id :: w.removals else w.removals }

def settle : VerifyWorld D :=
  { w with owed := w.owed.filter fun e => e.1 ≠ path }

def mark : VerifyWorld D :=
  match w.disk.identity path with
  | none => w.settle path
  | some id => w.whenUnlocked id { w.settle path with registry := w.registry.markSuspect id }

def markRemoved : VerifyWorld D :=
  match w.registry.outputIds.lookup path with
  | none => w.settle path
  | some id =>
    w.whenUnlocked id { w.settle path with registry := w.registry.markRemovedLinkSuspect path }

def sweepNext : VerifyWorld D :=
  match w.sweep with
  | [] => w
  | (id, blobPath, recorded) :: rest =>
    w.whenUnlocked id
      { w with
        sweep := rest
        registry := w.registry.sweepOne id recorded (statSignature w.disk blobPath) }

def write (inode : Inode) : VerifyWorld D :=
  { w with
    disk := w.disk.modify path fun _ => inode
    owed :=
      match w.disk.identity path with
      | none => w.owed
      | some id => if w.watcherAvailable then (path, id) :: w.owed else w.owed }

def act [DecidableEq D] : VerifyEvent → VerifyWorld D
  | .start call blobPath =>
    match w.calls.lookup call with
    | some _ => w
    | none => { w with calls := w.calls.insert call ⟨blobPath, .start, false⟩ }
  | .advance call =>
    match w.calls.lookup call with
    | none => w
    | some c => w.verifyStep H call c
  | .fail call =>
    match w.calls.lookup call with
    | none => w
    | some c => w.failStep call c
  | .prepare blobPath outputPath => w.prepare H blobPath outputPath
  | .commit id outputPath =>
    w.whenUnlocked id
      { w with registry :=
          (w.registry.commitHardlinkRegistration id outputPath (w.disk.identity outputPath)).1 }
  | .cancel id outputPath =>
    { w with registry := w.registry.cancelHardlinkRegistration id outputPath }
  | .commitDetach id path => w.commitDetach id path
  | .removeDetached id =>
    if id ∈ w.removals then
      w.whenUnlocked id
        { w with registry := w.registry.removeRecord id, removals := w.removals.erase id }
    else w
  | .mark path => w.mark path
  | .markRemoved path => w.markRemoved path
  | .sweepStart => { w with sweep := w.registry.sweepSnapshot }
  | .sweepNext => w.sweepNext
  | .setWatcher available =>
    { w with watcherAvailable := available, owed := if available then w.owed else [] }
  | .link blobPath outputPath => { w with disk := w.disk.link blobPath outputPath }
  | .write path inode => w.write path inode
  | .unlink path => { w with disk := w.disk.unlink path }

def right [DecidableEq D] (stored : NormalizedPath → D) (blobPath : NormalizedPath) : Bool :=
  hashFile H w.disk blobPath = some (stored blobPath)

def observe [DecidableEq D] (stored : NormalizedPath → D) : VerifyWorld D :=
  { w with calls := FinMap.map (fun _ c =>
      { c with good := c.good || w.right H stored c.blobPath }) w.calls }

def step [DecidableEq D] (stored : NormalizedPath → D) (event : VerifyEvent) : VerifyWorld D :=
  (w.act H event).observe H stored

end VerifyWorld

end Zccache
