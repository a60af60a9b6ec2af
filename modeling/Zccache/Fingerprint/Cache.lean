import Zccache.Base.Map
import Zccache.Base.PrefixCode
import Zccache.Base.Run
import Zccache.Base.Sort
import Zccache.Core.Hash
import Zccache.Core.NormalizedPath

/-! # Fingerprint caches

A fingerprint cache answers whether the files below a directory are those of
the last successful run. A check stages a snapshot of the files, and a mark
commits the staged snapshot to the cache file. The two caches differ in what a
snapshot keeps of the files.
-/

namespace Zccache.Fingerprint

open Unix StableSort FinMap PrefixCode

abbrev Disk := Map Text FileStat

/-- A time before the epoch is read as the epoch, a later one in 64 bits. -/
def mtimeNs (file : FileStat) : ℕ :=
  file.mtime.toNat % 2 ^ 64

def maxMtimeNs (files : Disk) : ℕ :=
  files.entries.foldl (fun max file => if mtimeNs file.2 > max then mtimeNs file.2 else max) 0

inductive Status where
  | pending
  | success
  | failure
  deriving DecidableEq

/-- The cache file. `F` is what it keeps of the files. -/
structure CacheData (F : Type) where
  status : Status
  timestampNs : ℕ
  files : F
  maxSourceMtimeNs : ℕ
  deriving DecidableEq

inductive RunReason where
  | noCacheFile
  | previousFailure
  | contentChanged
  deriving DecidableEq

inductive CacheDecision where
  | skip
  | run (reason : RunReason)
  deriving DecidableEq

/-- What the two caches do differently. -/
structure Kind (F : Type) where
  fileCount : F → ℕ
  maxMtime : F → Disk → ℕ
  /-- What a snapshot keeps, and whether it differs from what the last one kept. -/
  compare : Option F → Disk → F × Bool

/-- A snapshot, with the files that its check scanned. -/
structure Snapshot (F : Type) where
  data : CacheData F
  disk : Disk

/-- The files, the cache file with its modification time, the pending file and the staged
snapshot. The history keeps the files of the snapshot that was last committed with success, and
whether a failure or an invalidation came after it. -/
structure State (F : Type) where
  disk : Disk
  cacheFile : Option (Snapshot F × ℕ)
  pending : Option (Snapshot F)
  staged : Option (Snapshot F)
  committed : Option Disk
  undisturbed : Bool

namespace State

variable {F : Type}

def start (disk : Disk) : State F where
  disk := disk
  cacheFile := none
  pending := none
  staged := none
  committed := none
  undisturbed := false

def stage (s : State F) (snapshot : Snapshot F) : State F :=
  { s with pending := some snapshot, staged := some snapshot }

def claimed (s : State F) : Option (Snapshot F) :=
  s.staged.or s.pending

variable [DecidableEq F]

def commitPending (s : State F) (claimed : Snapshot F) (status : Status) (now written : ℕ) :
    State F :=
  let stillOurs := s.pending.map Snapshot.data = some claimed.data
  { s with
    cacheFile :=
      some ({ claimed with data := { claimed.data with status := status, timestampNs := now } },
        written)
    pending := if stillOurs then none else s.pending
    staged := none }

/-- A mark without a snapshot is an error and changes nothing. -/
def markSuccess (s : State F) (now written : ℕ) : State F :=
  match s.claimed with
  | none => s
  | some claimed =>
    { s.commitPending claimed .success now written with
      committed := some claimed.disk
      undisturbed := true }

def markFailure (s : State F) (now written : ℕ) : State F :=
  match s.claimed with
  | none => { s with undisturbed := false }
  | some claimed => { s.commitPending claimed .failure now written with undisturbed := false }

omit [DecidableEq F] in
def invalidate (s : State F) : State F :=
  { s with cacheFile := none, pending := none, staged := none, undisturbed := false }

end State

namespace Kind

variable {F : Type} (K : Kind F)

/-- The snapshot in the cache file, if the cache file is newer than all the files and their number
and latest modification time are those of a successful snapshot. -/
def tryMtimeFastPath (s : State F) : Option (Snapshot F) :=
  match s.cacheFile with
  | none => none
  | some (cached, cacheMtime) =>
    if cacheMtime ≤ maxMtimeNs s.disk then none
    else if cached.data.status = .success ∧
        K.fileCount cached.data.files = s.disk.entries.length ∧
        cached.data.maxSourceMtimeNs = maxMtimeNs s.disk then some cached
    else none

def pendingSnapshot (files : F) (disk : Disk) (now : ℕ) : Snapshot F where
  data :=
    { status := .pending, timestampNs := now, files := files
      maxSourceMtimeNs := K.maxMtime files disk }
  disk := disk

def check (s : State F) (now : ℕ) : CacheDecision × State F :=
  match K.tryMtimeFastPath s with
  | some cached => (.skip, { s with staged := some cached })
  | none =>
    let stage (previous : Option F) : State F :=
      s.stage (K.pendingSnapshot (K.compare previous s.disk).1 s.disk now)
    match s.cacheFile with
    | none => (.run .noCacheFile, stage none)
    | some (cached, _) =>
      if cached.data.status = .failure then (.run .previousFailure, stage none)
      else
        (if (K.compare (some cached.data.files) s.disk).2 then .run .contentChanged else .skip,
          stage (some cached.data.files))

end Kind

/-- An edit of the files, or a call of the cache. The calls carry the clock, and a mark also the
modification time that the cache file gets. -/
inductive Event where
  | write (path : Text) (file : FileStat)
  | rename (path new : Text)
  | remove (path : Text)
  | check (now : ℕ)
  | markSuccess (now written : ℕ)
  | markFailure (now written : ℕ)
  | invalidate

/-- A renamed file keeps its metadata. -/
def renamed (disk : Disk) (path new : Text) : Disk :=
  match disk.lookup path with
  | none => disk
  | some file => (disk.erase path).insert new file

def Kind.step {F : Type} [DecidableEq F] (K : Kind F) (s : State F) : Event → State F
  | .write path file => { s with disk := s.disk.insert path file }
  | .rename path new => { s with disk := renamed s.disk path new }
  | .remove path => { s with disk := s.disk.erase path }
  | .check now => (K.check s now).2
  | .markSuccess now written => s.markSuccess now written
  | .markFailure now written => s.markFailure now written
  | .invalidate => s.invalidate

/- The content of a file is a function of its path, modification time and size. -/
variable {D : Type} (H : Hasher D) (contentOf : Text → FileStat → Text)

variable (disk : Disk)

def contentAt (path : Text) : Option Text :=
  (disk.lookup path).map (contentOf path)

/-- What the two-layer cache keeps of a file. -/
structure FileEntry where
  mtimeNs : ℕ
  size : ℕ
  hash : Text
  deriving DecidableEq

def fileEntry (path : Text) (file : FileStat) : FileEntry where
  mtimeNs := mtimeNs file
  size := file.size
  hash := H.toHex (H.hashText (contentOf path file))

def computeAll : Map Text FileEntry :=
  FinMap.map (fileEntry H contentOf) disk

/-- The entry of one file, and whether the content differs from the cached one. Equal metadata
stands for equal content. -/
def checkFile (cached : Option FileEntry) (path : Text) (file : FileStat) : FileEntry × Bool :=
  match cached with
  | none => (fileEntry H contentOf path file, true)
  | some entry =>
    if entry.mtimeNs = mtimeNs file ∧ entry.size = file.size then (entry, false)
    else
      (fileEntry H contentOf path file, (fileEntry H contentOf path file).hash ≠ entry.hash)

def twoLayerCache : Kind (Map Text FileEntry) where
  fileCount files := files.entries.length
  maxMtime files _ := (files.entries.map fun file => file.2.mtimeNs).foldl max 0
  compare
    | none, disk => (computeAll H contentOf disk, true)
    | some cached, disk =>
      let checked := FinMap.map (fun path => checkFile H contentOf (cached.lookup path) path) disk
      (FinMap.map (fun _ => Prod.fst) checked,
        checked.entries.any (fun file => file.2.2) ||
          cached.keys.any fun path => path ∉ checked.keys)

def listing : List (Text × Text) :=
  sortBy Prod.fst (disk.entries.map fun file => (file.1, contentOf file.1 file.2))

def aggregateStream (files : List (Text × Text)) : Text :=
  "zccache-fingerprint-v1" ++ files.flatMap (fun file => file.1 ++ nul :: file.2) ++
    (nul :: "file_count:" ++ leBytes files.length)

def computeAggregateHash : Text :=
  H.toHex (H.hashText (aggregateStream (listing contentOf disk)))

/-- What the hash cache keeps of the files. -/
structure Aggregate where
  hash : Text
  fileCount : ℕ
  deriving DecidableEq

def hashCache : Kind Aggregate where
  fileCount files := files.fileCount
  maxMtime _ disk := maxMtimeNs disk
  compare previous disk :=
    let hash := computeAggregateHash H contentOf disk
    (⟨hash, disk.entries.length⟩,
      match previous with
      | none => true
      | some cached => cached.hash ≠ hash)

end Zccache.Fingerprint
