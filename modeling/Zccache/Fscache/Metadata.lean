import Zccache.Core.Hash
import Zccache.Fscache.Journal

/-! # The metadata cache

The cache keeps for every file its modification time, its size, a digest of the
content and how far the entry is to be trusted. A file is hashed between two
stats; files may change at any moment, so that an operation is given what it
observes each time it asks for the file.
-/

namespace Zccache

open Unix FinMap

variable {D : Type}

inductive Confidence where
  | low
  | medium
  | high
  deriving DecidableEq

/-- A cache entry. The history keeps whether its digest was taken between two equal stats. -/
structure FileMetadata (D : Type) where
  stat : FileStat
  confidence : Confidence
  lastVerified : ℕ
  contentHash : Option D
  settled : Bool

/-- What a stat returns. -/
inductive StatResult where
  | found (stat : FileStat)
  | notFound
  | failed

/-- One hashing of a file: the stat before, the bytes that were read, and the stat after. -/
structure Attempt where
  pre : FileStat
  read : Text
  post : FileStat

/-- What one lookup observes. An attempt is missing if the file cannot be read. -/
structure Observations where
  stat : StatResult
  first : Option Attempt
  retries : Fin 3 → Option Attempt
  last : Option FileStat

/-- What is saved of an entry. -/
structure PersistedEntry (D : Type) where
  stat : FileStat
  contentHash : D
  settled : Bool

/-- The metadata cache, the change journal and the saved snapshot. -/
structure CacheSystem (D : Type) where
  metadata : Map NormalizedPath (FileMetadata D)
  journal : ChangeJournal
  snapshot : Option (Map NormalizedPath (PersistedEntry D))

namespace FileMetadata

/-- An entry loses trust with time, a minute after it was verified, and half a minute later. -/
def decayed (now : ℕ) (entry : FileMetadata D) : FileMetadata D :=
  { entry with
    confidence :=
      match entry.confidence with
      | .high => if now - entry.lastVerified > 60 * 10 ^ 9 then .medium else .high
      | .medium => if now - entry.lastVerified > 30 * 10 ^ 9 then .low else .medium
      | .low => .low }

def downgraded (entry : FileMetadata D) : FileMetadata D :=
  { entry with confidence := .low }

end FileMetadata

section Hashing

variable (H : Hasher D)

variable (attempt : Attempt)

/-- The digest that an attempt takes. A file of size zero is not read. -/
def Attempt.hash : D :=
  if attempt.pre.size = 0 then H.hashText [] else H.hashText attempt.read

def Attempt.stable : Bool :=
  attempt.pre = attempt.post

def Attempt.entry (now : ℕ) : FileMetadata D where
  stat := attempt.post
  confidence := .high
  lastVerified := now
  contentHash := some (attempt.hash H)
  settled := true

/-- The entry after an unstable first attempt: that of the first stable one of the retries, or an
entry of low trust that joins the first digest to the last stat. -/
def retryEntry (now : ℕ) (first : Attempt) (last : Option FileStat) :
    List (Option Attempt) → Option (FileMetadata D)
  | [] => last.map fun stat =>
    { stat := stat, confidence := .low, lastVerified := now
      contentHash := some (first.hash H), settled := false }
  | none :: _ => none
  | some attempt :: rest =>
    if attempt.stable then some (attempt.entry H now) else retryEntry now first last rest

/-- The entry that hashing a file leaves, if the file can be read. -/
def hashedEntry (now : ℕ) (o : Observations) : Option (FileMetadata D) :=
  o.first.bind fun first =>
    if first.stable then some (first.entry H now)
    else retryEntry H now first o.last [o.retries 0, o.retries 1, o.retries 2]

end Hashing

/-- The seconds and nanoseconds of a time; a time before the epoch has neither. -/
def mtimeComponents (mtime : ℤ) : ℕ × ℕ :=
  (mtime.toNat / 10 ^ 9, mtime.toNat % 10 ^ 9)

/-- Times match if they are equal, or if one of them is a whole second and they are less than the
tolerance apart. -/
def mtimesMatch (toleranceNs : ℕ) (a b : ℤ) : Bool :=
  a = b ||
    toleranceNs ≠ 0 && ((mtimeComponents a).2 = 0 || (mtimeComponents b).2 = 0) &&
      (a.toNat - b.toNat) + (b.toNat - a.toNat) < toleranceNs

namespace CacheSystem

variable (c : CacheSystem D)

def new : CacheSystem D :=
  ⟨∅, .new, none⟩

variable (path : NormalizedPath) (stats : NormalizedPath → Option FileStat) (now : ℕ) (H : Hasher D)
variable (toleranceNs : ℕ)

def get : Option (FileMetadata D) :=
  (c.metadata.lookup path).map (FileMetadata.decayed now)

def insert (path : NormalizedPath) (entry : FileMetadata D) : CacheSystem D :=
  { c with metadata := c.metadata.insert path entry }

def remove : CacheSystem D :=
  { c with metadata := c.metadata.erase path }

def downgrade : CacheSystem D :=
  match c.metadata.lookup path with
  | none => c
  | some entry => c.insert path entry.downgraded

def downgradeAll : CacheSystem D :=
  { c with metadata := FinMap.map (fun _ => FileMetadata.downgraded) c.metadata }

def hashAndInsert (path : NormalizedPath) (now : ℕ) (o : Observations) :
    CacheSystem D × Option D :=
  match hashedEntry H now o with
  | none => (c, none)
  | some entry => (c.insert path entry, entry.contentHash)

/-- A trusted entry whose metadata is that of the file answers; all else is hashed. -/
def lookup (path : NormalizedPath) (now : ℕ) (o : Observations) :
    CacheSystem D × Option D :=
  match c.get path now with
  | none => c.hashAndInsert H path now o
  | some entry =>
    match o.stat with
    | .notFound => (c.remove path, none)
    | .failed => (c, none)
    | .found stat =>
      match entry.contentHash with
      | none => c.hashAndInsert H path now o
      | some hash =>
        if entry.stat = stat ∧ entry.confidence ≠ .low then
          (c.insert path { entry with confidence := .high, lastVerified := now }, some hash)
        else c.hashAndInsert H path now o

def getCachedHashIfStatValid (path : NormalizedPath) (stat : StatResult) :
    Option D :=
  match c.metadata.lookup path, stat with
  | some entry, .found stat =>
    if entry.confidence ≠ .low ∧ mtimesMatch toleranceNs entry.stat.mtime stat.mtime ∧
        entry.stat.size = stat.size then entry.contentHash
    else none
  | _, _ => none

def lookupSince (path : NormalizedPath) (since : Clock)
    (now : ℕ) (fastStat : StatResult) (o : Observations) : CacheSystem D × Option D :=
  let fast :=
    if c.journal.changedSince path since then none
    else c.getCachedHashIfStatValid toleranceNs path fastStat
  match fast with
  | some hash => (c, some hash)
  | none => c.lookup H path now o

def applyChangesWithRemovals (changed removed : List NormalizedPath) : CacheSystem D :=
  let downgraded := changed.foldl downgrade c
  let evicted := removed.foldl remove downgraded
  { evicted with journal := (c.journal.advance (changed ++ removed)).1 }

def applyOverflow : CacheSystem D :=
  { c.downgradeAll with journal := c.journal.markOverflow.1 }

/-- An entry of low trust whose metadata is that of the file is trusted again. -/
def rescanned (path : NormalizedPath)
    (entry : FileMetadata D) : FileMetadata D :=
  if entry.confidence = .low ∧ stats path = some entry.stat then
    { entry with confidence := .high, lastVerified := now }
  else entry

def rescanAll : CacheSystem D :=
  { c with metadata := FinMap.map (rescanned stats now) c.metadata }

def clear : CacheSystem D :=
  { c with metadata := ∅, journal := c.journal.clear.1 }

def cleanupJournal : CacheSystem D :=
  { c with journal := (c.journal.retainPaths c.metadata.keys).1 }

/-- Entries that were not verified for longer than `maxAge` go. -/
def trim (maxAge now : ℕ) : CacheSystem D :=
  { c with
    metadata := FinMap.filter (fun _ entry => now - entry.lastVerified ≤ maxAge) c.metadata }
    |>.cleanupJournal

/-- Candidates go unless they were verified again after they were chosen. -/
def evictCandidates (candidates : List (NormalizedPath × ℕ)) : CacheSystem D :=
  { c with
    metadata := FinMap.filter
      (fun path entry => (path, entry.lastVerified) ∉ candidates) c.metadata }
    |>.cleanupJournal

/-- The entries with a digest are saved, whatever their trust; without any, nothing is written. -/
def saveToDisk : CacheSystem D :=
  let entries := FinMap.filterMap
    (fun _ entry => entry.contentHash.map fun hash => ⟨entry.stat, hash, entry.settled⟩) c.metadata
  if entries.entries.isEmpty then c else { c with snapshot := some entries }

/-- The saved entries come back with medium trust. -/
def loadedEntry (entry : PersistedEntry D) : FileMetadata D where
  stat := entry.stat
  confidence := .medium
  lastVerified := now
  contentHash := some entry.contentHash
  settled := entry.settled

def loadFromDisk : Map NormalizedPath (FileMetadata D) :=
  FinMap.map (fun _ => loadedEntry now) (c.snapshot.getD ∅)

/-- Loaded entries replace those of the running cache. -/
def mergeFrom (other : Map NormalizedPath (FileMetadata D)) : CacheSystem D :=
  { c with metadata := other ∪ c.metadata }

/-- A new process starts with the loaded entries and a new journal. -/
def restart : CacheSystem D :=
  { c with metadata := c.loadFromDisk now, journal := .new }

end CacheSystem

/-- The operations on the cache, with what they observe of the files. -/
inductive CacheSystem.Event where
  | lookup (path : NormalizedPath) (now : ℕ) (o : Observations)
  | lookupSince (toleranceNs : ℕ) (path : NormalizedPath) (since : Clock) (now : ℕ)
      (fastStat : StatResult) (o : Observations)
  | register (path : NormalizedPath)
  | downgrade (path : NormalizedPath)
  | applyChanges (changed removed : List NormalizedPath)
  | applyOverflow
  | rescanAll (stats : NormalizedPath → Option FileStat) (now : ℕ)
  | trim (maxAge now : ℕ)
  | evictCandidates (candidates : List (NormalizedPath × ℕ))
  | remove (path : NormalizedPath)
  | clear
  | save
  | mergeFromDisk (now : ℕ)
  | restart (now : ℕ)

def CacheSystem.step (H : Hasher D) (c : CacheSystem D) : CacheSystem.Event → CacheSystem D
  | .lookup path now o => (c.lookup H path now o).1
  | .lookupSince toleranceNs path since now fastStat o =>
    (c.lookupSince H toleranceNs path since now fastStat o).1
  | .register path => { c with journal := c.journal.register path }
  | .downgrade path => c.downgrade path
  | .applyChanges changed removed => c.applyChangesWithRemovals changed removed
  | .applyOverflow => c.applyOverflow
  | .rescanAll stats now => c.rescanAll stats now
  | .trim maxAge now => c.trim maxAge now
  | .evictCandidates candidates => c.evictCandidates candidates
  | .remove path => c.remove path
  | .clear => c.clear
  | .save => c.saveToDisk
  | .mergeFromDisk now => c.mergeFrom (c.loadFromDisk now)
  | .restart now => c.restart now

end Zccache
