import Zccache.Daemon.FastHit
import Zccache.Daemon.RequestCache
import Zccache.Fscache.Oracle

/-! # The daemon and the files around it

Files are edited, the watcher reports the edits in batches, and requests hash
files, ask the graph and store what they find, one small step at a time. Digests
come from the metadata cache, which may remember that of an older content.
-/

namespace Zccache

open Unix FinMap

variable {D : Type}

/-- The places that hash inputs and store what the hashes vouch for. -/
inductive Site where
  | hit
  | multiHit
  | multiMiss
  | stagedMiss
  | miss
  | crossRoot
  deriving DecidableEq

namespace Site

/-- The staged store and the check in another worktree read the clock before they hash, the others
at the end. -/
def clockFirst : Site → Bool
  | stagedMiss | crossRoot => true
  | _ => false

def compiles : Site → Bool
  | multiMiss | stagedMiss | miss => true
  | _ => false

def asksGraph : Site → Bool
  | hit | multiHit => true
  | _ => false

end Site

/-- What was hashed for a dependency: the file, and the source header of a precompiled one. -/
structure DependencyHash (D : Type) where
  own : D
  header : Option (NormalizedPath × D)

namespace DependencyHash

variable (h : DependencyHash D)

def hash (H : Hasher D) : D :=
  match h.header with
  | none => h.own
  | some header => H.digest (raw header.2 ++ raw h.own)

/-- The files that were hashed, with their digests. -/
def files (path : NormalizedPath) : List (NormalizedPath × D) :=
  (path, h.own) :: h.header.toList

end DependencyHash

/-- An artifact key, and the files with the hashes that went into it. -/
structure Answer (D : Type) where
  artifactKey : ArtifactKey D
  inputs : List (NormalizedPath × DependencyHash D)
  allowFastHit : Bool

def Answer.files (a : Answer D) : List (NormalizedPath × D) :=
  a.inputs.flatMap fun input => input.2.files input.1

/-- A key that vouches for files since a clock: a fast-hit entry, or a validation of one in another
worktree. -/
structure FastHitEntry (D : Type) where
  clock : Clock
  answer : Answer D

/-- Outputs stored under a key, and what the compiler read to make them. -/
structure StoredArtifact (D : Type) where
  answer : Answer D
  reads : List (NormalizedPath × D)

/-- A request on its way. -/
structure Request (D : Type) where
  site : Site
  key : ContextKey D
  snapClock : Clock
  entryClock : Option Clock
  hashes : Map NormalizedPath (DependencyHash D)
  reads : List (NormalizedPath × D)
  compiled : Bool
  answer : Option (Answer D)

structure World (D : Type) where
  disk : NormalizedPath → Option D
  known : Remembered D
  unreported : List NormalizedPath
  journal : ChangeJournal
  graph : DepGraph D
  fastHits : Map (ContextKey D) (FastHitEntry D)
  validations : Map (D × NormalizedPath) (FastHitEntry D)
  stored : List (StoredArtifact D)
  requests : Map ℕ (Request D)

/-- An edit, an update of the metadata cache by any lookup, a report, or a step of a request. The
header of a dependency is the one that the daemon knows or finds for a precompiled header. -/
inductive Event (D : Type) where
  | edit (path : NormalizedPath) (content : Option D) (sameStat : Bool)
  | remember (path : NormalizedPath) (digest : Option D)
  | journal (step : ChangeJournal.Step)
  | graph (op : GraphOp D)
  | evictFastHit (key : ContextKey D)
  | start (id : ℕ) (site : Site) (key : ContextKey D)
  | readClock (id : ℕ)
  | hashFile (id : ℕ) (path : NormalizedPath) (header : Option NormalizedPath)
  | compilerRead (id : ℕ) (path : NormalizedPath)
  | compilerDone (id : ℕ)
  | check (id : ℕ) (envValue : Name → Option Text) (now : ℕ)
  | update (id : ℕ) (scan : ScanResult) (names : List Name) (envValue : Name → Option Text)
      (now : ℕ)
  | matchInputs (id : ℕ) (entry : RequestCacheEntry D) (requestFp : D) (root : NormalizedPath)
  | publish (id : ℕ)

namespace Request

variable (w : World D) (r : Request D)

def begin (site : Site) (key : ContextKey D) : Request D where
  site := site
  key := key
  snapClock := w.journal.currentClock
  entryClock := none
  hashes := ∅
  reads := []
  compiled := false
  answer := none

def mayReadClock : Bool :=
  r.entryClock.isNone && if r.site.clockFirst then r.hashes.entries.isEmpty else r.answer.isSome

def readClock : Option (Request D) :=
  if r.mayReadClock then some { r with entryClock := some w.journal.currentClock } else none

/-- After the compiler ran, the single-source store hashes only what it has not yet. -/
def hashFile (path : NormalizedPath) (hash : Option (DependencyHash D)) : Option (Request D) :=
  if r.answer.isSome || r.site.clockFirst && r.entryClock.isNone ||
      r.compiled && (r.hashes.lookup path).isSome then none
  else hash.map fun h => { r with hashes := r.hashes.insert path h }

def getHash (H : Hasher D) (path : NormalizedPath) : Option D :=
  (r.hashes.lookup path).map fun h => h.hash H

def compilerRead (path : NormalizedPath) : Option (Request D) :=
  if r.site.compiles && !r.compiled then
    (w.disk path).map fun d => { r with reads := (path, d) :: r.reads }
  else none

def compilerDone : Option (Request D) :=
  if r.site.compiles then some { r with compiled := true } else none

end Request

namespace DepGraph

variable [DecidableEq D]

def keyedFiles (g : DepGraph D) (key : ContextKey D) : List NormalizedPath :=
  ((g.entryFor key).map ContextEntry.inputFiles).getD [] ++
    ((g.getRustcExterns key).getD []).map Prod.snd

/-- The same files with their hashes, as far as there are hashes. -/
def hashedInputs (g : DepGraph D) (key : ContextKey D)
    (hashes : Map NormalizedPath (DependencyHash D)) : List (NormalizedPath × DependencyHash D) :=
  (g.keyedFiles key).filterMap fun p => (hashes.lookup p).map (Prod.mk p)

end DepGraph

namespace World

variable [DecidableEq D] (H : Host D)

def new (disk : NormalizedPath → Option D) : World D where
  disk := disk
  known := ∅
  unreported := []
  journal := .new
  graph := .new
  fastHits := ∅
  validations := ∅
  stored := []
  requests := ∅

variable (w : World D) (id : ℕ)

def hashFile (path : NormalizedPath) : Option D :=
  w.known.hashFile path (w.disk path)

def hashDependency (path : NormalizedPath) (header : Option NormalizedPath) :
    Option (DependencyHash D) :=
  match header with
  | none => (w.hashFile path).map fun own => ⟨own, none⟩
  | some header => do
    let headerHash ← w.hashFile header
    let binaryHash ← w.hashFile path
    some ⟨binaryHash, some (header, headerHash)⟩

def withRequest (f : Request D → Option (Request D)) : World D :=
  match (w.requests.lookup id).bind f with
  | some r => { w with requests := w.requests.insert id r }
  | none => w

/-- The verdict on a request. The single-source path tries the stored key first. -/
def lookupVerdict (r : Request D) (envValue : Name → Option Text) (now : ℕ) :
    DepGraph D × CacheVerdict D :=
  let isFresh path := journalProvesFresh w.journal path r.snapClock
  match r.site with
  | .multiHit =>
    w.graph.checkWithEnv H isFresh (r.getHash H.toHasher) (fun _ => none) r.key now
  | _ =>
    match w.graph.tryFastHitWithEnv H (r.getHash H.toHasher) envValue r.key with
    | (g, some k) => (g, .hit k)
    | (g, none) => g.checkWithEnv H isFresh (r.getHash H.toHasher) envValue r.key now

def check (envValue : Name → Option Text) (now : ℕ) : World D :=
  match w.requests.lookup id with
  | none => w
  | some r =>
    if !r.site.asksGraph || r.answer.isSome then w
    else
      let result := w.lookupVerdict H r envValue now
      let answer := result.2.lookupKey.map fun k =>
        ⟨k, w.graph.hashedInputs r.key r.hashes, true⟩
      { w with
        graph := result.1
        requests := w.requests.insert id { r with answer := answer } }

def update (scan : ScanResult) (names : List Name)
    (envValue : Name → Option Text) (now : ℕ) : World D :=
  match w.requests.lookup id with
  | none => w
  | some r =>
    if !r.compiled || r.answer.isSome then w
    else
      let result := w.graph.updateWithEnv H (r.getHash H.toHasher) envValue r.key scan names now
      let answer := result.2.map fun k =>
        ⟨k, result.1.hashedInputs r.key r.hashes, !scan.hasComputed⟩
      { w with
        graph := result.1
        requests := w.requests.insert id { r with answer := answer } }

/-- The key in another worktree, from the hashes there. -/
def crossRootAnswer (r : Request D) (entry : RequestCacheEntry D) (root : NormalizedPath) :
    Option (Answer D) := do
  let paths ← requestCacheResolvedInputs entry root
  let inputs ← paths.mapM fun p => (r.hashes.lookup p).map (Prod.mk p)
  let logicalKey ← w.graph.logicalContextKey entry.contextKey
  let expected ← w.fastHits.lookup entry.contextKey
  let fileHashes := inputs.map fun input => (input.1, input.2.hash H.toHasher)
  let key := computeArtifactKeyWith H.toHasher logicalKey fileHashes (some root.path)
    normalizeKeyPath
  if key = expected.answer.artifactKey then some ⟨key, inputs, true⟩ else none

/-- A match is answered at once, and remembered with the clock that was read before the hashes. -/
def matchInputs (entry : RequestCacheEntry D) (requestFp : D) (root : NormalizedPath) : World D :=
  match w.requests.lookup id with
  | none => w
  | some r =>
    if r.site ≠ .crossRoot || r.answer.isSome then w
    else
      match w.crossRootAnswer H r entry root, r.entryClock with
      | some a, some clock =>
        { w with
          validations := w.validations.insert (requestFp, root) ⟨clock, a⟩
          requests := w.requests.insert id { r with answer := some a } }
      | _, _ => w

def publish : World D :=
  match w.requests.lookup id with
  | none => w
  | some r =>
    match r.site, r.answer, r.entryClock with
    | .miss, some a, _ =>
      { w with
        stored := ⟨a, r.reads⟩ :: w.stored
        requests := w.requests.erase id }
    | .crossRoot, _, _ => { w with requests := w.requests.erase id }
    | _, some a, some clock =>
      { w with
        fastHits :=
          if a.allowFastHit then w.fastHits.insert r.key ⟨clock, a⟩ else w.fastHits
        requests := w.requests.erase id }
    | _, _, _ => w

def step (w : World D) : Event D → World D
  | .edit path content sameStat =>
    { w with
      disk := Function.update w.disk path content
      known := w.known.edited path sameStat
      unreported := path :: w.unreported }
  | .remember path digest => { w with known := w.known.updated path digest }
  | .journal step =>
    match step with
    | .advance changedPaths =>
      { w with
        journal := w.journal.apply step
        known := w.known.reported changedPaths
        unreported := w.unreported.diff changedPaths }
    | _ => { w with journal := w.journal.apply step }
  | .graph op => { w with graph := w.graph.step H op }
  | .evictFastHit key => { w with fastHits := w.fastHits.erase key }
  | .start id site key =>
    { w with
      -- a request that has to compile first drops the entry it could not use
      fastHits := if site.compiles then w.fastHits.erase key else w.fastHits
      requests := w.requests.insert id (.begin w site key) }
  | .readClock id => w.withRequest id fun r => r.readClock w
  | .hashFile id path header =>
    w.withRequest id fun r => r.hashFile path (w.hashDependency path header)
  | .compilerRead id path => w.withRequest id fun r => r.compilerRead w path
  | .compilerDone id => w.withRequest id fun r => r.compilerDone
  | .check id envValue now => w.check H id envValue now
  | .update id scan names envValue now => w.update H id scan names envValue now
  | .matchInputs id entry requestFp root => w.matchInputs H id entry requestFp root
  | .publish id => w.publish id

def after (disk : NormalizedPath → Option D) (events : List (Event D)) : World D :=
  Run.run (step H) (new disk) events

def Quiescent : Prop :=
  ∀ p ∈ w.unreported, watchIgnored p = true
  deriving Decidable

/-- How a request comes by an answer of a fast-hit entry: in the worktree of the entry, through a
validation in another one, or right after its inputs matched there. -/
inductive Route (D : Type) where
  | sameRoot (key : ContextKey D) (source : NormalizedPath)
  | validated (entry : RequestCacheEntry D) (requestFp : D) (root : NormalizedPath)
  | matched (id : ℕ)

def served : Route D → Option (Answer D)
  | .sameRoot key source =>
    (w.fastHits.lookup key).bind fun entry =>
      if contextFilesFresh w.graph w.journal key source entry.clock then some entry.answer
      else none
  | .validated entry requestFp root => do
    let expected ← w.fastHits.lookup entry.contextKey
    let paths ← requestCacheResolvedInputs entry root
    let validation ← w.validations.lookup (requestFp, root)
    if validation.answer.artifactKey = expected.answer.artifactKey ∧
        paths.all fun p => journalProvesFresh w.journal p validation.clock then
      some validation.answer
    else none
  | .matched id =>
    (w.requests.lookup id).bind fun r => if r.site = .crossRoot then r.answer else none

def sampleDisk : NormalizedPath → Option Text :=
  fun p => if p = .new "/a/m.c" ∨ p = .new "/b/m.c" then some "1" else none

end World

end Zccache
