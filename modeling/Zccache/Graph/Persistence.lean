import Zccache.Base.Sort
import Zccache.Graph.RoundTrip

/-! # Snapshot files

A graph is saved as a whole to one primary file that is tagged with the schema
version of the binary. A binary that finds a file of another version moves it
aside, to a sidecar for that version, and reads back the sidecar of its own.
-/

namespace Zccache

open List Unix FinMap StableSort IncludeDirective

variable {D : Type} [DecidableEq D]

/-- How many bytes the encodings of a snapshot and of one of its contexts take. -/
structure SnapshotCodec (D : Type) where
  payloadLen : DepGraphSnapshot D → ℕ
  contextLen : ContextEntrySnapshot D → ℕ

inductive SnapshotContent (D : Type) where
  | snapshot (version : ℕ) (snapshot : DepGraphSnapshot D)
  | damaged

structure SnapshotFile (D : Type) where
  content : SnapshotContent D
  modified : ℕ

/-- Seven days, in nanoseconds. -/
def gcTtl : ℕ :=
  7 * 86400 * 10 ^ 9

def snapshotBudgetBytes : ℕ :=
  256 * 1024 * 1024

def headerSize : ℕ :=
  16

def maxEvictionRounds : ℕ :=
  16

def maxQuarantinedSnapshots : ℕ :=
  2

section Save

variable (codec : SnapshotCodec D)

/-- The oldest contexts go until their sizes make up for the excess. -/
def budgetVictims (excess : ℕ) : List (ContextEntrySnapshot D) → List (ContextKey D)
  | [] => []
  | c :: rest =>
    c.key ::
      if excess ≤ codec.contextLen c then []
      else budgetVictims (excess - codec.contextLen c) rest

def fitToBudget (budgetBytes now : ℕ) : ℕ → DepGraph D → DepGraph D × DepGraphSnapshot D
  | 0, g => (g, g.toSnapshotAt now)
  | rounds + 1, g =>
    let snapshot := g.toSnapshotAt now
    let total := headerSize + codec.payloadLen snapshot
    if total ≤ budgetBytes ∨ snapshot.contexts.isEmpty then (g, snapshot)
    else
      let order := sortBy ContextEntrySnapshot.lastAccessedUnixMs snapshot.contexts
      let victims := budgetVictims codec (total - budgetBytes) order
      fitToBudget budgetBytes now rounds (g.evictContexts victims).1

/-- The graph that is left after trimming, and the file that is written of it. -/
def saveToFile (version now : ℕ) (g : DepGraph D) : DepGraph D × SnapshotFile D :=
  let fitted := fitToBudget codec snapshotBudgetBytes now maxEvictionRounds (g.trimAt gcTtl now).1
  (fitted.1, ⟨.snapshot version fitted.2, now⟩)

end Save

section Load

variable (zeroHash : D)

def ContextEntrySnapshot.fresh (now : ℕ) (c : ContextEntrySnapshot D) : Bool :=
  now - c.lastAccessedUnixMs ≤ min (gcTtl / 1000000) (2 ^ 64 - 1)

/-- Contexts that were not used for too long are not restored. -/
def loadSnapshot (now : ℕ) (snap : DepGraphSnapshot D) : DepGraph D :=
  let kept := snap.contexts.filter (ContextEntrySnapshot.fresh now)
  let g := DepGraph.fromSnapshot zeroHash { snap with contexts := kept }
  if kept.length = snap.contexts.length then g else (g.evictContexts []).1

inductive DepGraphLoadOutcome (D : Type) where
  | loaded (graph : DepGraph D)
  | missing
  | versionMismatch (fileVersion expectedVersion : ℕ)
  | corrupt

def DepGraphLoadOutcome.intoGraph : DepGraphLoadOutcome D → Option (DepGraph D)
  | loaded graph => some graph
  | missing => none
  | versionMismatch _ _ => none
  | corrupt => none

def classifyLoad (version now : ℕ) : Option (SnapshotFile D) → DepGraphLoadOutcome D
  | none => .missing
  | some file =>
    match file.content with
    | .damaged => .corrupt
    | .snapshot fileVersion snap =>
      if fileVersion = version then .loaded (loadSnapshot zeroHash now snap)
      else .versionMismatch fileVersion version

end Load

/-- The directory of the primary file. -/
structure DepGraphDir (D : Type) where
  primary : Option (SnapshotFile D)
  sidecars : Map ℕ (SnapshotFile D)
  corruptSidecar : Option (SnapshotFile D)

namespace DepGraphDir

variable (dir : DepGraphDir D)

def empty : DepGraphDir D :=
  ⟨none, ∅, none⟩

/-- What stands at the destination goes first, even if there is then nothing to move there. -/
def quarantine (version : ℕ) : DepGraphDir D :=
  match dir.primary with
  | none => { dir with sidecars := dir.sidecars.erase version }
  | some file => { dir with primary := none, sidecars := dir.sidecars.insert version file }

def quarantineCorrupt : DepGraphDir D :=
  { dir with primary := none, corruptSidecar := dir.primary }

def recover (zeroHash : D) (version now : ℕ) : Option (DepGraph D) :=
  (classifyLoad zeroHash version now (dir.sidecars.lookup version)).intoGraph

/-- Of the sidecars of other versions the newest two stay. -/
def prune (version : ℕ) : DepGraphDir D :=
  let candidates := dir.sidecars.entries.filter fun s => s.1 ≠ version
  if candidates.length ≤ maxQuarantinedSnapshots then dir
  else
    let newestFirst := sortBy (fun s => OrderDual.toDual s.2.modified) candidates
    { dir with
      sidecars := (newestFirst.drop maxQuarantinedSnapshots).foldl
        (fun sidecars s => sidecars.erase s.1) dir.sidecars }

/-- The directory after the load, and the graph to install, if there is one. -/
def loadForStartup (zeroHash : D) (version now : ℕ) : DepGraphDir D × Option (DepGraph D) :=
  match classifyLoad zeroHash version now dir.primary with
  | .loaded graph => (dir, some graph)
  | .missing => (dir, none)
  | .versionMismatch fileVersion _ =>
    let moved := dir.quarantine fileVersion
    (moved.prune version, moved.recover zeroHash version now)
  | .corrupt =>
    let moved := dir.quarantineCorrupt
    (moved.prune version, moved.recover zeroHash version now)

end DepGraphDir

namespace DepGraph

/-- The graphs would be saved alike: the same files with the same directives, and the same
contexts with all that a snapshot has of them. -/
structure SavedAlike (g g' : DepGraph D) : Prop where
  files : ∀ path, (g.files.lookup path).map (List.map toSnapshot) =
    (g'.files.lookup path).map (List.map toSnapshot)
  contexts : ∀ key, (g.contexts.lookup key).map
      (fun e => e.toSnapshot key ((g.getRustcExterns key).getD [])) =
    (g'.contexts.lookup key).map (fun e => e.toSnapshot key ((g'.getRustcExterns key).getD []))

theorem SavedAlike.refl (g : DepGraph D) : SavedAlike g g :=
  ⟨fun _ => rfl, fun _ => rfl⟩

variable {g : DepGraph D}

theorem SavedAlike.symm {g' : DepGraph D} (h : SavedAlike g g') : SavedAlike g' g :=
  ⟨fun path => (h.files path).symm, fun key => (h.contexts key).symm⟩

theorem SavedAlike.trans {g' g'' : DepGraph D} (h : SavedAlike g g') (h' : SavedAlike g' g'') :
    SavedAlike g g'' :=
  ⟨fun path => (h.files path).trans (h'.files path),
    fun key => (h.contexts key).trans (h'.contexts key)⟩

omit [DecidableEq D] in
@[simp] theorem IncludeDirective.toSnapshot_restore_toSnapshot (d : IncludeDirective) :
    d.toSnapshot.restore.toSnapshot = d.toSnapshot := by
  obtain ⟨kind, path, line⟩ := d
  cases kind <;> rfl

theorem files_foldl_restoreContext (zeroHash : D) (cs : List (ContextEntrySnapshot D))
    (g : DepGraph D) : (cs.foldl (restoreContext zeroHash) g).files = g.files := by
  induction cs generalizing g with
  | nil => rfl
  | cons c cs ih => exact ih _

theorem getRustcExterns_of_lookup {key : ContextKey D} {e : ContextEntry D}
    (h : g.contexts.lookup key = some e) : g.getRustcExterns key = g.rustcExterns.lookup key := by
  rw [getRustcExterns, resolveInstanceKey, h]
  rfl

theorem lookup_files_fromSnapshot (zeroHash : D) (g : DepGraph D) (now : ℕ)
    (path : NormalizedPath) :
    (fromSnapshot zeroHash (g.toSnapshotAt now)).files.lookup path =
      (g.files.lookup path).map (List.map fun d => d.toSnapshot.restore) := by
  have hfold := lookup_foldl_insert ∅
    (FinMap.map (fun _ => List.map fun d => (toSnapshot d).restore) g.files) path
  rw [entries_map, List.foldl_map, lookup_map, AList.lookup_empty, Option.or_none] at hfold
  rw [← hfold, fromSnapshot, files_foldl_restoreContext]
  change AList.lookup path (List.foldl _ ∅ (List.map _ g.files.entries)) = _
  rw [List.foldl_map]
  simp only [NormalizedPath.new_toText, List.map_map]
  rfl

theorem savedAlike_fromSnapshot (zeroHash : D) (g : DepGraph D) (now : ℕ) :
    SavedAlike (fromSnapshot zeroHash (g.toSnapshotAt now)) g := by
  constructor
  · intro path
    rw [lookup_files_fromSnapshot, Option.map_map]
    congr 1
    funext includes
    simp
  · intro key
    obtain ⟨hctxs, hexts⟩ :=
      fromSnapshot_lookup zeroHash (List.Perm.refl (g.toSnapshotAt now).contexts) key
    cases he : g.contexts.lookup key with
    | none =>
      rw [he] at hctxs
      rw [hctxs]
      rfl
    | some e =>
      rw [he] at hctxs
      rw [hctxs, Option.map_some, Option.map_some, getRustcExterns_of_lookup hctxs,
        getRustcExterns_of_lookup he, hexts e he]
      have hgetD : ((g.rustcExterns.lookup key).filter (!·.isEmpty)).getD [] =
          (g.rustcExterns.lookup key).getD [] := by
        rcases g.rustcExterns.lookup key with _ | _ | ⟨_, _⟩ <;> rfl
      rw [hgetD]
      rfl

end DepGraph

variable (zeroHash : D) {g : DepGraph D} {version now : ℕ}

/-- The file holds the graph, under a version. -/
def SnapshotFile.Holds (file : SnapshotFile D) (version : ℕ) (g : DepGraph D) : Prop :=
  ∃ savedAt, file.content = .snapshot version (g.toSnapshotAt savedAt)

/-- No context in the file has expired. -/
def SnapshotFile.fresh (now : ℕ) (file : SnapshotFile D) : Bool :=
  match file.content with
  | .snapshot _ snap => snap.contexts.all (ContextEntrySnapshot.fresh now)
  | .damaged => true

theorem fitToBudget_snd (codec : SnapshotCodec D) (budgetBytes rounds : ℕ) (g : DepGraph D) :
    (fitToBudget codec budgetBytes now rounds g).2 =
      (fitToBudget codec budgetBytes now rounds g).1.toSnapshotAt now := by
  induction rounds generalizing g with
  | zero => rfl
  | succ rounds ih =>
    rw [fitToBudget]
    split
    · rfl
    · exact ih _

/-- What is saved is what the graph is afterwards, whatever had to go. -/
theorem holds_saveToFile (codec : SnapshotCodec D) (version now : ℕ) (g : DepGraph D) :
    (saveToFile codec version now g).2.Holds version (saveToFile codec version now g).1 := by
  refine ⟨now, ?_⟩
  rw [saveToFile, fitToBudget_snd]

theorem loadSnapshot_of_fresh {snap : DepGraphSnapshot D}
    (h : snap.contexts.all (ContextEntrySnapshot.fresh now) = true) :
    loadSnapshot zeroHash now snap = DepGraph.fromSnapshot zeroHash snap := by
  have hkept : snap.contexts.filter (ContextEntrySnapshot.fresh now) = snap.contexts :=
    filter_eq_self.mpr (all_eq_true.mp h)
  rw [loadSnapshot, hkept, if_pos rfl]

theorem classifyLoad_of_holds {file : SnapshotFile D} (h : file.Holds version g)
    (hfresh : file.fresh now = true) :
    ∃ restored, classifyLoad zeroHash version now (some file) = .loaded restored ∧
      restored.SavedAlike g := by
  obtain ⟨savedAt, hcont⟩ := h
  rw [SnapshotFile.fresh, hcont] at hfresh
  refine ⟨_, ?_, DepGraph.savedAlike_fromSnapshot zeroHash g savedAt⟩
  rw [classifyLoad, hcont]
  dsimp only
  rw [if_pos rfl, loadSnapshot_of_fresh zeroHash hfresh]

theorem classifyLoad_of_other {file : SnapshotFile D} {other : ℕ} (now : ℕ)
    (h : file.Holds other g) (hother : other ≠ version) :
    classifyLoad zeroHash version now (some file) = .versionMismatch other version := by
  obtain ⟨savedAt, hcont⟩ := h
  rw [classifyLoad, hcont]
  dsimp only
  rw [if_neg hother]

omit [DecidableEq D] in
theorem DepGraphDir.prune_of_two {dir : DepGraphDir D} {a b : ℕ}
    (h : ∀ v ∈ dir.sidecars, v = a ∨ v = b) : dir.prune version = dir := by
  rw [prune]
  dsimp only
  rw [if_pos]
  have hkeys : ((dir.sidecars.entries.filter fun s => s.1 ≠ version).map Sigma.fst).Nodup :=
    (filter_sublist.map _).nodup dir.sidecars.nodupKeys
  have hsub : (dir.sidecars.entries.filter fun s => s.1 ≠ version).map Sigma.fst ⊆ [a, b] := by
    intro v hv
    obtain ⟨s, hs, rfl⟩ := mem_map.mp hv
    have hmem : s.1 ∈ dir.sidecars := mem_keys_of_mem (mem_filter.mp hs).1
    simpa using h _ hmem
  have hlen := (hkeys.subperm hsub).length_le
  rwa [length_map] at hlen

end Zccache
