import Zccache.Artifact.Copies
import Zccache.Artifact.Store

/-! # Transport snapshots

A store is exported to a new directory: a manifest with the digest of the index, the
index, and a staged generation for every row. An import checks the manifest and the
index and copies every generation once more. A directory is there as a whole or not
at all.
-/

namespace Zccache.Store

open List Codecs Checked FinMap ArtifactStore

structure SnapshotManifest where
  schema : UInt32
  compatibility : Str
  indexDigest : Str

/-- How the manifest of a snapshot is written as text. -/
structure ManifestFormat where
  render : SnapshotManifest → Content
  parse : Content → Option SnapshotManifest
  parse_render : ∀ manifest, parse (render manifest) = some manifest

structure SnapshotReceipt where
  entries : ℕ
  outputs : ℕ

structure SnapshotDir where
  manifest : Option Content
  index : Option Content
  artifacts : ArtifactFiles

/-- The rows of a store, as many as a machine word can count. -/
structure IndexRows where
  rows : Map Str ArtifactIndex
  fits : rows.entries.length < 2 ^ 64

namespace IndexRows

variable (r : IndexRows)

def toVec : Vec (Str × ArtifactIndex) :=
  ⟨r.rows.entries.map fun e => (e.1, e.2), by rw [length_map]; exact r.fits⟩

theorem length_insertMany_le (rows : List (Str × ArtifactIndex)) :
    ((openEmpty .missing).insertMany rows).entries.entries.length ≤ rows.length := by
  have hfold : ∀ m : Map Str ArtifactIndex,
      (rows.foldl (fun entries row => entries.insert row.1 row.2) m).entries.length ≤
        m.entries.length + rows.length := by
    induction rows with
    | nil => exact fun m => le_rfl
    | cons row rows ih =>
      intro m
      have hins := length_insert_le m row.1 row.2
      have hrest := ih (m.insert row.1 row.2)
      rw [foldl_cons, length_cons]
      omega
  rw [entries_insertMany]
  exact (hfold ∅).trans_eq (Nat.zero_add _)

/-- The rows inserted one after the other into an empty store. -/
def ofVec (rows : Vec (Str × ArtifactIndex)) : IndexRows :=
  ⟨((openEmpty .missing).insertMany rows.toList).entries,
    (length_insertMany_le rows.toList).trans_lt rows.fits⟩

theorem mem_toVec {r : IndexRows} {row : Str × ArtifactIndex} :
    row ∈ r.toVec.toList ↔ r.rows.lookup row.1 = some row.2 := by
  rw [← Option.mem_def, AList.mem_lookup_iff]
  constructor
  · intro hmem
    obtain ⟨e, he, rfl⟩ := mem_map.mp hmem
    exact he
  · intro hmem
    exact mem_map.mpr ⟨_, hmem, rfl⟩

theorem nodup_toVec : (r.toVec.toList.map Prod.fst).Nodup := by
  rw [toVec, List.map_map]
  exact r.rows.nodupKeys

@[simp] theorem lookup_ofVec_toVec (key : Str) :
    (ofVec r.toVec).rows.lookup key = r.rows.lookup key := by
  change ((openEmpty .missing).insertMany r.toVec.toList).entries.lookup key = _
  rw [entries_insertMany, toVec, foldl_map]
  refine (lookup_foldl_insert ∅ r.rows key).trans ?_
  rw [AList.lookup_empty, Option.or_none]

end IndexRows

def SnapshotDir.store (dir : SnapshotDir) : Option IndexRows :=
  (dir.index.bind decodeIndexRows).map IndexRows.ofVec

def isUpperCase (b : UInt8) : Bool :=
  0x41 ≤ b && b ≤ 0x5A

def ValidCompatibility (identity : Str) : Prop :=
  identity.bytes.toList.length = 64 ∧
    identity.bytes.toList.all (fun c => isHexDigit c && !isUpperCase c) = true
  deriving Decidable

/-- There is a name and a size for every output, and a mode for every one or for none. -/
def ConsistentCounts (row : ArtifactIndex) : Prop :=
  row.outputNames.toList.length = row.outputSizes.toList.length ∧
    (row.outputModes.toList = [] ∨
      row.outputModes.toList.length = row.outputSizes.toList.length)
  deriving Decidable

section Snapshots

variable (hasher : ContentHasher) (format : ManifestFormat)

def copyRow (source : ArtifactFiles) (layout : SnapshotLayout) (copied : ArtifactFiles × ℕ)
    (row : Str × ArtifactIndex) : Except SnapshotFault (ArtifactFiles × ℕ) := do
  require (ConsistentCounts row.2) .metadataCount
  let files ← copyArtifactGeneration hasher source row.1 row.2.outputSizes copied.1 layout
  pure (files, copied.2 + row.2.outputSizes.toList.length)

def snapshotManifest (compatibility : Str) (index : Content) : SnapshotManifest :=
  ⟨1, compatibility, hasher.hex index⟩

/-- A directory that is there is never replaced. -/
def publishSnapshot (rows : IndexRows) (source : ArtifactFiles) (compatibility : Str)
    (destination : Option SnapshotDir) (layout : SnapshotLayout) :
    Except SnapshotFault (SnapshotReceipt × SnapshotDir) := do
  require (destination.isNone = true) .alreadyExists
  let copied ← rows.toVec.toList.foldlM (copyRow hasher source layout) (∅, 0)
  let index := serialize (IndexRows.ofVec rows.toVec).toVec
  pure (⟨rows.rows.entries.length, copied.2⟩,
    ⟨some (format.render (snapshotManifest hasher compatibility index)), some index, copied.1⟩)

/-- What was prepared is renamed to the destination, or removed. -/
def install (destination : Option SnapshotDir) :
    Except SnapshotFault (SnapshotReceipt × SnapshotDir) →
      Except SnapshotFault SnapshotReceipt × Option SnapshotDir
  | .ok (receipt, dir) => (.ok receipt, some dir)
  | .error fault => (.error fault, destination)

def exportSnapshot (store : IndexRows) (artifacts : ArtifactFiles) (compatibility : Str)
    (destination : Option SnapshotDir) :
    Except SnapshotFault SnapshotReceipt × Option SnapshotDir :=
  install destination do
    require (ValidCompatibility compatibility) .compatibilityIdentity
    publishSnapshot hasher format store artifacts compatibility destination .normalizeLegacy

/-- The rows of a snapshot whose manifest and index are in order. -/
def readSnapshot (source : SnapshotDir) (compatibility : Str) :
    Except SnapshotFault IndexRows := do
  let text ← orFail .notFound source.manifest
  let manifest ← orFail .manifestJson (format.parse text)
  require (manifest.schema = 1 ∧ manifest.compatibility = compatibility) .compatibilityMismatch
  let bytes ← orFail .notFound source.index
  require (hasher.hex bytes = manifest.indexDigest) .indexDigest
  let rows ← orFail .indexUndecodable (decodeIndexRows bytes)
  pure (.ofVec rows)

def importSnapshot (source : SnapshotDir) (compatibility : Str)
    (destination : Option SnapshotDir) :
    Except SnapshotFault SnapshotReceipt × Option SnapshotDir :=
  install destination do
    require (ValidCompatibility compatibility) .compatibilityIdentity
    let store ← readSnapshot hasher format source compatibility
    publishSnapshot hasher format store source.artifacts compatibility destination .stagedOnly

end Snapshots

variable {hasher : ContentHasher} {format : ManifestFormat} {source : ArtifactFiles}
  {compatibility : Str}

/-- The key of a row has a copy of what the source has for it. -/
def CopiedRow (hasher : ContentHasher) (source files : ArtifactFiles)
    (row : Str × ArtifactIndex) : Prop :=
  ∃ c outputs,
    payloadContents hasher source row.1 row.2.outputSizes.toList = .ok (some c.contents) ∧
      HoldsCopy hasher files row.1 row.2.outputSizes.toList c outputs

def Transferable (hasher : ContentHasher) (source : ArtifactFiles) (layout : SnapshotLayout)
    (row : Str × ArtifactIndex) : Prop :=
  ConsistentCounts row.2 ∧ ∀ destination, Fresh destination row.1 →
    ∃ files, copyArtifactGeneration hasher source row.1 row.2.outputSizes destination layout =
        .ok files ∧
      SameElsewhere row.1 destination files ∧ CopiedRow hasher source files row

section Rows

variable {layout : SnapshotLayout} {row : Str × ArtifactIndex} {files : ArtifactFiles}

theorem CopiedRow.congr {files' : ArtifactFiles} (h : CopiedRow hasher source files row)
    (hfile : ∀ path : ArtifactPath, path.key = row.1 → files'.lookup path = files.lookup path) :
    CopiedRow hasher source files' row := by
  obtain ⟨c, outputs, hconts, hholds⟩ := h
  refine ⟨c, outputs, hconts, fun path hpath => ?_, hholds.staged⟩
  rw [hfile path hpath, hholds.file path hpath]

theorem CopiedRow.payloadContents_eq (h : CopiedRow hasher source files row) :
    payloadContents hasher files row.1 row.2.outputSizes.toList =
      payloadContents hasher source row.1 row.2.outputSizes.toList := by
  obtain ⟨c, outputs, hconts, hholds⟩ := h
  rw [hconts, payloadContents_of_staged hholds.staged_lookup]

variable {contents : List Content}

theorem transferable_of_contents (hcounts : ConsistentCounts row.2)
    (h : payloadContents hasher source row.1 row.2.outputSizes.toList = .ok (some contents)) :
    Transferable hasher source .normalizeLegacy row := by
  refine ⟨hcounts, fun destination hfresh => ?_⟩
  obtain ⟨files, hcopy, hsame, c, outputs, rfl, hholds⟩ :=
    copyArtifactGeneration_of_contents h hfresh
  exact ⟨files, hcopy, hsame, c, outputs, h, hholds⟩

theorem transferable_of_staged {generation : Content} {outputs : List StagedOutput}
    (hcounts : ConsistentCounts row.2)
    (h : Staged hasher source.lookup row.1 row.2.outputSizes.toList generation outputs contents) :
    Transferable hasher source layout row := by
  refine ⟨hcounts, fun destination hfresh => ?_⟩
  obtain ⟨files, hcopy, hsame, c, outputs, rfl, hholds⟩ :=
    copyArtifactGeneration_of_staged layout h hfresh
  exact ⟨files, hcopy, hsame, c, outputs, payloadContents_of_staged h, hholds⟩

variable {rows : List (Str × ArtifactIndex)}

theorem copyRows_of_transferable (hnodup : (rows.map Prod.fst).Nodup)
    (hrows : ∀ row ∈ rows, Transferable hasher source layout row) (start : ArtifactFiles × ℕ)
    (hfresh : ∀ row ∈ rows, Fresh start.1 row.1) :
    ∃ copied, rows.foldlM (copyRow hasher source layout) start = .ok copied ∧
      (∀ row ∈ rows, CopiedRow hasher source copied.1 row) ∧
      ∀ path : ArtifactPath, path.key ∉ rows.map Prod.fst →
        copied.1.lookup path = start.1.lookup path := by
  induction rows generalizing start with
  | nil => exact ⟨start, rfl, by simp, fun _ _ => rfl⟩
  | cons row rows ih =>
    rw [map_cons, nodup_cons] at hnodup
    obtain ⟨hcounts, htrans⟩ := hrows row mem_cons_self
    obtain ⟨files, hcopy, hsame, hcopied⟩ := htrans start.1 (hfresh row mem_cons_self)
    have hrest : ∀ row' ∈ rows, Fresh files row'.1 := by
      intro row' hrow' path hpath
      have hne : path.key ≠ row.1 := by
        intro heq
        exact hnodup.1 (heq ▸ hpath ▸ mem_map_of_mem hrow')
      rw [hsame path hne, hfresh row' (mem_cons_of_mem _ hrow') path hpath]
    obtain ⟨copied, hfold, hall, helse⟩ := ih hnodup.2
      (fun row' hrow' => hrows row' (mem_cons_of_mem _ hrow'))
      (files, start.2 + row.2.outputSizes.toList.length) hrest
    refine ⟨copied, ?_, ?_, fun path hpath => ?_⟩
    · rw [foldlM_cons, bind_eq_ok]
      refine ⟨_, ?_, hfold⟩
      simp only [copyRow, bind_eq_ok, require_eq_ok]
      exact ⟨(), hcounts, files, hcopy, rfl⟩
    · simp only [mem_cons, forall_eq_or_imp]
      refine ⟨hcopied.congr fun path hpath => ?_, hall⟩
      exact helse path (hpath ▸ hnodup.1)
    · rw [map_cons, mem_cons, not_or] at hpath
      rw [helse path hpath.2, hsame path hpath.1]

theorem staged_of_copyRows {start copied : ArtifactFiles × ℕ}
    (h : rows.foldlM (copyRow hasher source .stagedOnly) start = .ok copied) :
    ∀ row ∈ rows, ConsistentCounts row.2 ∧ ∃ generation outputs contents,
      Staged hasher source.lookup row.1 row.2.outputSizes.toList generation outputs contents := by
  induction rows generalizing start with
  | nil => simp
  | cons row rows ih =>
    rw [foldlM_cons, bind_eq_ok] at h
    obtain ⟨next, hrow, hrest⟩ := h
    simp only [copyRow, bind_eq_ok, require_eq_ok] at hrow
    obtain ⟨-, hcounts, files, hcopy, -⟩ := hrow
    simp only [mem_cons, forall_eq_or_imp]
    exact ⟨⟨hcounts, staged_of_copyArtifactGeneration hcopy⟩, ih hrest⟩

end Rows

/-- A complete snapshot of the rows, with the bytes that the source has for them. -/
structure IsSnapshot (hasher : ContentHasher) (format : ManifestFormat) (compatibility : Str)
    (rows : IndexRows) (source : ArtifactFiles) (dir : SnapshotDir) : Prop where
  index : dir.index = some (serialize (IndexRows.ofVec rows.toVec).toVec)
  manifest : dir.manifest = some (format.render (snapshotManifest hasher compatibility
    (serialize (IndexRows.ofVec rows.toVec).toVec)))
  copied : ∀ row ∈ rows.toVec.toList, CopiedRow hasher source dir.artifacts row

/-- A directory with the same rows as a store, and for every key the same bytes. -/
structure Restores (hasher : ContentHasher) (rows : IndexRows) (source : ArtifactFiles)
    (dir : SnapshotDir) : Prop where
  store : ∃ restored, dir.store = some restored ∧
    ∀ key, restored.rows.lookup key = rows.rows.lookup key
  contents : ∀ key row, rows.rows.lookup key = some row →
    payloadContents hasher dir.artifacts key row.outputSizes.toList =
      payloadContents hasher source key row.outputSizes.toList

variable {rows : IndexRows} {layout : SnapshotLayout} {dir : SnapshotDir}

theorem IsSnapshot.store_eq (h : IsSnapshot hasher format compatibility rows source dir) :
    dir.store = some (.ofVec (IndexRows.ofVec rows.toVec).toVec) := by
  rw [SnapshotDir.store, h.index, Option.bind_some, decodeIndexRows_serialize]
  rfl

theorem publishSnapshot_of_transferable (format : ManifestFormat) (compatibility : Str)
    (h : ∀ row ∈ rows.toVec.toList, Transferable hasher source layout row) :
    ∃ receipt dir, publishSnapshot hasher format rows source compatibility none layout =
        .ok (receipt, dir) ∧
      IsSnapshot hasher format compatibility rows source dir := by
  obtain ⟨copied, hfold, hcopied, -⟩ := copyRows_of_transferable rows.nodup_toVec h (∅, 0)
    fun _ _ _ _ => rfl
  refine ⟨⟨rows.rows.entries.length, copied.2⟩, ⟨some _, some _, copied.1⟩, ?_, rfl, rfl, hcopied⟩
  simp only [publishSnapshot, bind_eq_ok, require_eq_ok]
  exact ⟨(), rfl, copied, hfold, rfl⟩

theorem staged_of_import {receipt : SnapshotReceipt}
    (h : publishSnapshot hasher format rows source compatibility none .stagedOnly =
      .ok (receipt, dir)) :
    ∀ row ∈ rows.toVec.toList, ConsistentCounts row.2 ∧ ∃ generation outputs contents,
      Staged hasher source.lookup row.1 row.2.outputSizes.toList generation outputs contents := by
  simp only [publishSnapshot, bind_eq_ok] at h
  obtain ⟨-, -, copied, hfold, -⟩ := h
  exact staged_of_copyRows hfold

end Zccache.Store
