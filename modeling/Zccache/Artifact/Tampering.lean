import Zccache.Artifact.Transport

/-! # Damaged snapshots

What was exported is imported as it was. If then one file of the snapshot is changed,
or files of two keys change places, the import fails or brings the same: the manifest
binds the index, the pointer and the name of a generation bind its manifest, and that
binds the outputs. The hash has to tell apart the byte strings at hand.
-/

namespace Zccache.Store

open List Codecs Checked FinMap IndexRows

/-- A change of one file, or an exchange of files of two keys. A file may be deleted or new. -/
inductive Damage where
  | manifest (content : Option Content)
  | index (content : Option Content)
  | artifact (path : ArtifactPath) (content : Option Content)
  | exchange (path path' : ArtifactPath) (keys_ne : path.key ≠ path'.key)

def setFile (files : ArtifactFiles) (path : ArtifactPath) : Option Content → ArtifactFiles
  | some content => files.insert path content
  | none => files.erase path

def SnapshotDir.damaged (dir : SnapshotDir) : Damage → SnapshotDir
  | .manifest content => { dir with manifest := content }
  | .index content => { dir with index := content }
  | .artifact path content => { dir with artifacts := setFile dir.artifacts path content }
  | .exchange path path' _ =>
    { dir with
      artifacts := setFile (setFile dir.artifacts path (dir.artifacts.lookup path')) path'
        (dir.artifacts.lookup path) }

/-- What is hashed for a file: its bytes, and for a manifest the record of its outputs. -/
def hashedFile : ArtifactPath → Content → List Content
  | .manifest key _, bytes =>
    bytes :: ((stagedManifest.get bytes).map fun decoded =>
      generationRecord key decoded.1.outputs.toList).toList
  | _, bytes => [bytes]

def hashedFiles (files : ArtifactFiles) : List Content :=
  files.entries.flatMap fun e => hashedFile e.1 e.2

def SnapshotDir.hashed (dir : SnapshotDir) : List Content :=
  dir.index.toList ++ hashedFiles dir.artifacts

theorem CollisionFree.mono {hasher : ContentHasher} {hashed hashed' : List Content}
    (h : CollisionFree hasher hashed') (hsubset : hashed ⊆ hashed') :
    CollisionFree hasher hashed :=
  fun x hx y hy heq => h x (hsubset hx) y (hsubset hy) heq

section Hashed

variable {files : ArtifactFiles} {path : ArtifactPath} {content : Content}

theorem hashedFile_subset (h : files.lookup path = some content) :
    hashedFile path content ⊆ hashedFiles files := by
  intro x hx
  exact mem_flatMap.mpr ⟨⟨path, content⟩, AList.mem_lookup_iff.mp h, hx⟩

theorem mem_hashedFiles (h : files.lookup path = some content) : content ∈ hashedFiles files := by
  apply hashedFile_subset h
  cases path <;> simp [hashedFile]

variable {hasher : ContentHasher} {key : Str} {sizes : List UInt64} {generation : Content}
  {outputs : List StagedOutput} {contents : List Content}

variable (h : Staged hasher files.lookup key sizes generation outputs contents)

include h

theorem Staged.record_mem : generationRecord key outputs ∈ hashedFiles files := by
  obtain ⟨bytes, hbs, m, rest, hget, -, -, -, rfl⟩ := h.manifest
  apply hashedFile_subset hbs
  simp [hashedFile, hget]

theorem Staged.contents_subset : contents ⊆ hashedFiles files := by
  intro content hcont
  obtain ⟨i, hi, rfl⟩ := mem_iff_getElem.mp hcont
  have hlen := h.length_contents
  have hfile := h.file_output i (by omega)
  rw [getElem?_eq_getElem hi] at hfile
  exact mem_hashedFiles hfile

end Hashed

section Damage

variable (dir : SnapshotDir)

@[simp] theorem lookup_setFile (files : ArtifactFiles) (path path' : ArtifactPath)
    (content : Option Content) :
    (setFile files path content).lookup path' =
      if path' = path then content else files.lookup path' := by
  cases content with
  | none => exact lookup_erase_eq_ite files path path'
  | some content => exact lookup_insert_eq_ite files path path' content

theorem manifest_or_index_damaged (damage : Damage) :
    (dir.damaged damage).manifest = dir.manifest ∨ (dir.damaged damage).index = dir.index := by
  cases damage with
  | manifest content => exact .inr rfl
  | index | artifact | exchange => exact .inl rfl

theorem artifacts_damaged (damage : Damage) (key : Str) :
    ∃ changed, ∀ path : ArtifactPath, path.key = key → path ≠ changed →
      (dir.damaged damage).artifacts.lookup path = dir.artifacts.lookup path := by
  cases damage with
  | manifest | index => exact ⟨.pointer key, fun _ _ _ => rfl⟩
  | artifact changed content =>
    refine ⟨changed, fun path _ hne => ?_⟩
    rw [SnapshotDir.damaged, lookup_setFile, if_neg hne]
  | exchange first second hkeys =>
    by_cases hfirst : first.key = key
    · refine ⟨first, fun path hpath hne => ?_⟩
      have hsecond : path ≠ second := by
        rintro rfl
        exact hkeys (hfirst.trans hpath.symm)
      rw [SnapshotDir.damaged, lookup_setFile, lookup_setFile, if_neg hsecond, if_neg hne]
    · refine ⟨second, fun path hpath hne => ?_⟩
      have hne' : path ≠ first := by
        rintro rfl
        exact hfirst hpath
      rw [SnapshotDir.damaged, lookup_setFile, lookup_setFile, if_neg hne, if_neg hne']

end Damage

variable {hasher : ContentHasher} {format : ManifestFormat} {source : ArtifactFiles}
  {compatibility : Str} {rows : IndexRows} {dir : SnapshotDir}

section Keys

variable {files files' : ArtifactFiles} {key : Str} {sizes : List UInt64} {c : StagedCopy}
  {outputs outputs' : List StagedOutput} {generation : Content} {contents : List Content}

variable {changed : ArtifactPath}

variable (hcopy : HoldsCopy hasher files key sizes c outputs)

include hcopy

/-- With one file changed, the pointer still leads to the copy or to nothing. -/
theorem generation_eq_of_changed
    (hstaged : Staged hasher files'.lookup key sizes generation outputs' contents)
    (hsame : ∀ path : ArtifactPath, path.key = key → path ≠ changed →
      files'.lookup path = files.lookup path) : generation = c.generation := by
  by_cases hpointer : changed = .pointer key
  · obtain ⟨bytes, hbs, -⟩ := hstaged.manifest
    rw [hsame _ rfl (by simp [hpointer]), hcopy.file _ rfl, StagedCopy.file] at hbs
    split at hbs
    · next heq => exact heq
    · cases hbs
  · obtain ⟨text, htext, -, rfl⟩ := hstaged.pointer
    rw [hsame _ rfl (Ne.symm hpointer), hcopy.file _ rfl, StagedCopy.file] at htext
    cases htext
    exact trimText_of_hexDigits hcopy.staged.isHexDigit_generation

theorem contents_eq_of_changed
    (hstaged : Staged hasher files'.lookup key sizes generation outputs' contents)
    (hsame : ∀ path : ArtifactPath, path.key = key → path ≠ changed →
      files'.lookup path = files.lookup path)
    (hfree : CollisionFree hasher (hashedFiles files ++ hashedFiles files')) :
    contents = c.contents := by
  obtain rfl := generation_eq_of_changed hcopy hstaged hsame
  have hold := hcopy.staged_lookup
  have hrecs : [generationRecord key outputs', generationRecord key outputs] ⊆
      hashedFiles files ++ hashedFiles files' := by
    simp [hold.record_mem, hstaged.record_mem]
  obtain rfl := hstaged.toDescribes.outputs_eq hold.toDescribes (hfree.mono hrecs)
  have hconts : contents ++ c.contents ⊆ hashedFiles files ++ hashedFiles files' := by
    apply append_subset.mpr
    exact ⟨subset_append_of_subset_right _ hstaged.contents_subset,
      subset_append_of_subset_left _ hold.contents_subset⟩
  exact hstaged.toDescribes.contents_eq hold.toDescribes (hfree.mono hconts)

end Keys

section Snapshot

theorem IsSnapshot.readSnapshot_eq (h : IsSnapshot hasher format compatibility rows source dir) :
    readSnapshot hasher format dir compatibility =
      .ok (.ofVec (ofVec rows.toVec).toVec) := by
  simp only [readSnapshot, bind_eq_ok, orFail_eq_ok, require_eq_ok]
  exact ⟨_, h.manifest, _, format.parse_render _, (), ⟨rfl, rfl⟩, _, h.index, (), rfl, _,
    decodeIndexRows_serialize _, rfl⟩

variable {damage : Damage}

theorem IsSnapshot.readSnapshot_damaged (h : IsSnapshot hasher format compatibility rows source dir)
    (hfree : CollisionFree hasher (dir.hashed ++ (dir.damaged damage).hashed)) {read : IndexRows}
    (hread : readSnapshot hasher format (dir.damaged damage) compatibility = .ok read) :
    read = .ofVec (ofVec rows.toVec).toVec := by
  simp only [readSnapshot, bind_eq_ok, orFail_eq_ok, require_eq_ok] at hread
  obtain ⟨text, htext, manifest, hparse, -, -, bytes, hbs, -, hdig, decoded, hdec,
    hread⟩ := hread
  have hidx : bytes = serialize (ofVec rows.toVec).toVec := by
    rcases manifest_or_index_damaged dir damage with hman | hidx
    · rw [hman, h.manifest] at htext
      cases htext
      rw [format.parse_render] at hparse
      cases hparse
      apply hfree bytes _ _ _ hdig
      · simp [SnapshotDir.hashed, hbs]
      · simp [SnapshotDir.hashed, h.index]
    · rw [hidx, h.index] at hbs
      exact (Option.some.inj hbs).symm
  rw [hidx, decodeIndexRows_serialize] at hdec
  cases hdec
  exact (pure_eq_ok.mp hread).symm

theorem mem_reread {row : Str × ArtifactIndex} :
    row ∈ (ofVec (ofVec rows.toVec).toVec).toVec.toList ↔
      row ∈ rows.toVec.toList := by
  rw [mem_toVec, mem_toVec, lookup_ofVec_toVec,
    lookup_ofVec_toVec]

variable {imported : SnapshotDir}

theorem IsSnapshot.restores {artifacts : ArtifactFiles} (h : IsSnapshot hasher format compatibility
      (.ofVec (ofVec rows.toVec).toVec) artifacts imported)
    (hconts : ∀ row ∈ rows.toVec.toList,
      payloadContents hasher artifacts row.1 row.2.outputSizes.toList =
        payloadContents hasher source row.1 row.2.outputSizes.toList) :
    Restores hasher rows source imported where
  store := ⟨_, h.store_eq, fun key => by simp only [lookup_ofVec_toVec]⟩
  contents key row hrow := by
    have hmem : (key, row) ∈ rows.toVec.toList := mem_toVec.mpr hrow
    exact (h.copied (key, row) (mem_reread.mpr hmem)).payloadContents_eq.trans
      (hconts (key, row) hmem)

theorem import_of_publish {store : IndexRows} {receipt : SnapshotReceipt}
    (hcompatibility : ValidCompatibility compatibility)
    (hread : readSnapshot hasher format dir compatibility = .ok store)
    (hpub : publishSnapshot hasher format store dir.artifacts compatibility none .stagedOnly =
      .ok (receipt, imported)) :
    importSnapshot hasher format dir compatibility none = (.ok receipt, some imported) := by
  have hok : (do
      require (ValidCompatibility compatibility) SnapshotFault.compatibilityIdentity
      let store ← readSnapshot hasher format dir compatibility
      publishSnapshot hasher format store dir.artifacts compatibility none .stagedOnly) =
        .ok (receipt, imported) := by
    simp only [bind_eq_ok, require_eq_ok]
    exact ⟨(), hcompatibility, store, hread, hpub⟩
  rw [importSnapshot, hok, install]

variable (h : IsSnapshot hasher format compatibility rows source dir)

include h

theorem IsSnapshot.import_ok (hcompatibility : ValidCompatibility compatibility)
    (hcounts : ∀ row ∈ rows.toVec.toList, ConsistentCounts row.2) :
    ∃ receipt imported,
      importSnapshot hasher format dir compatibility none = (.ok receipt, some imported) ∧
        Restores hasher rows source imported := by
  have htrans : ∀ row ∈ (ofVec (ofVec rows.toVec).toVec).toVec.toList,
      Transferable hasher dir.artifacts .stagedOnly row := by
    intro row hrow
    obtain ⟨c, outputs, -, hholds⟩ := h.copied row (mem_reread.mp hrow)
    exact transferable_of_staged (hcounts row (mem_reread.mp hrow)) hholds.staged_lookup
  obtain ⟨receipt, imported, hpub, hsnap⟩ := publishSnapshot_of_transferable
    format compatibility htrans
  refine ⟨receipt, imported, import_of_publish hcompatibility h.readSnapshot_eq hpub, ?_⟩
  exact hsnap.restores fun row hrow => (h.copied row hrow).payloadContents_eq

theorem IsSnapshot.import_damaged
    (hfree : CollisionFree hasher (dir.hashed ++ (dir.damaged damage).hashed)) :
    (∃ fault, importSnapshot hasher format (dir.damaged damage) compatibility none =
        (.error fault, none)) ∨
      ∃ receipt imported, importSnapshot hasher format (dir.damaged damage) compatibility none =
          (.ok receipt, some imported) ∧
        Restores hasher rows source imported := by
  rw [importSnapshot]
  generalize hres : (do
    require (ValidCompatibility compatibility) SnapshotFault.compatibilityIdentity
    let store ← readSnapshot hasher format (dir.damaged damage) compatibility
    publishSnapshot hasher format store (dir.damaged damage).artifacts compatibility none
      .stagedOnly) = result
  cases result with
  | error fault => exact .inl ⟨fault, rfl⟩
  | ok published =>
    obtain ⟨receipt, imported⟩ := published
    refine .inr ⟨receipt, imported, rfl, ?_⟩
    simp only [bind_eq_ok] at hres
    obtain ⟨-, -, store, hread, hpub⟩ := hres
    obtain rfl := h.readSnapshot_damaged hfree hread
    have hstaged := staged_of_import hpub
    have htrans : ∀ row ∈ (ofVec (ofVec rows.toVec).toVec).toVec.toList,
        Transferable hasher (dir.damaged damage).artifacts .stagedOnly row := by
      intro row hrow
      obtain ⟨hcounts, generation, outputs, contents, hrow⟩ := hstaged row hrow
      exact transferable_of_staged hcounts hrow
    obtain ⟨receipt', imported', hpub', hsnap⟩ := publishSnapshot_of_transferable
      format compatibility htrans
    rw [hpub] at hpub'
    cases hpub'
    refine hsnap.restores fun row hrow => ?_
    obtain ⟨-, generation, outputs, contents, hdamaged⟩ := hstaged row (mem_reread.mpr hrow)
    obtain ⟨c, outputs', hconts, hholds⟩ := h.copied row hrow
    obtain ⟨changed, hsame⟩ := artifacts_damaged dir damage row.1
    have hhash : hashedFiles dir.artifacts ++ hashedFiles (dir.damaged damage).artifacts ⊆
        dir.hashed ++ (dir.damaged damage).hashed := by
      intro x hx
      simp only [SnapshotDir.hashed, mem_append] at hx ⊢
      tauto
    rw [payloadContents_of_staged hdamaged, hconts,
      contents_eq_of_changed hholds hdamaged hsame (hfree.mono hhash)]

end Snapshot

/-- A store whose rows have consistent counts and whose payloads can be read is exported, and what
is imported has the same rows and the same bytes for every key. After a change of one file, or an
exchange of files of two keys, the import fails and leaves no directory, or it has the same rows and
bytes. -/
theorem importSnapshot_exportSnapshot (hasher : ContentHasher) (format : ManifestFormat)
    (rows : IndexRows) (source : ArtifactFiles) (compatibility : Str)
    (hcompatibility : ValidCompatibility compatibility)
    (hrows : ∀ key row, rows.rows.lookup key = some row → ConsistentCounts row ∧
      ∃ contents, payloadContents hasher source key row.outputSizes.toList = .ok (some contents)) :
    ∃ receipt exported,
      exportSnapshot hasher format rows source compatibility none = (.ok receipt, some exported) ∧
      (∃ receipt imported,
        importSnapshot hasher format exported compatibility none = (.ok receipt, some imported) ∧
          Restores hasher rows source imported) ∧
      ∀ damage, CollisionFree hasher (exported.hashed ++ (exported.damaged damage).hashed) →
        (∃ fault, importSnapshot hasher format (exported.damaged damage) compatibility none =
            (.error fault, none)) ∨
          ∃ receipt imported,
            importSnapshot hasher format (exported.damaged damage) compatibility none =
                (.ok receipt, some imported) ∧
              Restores hasher rows source imported := by
  have hcounts : ∀ row ∈ rows.toVec.toList, ConsistentCounts row.2 :=
    fun row hrow => (hrows row.1 row.2 (mem_toVec.mp hrow)).1
  have htrans : ∀ row ∈ rows.toVec.toList,
      Transferable hasher source .normalizeLegacy row := by
    intro row hrow
    obtain ⟨hrow, contents, hconts⟩ := hrows row.1 row.2 (mem_toVec.mp hrow)
    exact transferable_of_contents hrow hconts
  obtain ⟨receipt, exported, hpub, hsnap⟩ :=
    publishSnapshot_of_transferable format compatibility htrans
  have hexport : (do
      require (ValidCompatibility compatibility) SnapshotFault.compatibilityIdentity
      publishSnapshot hasher format rows source compatibility none .normalizeLegacy) =
        .ok (receipt, exported) := by
    simp only [bind_eq_ok, require_eq_ok]
    exact ⟨(), hcompatibility, hpub⟩
  refine ⟨receipt, exported, ?_, hsnap.import_ok hcompatibility hcounts,
    fun damage hfree => hsnap.import_damaged hfree⟩
  rw [exportSnapshot, hexport, install]

def hexDigit (n : ℕ) : UInt8 :=
  if n < 10 then UInt8.ofNat (0x30 + n) else UInt8.ofNat (0x57 + n)

theorem isHexDigit_hexDigit : ∀ n < 16, isHexDigit (hexDigit n) = true := by
  decide

def hexDigits (n : ℕ) : Content :=
  (List.range 64).map fun i => hexDigit (n / 16 ^ i % 16)

theorem isHexDigit_hexDigits (n : ℕ) : ∀ b ∈ hexDigits n, isHexDigit b = true := by
  intro b hb
  obtain ⟨i, -, rfl⟩ := mem_map.mp hb
  exact isHexDigit_hexDigit _ (Nat.mod_lt _ (by decide))

def sampleDigest (content : Content) : ℕ :=
  content.foldl (fun n b => n * 257 + b.toNat + 1) 0

def sampleHasher : ContentHasher where
  hex content := ⟨⟨hexDigits (sampleDigest content), by simp [hexDigits]⟩,
    isUtf8_of_hexDigits (isHexDigit_hexDigits _)⟩
  length_hex _ := by simp [hexDigits]
  isHexDigit_hex _ := isHexDigit_hexDigits _

def sampleFormat : ManifestFormat where
  render manifest := (pair u32 (pair str str)).put
    (manifest.schema, manifest.compatibility, manifest.indexDigest)
  parse text := ((pair u32 (pair str str)).getAll text).map fun m => ⟨m.1, m.2.1, m.2.2⟩
  parse_render _ := by
    rw [Codec.getAll_put]
    rfl

def sampleIdentity : Str :=
  sampleHasher.hex []

/-- The keys `a` and `b`. -/
def keyA : Str :=
  ⟨⟨[0x61], by decide⟩, rfl⟩

def keyB : Str :=
  ⟨⟨[0x62], by decide⟩, rfl⟩

def outputRow : ArtifactIndex :=
  LegacyArtifactIndex.upgrade
    ⟨⟨[keyA], by decide⟩, ⟨[2], by decide⟩, .empty, .empty, 0, 2, 1⟩

def sampleRows : IndexRows :=
  ⟨((∅ : Map Str ArtifactIndex).insert keyA outputRow).insert keyB sampleRow, by decide⟩

def sampleFiles : ArtifactFiles :=
  (∅ : ArtifactFiles).insert (.flat keyA 0) [1, 2]

def sampleExport : SnapshotDir :=
  (exportSnapshot sampleHasher sampleFormat sampleRows sampleFiles sampleIdentity none).2.getD
    ⟨none, none, ∅⟩

def sampleDamage : Damage :=
  .exchange (.pointer keyA) (.pointer keyB) (by decide)

theorem sampleRows_readable (key : Str) (row : ArtifactIndex)
    (h : sampleRows.rows.lookup key = some row) : ConsistentCounts row ∧
      ∃ contents, payloadContents sampleHasher sampleFiles key row.outputSizes.toList =
        .ok (some contents) := by
  have hmem := AList.mem_lookup_iff.mp h
  have hentries : sampleRows.rows.entries = [⟨keyB, sampleRow⟩, ⟨keyA, outputRow⟩] := rfl
  simp only [hentries, mem_cons, not_mem_nil, or_false] at hmem
  rcases hmem with hrow | hrow
  · cases hrow
    exact ⟨by decide, [], by decide +kernel⟩
  · cases hrow
    exact ⟨by decide, [[1, 2]], by decide +kernel⟩

theorem importSnapshot_exportSnapshot_sample :
    CollisionFree sampleHasher
        (sampleExport.hashed ++ (sampleExport.damaged sampleDamage).hashed) ∧
      (∃ receipt imported,
        importSnapshot sampleHasher sampleFormat sampleExport sampleIdentity none =
            (.ok receipt, some imported) ∧
          Restores sampleHasher sampleRows sampleFiles imported) ∧
      ((∃ fault, importSnapshot sampleHasher sampleFormat (sampleExport.damaged sampleDamage)
            sampleIdentity none = (.error fault, none)) ∨
        ∃ receipt imported, importSnapshot sampleHasher sampleFormat
              (sampleExport.damaged sampleDamage) sampleIdentity none =
            (.ok receipt, some imported) ∧
          Restores sampleHasher sampleRows sampleFiles imported) := by
  obtain ⟨receipt, exported, hexport, hround, hdamage⟩ := importSnapshot_exportSnapshot
    sampleHasher sampleFormat sampleRows sampleFiles sampleIdentity (by decide +kernel)
    sampleRows_readable
  have hsample : sampleExport = exported := by
    rw [sampleExport, hexport]
    rfl
  have hfree : CollisionFree sampleHasher
      (sampleExport.hashed ++ (sampleExport.damaged sampleDamage).hashed) := by
    decide +kernel
  rw [hsample] at hfree ⊢
  exact ⟨hfree, hround, hdamage sampleDamage hfree⟩

end Zccache.Store
