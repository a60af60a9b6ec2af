import Zccache.Artifact.Staged
import Zccache.Base.Traverse

/-! # Copies of generations

A snapshot has for every key one staged generation, whatever the layout of the
source, and of the key no other file. An artifact whose bytes can be read is
copied, and the copy has those bytes.
-/

namespace Zccache.Store

open List Codecs Checked FinMap

variable {hasher : ContentHasher} {source destination : ArtifactFiles} {key : Str}
  {generation : Content} {outputs : List StagedOutput} {contents : List Content}

/-- A staged generation whose pointer is its name. -/
structure StagedCopy where
  generation : Content
  manifest : Content
  contents : List Content

def StagedCopy.file (c : StagedCopy) : ArtifactPath → Option Content
  | .pointer _ => some c.generation
  | .manifest _ generation => if generation = c.generation then some c.manifest else none
  | .output _ generation i => if generation = c.generation then c.contents[i]? else none
  | .pack _ => none
  | .flat _ _ => none

/-- The key has nothing but a copy, and the copy is in order. -/
structure HoldsCopy (hasher : ContentHasher) (files : ArtifactFiles) (key : Str)
    (sizes : List UInt64) (c : StagedCopy) (outputs : List StagedOutput) : Prop where
  file : ∀ path : ArtifactPath, path.key = key → files.lookup path = c.file path
  staged : Staged hasher c.file key sizes c.generation outputs c.contents

def Fresh (files : ArtifactFiles) (key : Str) : Prop :=
  ∀ path : ArtifactPath, path.key = key → files.lookup path = none

def SameElsewhere (key : Str) (files files' : ArtifactFiles) : Prop :=
  ∀ path : ArtifactPath, path.key ≠ key → files'.lookup path = files.lookup path

/-- The copy succeeds, leaves other keys alone and holds these bytes. -/
def CopiesTo (hasher : ContentHasher) (destination : ArtifactFiles) (key : Str)
    (sizes : List UInt64) (contents : List Content) (files : ArtifactFiles) : Prop :=
  SameElsewhere key destination files ∧
    ∃ c outputs, c.contents = contents ∧ HoldsCopy hasher files key sizes c outputs

variable {sizes : List UInt64} {c : StagedCopy}

theorem HoldsCopy.staged_lookup {files : ArtifactFiles}
    (h : HoldsCopy hasher files key sizes c outputs) :
    Staged hasher files.lookup key sizes c.generation outputs c.contents :=
  h.staged.congr fun path hpath => (h.file path hpath).symm

theorem Describes.staged_copy {manifest : Content}
    (h : Describes hasher key sizes generation outputs contents) (hkey : ValidKey key)
    (hman : IsManifest key generation outputs manifest) :
    Staged hasher (StagedCopy.file ⟨generation, manifest, contents⟩) key sizes generation outputs
      contents where
  toDescribes := h
  validKey := hkey
  pointer := ⟨generation, rfl, isUtf8_of_hexDigits h.isHexDigit_generation,
    trimText_of_hexDigits h.isHexDigit_generation⟩
  manifest := ⟨manifest, if_pos rfl, hman⟩
  file_output _ _ := if_pos rfl

theorem publishSnapshotPointer_of_staged
    (hstaged : Staged hasher c.file key sizes c.generation outputs c.contents)
    (hfile : ∀ path : ArtifactPath, path.key = key → path ≠ .pointer key →
      destination.lookup path = c.file path) :
    ∃ files, publishSnapshotPointer hasher destination key c.generation sizes = .ok files ∧
      SameElsewhere key destination files ∧ HoldsCopy hasher files key sizes c outputs := by
  have hsame : SameElsewhere key destination (destination.insert (.pointer key) c.generation) := by
    intro path hpath
    apply AList.lookup_insert_ne
    rintro rfl
    exact hpath rfl
  have hholds : HoldsCopy hasher (destination.insert (.pointer key) c.generation) key sizes c
      outputs := by
    refine ⟨fun path hpath => ?_, hstaged⟩
    rw [lookup_insert_eq_ite]
    split
    · next heq => rw [heq, StagedCopy.file]
    · next hne => exact hfile path hpath hne
  refine ⟨_, ?_, hsame, hholds⟩
  rw [publishSnapshotPointer, bind_eq_ok]
  exact ⟨_, resolveStagedArtifactFiles_of_staged hholds.staged_lookup, rfl⟩

section StagedSource

theorem copySnapshotFiles {paths : List ArtifactPath}
    (h : ∀ path ∈ paths, (source.lookup path).isSome = true) (destination : ArtifactFiles) :
    ∃ files, paths.foldlM (copySnapshotFile source) destination = .ok files ∧
      ∀ path, files.lookup path =
        if path ∈ paths then source.lookup path else destination.lookup path := by
  induction paths generalizing destination with
  | nil => exact ⟨destination, rfl, fun path => by simp⟩
  | cons first paths ih =>
    obtain ⟨content, hcont⟩ := Option.isSome_iff_exists.mp (h first mem_cons_self)
    obtain ⟨files, hfiles, hlook⟩ := ih (fun path hpath => h path (mem_cons_of_mem _ hpath))
      (destination.insert first content)
    refine ⟨files, ?_, fun path => ?_⟩
    · rw [foldlM_cons, bind_eq_ok]
      refine ⟨_, ?_, hfiles⟩
      simp only [copySnapshotFile, bind_eq_ok, orFail_eq_ok, pure_eq_ok]
      exact ⟨content, hcont, rfl⟩
    · rw [hlook, lookup_insert_eq_ite]
      by_cases hfirst : path = first
      · subst hfirst
        rw [if_pos rfl, if_pos mem_cons_self, hcont, ite_self]
      · simp [hfirst]

variable {sizes : List UInt64}

theorem copyStagedGeneration_of_staged
    (h : Staged hasher source.lookup key sizes generation outputs contents)
    (hfresh : Fresh destination key) :
    ∃ files, copyStagedGeneration hasher source key sizes destination = .ok (some files) ∧
      CopiesTo hasher destination key sizes contents files := by
  obtain ⟨manifest, hman, hismanifest⟩ := h.manifest
  have hlen := h.length_contents
  have hout : ∀ i < sizes.length, source.lookup (.output key generation i) = contents[i]? :=
    h.file_output
  have hsome : ∀ path ∈ (range sizes.length).map (ArtifactPath.output key generation) ++
      [.manifest key generation], (source.lookup path).isSome = true := by
    intro path hpath
    simp only [mem_append, mem_map, mem_range, mem_singleton] at hpath
    rcases hpath with ⟨i, hi, rfl⟩ | rfl
    · rw [hout i hi, getElem?_eq_getElem (by omega)]
      rfl
    · rw [hman]
      rfl
  obtain ⟨copied, hcopied, hlook⟩ := copySnapshotFiles hsome destination
  have hcopy : ∀ path : ArtifactPath, path.key = key → path ≠ .pointer key →
      copied.lookup path = StagedCopy.file ⟨generation, manifest, contents⟩ path := by
    rintro path rfl hpointer
    rw [hlook, hfresh path rfl]
    cases path with
    | pointer key => exact absurd rfl hpointer
    | manifest key generation' =>
      by_cases hgen : generation' = generation
      · subst hgen
        simpa [StagedCopy.file, ArtifactPath.key] using hman
      · simp [StagedCopy.file, hgen]
    | output key generation' i =>
      by_cases hgen : generation' = generation
      · subst hgen
        by_cases hi : i < sizes.length
        · simpa [StagedCopy.file, hi, ArtifactPath.key] using hout i hi
        · simp [StagedCopy.file, hi, hlen]
      · simp [StagedCopy.file, hgen, Ne.symm hgen]
    | pack | flat => simp [StagedCopy.file]
  obtain ⟨files, hpub, hsame, hholds⟩ := publishSnapshotPointer_of_staged
    (c := ⟨generation, manifest, contents⟩)
    (h.toDescribes.staged_copy h.validKey hismanifest) hcopy
  refine ⟨files, ?_, fun path hpath => ?_, ⟨_, _, rfl, hholds⟩⟩
  · have hval := validatedStagedGeneration_eq_some (g := ⟨generation, outputs⟩).mpr
      ⟨⟨contents, h⟩, rfl⟩
    rw [copyStagedGeneration, bind_eq_ok]
    refine ⟨_, hval, ?_⟩
    simp only [bind_eq_ok, map_eq_ok]
    exact ⟨copied, hcopied, files, hpub, rfl⟩
  · rw [hsame path hpath, hlook, if_neg]
    intro hmem
    simp only [mem_append, mem_map, mem_range, mem_singleton] at hmem
    rcases hmem with ⟨i, -, rfl⟩ | rfl
    all_goals exact hpath rfl

theorem copyStagedGeneration_eq_none
    (h : validatedStagedGeneration hasher source key sizes = .ok none) :
    copyStagedGeneration hasher source key sizes destination = .ok none := by
  rw [copyStagedGeneration, h]
  rfl

theorem staged_of_copyArtifactGeneration {sizes : Vec UInt64} {files : ArtifactFiles}
    (h : copyArtifactGeneration hasher source key sizes destination .stagedOnly = .ok files) :
    ∃ generation outputs contents,
      Staged hasher source.lookup key sizes.toList generation outputs contents := by
  rw [copyArtifactGeneration, bind_eq_ok] at h
  obtain ⟨copied, hcopied, h⟩ := h
  rw [copyStagedGeneration, bind_eq_ok] at hcopied
  obtain ⟨_ | ⟨g, indices⟩, hval, hcopied⟩ := hcopied
  · rw [pure_eq_ok] at hcopied
    subst hcopied
    simp at h
  · obtain ⟨⟨contents, hstaged⟩, -⟩ := validatedStagedGeneration_eq_some.mp hval
    exact ⟨g.generation, g.outputs, contents, hstaged⟩

theorem copyArtifactGeneration_of_staged {sizes : Vec UInt64} (layout : SnapshotLayout)
    (h : Staged hasher source.lookup key sizes.toList generation outputs contents)
    (hfresh : Fresh destination key) :
    ∃ files, copyArtifactGeneration hasher source key sizes destination layout = .ok files ∧
      CopiesTo hasher destination key sizes.toList contents files := by
  obtain ⟨files, hcopy, hcopies⟩ := copyStagedGeneration_of_staged h hfresh
  refine ⟨files, ?_, hcopies⟩
  rw [copyArtifactGeneration, bind_eq_ok]
  exact ⟨some files, hcopy, rfl⟩

end StagedSource

section LegacySource

variable {sizes : List UInt64} {payloads : List ResolvedArtifactPayload}

theorem lengths_of_resolved {find : UInt64 × ℕ → Option ResolvedArtifactPayload}
    (hfind : ∀ s payload, find s = some payload →
      ∀ content, payload.read source = .ok content → content.length = s.1.toNat) {n : ℕ}
    (hres : (sizes.zipIdx n).mapM find = some payloads)
    (hread : List.Forall₂ (fun payload content => payload.read source = .ok content) payloads
      contents) : contents.map length = sizes.map UInt64.toNat := by
  induction sizes generalizing n payloads contents with
  | nil =>
    cases hres
    cases hread
    rfl
  | cons size sizes ih =>
    obtain ⟨payload, rest, hpay, hrest, rfl⟩ := Traverse.mapM_cons_eq_some.mp hres
    obtain ⟨content, contents, hcont, hreads, rfl⟩ := forall₂_cons_left_iff.mp hread
    rw [map_cons, map_cons, ih hrest hreads, hfind _ _ hpay _ hcont]

theorem lengths_of_legacy
    (hres : (resolvePackPayloads source key sizes).or (resolveFlatPayloads source key sizes) =
      some payloads) (hread : payloads.mapM (ResolvedArtifactPayload.read source) = .ok contents) :
    contents.map length = sizes.map UInt64.toNat := by
  rw [mapM_eq_ok] at hread
  rw [Option.or_eq_some_iff] at hres
  rcases hres with hpack | ⟨-, hflat⟩
  · simp only [resolvePackPayloads, Option.bind_eq_bind, Option.bind_eq_some_iff] at hpack
    obtain ⟨data, -, count, -, hpack⟩ := hpack
    split at hpack
    · cases hpack
    · refine lengths_of_resolved ?_ hpack hread
      intro s payload hpay content hcont
      obtain ⟨bytes, -, hbs⟩ := Option.bind_eq_some_iff.mp hpay
      split at hbs
      · cases hbs
      · next hsize =>
        cases hbs
        cases hcont
        exact not_not.mp hsize
  · refine lengths_of_resolved ?_ hflat hread
    intro s payload hpay content hcont
    obtain ⟨bytes, hfile, hbs⟩ := Option.bind_eq_some_iff.mp hpay
    split at hbs
    · cases hbs
    · next hsize =>
      cases hbs
      rw [ResolvedArtifactPayload.read, orFail_eq_ok, hfile] at hcont
      cases hcont
      exact not_not.mp hsize

variable {sizes : Vec UInt64}

theorem mem_stagedOutputs {o : StagedOutput}
    (ho : o ∈ (stagedOutputs hasher sizes contents).toList) :
    ∃ h : o.index.toNat < sizes.toList.length, o.size = sizes.toList[o.index.toNat] ∧
      o.digestHex = hasher.hex (contents.getD o.index.toNat []) := by
  obtain ⟨i, hi, rfl⟩ := mem_mapIdx.mp ho
  have hfits := sizes.fits
  have hidx : (UInt64.ofNat i).toNat = i := Nat.mod_eq_of_lt (by omega)
  simpa [hidx] using hi

theorem indices_stagedOutputs :
    (stagedOutputs hasher sizes contents).toList.map (fun o => o.index.toNat) =
      range sizes.toList.length := by
  have hfits := sizes.fits
  apply ext_getElem
  · simp [stagedOutputs]
  · intro i hi hi'
    rw [length_range] at hi'
    simp only [stagedOutputs, Vec.toList_mapIdx, getElem_map, getElem_mapIdx,
      getElem_range]
    exact Nat.mod_eq_of_lt (by omega)

theorem describes_stagedOutputs
    (hlens : contents.map length = sizes.toList.map UInt64.toNat) :
    Describes hasher key sizes.toList
      (generationDigest hasher key (stagedOutputs hasher sizes contents).toList)
      (stagedOutputs hasher sizes contents).toList contents where
  digest := rfl
  count := by simp [stagedOutputs]
  metadata o ho := by
    obtain ⟨hlt, hsize, -⟩ := mem_stagedOutputs ho
    rw [getElem?_eq_getElem hlt, hsize]
  nodup := by
    rw [indices_stagedOutputs]
    exact nodup_range
  length_contents := by simpa using congrArg length hlens
  output o ho := by
    obtain ⟨hlt, hsize, hdig⟩ := mem_stagedOutputs ho
    have hcount : contents.length = sizes.toList.length := by
      simpa using congrArg length hlens
    have hlt' : o.index.toNat < contents.length := by omega
    refine ⟨contents[o.index.toNat], getElem?_eq_getElem hlt', ?_, ?_⟩
    · have hget := congrArg (fun l => l[o.index.toNat]?) hlens
      simpa [getElem?_eq_getElem hlt, getElem?_eq_getElem hlt', hsize] using hget
    · rw [hdig, getD_eq_getElem?_getD, getElem?_eq_getElem hlt', Option.getD_some]

theorem lookup_written (hfresh : Fresh destination key) (generation manifest : Content)
    (contents : List Content) {path : ArtifactPath} (hpath : path.key = key)
    (hpointer : path ≠ .pointer key) :
    ((contents.zipIdx.foldl (fun files c => files.insert (.output key generation c.2) c.1)
      destination).insert (.manifest key generation) manifest).lookup path =
        StagedCopy.file ⟨generation, manifest, contents⟩ path := by
  have hinjective : Function.Injective (ArtifactPath.output key generation) :=
    fun i j h => (ArtifactPath.output.inj h).2.2
  have hnone := hfresh path hpath
  subst hpath
  rw [lookup_insert_eq_ite]
  cases path with
  | pointer key => exact absurd rfl hpointer
  | manifest key generation' =>
    rw [lookup_foldl_zipIdx_ne (fun _ => by simp), hnone]
    simp [StagedCopy.file, ArtifactPath.key]
  | output key generation' i =>
    by_cases heq : generation' = generation
    · subst heq
      refine (lookup_foldl_zipIdx hinjective contents 0 destination i).trans ?_
      simp [StagedCopy.file, ArtifactPath.key, hnone]
    · rw [lookup_foldl_zipIdx_ne (fun _ => by simp [heq]), hnone]
      simp [StagedCopy.file, heq]
  | pack | flat =>
    rw [lookup_foldl_zipIdx_ne (fun _ => by simp), hnone]
    simp [StagedCopy.file]

theorem stageContents_of_lengths (hasher : ContentHasher)
    (hlens : contents.map length = sizes.toList.map UInt64.toNat) (hkey : ValidKey key)
    (hfresh : Fresh destination key) :
    ∃ files, stageContents hasher key sizes contents destination = .ok files ∧
      CopiesTo hasher destination key sizes.toList contents files := by
  have hget := stagedManifest.get_put ⟨stagedManifestVersion, key,
    hasher.hex (generationRecord key (stagedOutputs hasher sizes contents).toList),
    stagedOutputs hasher sizes contents⟩ []
  rw [append_nil] at hget
  obtain ⟨files, hpub, hsame, hholds⟩ := publishSnapshotPointer_of_staged
    (c := ⟨_, _, contents⟩)
    ((describes_stagedOutputs hlens).staged_copy hkey ⟨_, [], hget, rfl, rfl, rfl, rfl⟩)
    fun path => lookup_written hfresh _ _ contents
  refine ⟨files, ?_, fun path hpath => ?_, ⟨_, _, rfl, hholds⟩⟩
  · simp only [stageContents, bind_eq_ok, require_eq_ok]
    exact ⟨(), hlens, hpub⟩
  · rw [hsame path hpath, AList.lookup_insert_ne, lookup_foldl_zipIdx_ne]
    · rintro i rfl
      exact hpath rfl
    · rintro rfl
      exact hpath rfl

end LegacySource

theorem copyArtifactGeneration_of_contents {sizes : Vec UInt64}
    (h : payloadContents hasher source key sizes.toList = .ok (some contents))
    (hfresh : Fresh destination key) :
    ∃ files, copyArtifactGeneration hasher source key sizes destination .normalizeLegacy =
        .ok files ∧
      CopiesTo hasher destination key sizes.toList contents files := by
  have hconts := h
  rw [payloadContents, bind_eq_ok] at h
  obtain ⟨_ | payloads, hresolve, hread⟩ := h
  · simp at hread
  simp only [map_eq_ok] at hread
  obtain ⟨_, hread, heq⟩ := hread
  obtain rfl := Option.some.inj heq
  simp only [resolveArtifactPayloads, bind_eq_ok, require_eq_ok, ↓reduceIte] at hresolve
  obtain ⟨-, hkey, staged, hstaged, hresolve⟩ := hresolve
  rw [resolveStagedArtifactFiles, bind_eq_ok] at hstaged
  obtain ⟨_ | ⟨g, indices⟩, hval, hstaged⟩ := hstaged
  · obtain rfl := pure_eq_ok.mp hstaged
    have hlegacy := pure_eq_ok.mp hresolve
    obtain ⟨files, hstage, hcopies⟩ := stageContents_of_lengths hasher
      (lengths_of_legacy hlegacy hread) hkey hfresh
    refine ⟨files, ?_, hcopies⟩
    rw [copyArtifactGeneration, bind_eq_ok]
    refine ⟨none, copyStagedGeneration_eq_none hval, ?_⟩
    simp only [bind_eq_ok, require_eq_ok, orFail_eq_ok]
    refine ⟨(), nofun, some payloads, ?_, payloads, rfl, _, hread, hstage⟩
    rw [resolveArtifactPayloads, bind_eq_ok]
    exact ⟨(), require_eq_ok.mpr hkey, congrArg Except.ok hlegacy⟩
  · obtain ⟨⟨contents', hstaged'⟩, -⟩ := validatedStagedGeneration_eq_some.mp hval
    have heq := (payloadContents_of_staged hstaged').symm.trans hconts
    obtain rfl := Option.some.inj (Except.ok.inj heq)
    exact copyArtifactGeneration_of_staged _ hstaged' hfresh

end Zccache.Store
