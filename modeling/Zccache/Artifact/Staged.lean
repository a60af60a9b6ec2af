import Zccache.Artifact.Layout
import Zccache.Base.PrefixCode

/-! # Staged generations

When a staged generation is found in order, and what its name binds: without a
collision among the digests, a key and the name of a generation determine the
outputs and their bytes.
-/

namespace Zccache.Store

open List Codecs Checked FinMap StableSort PrefixCode Option ResolvedArtifactPayload

theorem lt_of_isHexDigit {b : UInt8} (h : isHexDigit b = true) : b < 0x80 := by
  simp only [isHexDigit, Bool.or_eq_true, Bool.and_eq_true, decide_eq_true_eq] at h
  change b.toNat < 128
  change ((48 ≤ b.toNat ∧ b.toNat ≤ 57) ∨ (97 ≤ b.toNat ∧ b.toNat ≤ 102)) ∨
    (65 ≤ b.toNat ∧ b.toNat ≤ 70) at h
  omega

theorem isUtf8_of_hexDigits :
    ∀ {bytes : Content}, (∀ b ∈ bytes, isHexDigit b = true) → isUtf8 bytes = true
  | [], _ => rfl
  | [a], h => by
    have ha := lt_of_isHexDigit (h a mem_cons_self)
    simp [isUtf8, ha]
  | a :: b :: rest, h => by
    have ha := lt_of_isHexDigit (h a mem_cons_self)
    unfold isUtf8
    simp only [ha, ↓reduceIte]
    exact isUtf8_of_hexDigits fun c hc => h c (mem_cons_of_mem a hc)

theorem utf8EncodeChar_of_isHexDigit {b : UInt8} (h : isHexDigit b = true) :
    String.utf8EncodeChar (Char.ofNat b.toNat) = [b] ∧
      Lines.isWhitespace (Char.ofNat b.toNat) = false := by
  have hlt := lt_of_isHexDigit h
  have hb : UInt8.ofNat b.toNat = b := UInt8.ofNat_toNat
  have hall : ∀ n < 128, isHexDigit (UInt8.ofNat n) = true →
      String.utf8EncodeChar (Char.ofNat n) = [UInt8.ofNat n] ∧
        Lines.isWhitespace (Char.ofNat n) = false := by decide +kernel
  simpa only [hb] using hall b.toNat hlt (hb.symm ▸ h)

/-- The name of a generation has no blanks around it. -/
theorem trimText_of_hexDigits {bytes : Content} (h : ∀ b ∈ bytes, isHexDigit b = true) :
    trimText bytes = bytes := by
  set t := bytes.map fun b => Char.ofNat b.toNat
  have hutf8 : utf8 t = bytes := by
    rw [utf8, flatMap_map]
    exact (flatMap_congr fun b hb => (utf8EncodeChar_of_isHexDigit (h b hb)).1).trans
      (flatMap_pure_eq_map id bytes |>.trans (map_id _))
  have hblank : ∀ c ∈ t, Lines.isWhitespace c = false := by
    rw [List.forall_mem_map]
    exact fun b hb => (utf8EncodeChar_of_isHexDigit (h b hb)).2
  have hfront : t.dropWhile Lines.isWhitespace = t :=
    dropWhile_eq_self_iff.mpr fun _ => Bool.eq_false_iff.mp (hblank _ (getElem_mem _))
  have hback : t.rdropWhile Lines.isWhitespace = t :=
    rdropWhile_eq_self_iff.mpr fun _ => Bool.eq_false_iff.mp (hblank _ (getLast_mem _))
  rw [trimText, ← hutf8, Utf8.fromUtf8Lossy_utf8, Lines.trim, hfront, Lines.trimEnd, hback]

def CollisionFree (hasher : ContentHasher) (hashed : List Content) : Prop :=
  ∀ x ∈ hashed, ∀ y ∈ hashed, hasher.hex x = hasher.hex y → x = y

instance (hasher : ContentHasher) (hashed : List Content) :
    Decidable (CollisionFree hasher hashed) :=
  inferInstanceAs (Decidable (∀ x ∈ hashed, ∀ y ∈ hashed, _))

/-- The outputs of a manifest describe these bytes, and the generation is named after them. -/
structure Describes (hasher : ContentHasher) (key : Str) (sizes : List UInt64)
    (generation : Content) (outputs : List StagedOutput) (contents : List Content) : Prop where
  digest : generationDigest hasher key outputs = generation
  count : outputs.length = sizes.length
  metadata : ∀ o ∈ outputs, sizes[o.index.toNat]? = some o.size
  nodup : (outputs.map fun o => o.index.toNat).Nodup
  length_contents : contents.length = sizes.length
  output : ∀ o ∈ outputs, ∃ content, contents[o.index.toNat]? = some content ∧
    content.length = o.size.toNat ∧ hasher.hex content = o.digestHex

/-- The bytes of a file are a manifest of the key and the generation. -/
def IsManifest (key : Str) (generation : Content) (outputs : List StagedOutput)
    (bytes : Content) : Prop :=
  ∃ m rest, stagedManifest.get bytes = some (m, rest) ∧ m.version = stagedManifestVersion ∧
    m.keyHex = key ∧ m.generationHex.bytes.toList = generation ∧ m.outputs.toList = outputs

/-- The files hold a generation that is in order, and its pointer. -/
structure Staged (hasher : ContentHasher) (file : ArtifactPath → Option Content) (key : Str)
    (sizes : List UInt64) (generation : Content) (outputs : List StagedOutput)
    (contents : List Content) : Prop
    extends Describes hasher key sizes generation outputs contents where
  validKey : ValidKey key
  pointer : ∃ text, file (.pointer key) = some text ∧ isUtf8 text = true ∧
    trimText text = generation
  manifest : ∃ bytes, file (.manifest key generation) = some bytes ∧
    IsManifest key generation outputs bytes
  file_output : ∀ i < sizes.length, file (.output key generation i) = contents[i]?

variable {hasher : ContentHasher} {key : Str} {sizes : List UInt64} {generation : Content}
  {outputs : List StagedOutput} {contents : List Content}

theorem indices_perm (hcount : outputs.length = sizes.length)
    (hmeta : ∀ o ∈ outputs, sizes[o.index.toNat]? = some o.size)
    (hnodup : (outputs.map fun o => o.index.toNat).Nodup) :
    (outputs.map fun o => o.index.toNat).Perm (range sizes.length) := by
  apply (subperm_of_subset hnodup _).perm_of_length_le
  · rw [length_map, length_range, hcount]
  · intro i hi
    obtain ⟨o, ho, rfl⟩ := mem_map.mp hi
    exact List.mem_range.mpr (List.getElem?_eq_some_iff.mp (hmeta o ho)).1

namespace Describes

section

variable (h : Describes hasher key sizes generation outputs contents)

include h

theorem isHexDigit_generation : ∀ b ∈ generation, isHexDigit b = true := by
  rw [← h.digest]
  exact hasher.isHexDigit_hex _

theorem validGeneration : ValidGeneration generation := by
  constructor
  · rw [← h.digest]
    exact hasher.length_hex _
  · exact all_eq_true.mpr h.isHexDigit_generation

theorem exists_output {i : ℕ} (hi : i < sizes.length) : ∃ o ∈ outputs, o.index.toNat = i := by
  have hmem := (indices_perm h.count h.metadata h.nodup).mem_iff.mpr (mem_range.mpr hi)
  simpa using hmem

theorem length_digestHex {o : StagedOutput} (ho : o ∈ outputs) :
    o.digestHex.bytes.toList.length = 64 := by
  obtain ⟨content, -, -, hhex⟩ := h.output o ho
  rw [← hhex]
  exact hasher.length_hex content

end

theorem delimits_record :
    Delimits (fun o : StagedOutput => o.digestHex.bytes.toList.length = 64)
      StagedOutput.record := by
  intro o o' ho ho' rest rest' heq
  simp only [StagedOutput.record, append_assoc] at heq
  have hidx := u64.get_put o.index (u64.put o.size ++ (o.digestHex.bytes.toList ++ rest))
  rw [heq, u64.get_put, some.injEq, Prod.mk.injEq] at hidx
  have hsize := u64.get_put o.size (o.digestHex.bytes.toList ++ rest)
  rw [← hidx.2, u64.get_put, some.injEq, Prod.mk.injEq] at hsize
  obtain ⟨hdig, hrest⟩ := append_inj hsize.2 (ho'.trans ho.symm)
  refine ⟨?_, hrest.symm⟩
  obtain ⟨index, size, ⟨digest, hutf8⟩⟩ := o
  obtain ⟨index', size', ⟨digest', hutf8'⟩⟩ := o'
  obtain rfl := hidx.1
  obtain rfl := hsize.1
  obtain rfl : digest' = digest := Vec.ext hdig
  rfl

theorem record_ne_nil (o : StagedOutput) : o.record ≠ [] := by
  intro hnil
  have hlen := congrArg length hnil
  simp [StagedOutput.record] at hlen

variable {outputs' : List StagedOutput} {contents' : List Content}

variable (h : Describes hasher key sizes generation outputs contents)

include h

/-- The name of a generation binds its outputs. -/
theorem outputs_eq (h' : Describes hasher key sizes generation outputs' contents')
    (hfree : CollisionFree hasher [generationRecord key outputs, generationRecord key outputs']) :
    outputs = outputs' := by
  have hhex : hasher.hex (generationRecord key outputs) =
      hasher.hex (generationRecord key outputs') := by
    have hdig := h.digest.trans h'.digest.symm
    unfold generationDigest at hdig
    generalize hasher.hex (generationRecord key outputs) = s at hdig ⊢
    generalize hasher.hex (generationRecord key outputs') = s' at hdig ⊢
    obtain ⟨bytes, hutf8⟩ := s
    obtain ⟨bytes', hutf8'⟩ := s'
    obtain rfl : bytes = bytes' := Vec.ext hdig
    rfl
  have hrec := hfree _ (by simp) _ (by simp) hhex
  apply delimits_record.flatMap_inj record_ne_nil (fun o ho => h.length_digestHex ho)
    fun o ho => h'.length_digestHex ho
  exact append_cancel_left hrec

theorem contents_eq (h' : Describes hasher key sizes generation outputs contents')
    (hfree : CollisionFree hasher (contents ++ contents')) : contents = contents' := by
  apply ext_getElem?
  intro i
  by_cases hi : i < sizes.length
  · obtain ⟨o, ho, rfl⟩ := h.exists_output hi
    obtain ⟨content, hcont, -, hhex⟩ := h.output o ho
    obtain ⟨content', hcont', -, hhex'⟩ := h'.output o ho
    have hmem := mem_append_left contents' (mem_of_getElem? hcont)
    have hmem' := mem_append_right contents (mem_of_getElem? hcont')
    rw [hcont, hcont', hfree _ hmem _ hmem' (hhex.trans hhex'.symm)]
  · have hlen := h.length_contents
    have hlen' := h'.length_contents
    rw [getElem?_eq_none (by omega), getElem?_eq_none (by omega)]

end Describes

namespace Staged

theorem congr {file file' : ArtifactPath → Option Content}
    (h : Staged hasher file key sizes generation outputs contents)
    (hfile : ∀ path : ArtifactPath, path.key = key → file path = file' path) :
    Staged hasher file' key sizes generation outputs contents where
  toDescribes := h.toDescribes
  validKey := h.validKey
  pointer := hfile (.pointer key) rfl ▸ h.pointer
  manifest := hfile (.manifest key generation) rfl ▸ h.manifest
  file_output i hi := hfile (.output key generation i) rfl ▸ h.file_output i hi

end Staged

section Validated

variable {files : ArtifactFiles}

/-- The file of an output has the size and the digest that the manifest says. -/
def Verified (hasher : ContentHasher) (file : ArtifactPath → Option Content) (key : Str)
    (generation : Content) (o : StagedOutput) : Prop :=
  ∃ content, file (.output key generation o.index.toNat) = some content ∧
    content.length = o.size.toNat ∧ hasher.hex content = o.digestHex

theorem loadManifest_eq_ok :
    loadManifest files key generation = .ok outputs ↔
      ∃ bytes, files.lookup (.manifest key generation) = some bytes ∧
        IsManifest key generation outputs bytes := by
  simp only [loadManifest, bind_eq_ok, orFail_eq_ok, require_eq_ok, pure_eq_ok]
  constructor
  · rintro ⟨bytes, hbs, ⟨m, rest⟩, hget, -, ⟨hversion, hkey, hgen⟩, houts⟩
    exact ⟨bytes, hbs, m, rest, hget, hversion, hkey, hgen, houts⟩
  · rintro ⟨bytes, hbs, m, rest, hget, hversion, hkey, hgen, houts⟩
    exact ⟨bytes, hbs, ⟨m, rest⟩, hget, (), ⟨hversion, hkey, hgen⟩, houts⟩

variable {indices : List ℕ}

theorem verifyOutputs_eq_ok {count : ℕ} {seen : List ℕ} :
    verifyOutputs hasher files key generation count seen outputs = .ok indices ↔
      indices = outputs.map (fun o => o.index.toNat) ∧ (∀ i ∈ indices, i < count ∧ i ∉ seen) ∧
        indices.Nodup ∧ ∀ o ∈ outputs, Verified hasher files.lookup key generation o := by
  induction outputs generalizing seen indices with
  | nil =>
    rw [verifyOutputs, pure_eq_ok]
    constructor
    · rintro rfl
      simp
    · rintro ⟨rfl, -⟩
      rfl
  | cons o rest ih =>
    simp only [verifyOutputs, bind_eq_ok, require_eq_ok, orFail_eq_ok, pure_eq_ok, ih]
    constructor
    · rintro ⟨-, ⟨hlt, hseen⟩, content, hcont, -, hsize, -, hdig, indices,
        ⟨rfl, hrest, hnodup, hver⟩, rfl⟩
      refine ⟨rfl, ?_, ?_, ?_⟩
      · simp only [mem_cons, forall_eq_or_imp]
        refine ⟨⟨hlt, hseen⟩, fun i hi => ⟨(hrest i hi).1, fun hmem => ?_⟩⟩
        exact (hrest i hi).2 (mem_cons_of_mem _ hmem)
      · apply nodup_cons.mpr
        exact ⟨fun hmem => (hrest _ hmem).2 mem_cons_self, hnodup⟩
      · simp only [mem_cons, forall_eq_or_imp]
        exact ⟨⟨content, hcont, hsize, hdig⟩, hver⟩
    · rintro ⟨rfl, hidxs, hnodup, hver⟩
      simp only [map_cons, mem_cons, forall_eq_or_imp] at hidxs hver
      rw [map_cons, nodup_cons] at hnodup
      obtain ⟨content, hcont, hsize, hdig⟩ := hver.1
      refine ⟨(), hidxs.1, content, hcont, (), hsize, (), hdig, _,
        ⟨rfl, ?_, hnodup.2, hver.2⟩, rfl⟩
      intro i hi
      obtain ⟨hlt, hseen⟩ := hidxs.2 i hi
      refine ⟨hlt, ?_⟩
      rintro (_ | ⟨_, hmem⟩)
      · exact hnodup.1 hi
      · exact hseen hmem

variable {g : PublishedGeneration}

theorem validateGeneration_eq_ok :
    validateGeneration hasher files key sizes g = .ok indices ↔
      g.outputs.length = sizes.length ∧
        (∀ o ∈ g.outputs, sizes[o.index.toNat]? = some o.size) ∧
        (g.outputs.map fun o => o.index.toNat).Nodup ∧
        (∀ o ∈ g.outputs, Verified hasher files.lookup key g.generation o) ∧
        indices = range sizes.length := by
  simp only [validateGeneration, verifyGenerationOutputs, bind_eq_ok, require_eq_ok, pure_eq_ok,
    verifyOutputs_eq_ok]
  have hsort {l : List ℕ} (hperm : l.Perm (range sizes.length)) :
      sortBy id l = range sizes.length := by
    rw [sortBy_id_eq_of_perm hperm]
    exact sortBy_of_sorted (pairwise_le_range)
  constructor
  · rintro ⟨-, hcount, -, hmeta, _, ⟨rfl, -, hnodup, hver⟩, rfl⟩
    exact ⟨hcount, hmeta, hnodup, hver,
      hsort (indices_perm hcount hmeta hnodup)⟩
  · rintro ⟨hcount, hmeta, hnodup, hver, rfl⟩
    have hperm := indices_perm hcount hmeta hnodup
    refine ⟨(), hcount, (), hmeta, _, ⟨rfl, ?_, hnodup, hver⟩, hsort hperm⟩
    intro i hi
    have hlt := mem_range.mp (hperm.mem_iff.mp hi)
    exact ⟨by omega, not_mem_nil⟩

theorem loadGeneration_eq_ok {text : Content} :
    loadGeneration hasher files key text = .ok g ↔
      isUtf8 text = true ∧ trimText text = g.generation ∧ ValidGeneration g.generation ∧
        (∃ bytes, files.lookup (.manifest key g.generation) = some bytes ∧
          IsManifest key g.generation g.outputs bytes) ∧
        generationDigest hasher key g.outputs = g.generation := by
  simp only [loadGeneration, bind_eq_ok, require_eq_ok, pure_eq_ok, loadManifest_eq_ok]
  constructor
  · rintro ⟨-, hutf8, -, hvalid, outputs, hman, -, hdig, rfl⟩
    exact ⟨hutf8, rfl, hvalid, hman, hdig⟩
  · rintro ⟨hutf8, htrim, hvalid, hman, hdig⟩
    rw [htrim]
    exact ⟨(), hutf8, (), hvalid, _, hman, (), hdig, rfl⟩

theorem loadPublishedGeneration_eq_some :
    loadPublishedGeneration hasher files key = .ok (some g) ↔
      ValidKey key ∧ ∃ text, files.lookup (.pointer key) = some text ∧
        loadGeneration hasher files key text = .ok g := by
  simp only [loadPublishedGeneration, bind_eq_ok, require_eq_ok]
  cases files.lookup (.pointer key) with
  | none | some => simp

theorem exists_contents (hcount : g.outputs.length = sizes.length)
    (hmeta : ∀ o ∈ g.outputs, sizes[o.index.toNat]? = some o.size)
    (hnodup : (g.outputs.map fun o => o.index.toNat).Nodup)
    (hver : ∀ o ∈ g.outputs, Verified hasher files.lookup key g.generation o) :
    ∃ contents : List Content, contents.length = sizes.length ∧
      ∀ i < sizes.length, files.lookup (.output key g.generation i) = contents[i]? := by
  refine ⟨(range sizes.length).map fun i =>
    (files.lookup (.output key g.generation i)).getD [], by simp, fun i hi => ?_⟩
  have hmem := (indices_perm hcount hmeta hnodup).mem_iff.mpr (mem_range.mpr hi)
  obtain ⟨o, ho, rfl⟩ := mem_map.mp hmem
  obtain ⟨content, hcont, -⟩ := hver o ho
  dsimp only at hcont
  rw [getElem?_map, getElem?_range hi, map_some, hcont, getD_some]

theorem validatedStagedGeneration_eq_some :
    validatedStagedGeneration hasher files key sizes = .ok (some (g, indices)) ↔
      (∃ contents, Staged hasher files.lookup key sizes g.generation g.outputs contents) ∧
        indices = range sizes.length := by
  have hbind : validatedStagedGeneration hasher files key sizes = .ok (some (g, indices)) ↔
      loadPublishedGeneration hasher files key = .ok (some g) ∧
        validateGeneration hasher files key sizes g = .ok indices := by
    rw [validatedStagedGeneration, bind_eq_ok]
    constructor
    · rintro ⟨_ | g', hload, h⟩
      · simp at h
      · simp only [bind_eq_ok, pure_eq_ok, some.injEq, Prod.mk.injEq] at h
        obtain ⟨_, hvalidate, rfl, rfl⟩ := h
        exact ⟨hload, hvalidate⟩
    · rintro ⟨hload, hvalidate⟩
      exact ⟨some g, hload, by simp [hvalidate]⟩
  rw [hbind, loadPublishedGeneration_eq_some, validateGeneration_eq_ok]
  constructor
  · rintro ⟨⟨hkey, text, htext, hload⟩, hcount, hmeta, hnodup, hver, hidxs⟩
    obtain ⟨hutf8, htrim, -, hman, hdig⟩ := loadGeneration_eq_ok.mp hload
    obtain ⟨contents, hlen, hfiles⟩ := exists_contents hcount hmeta hnodup hver
    refine ⟨⟨contents, ⟨hdig, hcount, hmeta, hnodup, hlen, fun o ho => ?_⟩, hkey,
      ⟨text, htext, hutf8, htrim⟩, hman, hfiles⟩, hidxs⟩
    rw [← hfiles _ (List.getElem?_eq_some_iff.mp (hmeta o ho)).1]
    exact hver o ho
  · rintro ⟨⟨contents, h⟩, hidxs⟩
    obtain ⟨text, htext, hutf8, htrim⟩ := h.pointer
    refine ⟨⟨h.validKey, text, htext, ?_⟩, h.count, h.metadata, h.nodup, fun o ho => ?_, hidxs⟩
    · exact loadGeneration_eq_ok.mpr ⟨hutf8, htrim, h.validGeneration, h.manifest, h.digest⟩
    · have hfile := h.file_output _ (List.getElem?_eq_some_iff.mp (h.metadata o ho)).1
      obtain ⟨content, hcont, hmatches⟩ := h.output o ho
      exact ⟨content, hfile.trans hcont, hmatches⟩

variable (h : Staged hasher files.lookup key sizes generation outputs contents)

include h

theorem resolveStagedArtifactFiles_of_staged : resolveStagedArtifactFiles hasher files key sizes =
      .ok (some ((range sizes.length).map (.output key generation))) := by
  have hval := validatedStagedGeneration_eq_some (g := ⟨generation, outputs⟩).mpr
    ⟨⟨contents, h⟩, rfl⟩
  rw [resolveStagedArtifactFiles, hval]
  rfl

theorem payloadContents_of_staged :
    payloadContents hasher files key sizes = .ok (some contents) := by
  have hres : resolveArtifactPayloads hasher files key sizes true =
      .ok (some (((range sizes.length).map (.output key generation)).map .file)) := by
    simp only [resolveArtifactPayloads, bind_eq_ok, require_eq_ok, ↓reduceIte]
    exact ⟨(), h.validKey, _, resolveStagedArtifactFiles_of_staged h, rfl⟩
  have hread : (((range sizes.length).map (ArtifactPath.output key generation)).map
      file).mapM (read files) = .ok contents := by
    apply mapM_eq_ok.mpr
    rw [List.map_map, List.forall₂_map_left_iff, List.forall₂_iff_get]
    refine ⟨by rw [length_range, h.length_contents], fun i hi hi' => ?_⟩
    rw [length_range] at hi
    simp only [Function.comp_apply, ResolvedArtifactPayload.read, orFail_eq_ok, List.get_eq_getElem,
      getElem_range]
    rw [h.file_output i hi, List.getElem?_eq_getElem hi']
  simp only [payloadContents, hres, bind_eq_ok]
  exact ⟨_, rfl, map_eq_ok.mpr ⟨contents, hread, rfl⟩⟩

end Validated

end Zccache.Store
