import Zccache.Context.Separation
import Zccache.Request.GnuArgs

/-! # Rustc compile contexts

The inputs that define a rustc compilation and the key computed from them. The
items of the key are read back uniquely as long as no list holds a tag that can
follow it.
-/

namespace Zccache

open List Unix Framing TaggedSections StableSort

variable {D : Type}

structure RustcCompileContext (D : Type) where
  sourceFile : NormalizedPath
  crateName : Option Text
  crateTypes : List Text
  edition : Option Text
  emitTypes : List Text
  cfgs : List Text
  checkCfgs : List Text
  codegenFlags : List Text
  cargoMetadata : Option Text
  extraFilename : Option Text
  target : Option Text
  capLints : Option Text
  externCrates : List (Text × Text)
  lintFlags : List Text
  unknownFlags : List Text
  remapPathPrefixes : List Text
  envVars : List (Text × Text)
  compilerHash : D
  deriving DecidableEq

def isRustcNativeCpuFlag (flag : Text) : Bool :=
  flag = "target-cpu=native" || flag = "target-feature=native"

/-- Of the path of an extern only the file name counts. -/
def externPathKey (path : Text) : Text :=
  (fileName (components path)).getD path

def dylintCacheInputHashEnv : Text := "ZCCACHE_DYLINT_CACHE_INPUT_HASH"

def assignment (e : Text × Text) : Text :=
  e.1 ++ '=' :: e.2

namespace RustcCompileContext

variable (ctx : RustcCompileContext D) (keyRoot : Option Path) (H : Host D)

def keyRemaps : List Text :=
  if keyRoot.isSome then
    sortTexts (ctx.remapPathPrefixes.map fun remap => normalizeRemapPathPrefixForKey remap keyRoot)
  else ctx.remapPathPrefixes

def selectedEnv : List (Text × Text) :=
  ctx.envVars.filter fun e =>
    !(isVolatileCargoEnvVar e.1 || e.1 = dylintCacheInputHashEnv || isNeverKeyedEnv e.1)

def keyExterns : List Text :=
  ctx.externCrates.map fun e => assignment (e.1, externPathKey e.2)

def linkItems : List Text :=
  "externs".toList :: (ctx.keyExterns ++ "lints".toList ::
    (ctx.lintFlags ++ "unknown".toList ::
      (ctx.unknownFlags ++ "remap".toList ::
        (ctx.keyRemaps keyRoot ++ "env".toList :: ctx.selectedEnv.map assignment))))

def codegenItems : List Text :=
  ctx.codegenFlags ++
    (optional "cargo-metadata".toList ctx.cargoMetadata ++
      (optional "extra-filename".toList ctx.extraFilename ++
        (optional "target".toList ctx.target ++
          (optional "cap-lints".toList ctx.capLints ++ ctx.linkItems keyRoot))))

def keyItems : List Text :=
  normalizeKeyPath ctx.sourceFile.path keyRoot ::
    (optional "crate-name".toList ctx.crateName ++ "crate-types".toList ::
      (ctx.crateTypes ++ (optional "edition".toList ctx.edition ++ "emit".toList ::
        (ctx.emitTypes ++ "cfg".toList ::
          (ctx.cfgs ++ "check-cfg".toList ::
            (ctx.checkCfgs ++ "codegen".toList :: ctx.codegenItems keyRoot))))))

def keyFields (ctx : RustcCompileContext D) (keyRoot : Option Path)
    (nativeCpuSalt : Option Text) : List (Field D) :=
  [text "zccache-rustc-context-key-v4", text "compiler", raw ctx.compilerHash] ++
    (if ctx.codegenFlags.any isRustcNativeCpuFlag then
      [text "native-cpu-host", text (nativeCpuSalt.getD (hostCpuIdentitySalt H))]
    else []) ++
    (ctx.keyItems keyRoot).map text

def keyPreimage (ctx : RustcCompileContext D) (keyRoot : Option Path)
    (nativeCpuSalt : Option Text) : List (Atom D) :=
  framed (ctx.keyFields H keyRoot nativeCpuSalt)

def contextKeyWithRootAndNativeCpuSalt (ctx : RustcCompileContext D)
    (keyRoot : Option Path) (nativeCpuSalt : Option Text) : ContextKey D :=
  ⟨H.digest (ctx.keyPreimage H keyRoot nativeCpuSalt)⟩

def contextTexts : List Text :=
  ctx.crateName.toList ++ ctx.crateTypes ++ ctx.edition.toList ++ ctx.emitTypes ++ ctx.cfgs ++
    ctx.checkCfgs ++ ctx.codegenFlags ++ ctx.cargoMetadata.toList ++ ctx.extraFilename.toList ++
    ctx.target.toList ++ ctx.capLints.toList ++ ctx.externCrates.flatMap (fun e => [e.1, e.2]) ++
    ctx.lintFlags ++ ctx.unknownFlags ++ ctx.remapPathPrefixes ++
    ctx.envVars.flatMap fun e => [e.1, e.2]

def NulFree : Prop :=
  ∀ t ∈ ctx.contextTexts, nul ∉ t
  deriving Decidable

/-- Agreement section by section, with paths and remaps as the key spells them. -/
structure SameSections (keyRoot : Option Path) (ctx ctx' : RustcCompileContext D) : Prop where
  source : normalizeKeyPath ctx.sourceFile.path keyRoot =
    normalizeKeyPath ctx'.sourceFile.path keyRoot
  crateName : ctx.crateName = ctx'.crateName
  crateTypes : ctx.crateTypes = ctx'.crateTypes
  edition : ctx.edition = ctx'.edition
  emitTypes : ctx.emitTypes = ctx'.emitTypes
  cfgs : ctx.cfgs = ctx'.cfgs
  checkCfgs : ctx.checkCfgs = ctx'.checkCfgs
  codegenFlags : ctx.codegenFlags = ctx'.codegenFlags
  cargoMetadata : ctx.cargoMetadata = ctx'.cargoMetadata
  extraFilename : ctx.extraFilename = ctx'.extraFilename
  target : ctx.target = ctx'.target
  capLints : ctx.capLints = ctx'.capLints
  externs : ctx.keyExterns = ctx'.keyExterns
  lintFlags : ctx.lintFlags = ctx'.lintFlags
  unknownFlags : ctx.unknownFlags = ctx'.unknownFlags
  remaps : ctx.keyRemaps keyRoot = ctx'.keyRemaps keyRoot
  env : ctx.selectedEnv = ctx'.selectedEnv

theorem SameSections.symm {keyRoot : Option Path} {ctx ctx' : RustcCompileContext D}
    (h : ctx.SameSections keyRoot ctx') : ctx'.SameSections keyRoot ctx :=
  ⟨h.source.symm, h.crateName.symm, h.crateTypes.symm, h.edition.symm, h.emitTypes.symm,
    h.cfgs.symm, h.checkCfgs.symm, h.codegenFlags.symm, h.cargoMetadata.symm,
    h.extraFilename.symm, h.target.symm, h.capLints.symm, h.externs.symm, h.lintFlags.symm,
    h.unknownFlags.symm, h.remaps.symm, h.env.symm⟩

def codegenTags : List Text :=
  texts ["cargo-metadata", "extra-filename", "target", "cap-lints", "externs"]

/-- No list holds a tag that can follow it, and no variable's name holds an equals sign. -/
structure Delimited (ctx : RustcCompileContext D) : Prop where
  crateTypes : ∀ t ∈ ctx.crateTypes, t ∉ texts ["edition", "emit"]
  emitTypes : "cfg".toList ∉ ctx.emitTypes
  cfgs : "check-cfg".toList ∉ ctx.cfgs
  checkCfgs : "codegen".toList ∉ ctx.checkCfgs
  codegenFlags : ∀ t ∈ ctx.codegenFlags, t ∉ codegenTags
  lintFlags : "unknown".toList ∉ ctx.lintFlags
  unknownFlags : "remap".toList ∉ ctx.unknownFlags
  env : ∀ e ∈ ctx.selectedEnv, '=' ∉ e.1

end RustcCompileContext

section Decode

variable {H : Host D} {keyRoot : Option Path} {nativeCpuSalt : Option Text}
variable {ctx ctx' : RustcCompileContext D}

theorem equals_mem_assignment (e : Text × Text) : '=' ∈ assignment e :=
  mem_append_right _ mem_cons_self

theorem linkItems_inj (hctx : ctx.Delimited) (hctx' : ctx'.Delimited)
    (h : ctx.linkItems keyRoot = ctx'.linkItems keyRoot) :
    ctx.keyExterns = ctx'.keyExterns ∧ ctx.lintFlags = ctx'.lintFlags ∧
      ctx.unknownFlags = ctx'.unknownFlags ∧ ctx.keyRemaps keyRoot = ctx'.keyRemaps keyRoot ∧
      ctx.selectedEnv = ctx'.selectedEnv := by
  have hexts : ∀ ctx : RustcCompileContext D, "lints".toList ∉ ctx.keyExterns := by
    intro ctx hmem
    obtain ⟨e, -, he⟩ := mem_map.mp hmem
    exact absurd (he ▸ equals_mem_assignment _) (by decide)
  -- the assignments hold an equals sign, so the last tag is the last of its kind
  have henv : ∀ ctx : RustcCompileContext D, ∀ t ∈ ctx.selectedEnv.map assignment,
      ¬ t = "env".toList := by
    intro ctx t ht heq
    obtain ⟨e, -, rfl⟩ := mem_map.mp ht
    exact absurd (heq ▸ equals_mem_assignment e) (by decide)
  obtain ⟨-, h⟩ := cons.inj h
  obtain ⟨hext, h⟩ := append_terminator_inj (hexts ctx) (hexts ctx') h
  obtain ⟨hlints, h⟩ := append_terminator_inj hctx.lintFlags hctx'.lintFlags h
  obtain ⟨hunk, h⟩ := append_terminator_inj hctx.unknownFlags hctx'.unknownFlags h
  obtain ⟨hremaps, -, hassignments⟩ :=
    append_last_inj (p := (· = "env".toList)) rfl rfl (henv ctx) (henv ctx') h
  exact ⟨hext, hlints, hunk, hremaps, map_separated_inj hctx.env hctx'.env hassignments⟩

theorem codegenItems_inj (hctx : ctx.Delimited) (hctx' : ctx'.Delimited)
    (h : ctx.codegenItems keyRoot = ctx'.codegenItems keyRoot) :
    ctx.codegenFlags = ctx'.codegenFlags ∧ ctx.cargoMetadata = ctx'.cargoMetadata ∧
      ctx.extraFilename = ctx'.extraFilename ∧ ctx.target = ctx'.target ∧
      ctx.capLints = ctx'.capLints ∧ ctx.linkItems keyRoot = ctx'.linkItems keyRoot := by
  have hlink : ∀ ctx : RustcCompileContext D, Begins (texts ["externs"]) (ctx.linkItems keyRoot) :=
    fun _ => ⟨_, mem_cons_self, _, rfl⟩
  have hcap := fun ctx => (hlink ctx).optional "cap-lints" ctx.capLints
  have htgt := fun ctx => (hcap ctx).optional "target" ctx.target
  have hextra := fun ctx => (htgt ctx).optional "extra-filename" ctx.extraFilename
  have hmeta := fun ctx => (hextra ctx).optional "cargo-metadata" ctx.cargoMetadata
  obtain ⟨hflags, h⟩ := append_begins_inj (hmeta ctx) (hmeta ctx') hctx.codegenFlags
    hctx'.codegenFlags h
  obtain ⟨hcargo, h⟩ := optional_append_inj (hextra ctx) (hextra ctx') (by decide) h
  obtain ⟨hfile, h⟩ := optional_append_inj (htgt ctx) (htgt ctx') (by decide) h
  obtain ⟨htriple, h⟩ := optional_append_inj (hcap ctx) (hcap ctx') (by decide) h
  obtain ⟨hlints, h⟩ := optional_append_inj (hlink ctx) (hlink ctx') (by decide) h
  exact ⟨hflags, hcargo, hfile, htriple, hlints, h⟩

theorem sameSections_of_keyItems (hctx : ctx.Delimited) (hctx' : ctx'.Delimited)
    (h : ctx.keyItems keyRoot = ctx'.keyItems keyRoot) : ctx.SameSections keyRoot ctx' := by
  have htag : ∀ (tag : Text) (rest : List Text), Begins [tag] (tag :: rest) :=
    fun tag rest => ⟨tag, mem_cons_self, rest, rfl⟩
  have hemit := fun rest (ctx : RustcCompileContext D) =>
    (htag "emit" rest).optional "edition" ctx.edition
  obtain ⟨hsrc, h⟩ := cons.inj h
  obtain ⟨hname, h⟩ := optional_append_inj (htag _ _) (htag _ _) (by decide) h
  obtain ⟨-, h⟩ := cons.inj h
  obtain ⟨htypes, h⟩ := append_begins_inj (hemit _ ctx) (hemit _ ctx') hctx.crateTypes
    hctx'.crateTypes h
  obtain ⟨hedition, h⟩ := optional_append_inj (htag _ _) (htag _ _) (by decide) h
  obtain ⟨-, h⟩ := cons.inj h
  obtain ⟨hemit, h⟩ := append_terminator_inj hctx.emitTypes hctx'.emitTypes h
  obtain ⟨hcfgs, h⟩ := append_terminator_inj hctx.cfgs hctx'.cfgs h
  obtain ⟨hcheck, h⟩ := append_terminator_inj hctx.checkCfgs hctx'.checkCfgs h
  obtain ⟨hcg, hmeta, hextra, htgt, hcap, h⟩ := codegenItems_inj hctx hctx' h
  obtain ⟨hexts, hlints, hunk, hremaps, henv⟩ := linkItems_inj hctx hctx' h
  exact ⟨hsrc, hname, htypes, hedition, hemit, hcfgs, hcheck, hcg, hmeta, hextra,
    htgt, hcap, hexts, hlints, hunk, hremaps, henv⟩

theorem nul_notMem_assignment {e : Text × Text} (hname : nul ∉ e.1) (hval : nul ∉ e.2) :
    nul ∉ assignment e := by
  simp only [assignment, mem_append, mem_cons, not_or]
  exact ⟨hname, by decide, hval⟩

theorem nul_notMem_externPathKey {path : Text} (h : nul ∉ path) : nul ∉ externPathKey path := by
  unfold externPathKey fileName
  split
  · next name _ => exact name.property.2.2.2.2
  · exact h

theorem nul_notMem_keyRemaps (h : ∀ t ∈ ctx.remapPathPrefixes, nul ∉ t) :
    ∀ t ∈ ctx.keyRemaps keyRoot, nul ∉ t := by
  intro t ht
  unfold RustcCompileContext.keyRemaps at ht
  split at ht
  · obtain ⟨remap, hremap, rfl⟩ := mem_map.mp (mem_sortBy.mp ht)
    exact nul_notMem_normalizeRemapPathPrefixForKey (h remap hremap) keyRoot
  · exact h t ht

theorem nul_notMem_keyItems (h : ctx.NulFree) : ∀ t ∈ ctx.keyItems keyRoot, nul ∉ t := by
  simp only [RustcCompileContext.NulFree, RustcCompileContext.contextTexts,
    forall_mem_append, forall_mem_flatMap, forall_mem_cons] at h
  obtain ⟨⟨⟨⟨⟨⟨⟨⟨⟨⟨⟨⟨⟨⟨⟨hname, htypes⟩, hedition⟩, hemit⟩, hcfgs⟩, hcheck⟩, hcg⟩, hmeta⟩,
    hextra⟩, htgt⟩, hcap⟩, hexts⟩, hlints⟩, hunk⟩, hremaps⟩, henv⟩ := h
  have hext : ∀ t ∈ ctx.keyExterns, nul ∉ t := by
    refine forall_mem_map.mpr fun e he => ?_
    exact nul_notMem_assignment (hexts e he).1 (nul_notMem_externPathKey (hexts e he).2.1)
  have hvars : ∀ t ∈ ctx.selectedEnv.map assignment, nul ∉ t := by
    refine forall_mem_map.mpr fun e he => ?_
    obtain ⟨hname, hval, -⟩ := henv e (mem_filter.mp he).1
    exact nul_notMem_assignment hname hval
  have htag : ∀ t ∈ texts ["crate-name", "crate-types", "edition", "emit", "cfg", "check-cfg",
      "codegen", "cargo-metadata", "extra-filename", "target", "cap-lints", "externs", "lints",
      "unknown", "remap", "env"], nul ∉ t := by decide
  simp only [texts, map_cons, map_nil, forall_mem_cons] at htag
  obtain ⟨t₁, t₂, t₃, t₄, t₅, t₆, t₇, t₈, t₉, t₁₀, t₁₁, t₁₂, t₁₃, t₁₄, t₁₅, t₁₆, -⟩ := htag
  simp only [RustcCompileContext.keyItems, RustcCompileContext.codegenItems,
    RustcCompileContext.linkItems, forall_mem_cons, forall_mem_append]
  exact ⟨nul_notMem_normalizeKeyPath _ _, forall_mem_optional t₁ hname, t₂, htypes,
    forall_mem_optional t₃ hedition, t₄, hemit, t₅, hcfgs, t₆, hcheck, t₇, hcg,
    forall_mem_optional t₈ hmeta, forall_mem_optional t₉ hextra,
    forall_mem_optional t₁₀ htgt, forall_mem_optional t₁₁ hcap, t₁₂, hext, t₁₃, hlints, t₁₄,
    hunk, t₁₅, nul_notMem_keyRemaps hremaps, t₁₆, hvars⟩

theorem keyFields_nulFree (h : ctx.NulFree)
    (hsalt : nul ∉ nativeCpuSalt.getD (hostCpuIdentitySalt H)) :
    ∀ f ∈ ctx.keyFields H keyRoot nativeCpuSalt, Atom.ch nul ∉ f := by
  intro f hf
  rcases mem_append.mp hf with hf | hf
  · rcases mem_append.mp hf with hf | hf
    · simp only [mem_cons, not_mem_nil, or_false] at hf
      rcases hf with rfl | rfl | rfl
      · exact nul_notMem_text.mpr (by decide)
      · exact nul_notMem_text.mpr (by decide)
      · exact nul_notMem_raw _
    · split at hf
      · simp only [mem_cons, not_mem_nil, or_false] at hf
        rcases hf with rfl | rfl
        · exact nul_notMem_text.mpr (by decide)
        · exact nul_notMem_text.mpr hsalt
      · cases hf
  · obtain ⟨t, ht, rfl⟩ := mem_map.mp hf
    exact nul_notMem_text.mpr (nul_notMem_keyItems h t ht)

/-- A source file may be called like the host tag, but then a section tag comes next. -/
theorem native_clash {salt : Text} {rest : List Text} (hsalt : salt ∉ texts ["crate-name",
    "crate-types"]) : "native-cpu-host".toList :: salt :: rest ≠ ctx.keyItems keyRoot := by
  intro h
  have htail := (cons.inj h).2
  cases hname : ctx.crateName <;>
    rw [hname] at htail <;>
    exact hsalt ((cons.inj htail).1 ▸ by decide)

theorem keyItems_of_keyFields
    (hsalt : nativeCpuSalt.getD (hostCpuIdentitySalt H) ∉ texts ["crate-name", "crate-types"])
    (h : ctx.keyFields H keyRoot nativeCpuSalt = ctx'.keyFields H keyRoot nativeCpuSalt) :
    ctx.keyItems keyRoot = ctx'.keyItems keyRoot := by
  have htexts : ∀ {l l' : List Text}, l.map (text : Text → Field D) = l'.map text → l = l' :=
    fun h => map_injective_iff.mpr (fun _ _ => text_injective) h
  have htail := (cons.inj (cons.inj (cons.inj h).2).2).2
  by_cases hnative : ctx.codegenFlags.any isRustcNativeCpuFlag = true <;>
    by_cases hnative' : ctx'.codegenFlags.any isRustcNativeCpuFlag = true <;>
    simp only [hnative, hnative', if_true, if_false, Bool.false_eq_true] at htail
  · exact htexts (cons.inj (cons.inj htail).2).2
  · exact absurd (htexts (l := "native-cpu-host" :: _ :: _) htail) (native_clash hsalt)
  · exact absurd (htexts (l := "native-cpu-host" :: _ :: _) htail.symm) (native_clash hsalt)
  · exact htexts htail

end Decode

namespace RustcCompileContext

/-- Of two contexts with one pre-image, let one be delimited. They agree section by section
exactly when the other is delimited as well. -/
theorem keyPreimage_separates (H : Host D) (keyRoot : Option Path) (nativeCpuSalt : Option Text)
    (hnul : nul ∉ nativeCpuSalt.getD (hostCpuIdentitySalt H))
    (hsalt : nativeCpuSalt.getD (hostCpuIdentitySalt H) ∉ texts ["crate-name", "crate-types"])
    {ctx ctx' : RustcCompileContext D} (hctx : ctx.NulFree) (hctx' : ctx'.NulFree)
    (hdelimited : ctx'.Delimited)
    (h : ctx.keyPreimage H keyRoot nativeCpuSalt = ctx'.keyPreimage H keyRoot nativeCpuSalt) :
    ctx.SameSections keyRoot ctx' ↔ ctx.Delimited := by
  constructor
  · intro hsame
    obtain ⟨htypes, hemit, hcfgs, hcheck, hcg, hlints, hunk, henv⟩ := hdelimited
    rw [← hsame.crateTypes] at htypes
    rw [← hsame.emitTypes] at hemit
    rw [← hsame.cfgs] at hcfgs
    rw [← hsame.checkCfgs] at hcheck
    rw [← hsame.codegenFlags] at hcg
    rw [← hsame.lintFlags] at hlints
    rw [← hsame.unknownFlags] at hunk
    rw [← hsame.env] at henv
    exact ⟨htypes, hemit, hcfgs, hcheck, hcg, hlints, hunk, henv⟩
  · intro hctxDelimited
    have hflds := framed_injective (keyFields_nulFree hctx hnul) (keyFields_nulFree hctx' hnul) h
    exact sameSections_of_keyItems hctxDelimited hdelimited (keyItems_of_keyFields hsalt hflds)

/-- A library crate without options. -/
def plain (sourceFile : NormalizedPath) (compilerHash : D) : RustcCompileContext D where
  sourceFile := sourceFile
  crateName := none
  crateTypes := ["lib"]
  edition := none
  emitTypes := ["link"]
  cfgs := []
  checkCfgs := []
  codegenFlags := []
  cargoMetadata := none
  extraFilename := none
  target := none
  capLints := none
  externCrates := []
  lintFlags := []
  unknownFlags := []
  remapPathPrefixes := []
  envVars := []
  compilerHash := compilerHash

def sampleCrate : RustcCompileContext Text :=
  .plain (.new "/w/lib.rs") "rustc"

/-- One word as a `--cfg` or as a `--check-cfg`, and an edition or two more crate types. -/
theorem words_taken_for_tags :
    [({ sampleCrate with cfgs := ["check-cfg".toList] },
        { sampleCrate with checkCfgs := ["check-cfg".toList] }),
      ({ sampleCrate with edition := some "2021".toList },
        { sampleCrate with crateTypes := texts ["lib", "edition", "2021"] }),
      ({ sampleCrate with envVars := [("A".toList, "B=C".toList)] },
        { sampleCrate with envVars := [("A=B".toList, "C".toList)] })].Forall fun e =>
      e.1.NulFree ∧ e.2.NulFree ∧
      e.1.keyPreimage Host.transparent none none = e.2.keyPreimage Host.transparent none none ∧
      ¬ e.1.SameSections none e.2 := by
  have hcases : ∀ {a b : RustcCompileContext Text}, a.cfgs ≠ b.cfgs ∨ a.edition ≠ b.edition ∨
      a.selectedEnv ≠ b.selectedEnv → ¬ a.SameSections none b := by
    rintro a b (h | h | h) hsame
    · exact h hsame.cfgs
    · exact h hsame.edition
    · exact h hsame.env
  refine ⟨⟨?_, ?_, ?_, hcases ?_⟩, ⟨?_, ?_, ?_, hcases ?_⟩, ⟨?_, ?_, ?_, hcases ?_⟩⟩
  all_goals decide +kernel

/-- Crates that differ only in how a remapped directory is spelled. -/
def remappedCrate (old : Text) : RustcCompileContext Text :=
  { sampleCrate with
    edition := some "2021"
    remapPathPrefixes := [old ++ "=/y"] }

theorem delimited_remappedCrate (old : Text) : (remappedCrate old).Delimited := by
  constructor <;> simp [remappedCrate, sampleCrate, plain, selectedEnv, texts]

theorem keyPreimage_separates_remappedCrate :
    (remappedCrate "/w/x".toList).SameSections (some (components "/w".toList))
      (remappedCrate "x".toList) := by
  refine (keyPreimage_separates Host.transparent (some (components "/w".toList))
    (some "00".toList) ?_ ?_ ?_ ?_ (delimited_remappedCrate _) ?_).mpr (delimited_remappedCrate _)
  all_goals decide +kernel

end RustcCompileContext

end Zccache
