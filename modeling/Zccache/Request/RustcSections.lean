import Mathlib.Data.List.TakeWhile
import Zccache.Request.RustcOptions

/-! # What the rustc key keeps

Nothing that a plainly given command line says is dropped from the sections of
its key or merged in them. Where its lint flags and remapped prefixes do not
contradict each other, the sections determine what it means to rustc.
-/

namespace Zccache

open List Unix Framing StableSort LastWins RustcCompileContext

variable {D Lint : Type}

def rustcContext (cwd : Path) (env : Env) (compilerHash : D) (plainRustc : Bool)
    (args : List Text) : RustcCompileContext D :=
  .fromParsedArgsWithDriver (parseRustcArgs args cwd) env compilerHash plainRustc

def rustcContextKey (H : Host D) (cwd : Path) (env : Env) (compilerHash : D) (plainRustc : Bool)
    (keyRoot : Option Path) (nativeCpuSalt : Option Text) (args : List Text) : ContextKey D :=
  (rustcContext cwd env compilerHash plainRustc args).contextKeyWithRootAndNativeCpuSalt H keyRoot
    nativeCpuSalt

def isCacheableRustc (cacheTestBins : Bool) (args : List Text) : Bool :=
  match parseRustcPlan args cacheTestBins with
  | .cacheable _ _ => true
  | .nonCacheable _ => false

/-- The entries of the lists of the key that can be taken for a tag. -/
def RustcAction.words : RustcAction → List Text
  | .crateType t => t.splitOn ','
  | .emit t => (t.splitOn ',').map (beforeFirst '=')
  | .cfg t | .checkCfg t | .codegen t => [t]
  | _ => []

def rustcTagWords : List Text :=
  texts ["edition", "emit", "cfg", "check-cfg", "codegen"] ++ codegenTags

/-- The old prefix is an absolute path in its normal spelling. -/
def IsNormalRemap (t : Text) : Prop :=
  ∀ parts, splitOnce '=' t = some parts →
    parts.1.head? = some sep ∧ normalizeForKey (components parts.1) = parts.1

/-- Nothing on the command line is left out of the key or changed in it. -/
structure PlainlyGiven (keyRoot : Option Path) (args : List Text) : Prop where
  written : PlainlyWritten args
  noEnvSet : ∀ t, RustcOption.envSet t ∉ rustcOptions args
  externs : ∀ t, RustcOption.dependency t ∈ rustcOptions args →
    '=' ∈ t ∧ ¬ "noprelude:" <+: t
  remaps : keyRoot.isSome = true → ∀ t, RustcOption.remap t ∈ rustcOptions args → IsNormalRemap t
  untagged : ∀ a ∈ rustcActions args, ∀ word ∈ a.words, word ∉ rustcTagWords

/-- Options that speak of one lint set one level, and remaps of one path agree. -/
structure OrderFreeRustc (covers : Text → Lint → Bool) (args : List Text) : Prop where
  lints : ∀ lint, Consistent (RustcOption.levelOf covers lint) (rustcOptions args)
  paths : ∀ path, Consistent (RustcOption.remapped path) (rustcOptions args)

section Context

variable {cwd : Path} {env : Env} {compilerHash : D} {plainRustc : Bool} {args : List Text}

theorem mem_envVars {e : Text × Text}
    (h : e ∈ (rustcContext cwd env compilerHash plainRustc args).envVars) :
    (e.1 ∈ rustcEnvKeyed ++ appleEnvKeyed ++ linkEnvKeyed ∧ nul ∉ e.2) ∨
      ∃ x ∈ env, e = (x.1.val, x.2.val) := by
  have hcoll : ∀ {table : List Text}, e ∈ collect env table false → e.1 ∈ table ∧ nul ∉ e.2 := by
    intro table h
    obtain ⟨name, hname, h⟩ := mem_filterMap.mp h
    obtain ⟨v, hv, rfl⟩ := Option.map_eq_some_iff.mp h
    obtain ⟨x, -, -, rfl⟩ := lastValue_mem hv
    exact ⟨hname, x.2.property⟩
  simp only [rustcContext, fromParsedArgsWithDriver, mem_sortBy, keyedRustcEnv,
    mem_append] at h
  rcases h with ((hrustc | happle) | hlink) | hcargo
  · obtain ⟨hname, hval⟩ := hcoll hrustc
    exact .inl ⟨mem_append_left _ (mem_append_left _ hname), hval⟩
  · split at happle
    · obtain ⟨hname, hval⟩ := hcoll happle
      exact .inl ⟨mem_append_left _ (mem_append_right _ hname), hval⟩
    · cases happle
  · split at hlink
    · obtain ⟨name, hname, hx⟩ := mem_filterMap.mp hlink
      obtain ⟨v, hv, rfl⟩ := Option.map_eq_some_iff.mp hx
      refine .inl ⟨mem_append_right _ hname, ?_⟩
      rcases Option.or_eq_some_iff.mp hv with hv | ⟨-, hv⟩
      all_goals
        obtain ⟨x, -, -, rfl⟩ := lastValue_mem hv
        exact x.2.property
    · cases hlink
  · split at hcargo
    · obtain ⟨x, hx, rfl⟩ := mem_map.mp (mem_filter.mp hcargo).1
      exact .inr ⟨x, hx, rfl⟩
    · cases hcargo

variable {t : Text}

theorem nul_notMem_codegenValue (h : nul ∉ t) : nul ∉ codegenValue t := by
  unfold codegenValue
  cases hsplit : splitOnce '=' t with
  | none => exact not_mem_nil
  | some parts =>
    rw [(splitOnce_eq_some_iff.mp hsplit).1] at h
    exact fun hmem => h (mem_append_right _ (mem_cons_of_mem _ hmem))

theorem nul_notMem_beforeFirst {c : Char} (h : nul ∉ t) : nul ∉ beforeFirst c t :=
  fun hmem => h (takeWhile_subset _ hmem)

/-- The lists that hold the texts of the actions of one kind. -/
def RustcAction.textFields : List (RustcAction → Option Text) :=
  [editionOf, crateNameOf, targetOf, capLintsOf, cfgOf, checkCfgOf, remapOf, codegenOf, lintOf,
    unknownOf]

theorem text_of_mem_textFields {f : RustcAction → Option Text} (hf : f ∈ RustcAction.textFields)
    {a : RustcAction} (h : f a = some t) : t = a.text := by
  revert hf
  simp only [RustcAction.textFields, mem_cons, not_mem_nil, or_false]
  rintro (rfl | rfl | rfl | rfl | rfl | rfl | rfl | rfl | rfl | rfl) <;> cases a <;> cases h <;> rfl

theorem mem_externCrates {e : Text × Text}
    (h : e ∈ (rustcContext cwd env compilerHash plainRustc args).externCrates) :
    ∃ t parts, RustcAction.dependency t ∈ rustcActions args ∧ splitOnce '=' t = some parts ∧
      e = ((parts.1.dropPrefix? "noprelude:").getD parts.1,
        toText (resolvePath cwd parts.2).path) := by
  simp only [rustcContext, fromParsedArgsWithDriver, mem_sortBy, mem_map,
    parseRustcArgs, RustcParsedArgs.ofActions, mem_filterMap] at h
  obtain ⟨x, ⟨a, ha, hax⟩, rfl⟩ := h
  cases a with
  | dependency t =>
    obtain ⟨parts, hparts, rfl⟩ := Option.map_eq_some_iff.mp hax
    exact ⟨t, parts, ha, hparts, rfl⟩
  | _ => cases hax

theorem nulFree_rustcContext (h : ∀ a ∈ rustcActions args, nul ∉ a.text) :
    (rustcContext cwd env compilerHash plainRustc args).NulFree := by
  have hlist : ∀ f ∈ RustcAction.textFields, ∀ t ∈ (rustcActions args).filterMap f, nul ∉ t := by
    intro f hf t ht
    obtain ⟨a, ha, hat⟩ := mem_filterMap.mp ht
    rw [text_of_mem_textFields hf hat]
    exact h a ha
  have hlast : ∀ f ∈ RustcAction.textFields,
      ∀ t ∈ ((rustcActions args).filterMap f).getLast?.toList, nul ∉ t := fun f hf t ht =>
    hlist f hf t (mem_of_getLast? (Option.mem_toList.mp ht))
  have hsort : ∀ f ∈ RustcAction.textFields,
      ∀ t ∈ sortTexts ((rustcActions args).filterMap f), nul ∉ t := fun f hf t ht =>
    hlist f hf t (mem_sortBy.mp ht)
  have hcg : ∀ key, ∀ t ∈ (lastCodegenValue key
      ((rustcActions args).filterMap RustcAction.codegenOf)).toList, nul ∉ t := by
    intro key t ht
    obtain ⟨option, hopt, rfl⟩ :=
      mem_map.mp (mem_of_getLast? (Option.mem_toList.mp ht))
    exact nul_notMem_codegenValue
      (hlist _ (by simp [RustcAction.textFields]) _ (mem_filter.mp hopt).1)
  have htypes : ∀ t ∈ sortTexts ((rustcActions args).flatMap RustcAction.crateTypesOf),
      nul ∉ t := by
    intro t ht
    obtain ⟨a, ha, hat⟩ := mem_flatMap.mp (mem_sortBy.mp ht)
    cases a with
    | crateType s => exact fun hmem => h _ ha (mem_of_mem_splitOn hat hmem)
    | _ => cases hat
  have hemit : ∀ t ∈ sortTexts (eraseRepeats
      ((rustcActions args).flatMap RustcAction.emitTypesOf)), nul ∉ t := by
    intro t ht
    obtain ⟨a, ha, hat⟩ := mem_flatMap.mp (mem_eraseRepeats.mp (mem_sortBy.mp ht))
    cases a with
    | emit s =>
      obtain ⟨part, hpart, rfl⟩ := mem_map.mp hat
      exact nul_notMem_beforeFirst fun hmem => h _ ha (mem_of_mem_splitOn hpart hmem)
    | _ => cases hat
  have hexts : ∀ e ∈ (rustcContext cwd env compilerHash plainRustc args).externCrates,
      nul ∉ e.1 ∧ nul ∉ e.2 := by
    intro e he
    obtain ⟨s, ⟨name, path⟩, hs, hsplit, rfl⟩ := mem_externCrates he
    have hname : nul ∉ name := by
      have hnul := h _ hs
      rw [RustcAction.text, (splitOnce_eq_some_iff.mp hsplit).1] at hnul
      exact fun hmem => hnul (mem_append_left _ hmem)
    refine ⟨?_, nul_notMem_toText _⟩
    cases hpre : name.dropPrefix? "noprelude:" with
    | none => exact hname
    | some rest =>
      rw [dropPrefix?_eq_some.mp hpre] at hname
      exact fun hmem => hname (mem_append_right _ hmem)
  have henv : ∀ e ∈ (rustcContext cwd env compilerHash plainRustc args).envVars,
      nul ∉ e.1 ∧ nul ∉ e.2 := by
    have hnames : ∀ t ∈ rustcEnvKeyed ++ appleEnvKeyed ++ linkEnvKeyed, nul ∉ t := by decide
    intro e he
    rcases mem_envVars he with ⟨hname, hval⟩ | ⟨x, -, rfl⟩
    · exact ⟨hnames _ hname, hval⟩
    · exact ⟨x.1.property, x.2.property⟩
  simp only [RustcCompileContext.NulFree, contextTexts, forall_mem_append, forall_mem_flatMap,
    forall_mem_cons, not_mem_nil, IsEmpty.forall_iff, implies_true, and_true]
  refine ⟨⟨⟨⟨⟨⟨⟨⟨⟨⟨⟨⟨⟨⟨⟨hlast _ ?_, htypes⟩, hlast _ ?_⟩, hemit⟩, hsort _ ?_⟩, hsort _ ?_⟩,
    fun t ht => hlist _ ?_ t (mem_filter.mp ht).1⟩, hcg _⟩, hcg _⟩, hlast _ ?_⟩,
    hlast _ ?_⟩, hexts⟩, hsort _ ?_⟩, hsort _ ?_⟩, hsort _ ?_⟩, henv⟩
  all_goals simp [RustcAction.textFields]

theorem mem_filterMap_iff {α : Type} {f : α → Option Text} {c : Text → α}
    (h : ∀ a, f a = some t ↔ a = c t) {l : List α} : t ∈ l.filterMap f ↔ c t ∈ l := by
  simp [h]

theorem mem_lintFlags :
    t ∈ (rustcContext cwd env compilerHash plainRustc args).lintFlags ↔
      ∃ flag name, .lint flag name ∈ rustcActions args ∧ flag ++ ' ' :: name = t := by
  refine mem_sortBy.trans (mem_filterMap.trans ?_)
  constructor
  · rintro ⟨a, ha, hat⟩
    cases a with
    | lint flag name => exact ⟨flag, name, ha, Option.some.inj hat⟩
    | _ => cases hat
  · rintro ⟨flag, name, ha, rfl⟩
    exact ⟨_, ha, rfl⟩

theorem mem_unknownFlags :
    t ∈ (rustcContext cwd env compilerHash plainRustc args).unknownFlags ↔
      .unknown t ∈ rustcActions args := by
  refine mem_sortBy.trans (mem_filterMap_iff fun a => ?_)
  cases a <;> simp [RustcAction.unknownOf]

theorem mem_remapPathPrefixes :
    t ∈ (rustcContext cwd env compilerHash plainRustc args).remapPathPrefixes ↔
      .remap t ∈ rustcActions args := by
  refine mem_sortBy.trans (mem_filterMap_iff fun a => ?_)
  cases a <;> simp [RustcAction.remapOf]

theorem RustcAction.subset_words (a : RustcAction) :
    a.crateTypesOf ⊆ a.words ∧ a.emitTypesOf ⊆ a.words := by
  cases a <;> simp [crateTypesOf, emitTypesOf, words]

theorem RustcAction.mem_words {f : RustcAction → Option Text}
    (hf : f ∈ [cfgOf, checkCfgOf, codegenOf]) {a : RustcAction} (h : f a = some t) :
    t ∈ a.words := by
  revert hf
  simp only [mem_cons, not_mem_nil, or_false]
  rintro (rfl | rfl | rfl) <;> cases a <;> cases h <;> exact mem_cons_self

theorem delimited_rustcContext (henv : ∀ e ∈ env, '=' ∉ e.1.val)
    (hform : ∀ a ∈ rustcActions args, a.WellFormed)
    (hwords : ∀ a ∈ rustcActions args, ∀ word ∈ a.words, word ∉ rustcTagWords) :
    (rustcContext cwd env compilerHash plainRustc args).Delimited := by
  constructor
  · intro t ht htag
    obtain ⟨a, ha, hat⟩ := mem_flatMap.mp (mem_sortBy.mp ht)
    exact hwords a ha t (a.subset_words.1 hat) ((by decide : texts ["edition", "emit"] ⊆ _) htag)
  · intro ht
    obtain ⟨a, ha, hat⟩ := mem_flatMap.mp (mem_eraseRepeats.mp (mem_sortBy.mp ht))
    exact hwords a ha _ (a.subset_words.2 hat) (by decide)
  · intro ht
    obtain ⟨a, ha, hat⟩ := mem_filterMap.mp (mem_sortBy.mp ht)
    exact hwords a ha _ (RustcAction.mem_words (by simp) hat) (by decide)
  · intro ht
    obtain ⟨a, ha, hat⟩ := mem_filterMap.mp (mem_sortBy.mp ht)
    exact hwords a ha _ (RustcAction.mem_words (by simp) hat) (by decide)
  · intro t ht htag
    obtain ⟨a, ha, hat⟩ := mem_filterMap.mp (mem_filter.mp ht).1
    exact hwords a ha t (RustcAction.mem_words (by simp) hat) (mem_append_right _ htag)
  · intro ht
    obtain ⟨flag, name, -, heq⟩ := mem_lintFlags.mp ht
    have hspace : ' ' ∈ "unknown".toList := by
      rw [← heq]
      exact mem_append_right _ mem_cons_self
    exact absurd hspace (by decide)
  · intro ht
    cases hform _ (mem_unknownFlags.mp ht)
  · intro e he
    have hnames : ∀ t ∈ rustcEnvKeyed ++ appleEnvKeyed ++ linkEnvKeyed, '=' ∉ t := by decide
    rcases mem_envVars (mem_filter.mp he).1 with ⟨hname, -⟩ | ⟨x, hx, rfl⟩
    · exact hnames _ hname
    · exact henv x hx

end Context

def RustcAction.isSorted : RustcAction → Bool
  | .lint _ _ | .unknown _ | .remap _ => true
  | _ => false

section Remaps

variable {root : Path} {t t' : Text}

theorem components_of_normalSpelling (h : normalizeForKey (components t) = t) :
    isNormalForm (components t) = true := by
  have hform := normalize_isNormalForm (components t)
  have hsame : components t = normalize (components t) := by
    conv_lhs => rw [← h]
    exact components_toText hform
  rw [hsame]
  exact hform

/-- A remap is kept, or its first part is below the root and written from there. -/
theorem normalizeRemap_cases (h : IsNormalRemap t) (root : Path) :
    (normalizeRemapPathPrefixForKey t (some root) = t ∧
      ∀ old new, splitOnce '=' t = some (old, new) → stripPrefix (components old) root = none) ∨
    ∃ rest new, normalizeRemapPathPrefixForKey t (some root) = toText rest ++ '=' :: new ∧
      t = toText (root ++ rest) ++ '=' :: new ∧ '=' ∉ toText rest ∧ isNormalForm rest = true ∧
      IsAbsolute (root ++ rest) := by
  cases hsplit : splitOnce '=' t with
  | none => exact .inl ⟨by simp [normalizeRemapPathPrefixForKey, hsplit], by simp⟩
  | some parts =>
    obtain ⟨old, new⟩ := parts
    obtain ⟨habs, hsp⟩ := h _ hsplit
    obtain ⟨ht, hequals⟩ := splitOnce_eq_some_iff.mp hsplit
    cases hstrip : stripPrefix (components old) root with
    | none =>
      refine .inl ⟨by simp [normalizeRemapPathPrefixForKey, hsplit, hstrip], ?_⟩
      rintro _ _ ⟨⟩
      exact hstrip
    | some rest =>
      have hold := components_of_normalSpelling hsp
      rw [normalizeForKey, normalize_of_isNormalForm hold] at hsp
      rw [stripPrefix_eq_some.mp hstrip] at hold hsp
      have hform := isNormalForm_of_append hold
      refine .inr ⟨rest, new, ?_, by rw [hsp, ht], fun hmem => ?_, hform, ?_⟩
      · simp [normalizeRemapPathPrefixForKey, hsplit, hstrip, normalizeKeyPath, normalizeForKey,
          normalize_of_isNormalForm hform]
      · rcases mem_toText hmem with heq | ⟨c, hc, hmem⟩
        · cases heq
        · refine hequals (mem_of_mem_components ?_ hmem)
          rw [stripPrefix_eq_some.mp hstrip]
          exact mem_append_right _ hc
      · rw [← stripPrefix_eq_some.mp hstrip]
        exact isAbsolute_components habs

theorem kept_ne_below {rest : Path} {new : Text} (h : IsNormalRemap t)
    (hkept : ∀ old new, splitOnce '=' t = some (old, new) →
      stripPrefix (components old) root = none)
    (hequals : '=' ∉ toText rest) (hform : isNormalForm rest = true)
    (habs : IsAbsolute (root ++ rest)) : t ≠ toText rest ++ '=' :: new := by
  intro heq
  have hsplit := splitOnce_eq_some_iff.mpr ⟨heq, hequals⟩
  have hstrip := hkept _ _ hsplit
  obtain ⟨tail, hrest, -⟩ := isAbsolute_components (h _ hsplit).1
  rw [components_toText hform] at hstrip hrest
  -- the root is a proper part of an absolute path, or empty and then below it is everything
  by_cases hroot : root = []
  · simp [hroot, stripPrefix_eq_none] at hstrip
  · apply rootDir_notMem_of_append habs hroot
    simp [hrest]

theorem normalizeRemap_inj (hnorm : IsNormalRemap t) (hnorm' : IsNormalRemap t')
    (h : normalizeRemapPathPrefixForKey t (some root) =
      normalizeRemapPathPrefixForKey t' (some root)) : t = t' := by
  rcases normalizeRemap_cases hnorm root with
    ⟨hkey, hkept⟩ | ⟨rest, new, hkey, ht, hequals, hform, habs⟩ <;>
    rcases normalizeRemap_cases hnorm' root with
      ⟨hkey', hkept'⟩ | ⟨rest', new', hkey', ht', heq', hform', habs'⟩ <;>
    rw [hkey, hkey'] at h
  · exact h
  · exact absurd h (kept_ne_below hnorm hkept heq' hform' habs')
  · exact absurd h.symm (kept_ne_below hnorm' hkept' hequals hform habs)
  · obtain ⟨htext, rfl⟩ := append_terminator_inj hequals heq' h
    rw [ht, ht', toText_injective hform hform' htext]

end Remaps

section Sections

variable {cwd : Path} {env : Env} {compilerHash : D} {plainRustc : Bool} {keyRoot : Option Path}
variable {args args' : List Text} {a : RustcAction}

theorem mem_rustcOptions (h : PlainlyWritten args) {o : RustcOption} :
    o ∈ rustcOptions args ↔ ∃ a ∈ rustcActions args, a.option = some o := by
  rw [rustcOptions_eq h, mem_filterMap]

variable {name t : Text}

theorem isSorted_of_lint {level : LintLevel} (h : a.option = some (.lint level name)) :
    a.isSorted = true := by
  cases a <;> first | rfl | cases h

theorem isSorted_of_remap (h : a.option = some (.remap t)) : a.isSorted = true := by
  cases a <;> first | rfl | cases h

theorem beforeFirst_of_notMem {c : Char} (h : c ∉ t) : beforeFirst c t = t := by
  apply takeWhile_eq_self_iff.mpr
  intro x hx
  exact decide_eq_true fun heq : x = c => h (heq ▸ hx)

theorem splitOnce_beforeFirst {c : Char} (h : c ∈ t) :
    ∃ rest, splitOnce c t = some (beforeFirst c t, rest) := by
  cases hsplit : splitOnce c t with
  | none => exact absurd h (splitOnce_eq_none_iff.mp hsplit)
  | some parts =>
    obtain ⟨lead, rest⟩ := parts
    obtain ⟨rfl, hlead⟩ := splitOnce_eq_some_iff.mp hsplit
    have hfirst : beforeFirst c (lead ++ c :: rest) = lead := by
      rw [beforeFirst, takeWhile_append_of_pos (fun x hx => ?_), takeWhile_cons_of_neg]
      · rw [append_nil]
      · simp
      · exact decide_eq_true fun heq : x = c => hlead (heq ▸ hx)
    exact ⟨rest, by rw [hfirst]⟩

theorem PlainlyGiven.extern_eq (hargs : PlainlyGiven keyRoot args)
    (h : .dependency t ∈ rustcActions args) :
    ∃ path, splitOnce '=' t = some (beforeFirst '=' t, path) ∧
      ((beforeFirst '=' t).dropPrefix? "noprelude:").getD (beforeFirst '=' t) =
        beforeFirst '=' t := by
  obtain ⟨hequals, hmodifier⟩ := hargs.externs t ((mem_rustcOptions hargs.written).mpr ⟨_, h, rfl⟩)
  obtain ⟨path, hsplit⟩ := splitOnce_beforeFirst hequals
  refine ⟨path, hsplit, ?_⟩
  cases hpre : (beforeFirst '=' t).dropPrefix? "noprelude:" with
  | none => rfl
  | some rest =>
    have hlead : "noprelude:" <+: beforeFirst '=' t :=
      ⟨rest, (dropPrefix?_eq_some.mp hpre).symm⟩
    exact absurd (hlead.trans <| takeWhile_prefix _) hmodifier

theorem mem_externNames :
    name ∈ externNames args ↔
      ∃ t, .dependency t ∈ rustcOptions args ∧ beforeFirst '=' t = name := by
  rw [externNames, mem_filterMap]
  constructor
  · rintro ⟨o, ho, hname⟩
    cases o with
    | dependency t => exact ⟨t, ho, Option.some.inj hname⟩
    | _ => cases hname
  · rintro ⟨t, ho, rfl⟩
    exact ⟨_, ho, rfl⟩

theorem mem_envSets : t ∈ envSets args ↔ .envSet t ∈ rustcOptions args := by
  refine mem_filterMap_iff fun o => ?_
  cases o <;> simp

variable (hargs : PlainlyGiven keyRoot args) (hargs' : PlainlyGiven keyRoot args')
variable (hsame : (rustcContext cwd env compilerHash plainRustc args).SameSections keyRoot
  (rustcContext cwd env compilerHash plainRustc args'))

include hargs hargs' hsame

theorem remap_mem_of_sections (h : .remap t ∈ rustcActions args) :
    .remap t ∈ rustcActions args' := by
  have hremaps := hsame.remaps
  have hmem : t ∈ (rustcContext cwd env compilerHash plainRustc args).remapPathPrefixes :=
    mem_remapPathPrefixes.mpr h
  cases keyRoot with
  | none =>
    simp only [keyRemaps, Option.isSome_none, Bool.false_eq_true,
      if_false] at hremaps
    rw [hremaps] at hmem
    exact mem_remapPathPrefixes.mp hmem
  | some root =>
    simp only [keyRemaps, Option.isSome_some, if_true] at hremaps
    have hnorm : ∀ {args : List Text}, PlainlyGiven (some root) args → ∀ {t : Text},
        .remap t ∈ rustcActions args → IsNormalRemap t := by
      intro args hargs t ht
      exact hargs.remaps rfl t ((mem_rustcOptions hargs.written).mpr ⟨_, ht, rfl⟩)
    have hkey : normalizeRemapPathPrefixForKey t (some root) ∈ sortTexts
        ((rustcContext cwd env compilerHash plainRustc args).remapPathPrefixes.map fun remap =>
          normalizeRemapPathPrefixForKey remap (some root)) :=
      mem_sortBy.mpr (mem_map_of_mem hmem)
    rw [hremaps] at hkey
    obtain ⟨t', ht', heq⟩ := mem_map.mp (mem_sortBy.mp hkey)
    have ht' := mem_remapPathPrefixes.mp ht'
    rwa [normalizeRemap_inj (hnorm hargs' ht') (hnorm hargs h) heq] at ht'

theorem sorted_mem_of_sections (ha : a.isSorted = true) (h : a ∈ rustcActions args) :
    a ∈ rustcActions args' := by
  cases a with
  | lint flag name =>
    have hmem : flag ++ ' ' :: name ∈
        (rustcContext cwd env compilerHash plainRustc args).lintFlags :=
      mem_lintFlags.mpr ⟨flag, name, h, rfl⟩
    rw [hsame.lintFlags] at hmem
    obtain ⟨flag', name', h', heq⟩ := mem_lintFlags.mp hmem
    have hspace : ∀ flag ∈ texts ["-A", "-W", "-D", "-F"], ' ' ∉ flag := by decide
    obtain ⟨rfl, rfl⟩ := append_terminator_inj (hspace _ (wellFormed_of_mem hargs'.written h').1)
      (hspace _ (wellFormed_of_mem hargs.written h).1) heq
    exact h'
  | unknown t =>
    have hmem : t ∈ (rustcContext cwd env compilerHash plainRustc args).unknownFlags :=
      mem_unknownFlags.mpr h
    rw [hsame.unknownFlags] at hmem
    exact mem_unknownFlags.mp hmem
  | remap t => exact remap_mem_of_sections hargs hargs' hsame h
  | _ => cases ha

theorem externNames_of_sections (h : name ∈ externNames args) : name ∈ externNames args' := by
  obtain ⟨t, ht, rfl⟩ := mem_externNames.mp h
  obtain ⟨a, ha, hopt⟩ := (mem_rustcOptions hargs.written).mp ht
  by_cases hsort : a.isSorted = true
  · have ha' := sorted_mem_of_sections hargs hargs' hsame hsort ha
    exact mem_externNames.mpr ⟨t, (mem_rustcOptions hargs'.written).mpr ⟨a, ha', hopt⟩, rfl⟩
  cases a with
  | dependency s =>
    cases hopt
    obtain ⟨path, hsplit, hname⟩ := hargs.extern_eq ha
    have hmem : assignment (beforeFirst '=' t, externPathKey (toText (resolvePath cwd path).path)) ∈
        (rustcContext cwd env compilerHash plainRustc args).keyExterns := by
      refine mem_map.mpr ⟨(beforeFirst '=' t, toText (resolvePath cwd path).path), ?_, rfl⟩
      refine mem_sortBy.mpr (mem_map.mpr ⟨⟨beforeFirst '=' t, resolvePath cwd path⟩, ?_, rfl⟩)
      refine mem_filterMap.mpr ⟨_, ha, ?_⟩
      rw [RustcAction.externOf, hsplit, Option.map_some, hname]
    rw [hsame.externs] at hmem
    obtain ⟨e', he', heq⟩ := mem_map.mp hmem
    obtain ⟨t', parts, ha', hsplit', rfl⟩ := mem_externCrates he'
    obtain ⟨path', hpath', hname'⟩ := hargs'.extern_eq ha'
    cases hsplit'.symm.trans hpath'
    rw [hname'] at heq
    obtain ⟨hnames, -⟩ := append_terminator_inj (splitOnce_eq_some_iff.mp hpath').2
      (splitOnce_eq_some_iff.mp hsplit).2 heq
    exact mem_externNames.mpr
      ⟨t', (mem_rustcOptions hargs'.written).mpr ⟨_, ha', rfl⟩, hnames⟩
  | lint | unknown | remap => exact absurd rfl hsort
  | _ => cases hopt

/-- The same sections mean the same, where no order is lost. -/
theorem sameMeaning_of_sections {covers : Text → Lint → Bool}
    (hfree : OrderFreeRustc covers args) : SameMeaning covers args args' := by
  have hsymm := hsame.symm
  have hsort : ∀ a, a.isSorted = true → (a ∈ rustcActions args ↔ a ∈ rustcActions args') :=
    fun a ha => ⟨sorted_mem_of_sections hargs hargs' hsame ha,
      sorted_mem_of_sections hargs' hargs hsymm ha⟩
  have hopt : ∀ o, (∀ a, RustcAction.option a = some o → a.isSorted = true) →
      (o ∈ rustcOptions args ↔ o ∈ rustcOptions args') := by
    intro o ho
    rw [mem_rustcOptions hargs.written, mem_rustcOptions hargs'.written]
    constructor
    · rintro ⟨a, ha, hao⟩
      exact ⟨a, (hsort a (ho a hao)).mp ha, hao⟩
    · rintro ⟨a, ha, hao⟩
      exact ⟨a, (hsort a (ho a hao)).mpr ha, hao⟩
  constructor
  · intro lint
    refine (hfree.lints lint).lastBy_congr fun o level ho => hopt o ?_
    cases o with
    | lint level name => exact fun _ => isSorted_of_lint
    | _ => cases ho
  · intro path
    rw [remapPath, remapPath, (hfree.paths path).lastBy_congr fun o v ho => hopt o ?_]
    cases o with
    | remap t => exact fun _ => isSorted_of_remap
    | _ => cases ho
  · intro t
    rw [mem_envSets, mem_envSets]
    exact iff_of_false (hargs.noEnvSet t) (hargs'.noEnvSet t)
  · intro name
    exact ⟨externNames_of_sections hargs hargs' hsame, externNames_of_sections hargs' hargs hsymm⟩

end Sections

end Zccache
