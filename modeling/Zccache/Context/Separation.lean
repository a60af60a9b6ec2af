import Mathlib.Data.Set.List
import Zccache.Base.Sections
import Zccache.Context.CompileContext

/-! # Reading a context key back

The fields of a context key determine the sections of the context unless a section
holds one of the tag words around it. Where the entries of a context could stand in
any section, this is exact.
-/

namespace Zccache

open List Unix Framing TaggedSections CompileContext

variable {D : Type} {flag remap : Text}

theorem splitPrefixMapFlag_eq_some {pre : Text} (h : splitPrefixMapFlag flag = some (pre, remap)) :
    pre ∈ prefixMapFlags ∧ flag = pre ++ remap := by
  obtain ⟨pre', hpre, hdrop⟩ := exists_of_findSome?_eq_some h
  obtain ⟨rest, hrest, hparts⟩ := Option.map_eq_some_iff.mp hdrop
  cases hparts
  exact ⟨hpre, dropPrefix?_eq_some.mp hrest⟩

theorem nul_notMem_normalizeRemapPathPrefixForKey (h : nul ∉ remap) (keyRoot : Option Path) :
    nul ∉ normalizeRemapPathPrefixForKey remap keyRoot := by
  unfold normalizeRemapPathPrefixForKey
  split
  · next root old new hsplit =>
    split
    · rw [(splitOnce_eq_some_iff.mp hsplit).1] at h
      intro hmem
      rcases mem_append.mp hmem with hkey | hnew
      · exact nul_notMem_normalizeKeyPath _ _ hkey
      · exact h (mem_append_right _ hnew)
    · exact h
  · exact h

theorem nul_notMem_normalizeCxxPrefixMapFlagForKey (h : nul ∉ flag) (keyRoot : Option Path) :
    nul ∉ normalizeCxxPrefixMapFlagForKey flag keyRoot := by
  unfold normalizeCxxPrefixMapFlagForKey
  split
  · next pre remap hsplit =>
    obtain ⟨-, rfl⟩ := splitPrefixMapFlag_eq_some hsplit
    rw [mem_append, not_or] at h ⊢
    exact ⟨h.1, nul_notMem_normalizeRemapPathPrefixForKey h.2 keyRoot⟩
  · exact h

namespace CompileContext

/-- The texts of the context that come from the command line as they are. -/
def NulFree (ctx : CompileContext D) : Prop :=
  ∀ t ∈ ctx.defines ++ ctx.undefines ++ ctx.flags ++ ctx.unknownFlags, nul ∉ t
  deriving Decidable

/-- Same source and same sections, as the key spells them. -/
structure SameSections (keyRoot : Option Path) (ctx ctx' : CompileContext D) : Prop where
  source : normalizeKeyPath ctx.sourceFile.path keyRoot =
    normalizeKeyPath ctx'.sourceFile.path keyRoot
  sections : ctx.sections keyRoot normalizeKeyPath = ctx'.sections keyRoot normalizeKeyPath

/-- A text that could stand in any section: a path's key text, and a flag that the key takes
as it is. -/
structure Portable (keyRoot : Option Path) (t : Text) : Prop where
  path : ∃ p : NormalizedPath, normalizeKeyPath p.path keyRoot = t
  flag : normalizeCxxPrefixMapFlagForKey t keyRoot = t
  notNative : isCxxNativeCpuFlag t = false

/-- Every entry of every section could stand in any section. -/
def Plain (keyRoot : Option Path) (ctx : CompileContext D) : Prop :=
  ∀ s ∈ ctx.sections keyRoot normalizeKeyPath, ∀ t ∈ s.2, Portable keyRoot t

end CompileContext

def contextKeyPreimage (H : Host D) (ctx : CompileContext D) (keyRoot worktreeSalt : Option Path)
    (nativeCpuSalt : Option Text) : List (Atom D) :=
  framed (contextKeyFields H ctx keyRoot worktreeSalt nativeCpuSalt normalizeKeyPath)

section Decode

variable {H : Host D} {keyRoot worktreeSalt : Option Path} {nativeCpuSalt : Option Text}
variable {ctx ctx' : CompileContext D}

def sectionTags : List Text :=
  ["iquote", "user", "system", "after", "defines",
    "undefines", "flags", "force-include", "unknown"]

theorem tags_sections (ctx : CompileContext D) (keyRoot : Option Path) :
    tags (ctx.sections keyRoot normalizeKeyPath) = sectionTags := rfl

theorem sectionFields_eq (ss : List (Text × List Text)) :
    (ss.flatMap fun s => (text s.1 : Field D) :: s.2.map text) = (encode ss).map text := by
  rw [encode, map_flatMap]
  rfl

theorem forall_entries {P : Text → Prop} (hpath : ∀ p, P (normalizeKeyPath p keyRoot))
    (htext : ∀ t ∈ ctx.defines ++ ctx.undefines, P t)
    (hflag : ∀ f ∈ ctx.flags ++ ctx.unknownFlags, P (normalizeCxxPrefixMapFlagForKey f keyRoot)) :
    ∀ s ∈ ctx.sections keyRoot normalizeKeyPath, ∀ t ∈ s.2, P t := by
  rw [forall_mem_append] at htext hflag
  simp only [CompileContext.sections, forall_mem_cons, forall_mem_map]
  exact ⟨fun p _ => hpath p.path, fun p _ => hpath p.path, fun p _ => hpath p.path,
    fun p _ => hpath p.path, htext.1, htext.2, hflag.1, fun p _ => hpath p.path, hflag.2,
    forall_mem_nil _⟩

theorem nul_notMem_sections (hctx : ctx.NulFree) :
    ∀ t ∈ encode (ctx.sections keyRoot normalizeKeyPath), nul ∉ t := by
  rw [CompileContext.NulFree, append_assoc, forall_mem_append] at hctx
  have hentries : ∀ s ∈ ctx.sections keyRoot normalizeKeyPath, ∀ t ∈ s.2, nul ∉ t :=
    forall_entries (P := (nul ∉ ·)) (fun p => nul_notMem_normalizeKeyPath p _) hctx.1
      (fun f hf => nul_notMem_normalizeCxxPrefixMapFlagForKey (hctx.2 f hf) _)
  intro t ht
  rcases mem_encode.mp ht with htag | ⟨s, hs, ht⟩
  · exact (by decide : ∀ t ∈ sectionTags, nul ∉ t) t htag
  · exact hentries s hs t ht

theorem contextKeyFields_nulFree (hctx : ctx.NulFree)
    (hsalt : nul ∉ nativeCpuSalt.getD (hostCpuIdentitySalt H)) :
    ∀ f ∈ contextKeyFields H ctx keyRoot worktreeSalt nativeCpuSalt normalizeKeyPath,
      Atom.ch nul ∉ f := by
  intro f hf
  unfold contextKeyFields at hf
  rw [sectionFields_eq, append_assoc, append_assoc] at hf
  rcases mem_append.mp hf with hhead | hf
  · simp only [mem_cons, not_mem_nil, or_false] at hhead
    rcases hhead with rfl | rfl | rfl
    · exact nul_notMem_text.mpr (by decide)
    · exact nul_notMem_text.mpr (by decide)
    · exact nul_notMem_raw _
  rcases mem_append.mp hf with hnative | hf
  · split at hnative
    · simp only [mem_cons, not_mem_nil, or_false] at hnative
      rcases hnative with rfl | rfl
      · exact nul_notMem_text.mpr (by decide)
      · exact nul_notMem_text.mpr hsalt
    · cases hnative
  rcases mem_append.mp hf with hworktree | hf
  · cases worktreeSalt with
    | none => cases hworktree
    | some salt =>
      simp only [mem_cons, not_mem_nil, or_false] at hworktree
      rcases hworktree with rfl | rfl
      · exact nul_notMem_text.mpr (by decide)
      · exact nul_notMem_text.mpr (nul_notMem_toText _)
  · rcases mem_cons.mp hf with rfl | hf
    · exact nul_notMem_text.mpr (nul_notMem_normalizeKeyPath _ _)
    · obtain ⟨t, ht, rfl⟩ := mem_map.mp hf
      exact nul_notMem_text.mpr (nul_notMem_sections hctx t ht)

/-- The host tag is no worktree tag, and if a source file is called like the host tag then
the salt would have to be the first section tag. -/
theorem header_clash {salt : Text} (hsalt : salt ≠ "iquote") {rest : List (Field D)} :
    text "native-cpu-host" :: text salt :: rest ≠
      (match worktreeSalt with
        | some salt => [text "worktree-salt", text (normalizeForKey salt)]
        | none => []) ++
          text (normalizeKeyPath ctx.sourceFile.path keyRoot) ::
            (encode (ctx.sections keyRoot normalizeKeyPath)).map text := by
  intro h
  cases worktreeSalt with
  | none => exact hsalt (text_injective (cons.inj (cons.inj h).2).1)
  | some salt => exact absurd (text_injective (cons.inj h).1) (by decide)

theorem decode_header (hsalt : nativeCpuSalt.getD (hostCpuIdentitySalt H) ≠ "iquote")
    (h : contextKeyFields H ctx keyRoot worktreeSalt nativeCpuSalt normalizeKeyPath =
      contextKeyFields H ctx' keyRoot worktreeSalt nativeCpuSalt normalizeKeyPath) :
    normalizeKeyPath ctx.sourceFile.path keyRoot = normalizeKeyPath ctx'.sourceFile.path keyRoot ∧
      encode (ctx.sections keyRoot normalizeKeyPath) =
        encode (ctx'.sections keyRoot normalizeKeyPath) := by
  have hbody : ∀ {a b : Text} {l m : List Text},
      (text a : Field D) :: l.map text = text b :: m.map text → a = b ∧ l = m := by
    intro a b l m h
    obtain ⟨hhead, htail⟩ := cons.inj h
    exact ⟨text_injective hhead, map_injective_iff.mpr (fun _ _ => text_injective) htail⟩
  unfold contextKeyFields at h
  simp only [sectionFields_eq, append_assoc, cons_append, nil_append] at h
  have htail := (cons.inj (cons.inj (cons.inj h).2).2).2
  by_cases hnative : ctx.hasNativeCpuFlag <;> by_cases hnative' : ctx'.hasNativeCpuFlag <;>
    simp only [hnative, hnative', if_true, if_false, cons_append, nil_append,
      Bool.false_eq_true] at htail
  · have hrest := (cons.inj (cons.inj htail).2).2
    cases worktreeSalt with
    | none => exact hbody hrest
    | some salt => exact hbody (cons.inj (cons.inj hrest).2).2
  · exact absurd htail (header_clash hsalt)
  · exact absurd htail.symm (header_clash hsalt)
  · cases worktreeSalt with
    | none => exact hbody htail
    | some salt => exact hbody (cons.inj (cons.inj htail).2).2

theorem sameSections_of_separated (hsep : Separated (ctx.sections keyRoot normalizeKeyPath))
    (hnul : nul ∉ nativeCpuSalt.getD (hostCpuIdentitySalt H))
    (hsalt : nativeCpuSalt.getD (hostCpuIdentitySalt H) ≠ "iquote")
    (hctx : ctx.NulFree) (hctx' : ctx'.NulFree)
    (h : contextKeyPreimage H ctx keyRoot worktreeSalt nativeCpuSalt =
      contextKeyPreimage H ctx' keyRoot worktreeSalt nativeCpuSalt) :
    ctx.SameSections keyRoot ctx' := by
  have hflds := framed_injective (contextKeyFields_nulFree hctx hnul)
    (contextKeyFields_nulFree hctx' hnul) h
  obtain ⟨hsrc, henc⟩ := decode_header hsalt hflds
  refine ⟨hsrc, encode_injective hsep ?_ rfl henc⟩
  rw [tags_sections]
  decide

end Decode

section Collide

variable {H : Host D} {keyRoot worktreeSalt : Option Path} {nativeCpuSalt : Option Text}
variable {ctx : CompileContext D}

theorem exists_pathKey (keyRoot : Option Path) (name : FileName) :
    ∃ p : NormalizedPath, normalizeKeyPath p.path keyRoot = name.val := by
  have htext : normalizeForKey [.normal name] = name.val := by
    rw [normalizeForKey, normalize_of_isNormalForm rfl]
    simp [toText, Component.segment]
  cases keyRoot with
  | none => exact ⟨⟨[.normal name], rfl⟩, htext⟩
  | some root =>
    cases hstrip : stripPrefix [.normal name] root with
    | none =>
      refine ⟨⟨[.normal name], rfl⟩, ?_⟩
      rw [normalizeKeyPath, Option.bind_some, hstrip]
      exact htext
    | some rest =>
      have hroot : isNormalForm root = true := by
        have hprefix := stripPrefix_eq_some.mp hstrip
        rcases root with _ | ⟨c, _ | ⟨c', root⟩⟩
        · rfl
        · rw [← (cons.inj hprefix).1]
          rfl
        · cases (cons.inj hprefix).2
      refine ⟨⟨root ++ [name].map .normal, isNormalForm_append_names hroot [name]⟩, ?_⟩
      rw [normalizeKeyPath, Option.bind_some, stripPrefix_append]
      exact htext

theorem portable_sectionTags (keyRoot : Option Path) :
    ∀ t ∈ sectionTags, CompileContext.Portable keyRoot t := by
  have hsplit : ∀ t ∈ sectionTags, splitPrefixMapFlag t = none := by decide
  intro t ht
  refine ⟨exists_pathKey keyRoot ⟨t, ?_⟩, ?_, ?_⟩
  · revert t
    decide
  · rw [normalizeCxxPrefixMapFlagForKey, hsplit t ht]
  · revert t
    decide

variable {ss : List (Text × List Text)}

theorem eq_nine_of_tags (h : tags ss = sectionTags) :
    ∃ l₁ l₂ l₃ l₄ l₅ l₆ l₇ l₈ l₉, ss = [("iquote".toList, l₁), ("user".toList, l₂),
      ("system".toList, l₃), ("after".toList, l₄), ("defines".toList, l₅),
      ("undefines".toList, l₆), ("flags".toList, l₇), ("force-include".toList, l₈),
      ("unknown".toList, l₉)] := by
  have hzip : ss = sectionTags.zip (ss.map Prod.snd) := by
    rw [← h, tags, zip_map']
    exact (map_id ss).symm
  have hlen : (ss.map Prod.snd).length = 9 := by
    have hlength := congrArg length h
    rw [tags, length_map] at hlength
    rw [length_map, hlength]
    rfl
  generalize ss.map Prod.snd = ls at hzip hlen
  iterate 9
    obtain ⟨l, ls, rfl⟩ := exists_cons_of_length_eq_add_one hlen
    rw [length_cons, Nat.add_right_cancel_iff] at hlen
  exact ⟨_, _, _, _, _, _, _, _, _, hzip⟩

theorem exists_context (ctx : CompileContext D) (htags : tags ss = sectionTags)
    (hportable : ∀ s ∈ ss, ∀ t ∈ s.2, CompileContext.Portable keyRoot t) :
    ∃ ctx' : CompileContext D, ctx'.sourceFile = ctx.sourceFile ∧
      ctx'.compilerHash = ctx.compilerHash ∧ ctx'.hasNativeCpuFlag = false ∧ ctx'.NulFree ∧
      ctx'.sections keyRoot normalizeKeyPath = ss := by
  have hpaths : ∀ {l : List Text}, (∀ t ∈ l, CompileContext.Portable keyRoot t) →
      ∃ paths : List NormalizedPath,
        paths.map (fun p => normalizeKeyPath p.path keyRoot) = l := by
    intro l hl
    have hrange : l ∈ Set.range (map fun p : NormalizedPath =>
        normalizeKeyPath p.path keyRoot) := by
      rw [Set.range_list_map]
      exact fun t ht => (hl t ht).path
    exact hrange
  have hflags : ∀ {l : List Text}, (∀ t ∈ l, CompileContext.Portable keyRoot t) →
      l.map (fun f => normalizeCxxPrefixMapFlagForKey f keyRoot) = l := by
    intro l hl
    exact (map_congr_left fun t ht => (hl t ht).flag).trans (map_id l)
  have hnul : ∀ t, CompileContext.Portable keyRoot t → nul ∉ t := by
    intro t ht
    obtain ⟨p, rfl⟩ := ht.path
    exact nul_notMem_normalizeKeyPath _ _
  obtain ⟨iquote, user, system, after, defines, undefines, flags, forceIncludes, unknown, rfl⟩ :=
    eq_nine_of_tags htags
  simp only [forall_mem_cons] at hportable
  obtain ⟨h₁, h₂, h₃, h₄, h₅, h₆, h₇, h₈, h₉, -⟩ := hportable
  obtain ⟨iquote, rfl⟩ := hpaths h₁
  obtain ⟨user, rfl⟩ := hpaths h₂
  obtain ⟨system, rfl⟩ := hpaths h₃
  obtain ⟨after, rfl⟩ := hpaths h₄
  obtain ⟨forceIncludes, rfl⟩ := hpaths h₈
  refine ⟨⟨ctx.sourceFile, ⟨iquote, user, system, after⟩, defines, undefines, flags, forceIncludes,
    unknown, ctx.compilerHash⟩, rfl, rfl, ?_, ?_, ?_⟩
  · rw [hasNativeCpuFlag, any_eq_false]
    intro f hf
    rw [(forall_mem_append.mpr ⟨h₇, h₉⟩ f hf).notNative]
    exact Bool.false_ne_true
  · simp only [CompileContext.NulFree, forall_mem_append]
    exact ⟨⟨⟨fun t ht => hnul t (h₅ t ht), fun t ht => hnul t (h₆ t ht)⟩,
      fun t ht => hnul t (h₇ t ht)⟩, fun t ht => hnul t (h₉ t ht)⟩
  · simp only [CompileContext.sections, hflags h₇, hflags h₉]

theorem isCxxNativeCpuFlag_normalize {flag : Text} (h : isCxxNativeCpuFlag flag = true)
    (keyRoot : Option Path) : normalizeCxxPrefixMapFlagForKey flag keyRoot = flag := by
  have hsplit : splitPrefixMapFlag flag = none := by
    simp only [isCxxNativeCpuFlag, Bool.or_eq_true, beq_iff_eq] at h
    rcases h with (rfl | rfl) | rfl <;> decide
  rw [normalizeCxxPrefixMapFlagForKey, hsplit]

theorem hasNativeCpuFlag_of_plain (h : ctx.Plain keyRoot) : ctx.hasNativeCpuFlag = false := by
  rw [CompileContext.hasNativeCpuFlag, any_eq_false]
  intro f hf hnative
  have hportable : CompileContext.Portable keyRoot
      (normalizeCxxPrefixMapFlagForKey f keyRoot) := by
    simp only [CompileContext.Plain, CompileContext.sections, forall_mem_cons] at h
    rcases mem_append.mp hf with hflag | hflag
    · exact h.2.2.2.2.2.2.1 _ (mem_map_of_mem hflag)
    · exact h.2.2.2.2.2.2.2.2.1 _ (mem_map_of_mem hflag)
  have := hportable.notNative
  rw [isCxxNativeCpuFlag_normalize hnative, hnative] at this
  cases this

theorem exists_collision (hplain : ctx.Plain keyRoot)
    (hsep : ¬ Separated (ctx.sections keyRoot normalizeKeyPath)) :
    ∃ ctx' : CompileContext D, ctx'.NulFree ∧
      contextKeyPreimage H ctx keyRoot worktreeSalt nativeCpuSalt =
        contextKeyPreimage H ctx' keyRoot worktreeSalt nativeCpuSalt ∧
      ¬ ctx.SameSections keyRoot ctx' := by
  obtain ⟨ss, htags, henc, hne⟩ := exists_reframing hsep
  have hportable : ∀ s ∈ ss, ∀ t ∈ s.2, CompileContext.Portable keyRoot t := by
    intro s hs t ht
    have hmem : t ∈ encode ss := mem_encode.mpr (.inr ⟨s, hs, ht⟩)
    rw [henc] at hmem
    rcases mem_encode.mp hmem with htag | ⟨s', hs', ht'⟩
    · exact portable_sectionTags keyRoot t htag
    · exact hplain s' hs' t ht'
  obtain ⟨ctx', hsrc, hcomp, hnative, hnul, hsecs⟩ :=
    exists_context ctx htags hportable
  refine ⟨ctx', hnul, ?_, fun hsame => hne ?_⟩
  · simp only [contextKeyPreimage, contextKeyFields, sectionFields_eq, hsrc, hcomp,
      hnative, hasNativeCpuFlag_of_plain hplain, hsecs, henc]
  · rw [← hsecs, hsame.sections]

end Collide

/-- The fields of a context key determine the sections of a context none of whose sections
holds its own tag or the next one. A context whose entries could stand in any section and
that is not of this kind shares its fields with a different context. -/
theorem contextKey_separates (H : Host D) (keyRoot worktreeSalt : Option Path)
    (nativeCpuSalt : Option Text) {ctx : CompileContext D} (hctx : ctx.NulFree)
    (hnul : nul ∉ nativeCpuSalt.getD (hostCpuIdentitySalt H))
    (hsalt : nativeCpuSalt.getD (hostCpuIdentitySalt H) ≠ "iquote") :
    (Separated (ctx.sections keyRoot normalizeKeyPath) →
      ∀ ctx' : CompileContext D, ctx'.NulFree →
        contextKeyPreimage H ctx keyRoot worktreeSalt nativeCpuSalt =
          contextKeyPreimage H ctx' keyRoot worktreeSalt nativeCpuSalt →
        ctx.SameSections keyRoot ctx') ∧
    (ctx.Plain keyRoot →
      ((∀ ctx' : CompileContext D, ctx'.NulFree →
        contextKeyPreimage H ctx keyRoot worktreeSalt nativeCpuSalt =
          contextKeyPreimage H ctx' keyRoot worktreeSalt nativeCpuSalt →
        ctx.SameSections keyRoot ctx') ↔
      Separated (ctx.sections keyRoot normalizeKeyPath))) := by
  refine ⟨fun hsep ctx' hctx' => sameSections_of_separated hsep hnul hsalt hctx hctx',
    fun hplain => ⟨fun hunique => ?_,
      fun hsep ctx' hctx' => sameSections_of_separated hsep hnul hsalt hctx hctx'⟩⟩
  by_contra hsep
  obtain ⟨ctx', hnul', hsame, hdiffer⟩ := exists_collision hplain hsep
  exact hdiffer (hunique ctx' hnul' hsame)

/-- A context with one define, as for `-Dundefines`. -/
def definesContext : CompileContext Text :=
  { plain (.new "/w/m.c".toList) "cc".toList with defines := ["undefines".toList] }

/-- A context with one undefine, as for `-Uundefines`. -/
def undefinesContext : CompileContext Text :=
  { plain (.new "/w/m.c".toList) "cc".toList with
    undefines := ["undefines".toList] }

theorem defines_undefines_collide :
    definesContext.NulFree ∧ undefinesContext.NulFree ∧
      contextKeyPreimage Host.transparent definesContext none none none =
        contextKeyPreimage Host.transparent undefinesContext none none none ∧
      ¬ definesContext.SameSections none undefinesContext := by
  refine ⟨by decide, by decide, by decide +kernel, fun h => ?_⟩
  exact absurd h.sections (by decide +kernel)

/-- A context with one remapped directory, spelled from the root. -/
def remapContext (old : Text) : CompileContext Text :=
  { plain (.new "/w/m.c".toList) "cc".toList with
    flags := ["-ffile-prefix-map=".toList ++ old ++ "=/y".toList] }

theorem contextKey_separates_remap :
    (remapContext "/w/x").SameSections (some (components "/w"))
        (remapContext "x") ∧
      ¬ ∀ ctx' : CompileContext Text, ctx'.NulFree →
        contextKeyPreimage Host.transparent definesContext none none (some "00") =
          contextKeyPreimage Host.transparent ctx' none none (some "00") →
        definesContext.SameSections none ctx' := by
  constructor
  · refine (contextKey_separates Host.transparent _ none (some "00") ?_ ?_ ?_).1 ?_ _ ?_ ?_
    all_goals decide +kernel
  · have hplain : definesContext.Plain none := by
      have htags : ∀ s ∈ definesContext.sections none normalizeKeyPath, ∀ t ∈ s.2,
          t ∈ sectionTags := by decide +kernel
      exact fun s hs t ht => portable_sectionTags none t (htags s hs t ht)
    rw [(contextKey_separates Host.transparent none none (some "00") ?_ ?_ ?_).2 hplain]
    all_goals decide +kernel

end Zccache
