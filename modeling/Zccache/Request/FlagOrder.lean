import Zccache.Base.LastWins
import Zccache.Context.Separation
import Zccache.Request.SegmentScan

/-! # The order of options

The key parser sorts the options, so a key determines the last option of a
family only where the options of the family agree.
-/

namespace Zccache

open List Unix StableSort TaggedSections GnuAction LastWins

variable {D : Type} {fs : FileSystem} {cwd : Path} {args : List Text}
variable {x : GnuAction} {b : Segment}

section Key

variable {H : Host D} {keyRoot worktreeSalt : Option Path} {nativeCpuSalt : Option Text}
variable {compilerHash : D}

def argvContext (fs : FileSystem) (cwd : Path) (compilerHash : D) (args : List Text) :
    CompileContext D :=
  .fromParsedArgs (parseGnuArgs fs args cwd) compilerHash

def argvContextKey (H : Host D) (fs : FileSystem) (cwd : Path) (compilerHash : D)
    (keyRoot worktreeSalt : Option Path) (nativeCpuSalt : Option Text) (args : List Text) :
    ContextKey D :=
  computeContextKeyWithNativeCpuSalt H (argvContext fs cwd compilerHash args) keyRoot worktreeSalt
    nativeCpuSalt normalizeKeyPath

variable {t : Text}

theorem mem_sortTexts {ts : List Text} : t ∈ sortTexts ts ↔ t ∈ ts :=
  mem_sortBy

theorem mem_argvContext (compilerHash : D) :
    (t ∈ (argvContext fs cwd compilerHash args).defines ↔
        define t ∈ gnuActions fs cwd args) ∧
      (t ∈ (argvContext fs cwd compilerHash args).undefines ↔
        undefine t ∈ gnuActions fs cwd args) ∧
      (t ∈ (argvContext fs cwd compilerHash args).flags ↔
        flag t ∈ gnuActions fs cwd args) ∧
      (t ∈ (argvContext fs cwd compilerHash args).unknownFlags ↔
        unknown t ∈ gnuActions fs cwd args) := by
  have hmem : ∀ {f : GnuAction → Option Text} {mk : Text → GnuAction},
      (∀ x, f x = some t ↔ x = mk t) →
      (t ∈ sortTexts (sortTexts ((gnuActions fs cwd args).filterMap f)) ↔
        mk t ∈ gnuActions fs cwd args) := by
    intro f mk hf
    rw [mem_sortTexts, mem_sortTexts, mem_filterMap]
    simp [hf]
  exact ⟨hmem fun _ => defineOf_eq_some, hmem fun _ => undefineOf_eq_some,
    hmem fun _ => flagOf_eq_some, hmem fun _ => unknownOf_eq_some⟩

theorem exists_segment_of_mem (h : x ∈ gnuActions fs cwd args) :
    ∃ b ∈ segments fs cwd args, x ∈ b.actions := by
  rw [← flatMap_actions_segments] at h
  exact mem_flatMap.mp h

theorem nul_notMem_of_appends {tokens : List Text} (h : Appends tokens x)
    (htoks : ∀ token ∈ tokens, nul ∉ token) : ∀ t ∈ x.text, nul ∉ t := by
  have hjoin : ∀ {u v : Text}, nul ∉ u → nul ∉ v → nul ∉ u ++ v := by
    intro u v hu hv hmem
    exact (mem_append.mp hmem).elim hu hv
  have hcons : ∀ {v : Text}, nul ∉ v → nul ∉ '=' :: v := by
    intro v hv hmem
    rcases mem_cons.mp hmem with heq | hmem
    · cases heq
    · exact hv hmem
  intro t ht
  cases h with
  | define | undefine =>
    cases ht
    exact fun hmem => htoks _ mem_cons_self (mem_append_right _ hmem)
  | defineValue | undefineValue | flag | unknown =>
    cases ht
    exact htoks t (by simp)
  | @flagValue arg _ u | @unknownValue arg u =>
    cases ht
    exact hjoin (htoks arg (by simp)) (hcons (htoks u (by simp)))
  | languageValue u =>
    cases ht
    exact hjoin (by decide) (htoks u (by simp))
  | path tokens htext =>
    rw [htext] at ht
    cases ht

theorem nulFree_argvContext (h : ∀ arg ∈ args, nul ∉ arg) :
    (argvContext fs cwd compilerHash args).NulFree := by
  have htext : ∀ x ∈ gnuActions fs cwd args, ∀ t ∈ x.text, nul ∉ t := by
    intro x hx
    obtain ⟨b, hb, hxb⟩ := exists_segment_of_mem hx
    exact nul_notMem_of_appends (appends_of_mem hb x hxb)
      fun token htok => h token ((mem_segments hb).1 htok)
  intro t ht
  simp only [mem_append, mem_argvContext] at ht
  rcases ht with ((ht | ht) | ht) | ht
  all_goals exact htext _ ht t rfl

theorem normalizeCxxPrefixMapFlagForKey_eq_iff {s : Text} (hs : splitPrefixMapFlag s = none) :
    normalizeCxxPrefixMapFlagForKey t keyRoot = s ↔ t = s := by
  constructor
  · intro h
    unfold normalizeCxxPrefixMapFlagForKey at h
    split at h
    · next pre remap hsplit =>
      have hpre := (splitPrefixMapFlag_eq_some hsplit).1
      have hdrop := findSome?_eq_none_iff.mp hs pre hpre
      rw [Option.map_eq_none_iff, dropPrefix?_eq_some.mpr h.symm] at hdrop
      cases hdrop
    · exact h
  · rintro rfl
    rw [normalizeCxxPrefixMapFlagForKey, hs]

theorem splitPrefixMapFlag_eq_none (h : t.dropPrefix? "-f" = none ∨ '=' ∉ t) :
    splitPrefixMapFlag t = none := by
  have hflags : ∀ pre ∈ prefixMapFlags, '=' ∈ pre ∧ ∃ rest, pre = "-f" ++ rest := by
    simp [prefixMapFlags]
  rw [splitPrefixMapFlag, findSome?_eq_none_iff]
  intro pre hpre
  rw [Option.map_eq_none_iff, Option.eq_none_iff_forall_ne_some]
  intro remap hremap
  have ht := dropPrefix?_eq_some.mp hremap
  obtain ⟨heq, rest, rfl⟩ := hflags pre hpre
  rcases h with h | h
  · rw [ht, append_assoc, dropPrefix?_eq_some.mpr rfl] at h
    cases h
  · exact h (ht ▸ mem_append_left _ heq)

theorem splitPrefixMapFlag_of_flagFamily (h : flagFamily t ≠ none) :
    splitPrefixMapFlag t = none := by
  refine splitPrefixMapFlag_eq_none ?_
  rcases flagFamily_cases h with ⟨u, rfl⟩ | ⟨u, rfl⟩ | ⟨u, rfl⟩ | ⟨u, rfl, hno⟩
  · exact .inl rfl
  · exact .inl rfl
  · exact .inl rfl
  · refine .inr fun hmem => ?_
    rcases mem_append.mp hmem with hmem | hmem
    · revert hmem
      decide
    · exact hno hmem

theorem mem_gnuActions_iff_of_sections {args' : List Text}
    (h : (argvContext fs cwd compilerHash args).SameSections keyRoot
      (argvContext fs cwd compilerHash args')) (hx : x.family.isSome = true) :
    x ∈ gnuActions fs cwd args ↔ x ∈ gnuActions fs cwd args' := by
  have hsecs := h.sections
  simp only [CompileContext.sections, List.cons.injEq, Prod.mk.injEq, true_and, and_true]
    at hsecs
  obtain ⟨-, -, -, -, hdefines, hundefines, hflags, -, -⟩ := hsecs
  have hflag : ∀ {fl fl' : List Text} {t : Text}, splitPrefixMapFlag t = none →
      fl.map (fun f => normalizeCxxPrefixMapFlagForKey f keyRoot) =
        fl'.map (fun f => normalizeCxxPrefixMapFlagForKey f keyRoot) → (t ∈ fl ↔ t ∈ fl') := by
    intro fl fl' t ht hmap
    have hmem : ∀ l : List Text,
        t ∈ l ↔ t ∈ l.map fun f => normalizeCxxPrefixMapFlagForKey f keyRoot := by
      intro l
      simp [mem_map, normalizeCxxPrefixMapFlagForKey_eq_iff ht]
    rw [hmem fl, hmem fl', hmap]
  cases x with
  | define t => rw [← (mem_argvContext compilerHash).1, ← (mem_argvContext compilerHash).1,
      hdefines]
  | undefine t => rw [← (mem_argvContext compilerHash).2.1, ← (mem_argvContext compilerHash).2.1,
      hundefines]
  | flag t =>
    rw [← (mem_argvContext compilerHash).2.2.1, ← (mem_argvContext compilerHash).2.2.1]
    exact hflag (splitPrefixMapFlag_of_flagFamily (Option.isSome_iff_ne_none.mp hx)) hflags
  | _ => cases hx

end Key

section Exchange

variable {compiler : Text} {source : NormalizedPath} {more args' : List Text}

theorem lastOption_congr (hmem : ∀ x, x ∈ driverOptions more args ↔ x ∈ driverOptions more args')
    (hfree : OrderFree more args) (family : OptionFamily) :
    lastOption more family args = lastOption more family args' := by
  have hlast : ∀ args, lastOption more family args =
      lastBy (Option.guard fun x => x.family = some family) (driverOptions more args) := by
    intro args
    rw [lastOption, lastBy, filterMap_eq_filter]
  rw [hlast, hlast]
  refine Consistent.lastBy_congr ?_ fun x _ _ => hmem x
  intro x hx y hy v w hv hw
  simp only [Option.guard_eq_some_iff, decide_eq_true_eq] at hv hw
  obtain ⟨⟨rfl, hxfamily⟩, ⟨rfl, hyfamily⟩⟩ := And.intro hv hw
  exact hfree x hx y hy (hxfamily.trans hyfamily.symm)

theorem oneOption_of_mem (hb : b ∈ segments fs cwd args) (hx : x ∈ b.actions)
    (hfam : x.family.isSome = true) : IsOption b.tokens x ∧ b.actions = [x] := by
  have hopt := (appends_of_mem hb x hx).isOption hfam
  obtain ⟨front, back, hsegs⟩ := append_of_mem hb
  have hchained : Chained fs cwd (front ++ b :: back) := hsegs ▸ chained_segments args
  have hcons := hchained.of_append.cons
  rw [hopt.segments_append] at hcons
  refine ⟨hopt, ?_⟩
  rw [← (List.cons.inj hcons).1]

theorem exists_last {α : Type} {p : α → Prop} {l : List α} (h : ∃ a ∈ l, p a) :
    ∃ front a back, l = front ++ a :: back ∧ p a ∧ ∀ b ∈ back, ¬ p b := by
  induction l with
  | nil =>
    obtain ⟨a, ha, -⟩ := h
    cases ha
  | cons a l ih =>
    by_cases hl : ∃ b ∈ l, p b
    · obtain ⟨front, b, back, rfl, hb, hback⟩ := ih hl
      exact ⟨a :: front, b, back, rfl, hb, hback⟩
    · obtain ⟨b, hb, hp⟩ := h
      rcases mem_cons.mp hb with rfl | hb
      · exact ⟨[], b, l, rfl, hp, fun c hc hpc => hl ⟨c, hc, hpc⟩⟩
      · exact absurd ⟨b, hb, hp⟩ hl

/-- Of two options of a family that differ, one is before the last one of the family. -/
theorem exists_overridden (fs : FileSystem) (cwd : Path) (hplain : PlainlyRead more args)
    (h : ¬ OrderFree more args) :
    ∃ (family : OptionFamily) (w z : Segment) (x y : GnuAction) (front middle back : List Segment),
      segments fs cwd args = front ++ w :: (middle ++ z :: back) ∧
      (IsOption w.tokens x ∧ w.actions = [x]) ∧ (IsOption z.tokens y ∧ z.actions = [y]) ∧
      x.family = some family ∧ y.family = some family ∧ x ≠ y ∧
      ∀ b ∈ back, ∀ x ∈ b.actions, x.family ≠ some family := by
  have hopts := driverOptions_eq_filter fs cwd hplain
  simp only [OrderFree, hopts, mem_filter] at h
  push Not at h
  obtain ⟨u, ⟨hu, hufamily⟩, v, ⟨hv, -⟩, hsame, hne⟩ := h
  obtain ⟨family, hfam⟩ := Option.isSome_iff_exists.mp hufamily
  obtain ⟨b, hb, hub⟩ := exists_segment_of_mem hu
  obtain ⟨front, z, back, hsegs, ⟨y, hy, hyfamily⟩, hback⟩ :=
    exists_last (p := fun b : Segment => ∃ x ∈ b.actions, x.family = some family)
      ⟨b, hb, u, hub, hfam⟩
  have hzmem : z ∈ segments fs cwd args := by simp [hsegs]
  have hz := oneOption_of_mem hzmem hy (by simp [hyfamily])
  obtain ⟨x, hx, hxfamily, hxy⟩ : ∃ x ∈ gnuActions fs cwd args,
      x.family = some family ∧ x ≠ y := by
    by_cases huy : u = y
    · exact ⟨v, hv, hsame ▸ hfam, fun hvy => hne (huy.trans hvy.symm)⟩
    · exact ⟨u, hu, hfam, huy⟩
  obtain ⟨w, hw, hxw⟩ := exists_segment_of_mem hx
  have hwfront : w ∈ front := by
    rw [hsegs] at hw
    rcases mem_append.mp hw with hw | hw
    · exact hw
    rcases mem_cons.mp hw with rfl | hw
    · rw [hz.2] at hxw
      exact absurd (mem_singleton.mp hxw) hxy
    · exact absurd ⟨x, hxw, hxfamily⟩ (hback w hw)
  obtain ⟨front, middle, rfl⟩ := append_of_mem hwfront
  refine ⟨family, w, z, x, y, front, middle, back, by simpa using hsegs,
    oneOption_of_mem hw hxw (by simp [hxfamily]), hz, hxfamily, hyfamily, hxy, ?_⟩
  exact fun b hb x hx hfam => hback b hb ⟨x, hx, hfam⟩

/-- The parser's lists do not change when two options change places. -/
theorem ofActions_swap {x y : GnuAction} (hx : x.family.isSome = true)
    (hy : y.family.isSome = true) (front middle back : List GnuAction) :
    ParsedArgs.ofActions (front ++ y :: (middle ++ x :: back)) =
      ParsedArgs.ofActions (front ++ x :: (middle ++ y :: back)) := by
  have hperm : (front ++ y :: (middle ++ x :: back)).Perm
      (front ++ x :: (middle ++ y :: back)) := by
    refine List.Perm.append_left front ?_
    have hmiddle : (y :: (middle ++ x :: back)).Perm (y :: x :: (middle ++ back)) :=
      perm_middle.cons y
    exact hmiddle.trans ((List.Perm.swap x y _).trans (perm_middle.symm.cons x))
  have hsort : ∀ f : GnuAction → Option Text,
      sortTexts ((front ++ y :: (middle ++ x :: back)).filterMap f) =
        sortTexts ((front ++ x :: (middle ++ y :: back)).filterMap f) :=
    fun f => sortBy_id_eq_of_perm (hperm.filterMap f)
  have hskip : ∀ f : GnuAction → Option NormalizedPath,
      (∀ x : GnuAction, x.family.isSome = true → f x = none) →
      (front ++ y :: (middle ++ x :: back)).filterMap f =
        (front ++ x :: (middle ++ y :: back)).filterMap f := by
    intro f hf
    simp [filterMap_append, hf x hx, hf y hy]
  have hdir : ∀ kind, (front ++ y :: (middle ++ x :: back)).filterMap (dirOf kind) =
      (front ++ x :: (middle ++ y :: back)).filterMap (dirOf kind) := by
    intro kind
    refine hskip _ fun x hx => ?_
    cases x <;> first | rfl | cases hx
  have hout := hskip outputOf fun x hx => by cases x <;> first | rfl | cases hx
  have hforce := hskip forceIncludeOf fun x hx => by cases x <;> first | rfl | cases hx
  have hsource := hskip sourceOf fun x hx => by cases x <;> first | rfl | cases hx
  simp only [ParsedArgs.ofActions, hsort, hdir, hout, hforce, hsource]

theorem lastOption_eq (fs : FileSystem) (cwd : Path) (h : PlainlyRead more args)
    (family : OptionFamily) :
    lastOption more family args =
      ((gnuActions fs cwd args).filter fun x => x.family = some family).getLast? := by
  rw [lastOption, driverOptions_eq_filter fs cwd h, filter_filter]
  congr 1
  refine filter_congr fun x _ => ?_
  cases x.family <;> simp

theorem getLast?_filter_eq {family : OptionFamily} {y : GnuAction} (segs : List Segment)
    {back : List Segment} (hz : b.actions = [y]) (hy : y.family = some family)
    (hback : ∀ b ∈ back, ∀ x ∈ b.actions, x.family ≠ some family) :
    (((segs ++ b :: back).flatMap Segment.actions).filter
      fun x => x.family = some family).getLast? = some y := by
  have hnone : (back.flatMap Segment.actions).filter (fun x => x.family = some family) = [] := by
    rw [filter_eq_nil_iff]
    intro x hx
    obtain ⟨b, hb, hxb⟩ := mem_flatMap.mp hx
    simpa using hback b hb x hxb
  simp [flatMap_append, hz, hy, hnone]

theorem invocationSource_congr {u : GnuScan} {l : List Text} (hscan : scanGnu .start args = .ok u)
    (hscan' : scanGnu .start args' = .ok { u with unknownFlags := l })
    (hside : ∀ arg ∈ args', arg ∈ args ∨ isSideOutputFlag arg = false)
    (h : invocationSource compiler args = some source) :
    invocationSource compiler args' = some source := by
  have hnone : unmodeledSideOutputFlag args = none → unmodeledSideOutputFlag args' = none := by
    simp only [unmodeledSideOutputFlag, find?_eq_none, Bool.not_eq_true]
    exact fun hargs arg harg => (hside arg harg).elim (hargs arg) id
  rw [invocationSource_eq, hscan] at h
  rw [invocationSource_eq, hscan']
  dsimp only at h ⊢
  split at h
  · cases h
  · next hlink =>
    rw [if_neg hlink]
    split at h
    · next source' hsrcs hflag =>
      rw [hsrcs, hnone hflag]
      exact h
    · cases h

theorem forall₂_swap {R : Segment → Segment → Prop} (hrefl : ∀ b, R b b) {w z : Segment}
    (hwz : R w z) (hzw : R z w) (front middle back : List Segment) :
    List.Forall₂ R (front ++ w :: (middle ++ z :: back)) (front ++ z :: (middle ++ w :: back)) := by
  have hsame : ∀ l, List.Forall₂ R l l := fun l => forall₂_same.mpr fun b _ => hrefl b
  exact rel_append (hsame front) (.cons hwz (rel_append (hsame middle)
    (.cons hzw (hsame back))))

/-- Arguments that are read alike, in another order of two options that override each other. -/
theorem exists_reordered (fs : FileSystem) (cwd : Path) (hplain : PlainlyRead more args)
    (h : ¬ OrderFree more args) (hsource : invocationSource compiler args = some source) :
    ∃ args' : List Text, args' ⊆ args ∧ invocationSource compiler args' = some source ∧
      parseGnuArgs fs args' cwd = parseGnuArgs fs args cwd ∧
      ∃ family, lastOption more family args ≠ lastOption more family args' := by
  obtain ⟨family, w, z, x, y, front, middle, back, hsegs, hw, hz, hx, hy, hxy, hback⟩ :=
    exists_overridden fs cwd hplain h
  have hargs : args = tokensOf (front ++ w :: (middle ++ z :: back)) := by
    rw [← hsegs, tokensOf_segments]
  have hopt : w.OneOption ∧ z.OneOption := ⟨⟨x, hw⟩, ⟨y, hz⟩⟩
  have hexchanged : List.Forall₂ Exchanged (front ++ w :: (middle ++ z :: back))
      (front ++ z :: (middle ++ w :: back)) :=
    forall₂_swap (fun _ => .inl rfl) (.inr hopt) (.inr hopt.symm) front middle back
  have hchained : Chained fs cwd (front ++ w :: (middle ++ z :: back)) :=
    hsegs ▸ chained_segments args
  have hchained' := hchained.exchange hexchanged
  have hsub : tokensOf (front ++ z :: (middle ++ w :: back)) ⊆ args := by
    rw [hargs]
    intro t ht
    simp only [tokensOf, flatMap_append, flatMap_cons, mem_append] at ht ⊢
    tauto
  have hplain' : PlainlyRead more (tokensOf (front ++ z :: (middle ++ w :: back))) :=
    fun arg harg => hplain arg (hsub harg)
  have hacts : (front ++ w :: (middle ++ z :: back)).flatMap Segment.actions =
      gnuActions fs cwd args := by
    rw [← hsegs, flatMap_actions_segments]
  have hacts' : (front ++ z :: (middle ++ w :: back)).flatMap Segment.actions =
      gnuActions fs cwd (tokensOf (front ++ z :: (middle ++ w :: back))) := by
    rw [← flatMap_actions_segments, hchained']
  refine ⟨tokensOf (front ++ z :: (middle ++ w :: back)), hsub, ?_, ?_, family, ?_⟩
  · -- both options are only listed by the classifier
    cases hscan : scanGnu .start args with
    | error reason =>
      rw [invocationSource_eq, hscan] at hsource
      cases hsource
    | ok u =>
      have hdashes : "--".toList ∉ args := fun hmem => (hplain _ hmem).2.1 rfl
      have hmllvm : "-mllvm".toList ∉ args := fun hmem => (hplain _ hmem).1 rfl
      have hquiet : ∀ b ∈ front ++ w :: (middle ++ z :: back), b.OneOption → b.Quiet :=
        fun b hb hb' => quiet_of_mem hchained (hargs ▸ hdashes) (hargs ▸ hmllvm) rfl
          (hargs ▸ hscan) hb hb'
      have hboth : w.Quiet ∧ z.Quiet :=
        ⟨hquiet w (by simp) hopt.1, hquiet z (by simp) hopt.2⟩
      obtain ⟨l, hl⟩ := scanGnu_exchange hexchanged
        (forall₂_swap (fun _ => .inl rfl) (.inr hboth) (.inr hboth.symm) front middle back)
        hchained (hargs ▸ hdashes) (hargs ▸ hmllvm) (fun hmem => hdashes (hsub hmem))
        (fun hmem => hmllvm (hsub hmem)) rfl (hargs ▸ hscan) []
      exact invocationSource_congr hscan hl (fun arg harg => .inl (hsub harg)) hsource
  · rw [parseGnuArgs, parseGnuArgs, ← hacts, ← hacts']
    simp only [flatMap_append, flatMap_cons, hw.2, hz.2, singleton_append]
    exact ofActions_swap hw.1.family_isSome hz.1.family_isSome _ _ _
  · rw [lastOption_eq fs cwd hplain family, lastOption_eq fs cwd hplain' family, ← hacts,
      ← hacts']
    have hlast := getLast?_filter_eq (front ++ w :: middle) hz.2 hy hback
    have hlast' := getLast?_filter_eq (front ++ z :: middle) hw.2 hx hback
    rw [append_assoc, cons_append] at hlast hlast'
    rw [hlast, hlast']
    exact fun heq => hxy (Option.some.inj heq).symm

end Exchange

def compileArgs (options : List String) : List Text :=
  texts (["-c"] ++ options ++ ["m.c"])

def sampleKey (args : List Text) : ContextKey Text :=
  argvContextKey Host.transparent .empty (components "/w") "cc"
    (some (components "/w")) none (some "00") args

/-- Some of the flags that gcc takes with a value and zccache does not. -/
def gccFlagsWithValue : List Text :=
  texts ["-Xlinker", "-Xassembler", "-u", "-z", "-T", "-e", "-l", "-L", "-A", "-G", "-B",
    "-iprefix", "-iwithprefix", "-iwithprefixbefore", "-imultilib", "-aux-info", "-dumpbase",
    "-dumpbase-ext", "-dumpdir", "-wrapper", "--param"]

/-- Options of one family in two orders, and options that are the value of another. -/
def reorderings : List (OptionFamily × List String × List String) :=
  [(.named "X", ["-DX=1", "-DX=2"], ["-DX=2", "-DX=1"]),
    (.named "X", ["-D", "X", "-UX"], ["-UX", "-DX"]),
    (.optimization, ["-O0", "-O2"], ["-O2", "-O0"]),
    (.standard, ["-std=c99", "-std=c11"], ["-std=c11", "-std", "c99"]),
    (.feature "pic", ["-fpic", "-fno-pic"], ["-fno-pic", "-fpic"]),
    (.named "X", ["-mllvm", "-DX"], ["-DX", "-mllvm", "-c"]),
    (.named "X", ["-Xlinker", "-DX"], ["-DX", "-Xlinker", "-c"])]

end Zccache
