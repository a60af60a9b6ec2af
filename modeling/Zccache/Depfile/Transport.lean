import Zccache.Depfile.Root

/-! # Depfiles on the way between worktrees

A stored depfile comes back as it was in its own worktree, and with the other
root in another one. A root with a line break spoils the header that binds a
depfile to it.
-/

namespace Zccache

open List Unix Templates Option

section Marker

theorem marker_eq : ∃ tail, depfileWorktreeRootMarker = sep :: tail ∧ sep ∉ tail :=
  ⟨depfileWorktreeRootMarker.tail, by decide, by decide⟩

theorem marker_ne_nil : depfileWorktreeRootMarker ≠ [] := by decide

variable {t : Template Char}

/-- The marker is found in the holes of a template and nowhere else. -/
theorem cut_fill_marker (h : ¬ depfileWorktreeRootMarker.map some <:+: t) :
    cut depfileWorktreeRootMarker (fun _ _ => true) [] 0 (fill depfileWorktreeRootMarker t) =
      t := by
  refine cut_fill marker_ne_nil ?_
  obtain ⟨tail, hmark, hsep⟩ := marker_eq
  rw [hmark] at h ⊢
  exact cuttable_of_notMem hsep h

theorem header_of_prefix_fill_marker
    (h : depfileRootBoundPrefix <+: fill depfileWorktreeRootMarker t) :
    depfileRootBoundPrefix.map some <+: t := by
  exact map_some_prefix_of_prefix_fill (by decide) h

theorem dropBoundHeader_of_not_prefix {bytes : Text} {keyRoot : Option Text}
    (h : ¬ depfileRootBoundPrefix <+: bytes) : dropBoundHeader bytes keyRoot = some bytes := by
  have hnone : bytes.dropPrefix? depfileRootBoundPrefix = none := by
    refine eq_none_iff_forall_ne_some.mpr fun rest hrest => h ?_
    exact ⟨rest, (dropPrefix?_eq_some.mp hrest).symm⟩
  rw [dropBoundHeader, hnone]

theorem replaceDepfileRootMarker_fill {keyRoot root : Text}
    (hroot : rootSpelling keyRoot = some root) (h : ¬ depfileWorktreeRootMarker.map some <:+: t) :
    replaceDepfileRootMarker (fill depfileWorktreeRootMarker t) (some keyRoot) =
      some (fill (quoteMakeDepfilePath root) t) := by
  unfold replaceDepfileRootMarker
  split
  · rw [cut_fill_marker h, bind_some, hroot]
    rfl
  · next hno =>
    have hholes : none ∉ t := fun hmem => hno (decide_eq_true (infix_fill_of_mem _ hmem))
    rw [eq_map_some_of_notMem depfileWorktreeRootMarker hholes]
    simp

theorem rehydrateDepfileRoot_fill {keyRoot root : Text} (hroot : rootSpelling keyRoot = some root)
    (hmark : ¬ depfileWorktreeRootMarker.map some <:+: t)
    (hheader : ¬ depfileRootBoundPrefix.map some <+: t) :
    rehydrateDepfileRoot (fill depfileWorktreeRootMarker t) (some keyRoot) =
      some (fill (quoteMakeDepfilePath root) t) := by
  rw [rehydrateDepfileRoot,
    dropBoundHeader_of_not_prefix fun h => hheader (header_of_prefix_fill_marker h)]
  exact replaceDepfileRootMarker_fill hroot hmark

end Marker

section Quoting

theorem rootSpelling_eq_some {keyRoot root : Text} (h : rootSpelling keyRoot = some root) :
    (∃ names, root = sep :: names) ∧ root.getLast? ≠ some '\\' ∧ root.getLast? ≠ some ':' ∧
      root <+: keyRoot := by
  unfold rootSpelling at h
  dsimp only at h
  split at h
  · next hroot =>
    obtain ⟨habs, hne, hcolon⟩ := hroot
    cases h
    have hbeg := rdropWhile_prefix (fun c => decide (c = '/') || decide (c = '\\')) keyRoot
    refine ⟨?_, fun hlast => ?_, hcolon, hbeg⟩
    · obtain ⟨c, names, hnames⟩ := exists_cons_of_ne_nil hne
      rw [hnames] at hbeg
      obtain ⟨rest, rfl⟩ := hbeg
      refine ⟨names, ?_⟩
      rw [hnames]
      unfold isAbsolute at habs
      simp only [cons_append, head?_cons, decide_eq_true_eq, some.injEq]
        at habs
      rw [habs]
    · have hnot := rdropWhile_last_not (fun c => decide (c = '/') || decide (c = '\\'))
        keyRoot hne
      rw [getLast?_eq_some_getLast hne, some.injEq] at hlast
      rw [hlast] at hnot
      exact hnot rfl
  · cases h

theorem quotedByte_eq_concat (k : ℕ) (c : Char) : ∃ pre, quotedByte k c = pre ++ [c] ∧
    ∀ d ∈ pre, d = '\\' ∨ d = c := by
  unfold quotedByte
  split
  · exact ⟨[], by simp⟩
  split
  · exact ⟨_, rfl, fun d hd => .inl (eq_of_mem_replicate hd)⟩
  split
  · next hc => exact ⟨['\\'], by simp [hc]⟩
  split
  · next hc => exact ⟨['$'], by simp [hc]⟩
  · exact ⟨[], by simp⟩

theorem getLast?_quoteFrom (k : ℕ) (text : Text) :
    (quoteFrom k text).getLast? = text.getLast? := by
  induction text generalizing k with
  | nil => rfl
  | cons c rest ih =>
    obtain ⟨pre, hpre, -⟩ := quotedByte_eq_concat k c
    rw [quoteFrom, hpre, append_assoc, getLast?_append, singleton_append,
      getLast?_cons, getLast?_cons, ih]
    rfl

variable {c : Char} {k : ℕ}

theorem mem_of_mem_quoteFrom {text : Text} (hc : c ≠ '\\') (h : c ∈ quoteFrom k text) :
    c ∈ text := by
  induction text generalizing k with
  | nil => exact h
  | cons d rest ih =>
    obtain ⟨pre, hpre, hmem⟩ := quotedByte_eq_concat k d
    rw [quoteFrom, hpre, append_assoc, mem_append, singleton_append,
      mem_cons] at h
    rw [mem_cons]
    rcases h with h | rfl | h
    · exact .inl ((hmem c h).resolve_left hc)
    · exact .inl rfl
    · exact .inr (ih h)

/-- The backslashes at the end of a template that is given backwards. -/
def trailingRun (before : Template Char) : ℕ :=
  (before.takeWhile (· = some '\\')).length

@[simp] theorem trailingRun_backslash (before : Template Char) :
    trailingRun (some '\\' :: before) = trailingRun before + 1 := by
  simp [trailingRun]

theorem trailingRun_other {x : Option Char} (before : Template Char) (hx : x ≠ some '\\') :
    trailingRun (x :: before) = 0 := by
  simp [trailingRun, hx]

theorem trailingRun_replicate (n : ℕ) (before : Template Char) :
    trailingRun (((replicate n '\\').map some).reverse ++ before) =
      n + trailingRun before := by
  induction n generalizing before with
  | zero => simp
  | succ n ih =>
    rw [replicate_succ, map_cons, reverse_cons, append_assoc,
      singleton_append, ih, trailingRun_backslash]
    omega

variable {before : Template Char}

theorem trailingRun_quotedByte (hk : trailingRun before = k) (c : Char) :
    trailingRun (((quotedByte k c).map some).reverse ++ before) =
      if c = '\\' then k + 1 else 0 := by
  by_cases hc : c = '\\'
  · simp [quotedByte, hc, hk]
  · obtain ⟨pre, hpre, -⟩ := quotedByte_eq_concat k c
    rw [if_neg hc, hpre, map_append, reverse_append]
    exact trailingRun_other _ fun h => hc (some.inj h)

theorem trailingRun_in_quotedByte {d : Char} {pre post : Text} (hk : trailingRun before = k)
    (hc : c = ' ' ∨ c = '\t') (h : quotedByte k d = pre ++ c :: post) :
    trailingRun ((pre.map some).reverse ++ before) % 2 = 1 := by
  have hne : c ≠ '\\' := by rcases hc with rfl | rfl <;> decide
  have hmem : c ∈ quotedByte k d := by
    rw [h]
    exact mem_append_right _ mem_cons_self
  -- The blank is the letter itself, and comes last.
  obtain rfl : c = d := by
    obtain ⟨pre', hpre', hall⟩ := quotedByte_eq_concat k d
    rw [hpre', mem_append, mem_singleton] at hmem
    exact hmem.elim (fun hmem => (hall c hmem).resolve_left hne) fun h => h
  have hquot : quotedByte k c = replicate (k + 1) '\\' ++ [c] := by
    rw [quotedByte, if_neg hne, if_pos hc]
  have hnotMem : c ∉ replicate (k + 1) '\\' := fun h => hne (eq_of_mem_replicate h)
  rw [hquot, append_cons_inj_of_notMem hnotMem not_mem_nil] at h
  rw [← h.1, trailingRun_replicate, hk]
  omega

/-- A blank in a quoted text comes after an odd number of backslashes. -/
theorem trailingRun_quoteFrom {text pre post : Text} (hk : trailingRun before = k)
    (hc : c = ' ' ∨ c = '\t') (h : quoteFrom k text = pre ++ c :: post) :
    trailingRun ((pre.map some).reverse ++ before) % 2 = 1 := by
  induction text generalizing k pre before with
  | nil => exact absurd h (by simp [quoteFrom])
  | cons d rest ih =>
    have hrest (pre' : Text) := @ih _ _ pre' (trailingRun_quotedByte hk d)
    rcases append_eq_append_iff.mp h with ⟨u, rfl, hu⟩ | ⟨u, hu, hu'⟩
    · rw [map_append, reverse_append, append_assoc]
      exact hrest u hu
    · cases u with
      | nil =>
        rw [append_nil] at hu
        rw [← hu]
        exact hrest [] hu'.symm
      | cons e u =>
        obtain ⟨rfl, -⟩ := cons.inj hu'
        exact trailingRun_in_quotedByte hk hc hu

end Quoting

section Cutting

/-- A hole at the start of a path. What is before it is given backwards. -/
def startsToken : Template Char → Bool
  | [] => true
  | none :: _ => false
  | some c :: before =>
    c = '\n' || c = '\r' || (c = ' ' || c = '\t') && trailingRun before % 2 = 0

def endsRoot : Template Char → Bool
  | [] => true
  | none :: _ => false
  | some '\\' :: rest => rest.head? = some (some '\n') || rest.head? = some (some '\r')
  | some c :: _ => c ∈ [' ', '\t', '\n', '\r', ':', '/']

/-- All holes are at the start of paths and end there or in front of a separator. -/
def wellPlaced (before : Template Char) : Template Char → Bool
  | [] => true
  | none :: t => startsToken before && endsRoot t && wellPlaced (none :: before) t
  | some c :: t => wellPlaced (some c :: before) t

variable {word : Text}

theorem trailingRun_fill (hword : ∃ c, word.head? = some c ∧ c ≠ '\\') (before : Template Char) :
    ((fill word before).takeWhile (· = '\\')).length = trailingRun before := by
  induction before with
  | nil => rfl
  | cons x before ih =>
    cases x with
    | none =>
      obtain ⟨c, hhead, hc⟩ := hword
      obtain ⟨word', rfl⟩ := head?_eq_some_iff.mp hhead
      simp [trailingRun, hc]
    | some c =>
      by_cases hc : c = '\\'
      · subst hc
        rw [trailingRun_backslash, ← ih]
        simp
      · rw [trailingRun_other _ fun h => hc (some.inj h)]
        simp [hc]

variable {before : Template Char}

theorem unescapedWhitespaceBefore_fill (hword : ∃ c, word.head? = some c ∧ c ≠ '\\')
    (h : startsToken before = true) : unescapedWhitespaceBefore (fill word before) = true := by
  cases before with
  | nil => rfl
  | cons x before =>
    cases x with
    | none => cases h
    | some c =>
      rw [fill_some, unescapedWhitespaceBefore, trailingRun_fill hword]
      exact h

variable {t : Template Char}

theorem rootEndsAt_fill (h : endsRoot t = true) : rootEndsAt (fill word t) = true := by
  unfold endsRoot at h
  split at h
  · rfl
  · cases h
  · next rest =>
    rw [fill_some, rootEndsAt]
    cases rest with
    | nil => cases h
    | cons x rest =>
      cases x with
      | none => simp at h
      | some c => simpa using h
  · next c rest hc =>
    rw [fill_some, rootEndsAt]
    · exact h
    · exact fun hc' => hc hc'

theorem startsToken_of_wellPlaced {pre : Text}
    (h : wellPlaced before (pre.map some ++ none :: t) = true) :
    startsToken ((pre.map some).reverse ++ before) = true := by
  induction pre generalizing before with
  | nil =>
    simp only [map_nil, nil_append, wellPlaced, Bool.and_eq_true] at h
    exact h.1.1
  | cons c pre ih =>
    rw [map_cons, reverse_cons, append_assoc]
    exact ih h

/-- A word that is found in a filled template is in the template, or reaches into a hole. -/
theorem map_some_prefix_or_of_prefix_fill {text : Text} (h : text <+: fill word t) :
    text.map some <+: t ∨
      ∃ pre post t', text = pre ++ post ∧ t = pre.map some ++ none :: t' := by
  induction text generalizing t with
  | nil => exact .inl nil_prefix
  | cons c text ih =>
    cases t with
    | nil => exact absurd h (by simp)
    | cons x t =>
      cases x with
      | none => exact .inr ⟨[], _, t, rfl, rfl⟩
      | some d =>
        rw [fill_some, cons_prefix_cons] at h
        obtain ⟨rfl, h⟩ := h
        rcases ih h with h | ⟨pre, post, t', rfl, rfl⟩
        · exact .inl (by rw [map_cons, cons_prefix_cons]; exact ⟨rfl, h⟩)
        · exact .inr ⟨c :: pre, post, t', rfl, rfl⟩

variable {keyRoot root : Text}

variable (hroot : rootSpelling keyRoot = some root)

include hroot

theorem not_startsToken_inside (hn : '\n' ∉ root) (hr : '\r' ∉ root) {pre post : Text}
    (hpre : pre ≠ [])
    (h : quoteMakeDepfilePath root = pre ++ post) :
    startsToken ((pre.map some).reverse ++ before) = false := by
  obtain ⟨⟨names, rfl⟩, -⟩ := rootSpelling_eq_some hroot
  obtain ⟨pre', c, rfl⟩ := (eq_nil_or_concat' pre).resolve_left hpre
  have hmem : c ∈ quoteFrom 0 (sep :: names) := by
    rw [← quoteMakeDepfilePath, h]
    simp
  have hline : c ≠ '\n' ∧ c ≠ '\r' := by
    refine ⟨?_, ?_⟩
    · rintro rfl
      exact hn (mem_of_mem_quoteFrom (by decide) hmem)
    · rintro rfl
      exact hr (mem_of_mem_quoteFrom (by decide) hmem)
  rw [map_append, reverse_append, append_assoc]
  simp only [map_cons, map_nil, reverse_cons, reverse_nil, nil_append,
    cons_append, startsToken, hline.1, hline.2, decide_false, Bool.false_or]
  by_cases hblank : c = ' ' ∨ c = '\t'
  · -- The root starts with a slash, so its backslashes are all that count.
    cases pre' with
    | nil =>
      obtain ⟨rfl, -⟩ := cons.inj (show sep :: _ = c :: _ from h)
      exact absurd hblank (by decide)
    | cons d pre' =>
      obtain ⟨rfl, hnames⟩ := cons.inj (show sep :: quoteFrom 0 names = d :: _ from h)
      have hslash : trailingRun (some sep :: before) = 0 := trailingRun_other before (by decide)
      have hodd := trailingRun_quoteFrom hslash hblank
        (hnames.trans (append_assoc pre' [c] post))
      simp only [map_cons, reverse_cons, append_assoc, singleton_append]
      rw [Bool.and_eq_false_iff]
      right
      rw [decide_eq_false_iff_not]
      omega
  · rw [not_or] at hblank
    simp [hblank.1, hblank.2]

/-- The roots that are put in the holes are found again. -/
theorem cuttable_quoted (hn : '\n' ∉ root) (hr : '\r' ∉ root) (hplaced : wellPlaced before t = true)
    (hlit : ¬ (quoteMakeDepfilePath root).map some <:+: t) :
    Cuttable (quoteMakeDepfilePath root)
      (fun before after => unescapedWhitespaceBefore before && rootEndsAt after)
      (fill (quoteMakeDepfilePath root).reverse before) t := by
  have hlast : ∃ c, (quoteMakeDepfilePath root).reverse.head? = some c ∧ c ≠ '\\' := by
    obtain ⟨⟨names, rfl⟩, hbs, -⟩ := rootSpelling_eq_some hroot
    refine ⟨(sep :: names).getLast (by simp), ?_, fun h => hbs ?_⟩
    · rw [head?_reverse, quoteMakeDepfilePath, getLast?_quoteFrom,
        getLast?_eq_some_getLast]
    · rw [getLast?_eq_some_getLast (by simp), h]
  induction t generalizing before with
  | nil => trivial
  | cons x t ih =>
    have hrest : ¬ (quoteMakeDepfilePath root).map some <:+: t :=
      fun h => hlit (h.trans (infix_cons infix_rfl))
    cases x with
    | none =>
      simp only [wellPlaced, Bool.and_eq_true] at hplaced
      refine ⟨?_, ih hplaced.2 hrest⟩
      dsimp only
      rw [unescapedWhitespaceBefore_fill hlast hplaced.1.1, rootEndsAt_fill hplaced.1.2]
      rfl
    | some c =>
      refine ⟨fun hbeg => ?_, ih hplaced hrest⟩
      rcases map_some_prefix_or_of_prefix_fill (t := some c :: t) hbeg with
        h | ⟨pre, post, t', h, ht⟩
      · exact hlit h.isInfix
      · have hpre : pre ≠ [] := by
          rintro rfl
          cases ht
        rw [ht] at hplaced
        have hstarts := startsToken_of_wellPlaced hplaced
        rw [not_startsToken_inside hroot hn hr hpre h] at hstarts
        cases hstarts

end Cutting

section Binding

variable {canonical keyRoot : Text}

theorem dropBoundHeader_bind (requestRoot : Text) :
    dropBoundHeader (bindDepfileToRoot canonical keyRoot) (some requestRoot) =
      if (keyRoot ++ '\n' :: canonical).takeWhile (· ≠ '\n') = requestRoot then
        some (((keyRoot ++ '\n' :: canonical).dropWhile (· ≠ '\n')).drop 1)
      else none := by
  have hdrop : (bindDepfileToRoot canonical keyRoot).dropPrefix? depfileRootBoundPrefix =
      some (keyRoot ++ '\n' :: canonical) := by
    rw [dropPrefix?_eq_some, bindDepfileToRoot, append_assoc]
  rw [dropBoundHeader, hdrop]
  simp

theorem dropBoundHeader_bind_of_notMem (hn : '\n' ∉ keyRoot) (requestRoot : Text) :
    dropBoundHeader (bindDepfileToRoot canonical keyRoot) (some requestRoot) =
      if keyRoot = requestRoot then some canonical else none := by
  have hall : ∀ c ∈ keyRoot, decide (c ≠ '\n') = true := by
    intro c hc
    rw [decide_eq_true_eq]
    exact ne_of_mem_of_not_mem hc hn
  rw [dropBoundHeader_bind, takeWhile_append_of_pos hall, dropWhile_append_of_pos hall]
  simp

/-- A root with a line break does not recognise its own header. -/
theorem dropBoundHeader_bind_of_mem (hn : '\n' ∈ keyRoot) :
    dropBoundHeader (bindDepfileToRoot canonical keyRoot) (some keyRoot) = none := by
  rw [dropBoundHeader_bind, if_neg]
  intro h
  have hmem := mem_takeWhile_imp (h ▸ hn)
  simp at hmem

end Binding

variable {keyRoot root : Text}

theorem quoteMakeDepfilePath_ne_nil (hroot : rootSpelling keyRoot = some root) :
    quoteMakeDepfilePath root ≠ [] := by
  obtain ⟨⟨names, rfl⟩, -⟩ := rootSpelling_eq_some hroot
  simp [quoteMakeDepfilePath, quoteFrom, quotedByte, sep]

theorem rehydrate_canonicalize {bytes : Text} (keyRoot : Text)
    (hmark : ¬ depfileWorktreeRootMarker <:+: bytes)
    (hheader : ¬ depfileRootBoundPrefix <+: bytes) :
    rehydrateDepfileRoot (canonicalizeDepfileRoot bytes keyRoot) (some keyRoot) = some bytes := by
  unfold canonicalizeDepfileRoot
  cases hroot : rootSpelling keyRoot with
  | none =>
    rw [rehydrateDepfileRoot, dropBoundHeader_of_not_prefix hheader]
    simp [replaceDepfileRootMarker, containsDepfileRootMarker, hmark]
  | some root =>
    have hfill : fill (quoteMakeDepfilePath root) (cut (quoteMakeDepfilePath root)
        (fun before after => unescapedWhitespaceBefore before && rootEndsAt after) [] 0 bytes) =
          bytes := fill_cut (quoteMakeDepfilePath_ne_nil hroot) bytes
    rw [rehydrateDepfileRoot_fill hroot (fun h => hmark ?_) fun h => hheader ?_, hfill]
    · rw [← hfill]
      exact infix_fill _ h
    · rw [← hfill]
      exact prefix_fill _ h

variable {keyRoot' root' : Text} {t : Template Char}

theorem canonicalize_fill (hroot : rootSpelling keyRoot = some root) (hn : '\n' ∉ root)
    (hr : '\r' ∉ root) (hplaced : wellPlaced [] t = true)
    (hlit : ¬ (quoteMakeDepfilePath root).map some <:+: t) :
    canonicalizeDepfileRoot (fill (quoteMakeDepfilePath root) t) keyRoot =
      fill depfileWorktreeRootMarker t := by
  rw [canonicalizeDepfileRoot, hroot]
  exact congrArg (fill depfileWorktreeRootMarker) (cut_fill (quoteMakeDepfilePath_ne_nil hroot)
    (cuttable_quoted hroot hn hr hplaced hlit))

/-- A text that starts with a header is never delivered whole. -/
theorem rehydrate_ne_of_header (hroot : rootSpelling keyRoot = some root)
    (hmark : ¬ depfileWorktreeRootMarker.map some <:+: t)
    (hheader : depfileRootBoundPrefix.map some <+: t) :
    rehydrateDepfileRoot (fill depfileWorktreeRootMarker t) (some keyRoot) ≠
      some (fill (quoteMakeDepfilePath root) t) := by
  obtain ⟨rest, rfl⟩ := hheader
  -- At most the template behind its first line feed is delivered.
  have hdrop : (fill depfileWorktreeRootMarker
      (depfileRootBoundPrefix.map some ++ rest)).dropPrefix? depfileRootBoundPrefix =
        some (fill depfileWorktreeRootMarker rest) := by
    rw [dropPrefix?_eq_some, fill_append, fill_map_some]
  have hsuffix : (rest.dropWhile (· ≠ some '\n')).drop 1 <:+ rest :=
    (drop_suffix _ _).trans (dropWhile_suffix _)
  have hbehind := replaceDepfileRootMarker_fill hroot fun hin =>
    hmark (hin.trans (hsuffix.isInfix.trans (suffix_append _ _).isInfix))
  intro h
  rw [rehydrateDepfileRoot, dropBoundHeader, hdrop] at h
  dsimp only at h
  split at h
  · cases h
  · rw [bind_some] at h
    split at h
    · rw [bind_some, drop_dropWhile_fill _ (by decide), hbehind, fill_append, fill_map_some] at h
      have hlen := congrArg length (some.inj h)
      have hle := length_fill_le_of_suffix (quoteMakeDepfilePath root) hsuffix
      have hpos : 0 < depfileRootBoundPrefix.length := by decide
      rw [length_append] at hlen
      omega
    · cases h

/-- A depfile template is carried from one worktree to another, also with a header, which no other
root passes. -/
def Transports (keyRoot root keyRoot' root' : Text) (t : Template Char) : Prop :=
  let canonical := canonicalizeDepfileRoot (fill (quoteMakeDepfilePath root) t) keyRoot
  rehydrateDepfileRoot canonical (some keyRoot') = some (fill (quoteMakeDepfilePath root') t) ∧
    rehydrateDepfileRoot (bindDepfileToRoot canonical keyRoot) (some keyRoot) =
      some (fill (quoteMakeDepfilePath root) t) ∧
    rehydrateDepfileRoot (bindDepfileToRoot canonical keyRoot') (some keyRoot') =
      some (fill (quoteMakeDepfilePath root') t) ∧
    (keyRoot ≠ keyRoot' →
      rehydrateDepfileRoot (bindDepfileToRoot canonical keyRoot) (some keyRoot') = none)
  deriving Decidable

/-- Every depfile comes back in its own worktree. Depfile templates are carried to other worktrees
exactly if no root has a line break and they do not start with a header. -/
theorem depfile_round_trip_and_transport (bytes keyRoot root keyRoot' root' : Text)
    (t : Template Char) :
    (¬ depfileWorktreeRootMarker <:+: bytes → ¬ depfileRootBoundPrefix <+: bytes →
      rehydrateDepfileRoot (canonicalizeDepfileRoot bytes keyRoot) (some keyRoot) = some bytes) ∧
    (rootSpelling keyRoot = some root → rootSpelling keyRoot' = some root' →
      wellPlaced [] t = true → ¬ (quoteMakeDepfilePath root).map some <:+: t →
      ¬ depfileWorktreeRootMarker.map some <:+: t → '\r' ∉ keyRoot →
      (Transports keyRoot root keyRoot' root' t ↔
        '\n' ∉ keyRoot ∧ '\n' ∉ keyRoot' ∧ ¬ depfileRootBoundPrefix.map some <+: t)) := by
  refine ⟨rehydrate_canonicalize keyRoot, ?_⟩
  intro hroot hroot' hplaced hlit hmark hr
  have hcanon (hn : '\n' ∉ keyRoot) :
      canonicalizeDepfileRoot (fill (quoteMakeDepfilePath root) t) keyRoot =
        fill depfileWorktreeRootMarker t := by
    have hsub := (rootSpelling_eq_some hroot).2.2.2.subset
    exact canonicalize_fill hroot (fun h => hn (hsub h)) (fun h => hr (hsub h)) hplaced hlit
  constructor
  · rintro ⟨hcarried, hbound, hbound', -⟩
    have hfeed : '\n' ∉ keyRoot := by
      intro hn
      rw [rehydrateDepfileRoot, dropBoundHeader_bind_of_mem hn] at hbound
      cases hbound
    refine ⟨hfeed, fun hn => ?_, fun hheader => ?_⟩
    · rw [rehydrateDepfileRoot, dropBoundHeader_bind_of_mem hn] at hbound'
      cases hbound'
    · rw [hcanon hfeed] at hcarried
      exact rehydrate_ne_of_header hroot' hmark hheader hcarried
  · rintro ⟨hn, hn', hheader⟩
    unfold Transports
    simp only [hcanon hn]
    refine ⟨rehydrateDepfileRoot_fill hroot' hmark hheader, ?_, ?_, fun hne => ?_⟩
    · rw [rehydrateDepfileRoot, dropBoundHeader_bind_of_notMem hn, if_pos rfl]
      exact replaceDepfileRootMarker_fill hroot hmark
    · rw [rehydrateDepfileRoot, dropBoundHeader_bind_of_notMem hn', if_pos rfl]
      exact replaceDepfileRootMarker_fill hroot' hmark
    · rw [rehydrateDepfileRoot, dropBoundHeader_bind_of_notMem hn, if_neg hne]
      rfl

/-- A root with a line feed rejects what is bound to it, and the root of its first line accepts
that. A root with a carriage return is found where the text before a hole looks like its
beginning. A text that starts with a header is taken for bound. -/
theorem depfile_not_transported :
    let hole : Template Char := none :: "/x.h".toList.map some
    let overlap : Template Char := "/x\r".toList.map some ++ [none]
    let headed : Template Char := "# zccache-worktree-bound \n".toList.map some ++ [none]
    let first := "/a\nb".toList
    let bound := bindDepfileToRoot
      (canonicalizeDepfileRoot (fill (quoteMakeDepfilePath first) hole) first) first
    (rootSpelling first = some first ∧ wellPlaced [] hole = true ∧
      rehydrateDepfileRoot bound (some first) = none ∧
      rehydrateDepfileRoot bound (some "/a".toList) = some "b\n/a/x.h".toList) ∧
    (rootSpelling "/x\r/x" = some "/x\r/x".toList ∧ wellPlaced [] overlap = true ∧
      ¬ Transports "/x\r/x" "/x\r/x" "/y" "/y" overlap) ∧
    (wellPlaced [] headed = true ∧
      ¬ Transports "/x" "/x" "/y" "/y" headed) := by
  decide +kernel

theorem depfile_transport_sampleRoots :
    Transports "/w/a #1" "/w/a #1" "/v/$b/" "/v/$b"
      ("m.o: ".toList.map some ++ none :: "/x.h \\\n ".toList.map some ++ none ::
        ":\n".toList.map some) :=
  ((depfile_round_trip_and_transport [] _ _ _ _ _).2 (by decide +kernel) (by decide +kernel)
    (by decide +kernel) (by decide +kernel) (by decide +kernel) (by decide +kernel)).mpr
    (by decide +kernel)

end Zccache
