import Zccache.Depfile.Transport

/-! # The paths of a depfile template

A template is split into paths like a text, a hole being part of a path like any
other letter. Filling the holes of a template with a quoted root and reading the
paths is the same as reading the paths and filling their holes with the root.
-/

namespace Zccache

open List Unix Templates Option
open Lines (flush)

def joinHoles : Template Char → Template Char
  | [] => []
  | some '\\' :: some '\n' :: rest => some ' ' :: joinHoles rest
  | some '\\' :: some '\r' :: some '\n' :: rest => some ' ' :: joinHoles rest
  | some '\\' :: some '\r' :: rest => some ' ' :: joinHoles rest
  | x :: rest => x :: joinHoles rest

def backslashes (n : ℕ) : Template Char :=
  replicate n (some '\\')

def splitHoles (current : Template Char) (run : ℕ) : Template Char → List (Template Char)
  | [] => flush (current ++ backslashes run)
  | none :: rest => splitHoles (current ++ backslashes run ++ [none]) 0 rest
  | some '\\' :: rest => splitHoles current (run + 1) rest
  | some '$' :: some '$' :: rest => splitHoles (current ++ backslashes run ++ [some '$']) 0 rest
  | some c :: rest =>
    if c = ' ' ∨ c = '\t' then
      if run % 2 = 1 then splitHoles (current ++ backslashes (run / 2) ++ [some c]) 0 rest
      else flush (current ++ backslashes (run / 2)) ++ splitHoles [] 0 rest
    else if c = '#' ∧ 0 < run then
      splitHoles (current ++ backslashes (run - 1) ++ [some '#']) 0 rest
    else if c = '\n' ∨ c = '\r' then
      flush (current ++ backslashes run) ++ splitHoles [] 0 rest
    else splitHoles (current ++ backslashes run ++ [some c]) 0 rest

/-- A colon at the end of a token is that of the rule. -/
def holePath (token : Template Char) : Option (Template Char) :=
  let path := if token.getLast? = some (some ':') then token.dropLast else token
  if path.isEmpty then none else some path

def holePaths (t : Template Char) : List (Template Char) :=
  (splitHoles [] 0 (joinHoles t)).filterMap holePath

section Filling

/-- A text that may be put in a hole: it starts with a slash, has no line break and does not end
with a backslash or a colon. -/
structure IsRoot (root : Text) : Prop where
  absolute : ∃ names, root = sep :: names
  noLineFeed : '\n' ∉ root
  noReturn : '\r' ∉ root
  noBackslash : root.getLast? ≠ some '\\'
  noColon : root.getLast? ≠ some ':'

theorem isRoot_of_rootSpelling {keyRoot root : Text} (h : rootSpelling keyRoot = some root)
    (hn : '\n' ∉ keyRoot) (hr : '\r' ∉ keyRoot) : IsRoot root := by
  obtain ⟨habs, hbs, hcolon, hbeg⟩ := rootSpelling_eq_some h
  exact ⟨habs, fun h => hn (hbeg.subset h), fun h => hr (hbeg.subset h), hbs,
    hcolon⟩

theorem isRoot_marker : IsRoot depfileWorktreeRootMarker :=
  ⟨⟨_, rfl⟩, by decide, by decide, by decide, by decide⟩

theorem quote_marker :
    quoteMakeDepfilePath depfileWorktreeRootMarker = depfileWorktreeRootMarker := by
  decide

variable {root : Text}

theorem IsRoot.quoted (h : IsRoot root) : ∃ rest, quoteMakeDepfilePath root = sep :: rest := by
  obtain ⟨names, rfl⟩ := h.absolute
  exact ⟨_, rfl⟩

variable {c : Char} {rest : Text}

theorem joinContinuations_cons (h : c = '\\' → rest.head? ≠ some '\n' ∧ rest.head? ≠ some '\r') :
    joinContinuations (c :: rest) = c :: joinContinuations rest := by
  rw [joinContinuations]
  · rintro rest' rfl rfl
    exact (h rfl).1 rfl
  all_goals
    rintro rest' rfl rfl
    exact (h rfl).2 rfl

variable {text : Text}

theorem joinContinuations_append (hn : '\n' ∉ text) (hr : '\r' ∉ text)
    (hlast : text.getLast? ≠ some '\\') (rest : Text) :
    joinContinuations (text ++ rest) = text ++ joinContinuations rest := by
  induction text with
  | nil => rfl
  | cons c text ih =>
    rw [mem_cons, not_or] at hn hr
    have hrest : text.getLast? ≠ some '\\' := by
      intro h
      rw [getLast?_cons, h] at hlast
      exact hlast rfl
    rw [cons_append, joinContinuations_cons, ih hn.2 hr.2 hrest, cons_append]
    rintro rfl
    cases text with
    | nil => exact absurd rfl hlast
    | cons d text =>
      rw [mem_cons, not_or] at hn hr
      simp only [cons_append, head?_cons, ne_eq, some.injEq]
      exact ⟨fun h => hn.2.1 h.symm, fun h => hr.2.1 h.symm⟩

/-- A filled template starts with another letter than a slash only if the template does. -/
theorem IsRoot.head_of_fill (h : IsRoot root) {t : Template Char} (hc : c ≠ sep)
    (heq : fill (quoteMakeDepfilePath root) t = c :: rest) : ∃ t', t = some c :: t' := by
  obtain ⟨quoted, hquot⟩ := h.quoted
  cases t with
  | nil => cases heq
  | cons x t =>
    cases x with
    | none =>
      rw [hquot, fill_none] at heq
      exact absurd (cons.inj heq).1.symm hc
    | some d =>
      exact ⟨t, by rw [(cons.inj heq).1]⟩

theorem IsRoot.joinContinuations_fill (h : IsRoot root) (t : Template Char) :
    joinContinuations (fill (quoteMakeDepfilePath root) t) =
      fill (quoteMakeDepfilePath root) (joinHoles t) := by
  have hlast : (quoteMakeDepfilePath root).getLast? ≠ some '\\' := by
    rw [quoteMakeDepfilePath, getLast?_quoteFrom]
    exact h.noBackslash
  have hn : '\n' ∉ quoteMakeDepfilePath root :=
    fun hmem => h.noLineFeed (mem_of_mem_quoteFrom (by decide) hmem)
  have hr : '\r' ∉ quoteMakeDepfilePath root :=
    fun hmem => h.noReturn (mem_of_mem_quoteFrom (by decide) hmem)
  have hhead {t : Template Char} {c : Char} (hc : c ≠ sep) (ht : ∀ t', t ≠ some c :: t') :
      (fill (quoteMakeDepfilePath root) t).head? ≠ some c := by
    intro hhead
    obtain ⟨rest, hrest⟩ := head?_eq_some_iff.mp hhead
    obtain ⟨t', ht'⟩ := h.head_of_fill hc hrest
    exact ht t' ht'
  fun_induction joinHoles t with
  | case1 => rfl
  | case2 t ih | case3 t ih => simp [joinContinuations, ih]
  | case4 t hnext ih =>
    rw [fill_some, fill_some, fill_some, ← ih, joinContinuations]
    intro rest hrest
    exact hhead (by decide) hnext (by rw [hrest]; rfl)
  | case5 x t hfeed hboth hreturn ih =>
    cases x with
    | none => rw [fill_none, joinContinuations_append hn hr hlast, ih, fill_none]
    | some c =>
      rw [fill_some, joinContinuations_cons, ih, fill_some]
      rintro rfl
      exact ⟨hhead (by decide) fun t' => hfeed t' rfl, hhead (by decide) fun t' => hreturn t' rfl⟩

theorem splitAndUnescape_backslashes (current : Text) (run n : ℕ) (rest : Text) :
    splitAndUnescape current run (replicate n '\\' ++ rest) =
      splitAndUnescape current (run + n) rest := by
  induction n generalizing run with
  | zero => rfl
  | succ n ih =>
    rw [replicate_succ, cons_append, splitAndUnescape, ih]
    congr 1
    omega

theorem splitAndUnescape_quotedByte (hbs : c ≠ '\\') (hn : c ≠ '\n') (hr : c ≠ '\r')
    (current : Text) (k : ℕ) (rest : Text) :
    splitAndUnescape current k (quotedByte k c ++ rest) =
      splitAndUnescape (current ++ replicate k '\\' ++ [c]) 0 rest := by
  unfold quotedByte
  rw [if_neg hbs]
  split
  · next hblank =>
    rw [append_assoc, splitAndUnescape_backslashes, singleton_append, splitAndUnescape,
      if_pos hblank, if_pos (by omega), show (k + (k + 1)) / 2 = k by omega]
    · exact hbs
    · rintro _ rfl
      exact absurd hblank (by decide)
  split
  · next hblank hhash =>
    subst hhash
    rw [cons_append, singleton_append, splitAndUnescape, splitAndUnescape, if_neg hblank,
      if_pos ⟨rfl, by omega⟩, Nat.add_sub_cancel]
    all_goals simp
  split
  · next hdollar =>
    subst hdollar
    rfl
  · next hblank hhash hdollar =>
    rw [singleton_append, splitAndUnescape, if_neg hblank, if_neg fun h => hhash h.1,
      if_neg fun h => h.elim hn hr]
    · exact hbs
    · exact fun _ h => absurd h hdollar

theorem splitAndUnescape_quoteFrom (hn : '\n' ∉ text) (hr : '\r' ∉ text)
    (hlast : text.getLast? ≠ some '\\') {k : ℕ} (hk : text = [] → k = 0) (current rest : Text) :
    splitAndUnescape current k (quoteFrom k text ++ rest) =
      splitAndUnescape (current ++ replicate k '\\' ++ text) 0 rest := by
  induction text generalizing k current with
  | nil =>
    rw [hk rfl]
    simp [quoteFrom]
  | cons c text ih =>
    rw [mem_cons, not_or] at hn hr
    have hlast' : text.getLast? ≠ some '\\' := by
      intro h
      rw [getLast?_cons, h] at hlast
      exact hlast rfl
    rw [quoteFrom, append_assoc]
    by_cases hc : c = '\\'
    · subst hc
      have htext : text ≠ [] := by
        rintro rfl
        exact hlast rfl
      rw [if_pos rfl, quotedByte, if_pos rfl, singleton_append, splitAndUnescape,
        ih hn.2 hr.2 hlast' fun h => absurd h htext]
      congr 1
      rw [replicate_succ']
      simp
    · rw [if_neg hc, splitAndUnescape_quotedByte hc (Ne.symm hn.1) (Ne.symm hr.1),
        ih hn.2 hr.2 hlast' fun _ => rfl]
      simp

theorem IsRoot.splitAndUnescape_quoted (h : IsRoot root) (current : Text) (run : ℕ)
    (rest : Text) : splitAndUnescape current run (quoteMakeDepfilePath root ++ rest) =
      splitAndUnescape (current ++ replicate run '\\' ++ root) 0 rest := by
  obtain ⟨names, rfl⟩ := h.absolute
  have hn := h.noLineFeed
  have hr := h.noReturn
  rw [mem_cons, not_or] at hn hr
  have hlast : names.getLast? ≠ some '\\' := by
    intro hlast
    have hroot := h.noBackslash
    rw [getLast?_cons, hlast] at hroot
    exact hroot rfl
  have hquot : quoteMakeDepfilePath (sep :: names) ++ rest =
      sep :: (quoteFrom 0 names ++ rest) := rfl
  rw [hquot, splitAndUnescape, if_neg (by decide), if_neg fun h => absurd h.1 (by decide),
    if_neg (by decide), splitAndUnescape_quoteFrom hn.2 hr.2 hlast fun _ => rfl]
  all_goals simp [sep]

theorem fill_backslashes (word : Text) (n : ℕ) :
    fill word (backslashes n) = replicate n '\\' := by
  rw [backslashes, ← map_replicate, fill_map_some]

theorem map_fill_flush (hroot : root ≠ []) (token : Template Char) :
    (flush token).map (fill root) = flush (fill root token) := by
  unfold flush
  cases token with
  | nil => rfl
  | cons x token =>
    cases x with
    | none => simp [hroot]
    | some c => simp

theorem IsRoot.ne_nil (h : IsRoot root) : root ≠ [] := by
  obtain ⟨names, rfl⟩ := h.absolute
  exact cons_ne_nil _ _

/-- Filling the holes and splitting can be exchanged. -/
theorem IsRoot.splitAndUnescape_fill (h : IsRoot root) (current : Template Char) (run : ℕ)
    (t : Template Char) :
    splitAndUnescape (fill root current) run (fill (quoteMakeDepfilePath root) t) =
      (splitHoles current run t).map (fill root) := by
  have hflush := map_fill_flush h.ne_nil
  have hletter {current : Text} {run : ℕ} {c : Char} {t : Template Char}
      (hbs : c = '\\' → False) (hdollar : ∀ rest, t = some '$' :: rest → c = '$' → False) :=
    splitAndUnescape.eq_4 current run c (fill (quoteMakeDepfilePath root) t) hbs
      fun rest hc hrest => by
        obtain ⟨t', ht'⟩ := h.head_of_fill (by decide) hrest
        exact hdollar t' ht' hc
  fun_induction splitHoles current run t with
  | case1 current run => simp [splitAndUnescape, hflush, fill_backslashes]
  | case2 current run t ih =>
    rw [fill_none, h.splitAndUnescape_quoted, ← ih]
    simp [fill_backslashes]
  | case3 current run t ih =>
    rw [fill_some, splitAndUnescape, ih]
  | case4 current run t ih =>
    rw [fill_some, fill_some, splitAndUnescape, ← ih]
    simp [fill_backslashes]
  | case5 current run c t hbs hdollar hblank hodd ih =>
    rw [fill_some, hletter hbs hdollar, if_pos hblank, if_pos hodd, ← ih]
    simp [fill_backslashes]
  | case6 current run c t hbs hdollar hblank hodd ih =>
    rw [fill_some, hletter hbs hdollar, if_pos hblank, if_neg hodd, map_append, hflush,
      ← ih]
    simp [fill_backslashes]
  | case7 current run c t hbs hdollar hblank hhash ih =>
    rw [fill_some, hletter hbs hdollar, if_neg hblank, if_pos hhash, ← ih]
    simp [fill_backslashes]
  | case8 current run c t hbs hdollar hblank hhash hline ih =>
    rw [fill_some, hletter hbs hdollar, if_neg hblank, if_neg hhash, if_pos hline,
      map_append,
      hflush, ← ih]
    simp [fill_backslashes]
  | case9 current run c t hbs hdollar hblank hhash hline ih =>
    rw [fill_some, hletter hbs hdollar, if_neg hblank, if_neg hhash, if_neg hline, ← ih]
    simp [fill_backslashes]

theorem IsRoot.path_fill (h : IsRoot root) (token : Template Char) :
    (let path := if (fill root token).getLast? = some ':' then (fill root token).dropLast
        else fill root token
      if path.isEmpty then none else some path) = (holePath token).map (fill root) := by
  have hempty : ∀ t : Template Char, (fill root t).isEmpty = t.isEmpty := by
    intro t
    cases t with
    | nil => rfl
    | cons x t =>
      cases x with
      | none => simp [h.ne_nil]
      | some c => rfl
  have hpath : (if (fill root token).getLast? = some ':' then (fill root token).dropLast
      else fill root token) =
        fill root (if token.getLast? = some (some ':') then token.dropLast else token) := by
    rcases eq_nil_or_concat' token with rfl | ⟨init, x, rfl⟩
    · rfl
    · cases x with
      | none =>
        have hlast : (fill root (init ++ [none])).getLast? = root.getLast? := by
          rw [fill_append, fill_none, fill_nil, append_nil, getLast?_append]
          obtain ⟨c, hc⟩ := isSome_iff_exists.mp
            (getLast?_isSome.mpr h.ne_nil)
          rw [hc]
          rfl
        rw [hlast, if_neg h.noColon, if_neg (by simp)]
      | some c =>
        by_cases hc : c = ':'
        all_goals simp [hc]
  unfold holePath
  dsimp only
  rw [hpath, hempty, apply_ite (Option.map (fill root))]
  rfl

theorem IsRoot.depfilePathTokens_fill (h : IsRoot root) (t : Template Char) :
    depfilePathTokens (fill (quoteMakeDepfilePath root) t) = (holePaths t).map (fill root) := by
  have hsplit := h.splitAndUnescape_fill [] 0 (joinHoles t)
  rw [fill_nil] at hsplit
  unfold depfilePathTokens holePaths
  rw [h.joinContinuations_fill, hsplit, filterMap_map, map_filterMap]
  congr 1
  funext token
  exact h.path_fill token

end Filling

def special : List Char :=
  ['\\', ' ', '\t', '\n', '\r', '#', '$']

/-- A part of a template that splitting does not touch. -/
def Plain (part : Template Char) : Prop :=
  ∀ c ∈ special, some c ∉ part

/-- The plain parts of the current token are in what was read. -/
structure Embeds (consumed current : Template Char) : Prop where
  last : ∀ part, Plain part → part <:+ current → part <:+ consumed
  inner : ∀ part, Plain part → part <:+: current → part <:+: consumed

variable {consumed current : Template Char}

theorem embeds_nil (consumed : Template Char) : Embeds consumed [] := by
  refine ⟨fun part _ h => ?_, fun part _ h => ?_⟩
  · rw [suffix_nil.mp h]
    exact nil_suffix
  · rw [infix_nil.mp h]
    exact nil_infix

theorem Embeds.concat (h : Embeds consumed current) (x : Option Char) :
    Embeds (consumed ++ [x]) (current ++ [x]) := by
  have hlast : ∀ part, Plain part → part <:+ current ++ [x] → part <:+ consumed ++ [x] := by
    intro part hpart hends
    rcases suffix_concat_iff.mp hends with rfl | ⟨init, rfl, hinit⟩
    · exact nil_suffix
    · have hplain : Plain init := fun c hc hmem => hpart c hc (mem_append_left _ hmem)
      exact suffix_concat_iff.mpr (.inr ⟨init, rfl, h.last init hplain hinit⟩)
  refine ⟨hlast, fun part hpart hwith => ?_⟩
  rcases infix_concat_iff.mp hwith with hends | hwith
  · exact (hlast part hpart hends).isInfix
  · exact infix_concat_iff.mpr (.inr (h.inner part hpart hwith))

variable {c : Char}

theorem Embeds.special (hc : c ∈ special)
    (h : ∀ part, Plain part → part <:+: current → part <:+: consumed) (rest : Template Char) :
    Embeds (consumed ++ rest) (current ++ [some c]) := by
  have hnil : ∀ part, Plain part → part <:+ current ++ [some c] → part = [] := by
    intro part hpart hends
    rcases suffix_concat_iff.mp hends with rfl | ⟨init, rfl, -⟩
    · rfl
    · exact absurd (mem_append_right _ mem_cons_self) (hpart c hc)
  refine ⟨fun part hpart hends => ?_, fun part hpart hwith => ?_⟩
  · rw [hnil part hpart hends]
    exact nil_suffix
  · rcases infix_concat_iff.mp hwith with hends | hwith
    · rw [hnil part hpart hends]
      exact nil_infix
    · exact (h part hpart hwith).trans (prefix_append _ _).isInfix

variable {run : ℕ}

theorem Embeds.inner_of_le {k : ℕ} (h : Embeds consumed (current ++ backslashes run)) (hk : k ≤ run)
    (part : Template Char) (hpart : Plain part) (hwith : part <:+: current ++ backslashes k) :
    part <:+: consumed := by
  refine h.inner part hpart (hwith.trans (List.IsPrefix.isInfix ?_))
  exact ⟨backslashes (run - k), by simp [backslashes, Nat.add_sub_cancel' hk]⟩

variable {token path : Template Char}

theorem mem_flush (h : path ∈ flush token) : path = token := by
  unfold flush at h
  split at h
  · cases h
  · exact mem_singleton.mp h

variable {t part : Template Char}

/-- The plain parts of the tokens are in what is read. -/
theorem infix_of_mem_splitHoles (h : Embeds consumed (current ++ backslashes run))
    (htok : token ∈ splitHoles current run t) (hpart : Plain part) (hwith : part <:+: token) :
    part <:+: consumed ++ t := by
  have happ {read rest : Template Char} {x : Option Char}
      (h : part <:+: read ++ [x] ++ rest) : part <:+: read ++ x :: rest := by
    rwa [append_assoc, singleton_append] at h
  fun_induction splitHoles current run t generalizing consumed with
  | case1 current run =>
    rw [mem_flush htok] at hwith
    exact (h.inner part hpart hwith).trans (prefix_append _ _).isInfix
  | case2 current run t ih =>
    refine happ (ih ?_ htok)
    simpa [backslashes] using h.concat none
  | case3 current run t ih =>
    refine happ (ih ?_ htok)
    have hrun : backslashes (run + 1) = backslashes run ++ [some '\\'] := replicate_succ'
    rw [hrun, ← append_assoc]
    exact h.concat _
  | case4 current run t ih =>
    refine happ (happ (ih ?_ htok))
    have hspecial := Embeds.special (show '$' ∈ special by decide) h.inner [some '$', some '$']
    simpa [backslashes] using hspecial
  | case5 current run c t hbs hdollar hblank hodd ih =>
    refine happ (ih ?_ htok)
    have hc : c ∈ special := by rcases hblank with rfl | rfl <;> decide
    have hspecial := Embeds.special hc (h.inner_of_le (Nat.div_le_self run 2)) [some c]
    simpa [backslashes] using hspecial
  | case6 current run c t hbs hdollar hblank hodd ih =>
    rcases mem_append.mp htok with htok | htok
    · rw [mem_flush htok] at hwith
      exact (h.inner_of_le (Nat.div_le_self run 2) part hpart hwith).trans
        (prefix_append _ _).isInfix
    · exact happ (ih (embeds_nil _) htok)
  | case7 current run c t hbs hdollar hblank hhash ih =>
    refine happ (ih ?_ htok)
    have hspecial := Embeds.special (show '#' ∈ special by decide)
      (h.inner_of_le (Nat.sub_le run 1)) [some c]
    simpa [backslashes] using hspecial
  | case8 current run c t hbs hdollar hblank hhash hline ih =>
    rcases mem_append.mp htok with htok | htok
    · rw [mem_flush htok] at hwith
      exact (h.inner part hpart hwith).trans (prefix_append _ _).isInfix
    · exact happ (ih (embeds_nil _) htok)
  | case9 current run c t hbs hdollar hblank hhash hline ih =>
    refine happ (ih ?_ htok)
    simpa [backslashes] using h.concat (some c)

theorem Plain.of_cons {x : Option Char} (h : Plain (x :: part)) : Plain part :=
  fun c hc hmem => h c hc (mem_cons_of_mem _ hmem)

theorem Plain.eq_nil (h : Plain part) (hc : c ∈ special) (hbeg : part <+: some c :: t) :
    part = [] := by
  cases part with
  | nil => rfl
  | cons x part =>
    rw [cons_prefix_cons] at hbeg
    exact absurd (hbeg.1 ▸ mem_cons_self) (h c hc)

theorem prefix_of_prefix_joinHoles (hpart : Plain part) (h : part <+: joinHoles t) :
    part <+: t := by
  have hblank {t' t'' : Template Char} (h : part <+: some ' ' :: t') : part <+: t'' := by
    rw [hpart.eq_nil (by decide) h]
    exact nil_prefix
  fun_induction joinHoles t generalizing part with
  | case1 => exact h
  | case2 | case3 | case4 => exact hblank h
  | case5 x t hfeed hboth hreturn ih =>
    cases part with
    | nil => exact nil_prefix
    | cons y part =>
      rw [cons_prefix_cons] at h ⊢
      refine ⟨h.1, ih hpart.of_cons h.2 fun h' => ?_⟩
      rw [hpart.of_cons.eq_nil (by decide) h']
      exact nil_prefix

theorem infix_of_infix_joinHoles (hpart : Plain part) (h : part <:+: joinHoles t) :
    part <:+: t := by
  have hblank {t' : Template Char} (h : part <:+: some ' ' :: t') : part <:+: t' := by
    rcases infix_cons_iff.mp h with h | h
    · rw [hpart.eq_nil (by decide) h]
      exact nil_infix
    · exact h
  fun_induction joinHoles t with
  | case1 => exact h
  | case2 t ih | case4 t hnext ih => exact (ih (hblank h)).trans (suffix_append [_, _] t).isInfix
  | case3 t ih => exact (ih (hblank h)).trans (suffix_append [_, _, _] t).isInfix
  | case5 x t hfeed hboth hreturn ih =>
    rcases infix_cons_iff.mp h with h | h
    · cases part with
      | nil => exact nil_infix
      | cons y part =>
        rw [cons_prefix_cons] at h
        refine List.IsPrefix.isInfix ?_
        rw [cons_prefix_cons]
        exact ⟨h.1, prefix_of_prefix_joinHoles hpart.of_cons h.2⟩
    · exact infix_cons (ih h)

theorem infix_of_mem_holePaths (hpath : path ∈ holePaths t) (hpart : Plain part)
    (hwith : part <:+: path) : part <:+: t := by
  obtain ⟨token, htok, hholePath⟩ := mem_filterMap.mp hpath
  have hbeg : path <+: token := by
    have hkept : (if token.getLast? = some (some ':') then token.dropLast else token) <+:
        token := by
      split
      · exact dropLast_prefix token
      · exact prefix_rfl
    unfold holePath at hholePath
    rw [ite_none_left_eq_some] at hholePath
    rw [← some.inj hholePath.2]
    exact hkept
  have hread := infix_of_mem_splitHoles (embeds_nil []) htok hpart
    (hwith.trans hbeg.isInfix)
  exact infix_of_infix_joinHoles hpart hread

end Zccache
