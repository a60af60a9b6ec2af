import Zccache.Depfile.IncludePrefix

/-! # Reading `/showIncludes` as it arrives

The streaming parser takes the text before the paths from the first line that
tells one, the batch parser from the whole output. On output whose lines are short
they agree, however it is cut into chunks, exactly when the whole output confirms
the first telling line and no earlier line begins with its text.
-/

namespace Zccache.ShowIncludes

open List Unix PrefixCode Utf8 Lines NormalizedPath

/-- Both parsers find the same headers and leave the same bytes, whatever the file system holds
and however the output is cut. -/
def Agree (data : List UInt8) (cwd : Text) : Prop :=
  ∀ (realpath : Text → Option NormalizedPath) (source : Text) (chunks : List (List UInt8)),
    chunks.flatten = data →
      streamShowIncludes realpath chunks source cwd = parseShowIncludes realpath data source cwd

/-- No line before the first telling one begins with its text, and that text is the English one,
or there is no English line and it is the most frequent candidate. -/
def Settled (texts : List Text) : Prop :=
  ∀ before, texts.findSome? Parser.telling = some before →
    (∀ line ∈ texts.takeWhile (Parser.telling · = none), ¬ before <+: line) ∧
      (before = englishPrefix ∨
        (∀ line ∈ texts, ¬ englishPrefix <+: line) ∧
          ∀ other ≠ before, (texts.filterMap extractPrefixCandidate).count other <
            (texts.filterMap extractPrefixCandidate).count before)

/-- Normalising a listed path does not change how it is spelled. -/
def SpelledAlike (data : List UInt8) (cwd : Text) : Prop :=
  ∀ before, ((lines newline data).map lineText).findSome? Parser.telling = some before →
    ∀ raw ∈ lines newline data, ∀ path ≠ [], listedPath before (lineText raw) = some path →
      streamedSpelling cwd path = spelling cwd path

section Taken

variable (source : NormalizedPath) (resolve : Text → NormalizedPath) (before : Text)

def takeLines (raws : List (List UInt8)) (r : Found × List UInt8) : Found × List UInt8 :=
  raws.foldl (fun r raw => takeLine source resolve (some before) (lineText raw) raw r) r

variable {source resolve before}

theorem takeLines_cons (raw : List UInt8) (raws : List (List UInt8)) (r : Found × List UInt8) :
    takeLines source resolve before (raw :: raws) r =
      takeLines source resolve before raws
        (takeLine source resolve (some before) (lineText raw) raw r) := rfl

variable {line : Text}

theorem takeLine_kept (h : ¬ before <+: line) (raw : List UInt8) (r : Found × List UInt8) :
    takeLine source resolve (some before) line raw r = (r.1, r.2 ++ raw) := by
  have hlist : listedPath before line = none := by
    rw [listedPath, if_neg]
    exact fun hstart => h <| isPrefixOf_iff_prefix.mp hstart
  rw [takeLine, Option.bind_some, hlist]

theorem listedPath_eq_some (h : before <+: line) :
    listedPath before line = some (trim (line.drop before.length)) := by
  rw [listedPath, if_pos]
  exact isPrefixOf_iff_prefix.mpr h

theorem takeLine_listed (h : before <+: line) (raw : List UInt8) (r : Found × List UInt8) :
    takeLine source resolve (some before) line raw r =
      (if trim (line.drop before.length) = [] then r.1
        else r.1.add source (resolve (trim (line.drop before.length))), r.2) := by
  rw [takeLine, Option.bind_some, listedPath_eq_some h]
  dsimp only
  split <;> rfl

theorem takeLines_output (raws : List (List UInt8)) (r : Found × List UInt8) :
    (takeLines source resolve before raws r).2 =
      r.2 ++ (raws.filter fun raw => ¬ before <+: lineText raw).flatten := by
  induction raws generalizing r with
  | nil => simp [takeLines]
  | cons raw raws ih =>
    rw [takeLines_cons, ih]
    by_cases h : before <+: lineText raw
    · rw [takeLine_listed h, filter_cons_of_neg (by simpa using h)]
    · rw [takeLine_kept h, filter_cons_of_pos (by simpa using h), flatten_cons,
        append_assoc]

variable {raws : List (List UInt8)}

theorem takeLines_quiet (h : ∀ raw ∈ raws, ¬ before <+: lineText raw) (r : Found × List UInt8) :
    takeLines source resolve before raws r = (r.1, r.2 ++ raws.flatten) := by
  induction raws generalizing r with
  | nil => simp [takeLines]
  | cons raw raws ih =>
    rw [takeLines_cons, takeLine_kept (h raw mem_cons_self),
      ih fun raw hraw => h raw (mem_cons_of_mem _ hraw), flatten_cons, append_assoc]

theorem takeLines_congr {resolve' : Text → NormalizedPath}
    (h : ∀ raw ∈ raws, ∀ path ≠ [], listedPath before (lineText raw) = some path →
      resolve path = resolve' path) (r : Found × List UInt8) :
    takeLines source resolve before raws r = takeLines source resolve' before raws r := by
  apply foldl_ext
  intro r raw hraw
  unfold takeLine
  rw [Option.bind_some]
  cases hlist : listedPath before (lineText raw) with
  | none => rfl
  | some path =>
    dsimp only
    split
    · rfl
    · next hne => rw [h raw hraw path hne hlist]

theorem resolved_add_isPrefix (path : NormalizedPath) (f : Found) :
    f.resolved <+: (f.add source path).resolved := by
  unfold Found.add
  split
  · exact prefix_append _ _
  · exact prefix_rfl

theorem takeLines_isPrefix (raws : List (List UInt8)) (r : Found × List UInt8) :
    r.1.resolved <+: (takeLines source resolve before raws r).1.resolved := by
  induction raws generalizing r with
  | nil => exact prefix_rfl
  | cons raw raws ih =>
    rw [takeLines_cons]
    apply List.IsPrefix.trans _ (ih _)
    by_cases h : before <+: lineText raw
    · rw [takeLine_listed h]
      dsimp only
      split
      · exact prefix_rfl
      · exact resolved_add_isPrefix _ _
    · rw [takeLine_kept h]

theorem takeLines_head {raw : List UInt8} {output : List UInt8} (h : before <+: lineText raw)
    (hne : trim ((lineText raw).drop before.length) ≠ [])
    (hsrc : resolve (trim ((lineText raw).drop before.length)) ≠ source) :
    (takeLines source resolve before (raw :: raws) (.empty, output)).1.resolved.head? =
      some (resolve (trim ((lineText raw).drop before.length))) := by
  have hfirst : takeLine source resolve (some before) (lineText raw) raw (.empty, output) =
      (⟨{resolve (trim ((lineText raw).drop before.length))},
        [resolve (trim ((lineText raw).drop before.length))]⟩, output) := by
    rw [takeLine_listed h, if_neg hne, Found.add, if_pos ⟨hsrc, Finset.notMem_empty _⟩]
    rfl
  rw [takeLines_cons]
  obtain ⟨more, hmore⟩ : (takeLine source resolve (some before) (lineText raw) raw
      (.empty, output)).1.resolved <+: _ := takeLines_isPrefix raws _
  rw [← hmore, hfirst]
  rfl

end Taken

section Decomposition

variable (realpath : Text → Option NormalizedPath) (source cwd before : Text)

variable (raws : List (List UInt8)) (r : Found × List UInt8)

def streamLines : Found × List UInt8 :=
  takeLines (canonicalizePath realpath source cwd) (streamedResolve realpath cwd) before raws r

def batchLines : Found × List UInt8 :=
  takeLines (canonicalizePath realpath source cwd) (batchResolve realpath cwd) before raws r

/-- The first line that tells the text before the paths. -/
structure FirstTelling (raws quiet : List (List UInt8)) (raw : List UInt8)
    (rest : List (List UInt8)) (before : Text) : Prop where
  eq : raws = quiet ++ raw :: rest
  quiet : ∀ q ∈ quiet, Parser.telling (lineText q) = none
  told : Parser.telling (lineText raw) = some before

theorem exists_telling :
    (∀ raw ∈ raws, Parser.telling (lineText raw) = none) ∨
      ∃ quiet raw rest before, FirstTelling raws quiet raw rest before := by
  cases h : raws.findSome? fun raw => Parser.telling (lineText raw) with
  | none => exact .inl (findSome?_eq_none_iff.mp h)
  | some before =>
    obtain ⟨quiet, raw, rest, heq, htold, hquiet⟩ := findSome?_eq_some_iff.mp h
    exact .inr ⟨quiet, raw, rest, before, heq, hquiet, htold⟩

variable {realpath source cwd before}
variable {data : List UInt8} {raws quiet rest : List (List UInt8)} {raw : List UInt8}

section

variable (h : FirstTelling raws quiet raw rest before)

include h

theorem FirstTelling.findSome? : (raws.map lineText).findSome? Parser.telling = some before := by
  rw [findSome?_map]
  exact findSome?_eq_some_iff.mpr ⟨quiet, raw, rest, h.eq, h.told, h.quiet⟩

theorem FirstTelling.takeWhile :
    (raws.map lineText).takeWhile (Parser.telling · = none) = quiet.map lineText := by
  rw [h.eq, map_append, takeWhile_append_of_pos, map_cons, takeWhile_cons_of_neg, append_nil]
  · simp [h.told]
  · rw [forall_mem_map]
    exact fun q hq => decide_eq_true (h.quiet q hq)

theorem FirstTelling.settled_iff : Settled (raws.map lineText) ↔
      (∀ q ∈ quiet, ¬ before <+: lineText q) ∧
        detectPrefix (raws.map lineText) = some before := by
  have htexts : raws.map lineText =
      quiet.map lineText ++ lineText raw :: rest.map lineText := by
    rw [h.eq, map_append, map_cons]
  have hdet := detectPrefix_first_iff (rest.map lineText) (forall_mem_map.mpr h.quiet) h.told
  rw [← htexts] at hdet
  rw [hdet, Settled, h.findSome?]
  simp only [Option.some.injEq, forall_eq', h.takeWhile, forall_mem_map]

end

theorem FirstTelling.streamShowIncludes {chunks : List (List UInt8)}
    (hshort : Short chunks.flatten)
    (h : FirstTelling (lines newline chunks.flatten) quiet raw rest before) :
    streamShowIncludes realpath chunks source cwd =
      let r := streamLines realpath source cwd before (raw :: rest) (.empty, quiet.flatten)
      (r.1.resolved, r.2) := by
  have hfold := foldl_finishRaw realpath (quiet ++ raw :: rest)
    (p := Parser.new realpath source cwd) rfl rfl []
  have hscan : (quiet ++ raw :: rest).foldl
      (scanLine (canonicalizePath realpath source cwd) (streamedResolve realpath cwd))
        (none, Found.empty, []) =
      (some before,
        streamLines realpath source cwd before (raw :: rest) (.empty, quiet.flatten)) := by
    rw [foldl_append, foldl_scanLine_none _ _ h.quiet, foldl_cons, nil_append, scanLine, h.told]
    exact foldl_scanLine_some _ _ _ _ _
  rw [streamShowIncludes_eq realpath hshort, h.eq]
  exact congrArg (fun s => (s.2.1.resolved, s.2.2)) (hfold.trans hscan)

theorem streamShowIncludes_quiet {chunks : List (List UInt8)} (hshort : Short chunks.flatten)
    (hquiet : ∀ q ∈ lines newline chunks.flatten, Parser.telling (lineText q) = none) :
    streamShowIncludes realpath chunks source cwd =
      ([], (lines newline chunks.flatten).flatten) := by
  have hfold := foldl_finishRaw realpath (lines newline chunks.flatten)
    (p := Parser.new realpath source cwd) rfl rfl []
  have hscan := foldl_scanLine_none (canonicalizePath realpath source cwd)
    (streamedResolve realpath cwd) hquiet (Found.empty, [])
  rw [streamShowIncludes_eq realpath hshort]
  exact congrArg (fun s => (s.2.1.resolved, s.2.2)) (hfold.trans hscan)

theorem parseShowIncludes_quiet
    (hquiet : ∀ q ∈ lines newline data, Parser.telling (lineText q) = none) :
    parseShowIncludes realpath data source cwd = ([], (lines newline data).flatten) := by
  have hdet : detectPrefix ((lines newline data).map lineText) = none := by
    rw [detectPrefix_eq_none_iff, forall_mem_map]
    exact hquiet
  have hkept : ∀ (raws : List (List UInt8)) (r : Found × List UInt8),
      raws.foldl (fun r raw => takeLine (canonicalizePath realpath source cwd)
        (batchResolve realpath cwd) none (lineText raw) raw r) r = (r.1, r.2 ++ raws.flatten) := by
    intro raws r
    induction raws generalizing r with
    | nil => simp
    | cons raw raws ih =>
      rw [foldl_cons, ih, flatten_cons]
      simp [takeLine]
  rw [parseShowIncludes_eq, hdet]
  simp only [hkept]
  rfl

theorem parseShowIncludes_detected
    (hdet : detectPrefix ((lines newline data).map lineText) = some before) :
    parseShowIncludes realpath data source cwd =
      let r := batchLines realpath source cwd before (lines newline data) (.empty, [])
      (r.1.resolved, r.2) := by
  rw [parseShowIncludes_eq, hdet]
  rfl

end Decomposition

section Trim

variable {t : Text}

theorem dropWhile_isWhitespace_cons {rest : Text} {c : Char}
    (h : t.dropWhile isWhitespace = c :: rest) : isWhitespace c = false := by
  have hhead := head?_dropWhile_not isWhitespace t
  rw [h] at hhead
  simpa using hhead

theorem trim_eq_nil_iff : trim t = [] ↔ ∀ c ∈ t, isWhitespace c = true := by
  unfold trim trimEnd
  rw [rdropWhile_eq_nil_iff]
  constructor
  · intro h
    rw [← dropWhile_eq_nil_iff]
    cases hdrop : t.dropWhile isWhitespace with
    | nil => rfl
    | cons c rest =>
      rw [hdrop] at h
      have hc := h c mem_cons_self
      rw [dropWhile_isWhitespace_cons hdrop] at hc
      cases hc
  · intro h c hc
    exact h c ((dropWhile_sublist _).mem hc)

theorem trimEnd_append (h : trimEnd t ≠ []) (x : Text) : trimEnd (x ++ t) = x ++ trimEnd t := by
  have hne : ¬ (t.reverse.dropWhile isWhitespace).isEmpty = true := by
    intro hempty
    apply h
    rw [trimEnd, List.rdropWhile, isEmpty_iff.mp hempty]
    rfl
  rw [trimEnd, trimEnd, List.rdropWhile, List.rdropWhile, reverse_append,
    dropWhile_append, if_neg hne, reverse_append, reverse_reverse]

theorem exists_spaces (t : Text) :
    ∃ spaces, t = trimEnd t ++ spaces ∧ ∀ c ∈ spaces, isWhitespace c = true := by
  refine ⟨(t.reverse.takeWhile isWhitespace).reverse, ?_, ?_⟩
  · rw [trimEnd, List.rdropWhile, ← reverse_append, takeWhile_append_dropWhile,
      reverse_reverse]
  · intro c hc
    exact mem_takeWhile_imp (mem_reverse.mp hc)

theorem trim_append {y r : Text} (hy : y.getLast? = some ':') (hr : trim r ≠ []) :
    ∃ u c, trim (y ++ r) = u ++ c :: trim r ∧ c ≠ sep := by
  obtain ⟨front, rfl⟩ : ∃ front, y = front ++ [':'] :=
    ⟨_, (dropLast_append_getLast? _ hy).symm⟩
  obtain ⟨kept, hkept⟩ : ∃ kept, (front ++ [':']).dropWhile isWhitespace = kept ++ [':'] := by
    rw [dropWhile_append]
    split
    · exact ⟨[], by decide⟩
    · exact ⟨_, rfl⟩
  have hcolon : ¬ (kept ++ [':']).isEmpty = true := by simp
  -- The spaces in front of the path are kept behind the colon.
  have hsplit : r = r.takeWhile isWhitespace ++ r.dropWhile isWhitespace :=
    takeWhile_append_dropWhile.symm
  have htrim : trim (front ++ [':'] ++ r) =
      (kept ++ [':'] ++ r.takeWhile isWhitespace) ++ trim r := by
    rw [trim, dropWhile_append, hkept, if_neg hcolon, trim]
    conv_lhs => rw [hsplit, ← append_assoc]
    exact trimEnd_append hr _
  rw [htrim]
  rcases eq_nil_or_concat (r.takeWhile isWhitespace) with hnil | ⟨spaces, c, hspaces⟩
  · exact ⟨kept, ':', by rw [hnil]; simp, by decide⟩
  · refine ⟨kept ++ ':' :: spaces, c, by rw [hspaces]; simp, ?_⟩
    rintro rfl
    have hmem : sep ∈ r.takeWhile isWhitespace := by
      rw [hspaces]
      simp
    exact absurd (mem_takeWhile_imp hmem) (by decide)

theorem exists_base (cwd path : Text) :
    ∃ base, spelling cwd path = base ++ path ∧ (base = [] ∨ base.getLast? = some sep) := by
  unfold spelling joinText
  by_cases habs : isAbsolute path = true
  · exact ⟨[], by rw [if_pos habs]; rfl, .inl rfl⟩
  · rw [if_neg habs, if_neg habs]
    split
    · next h => exact ⟨cwd, rfl, h⟩
    · exact ⟨cwd ++ [sep], by simp, .inr (by simp)⟩

theorem spelling_ne {u path : Text} {c : Char} (hc : c ≠ sep) (cwd : Text) :
    spelling cwd (u ++ c :: path) ≠ spelling cwd path := by
  intro heq
  obtain ⟨base, hbase, -⟩ := exists_base cwd (u ++ c :: path)
  obtain ⟨base', hbase', hend⟩ := exists_base cwd path
  have hcut : base ++ u ++ [c] = base' := by
    rw [hbase, hbase'] at heq
    have hsame : base ++ u ++ [c] ++ path = base' ++ path := by
      rw [← heq]
      simp
    exact append_cancel_right hsame
  rw [← hcut] at hend
  rcases hend with hnil | hlast
  · simp at hnil
  · rw [getLast?_concat] at hlast
    exact hc (Option.some.inj hlast)

end Trim

section Prefixes

variable {line line' before other : Text}

theorem looks_cases {path : Text} (h : looksLikeWindowsPathStart path = true) :
    (∃ drive rest, path = drive :: ':' :: '\\' :: rest ∧ drive.isAlpha = true) ∨
      ∃ rest, path = '\\' :: '\\' :: rest := by
  rw [looksLikeWindowsPathStart, Bool.or_eq_true, Bool.and_eq_true, isPrefixOf_iff_prefix,
    isPrefixOf_iff_prefix] at h
  rcases h with ⟨hdrive, rest, hrest⟩ | ⟨rest, rfl⟩
  · cases path with
    | nil => cases hdrive
    | cons drive tail =>
      obtain rfl : [':', '\\'] ++ rest = tail := hrest
      exact .inl ⟨drive, rest, rfl, hdrive⟩
  · exact .inr ⟨rest, rfl⟩

theorem exists_ending {c : Char} (h : other <+: before) (hne : other ≠ before)
    (hlast : before.getLast? = some c) :
    ∃ more, other ++ more = before ∧ more.getLast? = some c := by
  obtain ⟨more, rfl⟩ := h
  refine ⟨more, rfl, ?_⟩
  rwa [getLast?_append_of_ne_nil] at hlast
  rintro rfl
  exact hne (append_nil other).symm

theorem trim_after_candidate_ne_nil (h : extractPrefixCandidate line = some before) :
    trim (line.drop before.length) ≠ [] := by
  rw [extractPrefixCandidate_eq] at h
  obtain ⟨mid, path, rfl, hlooks, hcand, -⟩ := extractFrom_eq_some h
  obtain ⟨rfl, -, -⟩ := candidateBefore_eq_some.mp hcand
  rw [nil_append, Ne, trim_eq_nil_iff]
  intro hall
  have htrim : trimEnd mid <+: mid := rdropWhile_prefix _ _
  rw [drop_append_of_le_length htrim.length_le] at hall
  rcases looks_cases hlooks with ⟨drive, rest, rfl, -⟩ | ⟨rest, rfl⟩
  · exact absurd (hall ':' (by simp)) (by decide)
  · exact absurd (hall '\\' (by simp)) (by decide)

theorem trim_after_shorter_ne_nil (hshorter : other <+: before) (hne : other ≠ before)
    (hbefore : before <+: line) (hcolon : before.getLast? = some ':') :
    trim (line.drop other.length) ≠ [] := by
  obtain ⟨more, rfl, hmore⟩ := exists_ending hshorter hne hcolon
  obtain ⟨rest, rfl⟩ := hbefore
  rw [append_assoc, drop_left, Ne, trim_eq_nil_iff]
  intro hall
  exact absurd (hall ':' (mem_append_left _ (mem_of_getLast? hmore))) (by decide)

theorem not_isPrefix_mid {mid : Text} (hlonger : trimEnd mid <+: other)
    (hne : trimEnd mid ≠ other) (hcolon : other.getLast? = some ':') : ¬ other <+: mid := by
  intro hmid
  obtain ⟨spaces, hspaces, hall⟩ := exists_spaces mid
  obtain ⟨more, rfl, hlast⟩ := exists_ending hlonger hne hcolon
  obtain ⟨tail, htail⟩ := hmid
  have hwhole : trimEnd mid ++ (more ++ tail) = trimEnd mid ++ spaces := by
    rw [← hspaces, ← append_assoc, htail]
  have hsame := append_cancel_left hwhole
  rw [← hsame] at hall
  exact absurd (hall ':' (mem_append_left _ (mem_of_getLast? hlast))) (by decide)

/-- Behind a longer candidate of another line there is still a path: the candidate can only end
with the colon of the drive. -/
theorem trim_after_longer_ne_nil (h : extractPrefixCandidate line = some before)
    (h' : extractPrefixCandidate line' = some other) (hlonger : before <+: other)
    (hne : before ≠ other) (hother : other <+: line) : trim (line.drop other.length) ≠ [] := by
  have hcolon := getLast?_of_extract h'
  have hother' := candidate_isPrefix h'
  rw [extractPrefixCandidate_eq] at h h'
  obtain ⟨mid, path, rfl, hlooks, hcand, -⟩ := extractFrom_eq_some h
  obtain ⟨mid', path', hline', -, hcand', hfirst⟩ := extractFrom_eq_some h'
  rw [nil_append] at hcand hcand'
  obtain ⟨rfl, -, -⟩ := candidateBefore_eq_some.mp hcand
  obtain ⟨rfl, -, -⟩ := candidateBefore_eq_some.mp hcand'
  have hmid := not_isPrefix_mid hlonger hne hcolon
  have hordered := prefix_or_prefix_of_prefix hother (prefix_append _ _)
  obtain ⟨d, hd, hdcolon⟩ := exists_ending (hordered.resolve_left hmid)
    (fun heq => hmid (heq ▸ prefix_rfl)) hcolon
  have hdpath : d <+: path := by
    rw [← hd] at hother
    exact (prefix_append_right_inj mid).mp hother
  -- No path can begin within `other`, since `line'` would have its candidate there.
  have hstart : ∀ rest', line' = trimEnd mid' ++ rest' →
      looksLikeWindowsPathStart (d ++ rest') = true → False := by
    intro rest' hrest' hlooks'
    apply hmid
    have hbefore := hfirst mid (d ++ rest') (by rw [hrest', ← hd, append_assoc]) hlooks' _
      hcand
    have htrim : trimEnd mid' <+: mid' := rdropWhile_prefix _ _
    exact htrim.trans hbefore
  obtain ⟨rest', hrest'⟩ := hother'
  obtain ⟨e, rfl⟩ := hdpath
  have hdrop : (mid ++ (d ++ e)).drop (trimEnd mid').length = e := by
    rw [← hd, ← append_assoc, drop_left]
  rw [hdrop, Ne, trim_eq_nil_iff]
  intro hall
  rcases looks_cases hlooks with ⟨drive, rest, hpath, halpha⟩ | ⟨rest, hpath⟩
  · obtain _ | ⟨a, _ | ⟨b, _ | ⟨c, d⟩⟩⟩ := d
    · cases hdcolon
    · obtain rfl : a = drive := (List.cons.inj hpath).1
      obtain rfl := Option.some.inj hdcolon
      cases halpha
    · obtain rfl : e = '\\' :: rest := (List.cons.inj (List.cons.inj hpath).2).2
      exact absurd (hall '\\' mem_cons_self) (by decide)
    · simp only [cons_append, List.cons.injEq] at hpath
      obtain ⟨rfl, rfl, rfl, -⟩ := hpath
      apply hstart rest' hrest'.symm
      simp [looksLikeWindowsPathStart, halpha]
  · obtain _ | ⟨a, _ | ⟨b, d⟩⟩ := d
    · cases hdcolon
    · obtain rfl : a = '\\' := (List.cons.inj hpath).1
      cases hdcolon
    · simp only [cons_append, List.cons.injEq] at hpath
      obtain ⟨rfl, rfl, -⟩ := hpath
      apply hstart rest' hrest'.symm
      simp [looksLikeWindowsPathStart]

end Prefixes

section Necessary

variable {data : List UInt8} {quiet rest : List (List UInt8)} {raw : List UInt8}
  {line before other cwd : Text}

theorem isPrefix_of_telling (h : Parser.telling line = some before) : before <+: line := by
  unfold Parser.telling at h
  split at h
  · next heng =>
    obtain rfl := Option.some.inj h
    exact isPrefixOf_iff_prefix.mp heng
  · exact candidate_isPrefix h

/-- If the same bytes are left, the line that told the streaming parser its text is removed by the
batch parser too, and no line before it is. -/
theorem removed_of_output_eq (hlines : lines newline data = quiet ++ raw :: rest)
    (hraw : before <+: lineText raw)
    (h : quiet.flatten ++ ((raw :: rest).filter fun r => ¬ before <+: lineText r).flatten =
      ((lines newline data).filter fun r => ¬ other <+: lineText r).flatten) :
    other <+: lineText raw ∧ ∀ q ∈ quiet, ¬ other <+: lineText q := by
  have hkept : quiet ++ (raw :: rest).filter (fun r => ¬ before <+: lineText r) =
      (lines newline data).filter fun r => ¬ other <+: lineText r := by
    apply eq_of_flatten_eq (z := newline) (l := data)
    · rw [hlines]
      exact filter_sublist.append_left quiet
    · exact filter_sublist
    · rw [flatten_append, h]
  constructor
  · -- One copy of the line is gone, and the batch parser removes all copies or none.
    by_contra hnot
    have hcount := congrArg (List.count raw) hkept
    rw [count_filter (by simpa using hnot), hlines, count_append, count_append,
      filter_cons_of_neg (by simpa using hraw), count_cons_self] at hcount
    have hle : ((rest.filter fun r => ¬ before <+: lineText r)).count raw ≤ rest.count raw :=
      filter_sublist.count_le raw
    omega
  · intro q hq
    have hmem : q ∈ (lines newline data).filter fun r => ¬ other <+: lineText r := by
      rw [← hkept]
      exact mem_append_left _ hq
    simpa using (mem_filter.mp hmem).2

theorem spelling_ne_of_ne (hbefore : before <+: line) (hother : other <+: line)
    (hne : before ≠ other) (hcolon : before.getLast? = some ':')
    (hcolon' : other.getLast? = some ':') (hpath : trim (line.drop before.length) ≠ [])
    (hpath' : trim (line.drop other.length) ≠ []) (cwd : Text) :
    spelling cwd (trim (line.drop before.length)) ≠
      spelling cwd (trim (line.drop other.length)) := by
  have hlonger : ∀ {p q : Text}, p <+: q → p ≠ q → q <+: line → q.getLast? = some ':' →
      trim (line.drop q.length) ≠ [] →
      spelling cwd (trim (line.drop p.length)) ≠ spelling cwd (trim (line.drop q.length)) := by
    rintro p q hp hpq ⟨rest, rfl⟩ hlast hnonempty
    obtain ⟨y, rfl, hy⟩ := exists_ending hp hpq hlast
    rw [drop_left] at hnonempty ⊢
    rw [append_assoc, drop_left]
    obtain ⟨u, c, htrim, hc⟩ := trim_append hy hnonempty
    rw [htrim]
    exact spelling_ne hc cwd
  rcases prefix_or_prefix_of_prefix hbefore hother with hle | hle
  · exact hlonger hle hne hother hcolon' hpath'
  · exact (hlonger hle hne.symm hbefore hcolon hpath).symm

theorem exists_realpath {p q : Text} (h : p ≠ q) (cwd : Text) :
    ∃ (realpath : Text → Option NormalizedPath) (source : Text), ∀ cwd',
      canonicalizePath realpath p cwd' ≠ canonicalizePath realpath q cwd ∧
        canonicalizePath realpath p cwd' ≠ canonicalizePath realpath source cwd ∧
          canonicalizePath realpath q cwd ≠ canonicalizePath realpath source cwd := by
  let first := new []
  let second := new [sep]
  let third := new ['.', '.']
  have hsrc : p ++ q ++ [sep] ≠ p := by
    intro heq
    have hlen := congrArg List.length heq
    simp at hlen
  have hsrc' : p ++ q ++ [sep] ≠ q := by
    intro heq
    have hlen := congrArg List.length heq
    simp at hlen
    omega
  refine ⟨fun t => some (if t = p then first else if t = q then second else third),
    p ++ q ++ [sep], fun cwd' => ?_⟩
  simp only [canonicalizePath, Option.getD_some, if_pos, if_neg h.symm, if_neg hsrc,
    if_neg hsrc']
  decide

theorem takeLines_append {source : NormalizedPath} {resolve : Text → NormalizedPath}
    (raws raws' : List (List UInt8)) (r : Found × List UInt8) :
    takeLines source resolve before (raws ++ raws') r =
      takeLines source resolve before raws' (takeLines source resolve before raws r) :=
  foldl_append

variable (htold : FirstTelling (lines newline data) quiet raw rest before)
  (hshort : Short data) (hspelled : SpelledAlike data cwd)

include htold hshort in
theorem results_eq_of_agree (hagree : Agree data cwd)
    (hdet : detectPrefix ((lines newline data).map lineText) = some other)
    (realpath : Text → Option NormalizedPath) (source : Text) :
    let r := streamLines realpath source cwd before (raw :: rest) (.empty, quiet.flatten)
    let r' := batchLines realpath source cwd other (lines newline data) (.empty, [])
    r.1.resolved = r'.1.resolved ∧ r.2 = r'.2 := by
  have hdata : [data].flatten = data := flatten_singleton
  rw [← hdata] at hshort htold
  have hboth := hagree realpath source [data] hdata
  rw [htold.streamShowIncludes hshort, parseShowIncludes_detected hdet] at hboth
  exact Prod.ext_iff.mp hboth

include htold hspelled in
theorem streamedResolve_eq {r : List UInt8} (hr : r ∈ raw :: rest) {path : Text}
    (hne : path ≠ []) (hlist : listedPath before (lineText r) = some path)
    (realpath : Text → Option NormalizedPath) :
    streamedResolve realpath cwd path =
      canonicalizePath realpath (spelling cwd path) (toText (new cwd).path) := by
  have hmem : r ∈ lines newline data := by
    rw [htold.eq]
    exact mem_append_right _ hr
  rw [streamedResolve, hspelled before htold.findSome? r hmem path hne hlist]

include htold hshort hspelled in
theorem detected_of_agree (hagree : Agree data cwd) :
    (∀ q ∈ quiet, ¬ before <+: lineText q) ∧
      detectPrefix ((lines newline data).map lineText) = some before := by
  have hraw := htold.told
  have hbefore := isPrefix_of_telling hraw
  have hmem : raw ∈ lines newline data := by
    rw [htold.eq]
    simp
  obtain ⟨other, hdet⟩ :
      ∃ other, detectPrefix ((lines newline data).map lineText) = some other := by
    rw [← Option.ne_none_iff_exists', Ne, detectPrefix_eq_none_iff]
    intro hnone
    have htelling := hnone (lineText raw) (mem_map_of_mem hmem)
    rw [hraw] at htelling
    cases htelling
  have hress := results_eq_of_agree htold hshort hagree hdet
  have hout := (hress (fun _ => none) []).2
  rw [streamLines, batchLines, takeLines_output, takeLines_output, nil_append] at hout
  obtain ⟨hother, hkept⟩ := removed_of_output_eq htold.eq hbefore hout
  suffices hsame : before = other by
    rw [hsame]
    exact ⟨hkept, hdet⟩
  rcases detectPrefix_cases hdet with rfl | ⟨heng, line', hline', hextr'⟩
  · -- The English text is told by any line that begins with it.
    have hstart := isPrefixOf_iff_prefix.mpr hother
    rw [Parser.telling, if_pos hstart] at hraw
    exact (Option.some.inj hraw).symm
  · have hextr : extractPrefixCandidate (lineText raw) = some before := by
      have hnot := heng (lineText raw) (mem_map_of_mem hmem)
      rwa [Parser.telling, if_neg fun h => hnot <| isPrefixOf_iff_prefix.mp h] at hraw
    by_contra hne
    have hpath := trim_after_candidate_ne_nil hextr
    have hpath' : trim ((lineText raw).drop other.length) ≠ [] := by
      rcases prefix_or_prefix_of_prefix hbefore hother with hle | hle
      · exact trim_after_longer_ne_nil hextr hextr' hle hne hother
      · exact trim_after_shorter_ne_nil hle (Ne.symm hne) hbefore (getLast?_of_extract hextr)
    -- The headers of this line come first on both sides, and the file system tells them apart.
    have hapart := spelling_ne_of_ne hbefore hother hne (getLast?_of_extract hextr)
      (getLast?_of_extract hextr') hpath hpath' cwd
    obtain ⟨realpath, source, hreal⟩ := exists_realpath hapart cwd
    obtain ⟨hdiff, hsrc, hsrc'⟩ := hreal (toText (new cwd).path)
    have hres := streamedResolve_eq htold hspelled mem_cons_self hpath
      (listedPath_eq_some hbefore) realpath
    have hhead : (streamLines realpath source cwd before (raw :: rest)
        (.empty, quiet.flatten)).1.resolved.head? = some _ :=
      takeLines_head hbefore hpath (by rwa [hres])
    have hhead' : (takeLines (canonicalizePath realpath source cwd) (batchResolve realpath cwd)
        other (raw :: rest) (.empty, quiet.flatten)).1.resolved.head? = some _ :=
      takeLines_head hother hpath' hsrc'
    have hsame := (hress realpath source).1
    rw [batchLines, htold.eq, takeLines_append, takeLines_quiet hkept, nil_append] at hsame
    rw [hsame, hhead', hres] at hhead
    exact hdiff (Option.some.inj hhead).symm

end Necessary

/-- On output with short lines whose paths are spelled out, the parsers agree exactly when the
whole output settles the text of the first telling line. -/
theorem agree_iff {data : List UInt8} {cwd : Text} (hshort : Short data)
    (hspelled : SpelledAlike data cwd) :
    Agree data cwd ↔ Settled ((lines newline data).map lineText) := by
  rcases exists_telling (lines newline data) with hnone | ⟨quiet, raw, rest, before, htold⟩
  · constructor
    · intro _ before hbefore
      have hnothing : ((lines newline data).map lineText).findSome? Parser.telling = none := by
        rw [findSome?_eq_none_iff, forall_mem_map]
        exact hnone
      rw [hnothing] at hbefore
      cases hbefore
    · intro _ realpath source chunks hchunks
      subst hchunks
      rw [streamShowIncludes_quiet hshort hnone, parseShowIncludes_quiet hnone]
  · rw [htold.settled_iff]
    constructor
    · exact detected_of_agree htold hshort hspelled
    · rintro ⟨hkept, hdet⟩ realpath source chunks rfl
      rw [htold.streamShowIncludes hshort, parseShowIncludes_detected hdet]
      have hres : ∀ r ∈ raw :: rest, ∀ path ≠ [],
          listedPath before (lineText r) = some path →
            streamedResolve realpath cwd path = batchResolve realpath cwd path := by
        intro r hr path hne hlist
        rw [streamedResolve_eq htold hspelled hr hne hlist, canonicalizePath_normalized]
        rfl
      rw [streamLines, batchLines, htold.eq, takeLines_append, takeLines_quiet hkept, nil_append,
        takeLines_congr hres]

def germanPrefix : Text :=
  "Hinweis: Einlesen der Datei:"

/-- A listing with a diagnostic among the notes that could be one itself. -/
def germanOutput : List UInt8 :=
  utf8 ("m.c\r\n" ++ germanPrefix ++ " C:\\a.h\r\nfatal: C:\\x.h\r\n" ++ germanPrefix ++
    " C:\\b.h\r\n")

theorem agree_germanOutput : Agree germanOutput "/w" := by
  have htold : ((lines newline germanOutput).map lineText).findSome? Parser.telling =
      some germanPrefix := by decide +kernel
  have hshort : Short germanOutput := by
    unfold Short
    decide +kernel
  have hspelled : SpelledAlike germanOutput "/w" := by
    intro before hbefore raw hraw path _ hpath
    rw [htold, Option.some.injEq] at hbefore
    have hlist : ∀ raw ∈ lines newline germanOutput,
        ∀ path ∈ listedPath germanPrefix (lineText raw),
          streamedSpelling "/w" path = spelling "/w" path := by decide +kernel
    exact hlist raw hraw path (hbefore ▸ hpath)
  refine (agree_iff hshort hspelled).mpr fun before hbefore => ?_
  rw [htold, Option.some.injEq] at hbefore
  subst hbefore
  refine ⟨by decide +kernel, .inr ⟨by decide +kernel, fun other hne => ?_⟩⟩
  have hcands : ((lines newline germanOutput).map lineText).filterMap extractPrefixCandidate =
      [germanPrefix, "fatal:".toList, germanPrefix] := by decide +kernel
  rw [hcands]
  by_cases hfatal : other = "fatal:".toList
  · rw [hfatal]
    decide +kernel
  · rw [count_eq_zero_of_not_mem (by simp only [mem_cons, hne, hfatal, not_mem_nil, or_self,
      not_false_eq_true])]
    decide +kernel

def misleadingOutput : List UInt8 :=
  utf8 "fatal: C:\\x.h\nNote: including file: ../a.h\n"

def sameOutput : List UInt8 :=
  utf8 "Note: including file: ../a.h\n"

/-- A diagnostic before the first note is taken for a note; and a path through `..` is normalised
before it is looked up, which a link does not allow. -/
theorem parsers_disagree :
    let source := "/w/m.c".toList
    let linked := fun path => if path = "/w/link/../a.h".toList then
      some (new "/x/a.h".toList) else none
    streamShowIncludes (fun _ => none) [misleadingOutput] source "/w".toList =
        ([new "/w/C:\\x.h".toList], sameOutput) ∧
      parseShowIncludes (fun _ => none) misleadingOutput source "/w".toList =
        ([new "/a.h".toList], utf8 "fatal: C:\\x.h\n".toList) ∧
      streamShowIncludes linked [sameOutput] source "/w/link".toList =
        ([new "/w/a.h".toList], []) ∧
      parseShowIncludes linked sameOutput source "/w/link".toList =
        ([new "/x/a.h".toList], []) := by
  decide +kernel

end Zccache.ShowIncludes
