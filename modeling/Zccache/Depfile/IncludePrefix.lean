import Zccache.Depfile.ShowIncludes

/-! # The text before the paths of `/showIncludes`

What the batch parser takes for the text before the paths: the English one if any
line begins with it, else the most frequent candidate. A candidate ends with a
colon and stands before the first drive or share of a line.
-/

namespace Zccache.ShowIncludes

open List Unix PrefixCode Utf8 Lines

def chopLine (raw : List UInt8) : List UInt8 :=
  if raw.getLast? = some newline then chop carriageReturn (chop newline raw) else raw

theorem splitFrom_eq {current : List UInt8} (h : newline ∉ current) (rest : List UInt8) :
    splitFrom current rest =
      (lines newline (current ++ rest)).map fun raw => (chopLine raw, raw) := by
  induction rest generalizing current with
  | nil =>
    rw [append_nil, splitFrom]
    split
    · next hnil => rw [hnil]; rfl
    · next hne =>
      have hlast : current.getLast? ≠ some newline := by
        intro hlast
        exact h (mem_of_getLast? hlast)
      rw [lines_of_notMem h hne, map_singleton, chopLine, if_neg hlast]
  | cons b rest ih =>
    rw [splitFrom]
    split
    · next hb =>
      subst hb
      rw [lines_line h, map_cons, ih not_mem_nil]
      simp [chopLine, chop]
    · next hb =>
      have hnot : newline ∉ current ++ [b] := by
        rw [mem_append, mem_singleton, not_or]
        exact ⟨h, Ne.symm hb⟩
      rw [ih hnot, append_assoc, singleton_append]

theorem fromUtf8Lossy_chopLine (raw : List UInt8) :
    fromUtf8Lossy (chopLine raw) = lineText raw ∨
      fromUtf8Lossy (chopLine raw) = lineText raw ++ ['\r'] := by
  unfold chopLine lineText
  by_cases hline : raw.getLast? = some newline
  · exact .inl (by rw [if_pos hline])
  · have hchop : chop newline raw = raw := if_neg hline
    rw [if_neg hline, hchop]
    by_cases hcr : raw.getLast? = some carriageReturn
    · right
      have hraw : raw = raw.dropLast ++ carriageReturn :: [] :=
        (dropLast_append_getLast? _ hcr).symm
      have henc : String.utf8EncodeChar '\r' = [carriageReturn] := by decide
      have hchopped : chop carriageReturn raw = raw.dropLast := if_pos hcr
      rw [hchopped]
      conv_lhs => rw [hraw, fromUtf8Lossy_append_ascii henc (by decide)]
      rfl
    · exact .inl (by rw [chop, if_neg hcr])

theorem isPrefixOf_append_cr {before : Text} (h : before.getLast? ≠ some '\r') (line : Text) :
    before.isPrefixOf (line ++ ['\r']) = before.isPrefixOf line := by
  rw [Bool.eq_iff_iff, isPrefixOf_iff_prefix, isPrefixOf_iff_prefix]
  constructor
  · intro hpre
    rcases prefix_concat_iff.mp hpre with rfl | hline
    · simp at h
    · exact hline
  · intro hpre
    exact hpre.trans (prefix_append _ _)

theorem trimEnd_append_cr (t : Text) : trimEnd (t ++ ['\r']) = trimEnd t := by
  rw [trimEnd, rdropWhile_concat_pos _ _ _ (by decide)]
  rfl

theorem trim_append_cr (t : Text) : trim (t ++ ['\r']) = trim t := by
  unfold trim
  by_cases hall : ∀ c ∈ t, isWhitespace c = true
  · have hnil : t.dropWhile isWhitespace = [] := dropWhile_eq_nil_iff.mpr hall
    rw [dropWhile_append, hnil]
    decide
  · have hne : ¬ (t.dropWhile isWhitespace).isEmpty = true := by
      rw [List.isEmpty_iff, List.dropWhile_eq_nil_iff]
      exact hall
    rw [dropWhile_append, if_neg hne, trimEnd_append_cr]

theorem looksLikeWindowsPathStart_append_cr (t : Text) :
    looksLikeWindowsPathStart (t ++ ['\r']) = looksLikeWindowsPathStart t := by
  cases t with
  | nil => decide
  | cons c rest =>
    have hshare : ['\\', '\\'].isPrefixOf (c :: rest ++ ['\r']) =
        ['\\', '\\'].isPrefixOf (c :: rest) := isPrefixOf_append_cr (by decide) _
    have hdrive : [':', '\\'].isPrefixOf (rest ++ ['\r']) = [':', '\\'].isPrefixOf rest :=
      isPrefixOf_append_cr (by decide) _
    unfold looksLikeWindowsPathStart
    rw [hshare, cons_append, tail_cons, tail_cons, hdrive]
    rfl

theorem extractFrom_append_cr (before line : Text) :
    extractFrom before (line ++ ['\r']) = extractFrom before line := by
  induction line generalizing before with
  | nil => simp [extractFrom, looksLikeWindowsPathStart]
  | cons c rest ih =>
    have hlooks := looksLikeWindowsPathStart_append_cr (c :: rest)
    rw [cons_append] at hlooks
    rw [cons_append, extractFrom, extractFrom, hlooks, ih]

section Candidates

variable {before line candidate : Text}

theorem candidateBefore_eq_some :
    candidateBefore before = some candidate ↔
      candidate = trimEnd before ∧ 2 ≤ (utf8 candidate).length ∧
        candidate.getLast? = some ':' := by
  unfold candidateBefore
  dsimp only
  split
  · next h =>
    constructor
    · rintro ⟨⟩
      exact ⟨rfl, h⟩
    · rintro ⟨rfl, -⟩
      rfl
  · next h =>
    constructor
    · nofun
    · rintro ⟨rfl, hcand⟩
      exact absurd hcand h

/-- The first place where a path begins behind a candidate. -/
structure FirstPath (before line candidate : Text) (mid path : Text) : Prop where
  line_eq : line = mid ++ path
  looks : looksLikeWindowsPathStart path = true
  candidate_eq : candidateBefore (before ++ mid) = some candidate
  first : ∀ mid' path', line = mid' ++ path' → looksLikeWindowsPathStart path' = true →
    ∀ other, candidateBefore (before ++ mid') = some other → mid <+: mid'

theorem extractFrom_eq_some (h : extractFrom before line = some candidate) :
    ∃ mid path, FirstPath before line candidate mid path := by
  induction line generalizing before with
  | nil => cases h
  | cons c rest ih =>
    rw [extractFrom] at h
    split at h
    · next found hfound =>
      obtain rfl := Option.some.inj h
      rw [Option.ite_none_right_eq_some] at hfound
      obtain ⟨⟨hlooks, -⟩, hcand⟩ := hfound
      refine ⟨[], c :: rest, rfl, hlooks, by rwa [append_nil], ?_⟩
      intro mid' _ _ _ _ _
      exact nil_prefix
    · next hnone =>
      obtain ⟨mid, path, hline, hlooks, hcand, hfirst⟩ := ih h
      refine ⟨c :: mid, path, by rw [hline]; rfl, hlooks, ?_, ?_⟩
      · rwa [append_assoc, singleton_append] at hcand
      · intro mid' path' heq hlooks' other hother
        cases mid' with
        | nil =>
          -- Here the loop has looked, and found no candidate.
          rw [append_nil] at hother
          have hne : before ≠ [] := by
            rintro rfl
            cases hother
          obtain rfl : c :: rest = path' := heq
          rw [if_pos ⟨hlooks', hne⟩, hother] at hnone
          cases hnone
        | cons c' mid' =>
          obtain ⟨rfl, hrest⟩ := cons.inj heq
          have hpre := hfirst mid' path' hrest hlooks' other (by
            rwa [append_assoc, singleton_append])
          exact cons_prefix_cons.mpr ⟨rfl, hpre⟩

theorem length_le_utf8 (t : Text) : t.length ≤ (utf8 t).length := by
  induction t with
  | nil => exact le_rfl
  | cons c t ih =>
    have hc : 1 ≤ (String.utf8EncodeChar c).length := by
      rw [String.length_utf8EncodeChar]
      exact Char.utf8Size_pos c
    rw [utf8, flatMap_cons, length_append, length_cons, Nat.add_comm]
    exact Nat.add_le_add hc ih

theorem two_le_length_of_looks {path : Text} (h : looksLikeWindowsPathStart path = true) :
    2 ≤ path.length := by
  rw [looksLikeWindowsPathStart, Bool.or_eq_true, Bool.and_eq_true, isPrefixOf_iff_prefix,
    isPrefixOf_iff_prefix] at h
  rcases h with ⟨-, hdrive⟩ | hshare
  · have hlen := hdrive.length_le
    rw [length_tail] at hlen
    exact hlen.trans (Nat.sub_le _ _)
  · exact hshare.length_le

/-- A line with a candidate has four bytes anyway. -/
theorem extractPrefixCandidate_eq (line : Text) :
    extractPrefixCandidate line = extractFrom [] line := by
  unfold extractPrefixCandidate
  split
  · next hshort =>
    cases h : extractFrom [] line with
    | none => rfl
    | some candidate =>
      obtain ⟨mid, path, rfl, hlooks, hcand, -⟩ := extractFrom_eq_some h
      obtain ⟨rfl, hlen, -⟩ := candidateBefore_eq_some.mp hcand
      have hmid : (utf8 (trimEnd mid)).length ≤ (utf8 mid).length := by
        obtain ⟨spaces, hspaces⟩ := rdropWhile_prefix isWhitespace mid
        have hutf8 : utf8 mid = utf8 (trimEnd mid) ++ utf8 spaces := by
          rw [utf8, utf8, utf8, ← flatMap_append]
          exact congrArg _ hspaces.symm
        rw [hutf8, length_append]
        exact Nat.le_add_right _ _
      have hpath := (two_le_length_of_looks hlooks).trans (length_le_utf8 path)
      rw [utf8, flatMap_append, length_append] at hshort
      exact absurd hshort (not_lt.mpr (Nat.add_le_add (hlen.trans hmid) hpath))
  · rfl

theorem getLast?_of_extract (h : extractPrefixCandidate line = some candidate) :
    candidate.getLast? = some ':' := by
  rw [extractPrefixCandidate_eq] at h
  obtain ⟨mid, path, hfirst⟩ := extractFrom_eq_some h
  exact (candidateBefore_eq_some.mp hfirst.candidate_eq).2.2

end Candidates

section Counting

variable {candidates : List Text}

/-- The counts stand in the order in which the candidates are met first. -/
theorem foldl_countCandidate (candidates : List Text) :
    candidates.foldl countCandidate [] =
      candidates.eraseDups.map fun c => (c, candidates.count c) := by
  induction candidates using reverseRecOn with
  | nil => rfl
  | append_singleton candidates candidate ih =>
    have hany : (candidates.eraseDups.map fun c => (c, candidates.count c)).any
        (·.1 = candidate) = decide (candidate ∈ candidates) := by
      rw [Bool.eq_iff_iff]
      simp
    have hdups : (candidates ++ [candidate]).eraseDups = candidates.eraseDups ++
        if candidate ∈ candidates then [] else [candidate] := by
      rw [eraseDups_append]
      split <;> simp [removeAll, eraseDups_cons, *]
    rw [foldl_append, ih, foldl_cons, foldl_nil, countCandidate, hany, hdups, map_append]
    by_cases hmem : candidate ∈ candidates
    · simp only [hmem, decide_true, if_true, map_map, map_nil, append_nil]
      apply map_congr_left
      intro c _
      by_cases hc : c = candidate
      · simp [hc]
      · simp [hc, Ne.symm hc]
    · simp only [hmem, decide_false, Bool.false_eq_true, if_false]
      congr 1
      · apply map_congr_left
        intro c hc
        have hne : candidate ≠ c := fun h => hmem (h ▸ mem_eraseDups.mp hc)
        simp [hne]
      · simp [count_eq_zero_of_not_mem hmem]

def better (best : Option (Text × ℕ)) (entry : Text × ℕ) : Option (Text × ℕ) :=
  match best with
  | none => some entry
  | some b => if entry.2 < b.2 then some b else some entry

theorem maxByCount_cons (e : Text × ℕ) (counts : List (Text × ℕ)) :
    maxByCount (e :: counts) = counts.foldl better (some e) := rfl

variable {counts : List (Text × ℕ)} {e : Text × ℕ}

theorem foldl_better (b : Text × ℕ) (counts : List (Text × ℕ)) :
    ∃ e, counts.foldl better (some b) = some e ∧
      (e = b ∧ (∀ x ∈ counts, x.2 < b.2) ∨ e ∈ counts ∧ ∃ x ∈ counts, b.2 ≤ x.2) := by
  induction counts generalizing b with
  | nil => exact ⟨b, rfl, .inl ⟨rfl, by simp⟩⟩
  | cons c counts ih =>
    rw [foldl_cons, better]
    split
    · next hlt =>
      obtain ⟨e, he, ⟨rfl, hless⟩ | ⟨hmem, x, hx, hle⟩⟩ := ih b
      · exact ⟨e, he, .inl ⟨rfl, forall_mem_cons.mpr ⟨hlt, hless⟩⟩⟩
      · exact ⟨e, he, .inr ⟨mem_cons_of_mem c hmem, x, mem_cons_of_mem c hx, hle⟩⟩
    · next hle =>
      obtain ⟨e, he, hcase⟩ := ih c
      refine ⟨e, he, .inr ⟨?_, c, mem_cons_self, not_lt.mp hle⟩⟩
      rcases hcase with ⟨rfl, -⟩ | ⟨hmem, -⟩
      · exact mem_cons_self
      · exact mem_cons_of_mem c hmem

theorem mem_of_maxByCount (h : maxByCount counts = some e) : e ∈ counts := by
  cases counts with
  | nil => cases h
  | cons b counts =>
    obtain ⟨e', he', hcase⟩ := foldl_better b counts
    obtain rfl := Option.some.inj (he'.symm.trans h)
    rcases hcase with ⟨rfl, -⟩ | ⟨hmem, -⟩
    · exact mem_cons_self
    · exact mem_cons_of_mem b hmem

theorem maxByCount_eq_none_iff : maxByCount counts = none ↔ counts = [] := by
  cases counts with
  | nil => exact iff_of_true rfl rfl
  | cons b counts =>
    obtain ⟨e, he, -⟩ := foldl_better b counts
    simp [maxByCount_cons, he]

theorem maxByCount_first_iff {first : Text} (h : candidates.head? = some first) :
    (maxByCount (candidates.foldl countCandidate [])).map Prod.fst = some first ↔
      ∀ other ≠ first, candidates.count other < candidates.count first := by
  obtain ⟨tail, htail⟩ := head?_eq_some_iff.mp h
  obtain ⟨rest, hrest, hnew⟩ : ∃ rest, candidates.eraseDups = first :: rest ∧ first ∉ rest := by
    rw [htail, eraseDups_cons]
    exact ⟨_, rfl, by simp⟩
  rw [foldl_countCandidate, hrest, map_cons, maxByCount_cons]
  obtain ⟨e, he, hcase⟩ := foldl_better (first, candidates.count first)
    (rest.map fun c => (c, candidates.count c))
  rw [he, Option.map_some, Option.some.injEq]
  constructor
  · intro hfst other hne
    rcases hcase with ⟨-, hless⟩ | ⟨hin, -⟩
    · by_cases hother : other ∈ candidates
      · rw [← mem_eraseDups, hrest] at hother
        exact forall_mem_map.mp hless other ((mem_cons.mp hother).resolve_left hne)
      · rw [count_eq_zero_of_not_mem hother, count_pos_iff, htail]
        exact mem_cons_self
    · obtain ⟨c, hc, rfl⟩ := mem_map.mp hin
      exact absurd (hfst ▸ hc) hnew
  · intro hless
    rcases hcase with ⟨rfl, -⟩ | ⟨-, x, hx, hle⟩
    · rfl
    · obtain ⟨c, hc, rfl⟩ := mem_map.mp hx
      refine absurd (hless c ?_) (not_lt.mpr hle)
      rintro rfl
      exact hnew hc

end Counting

section Detected

variable {line : Text}

theorem telling_eq_none :
    Parser.telling line = none ↔
      ¬ englishPrefix <+: line ∧ extractPrefixCandidate line = none := by
  unfold Parser.telling
  rw [← isPrefixOf_iff_prefix]
  split
  · next h => simp [h]
  · next h => simp [h]

variable {lines : List Text}

theorem detectPrefix_eq_none_iff :
    detectPrefix lines = none ↔ ∀ line ∈ lines, Parser.telling line = none := by
  simp only [telling_eq_none, detectPrefix]
  split
  · next hany =>
    simp only [any_eq_true, isPrefixOf_iff_prefix] at hany
    obtain ⟨line, hline, heng⟩ := hany
    constructor
    · nofun
    · intro hnone
      exact absurd heng (hnone line hline).1
  · next hany =>
    simp only [any_eq_true, isPrefixOf_iff_prefix, not_exists, not_and] at hany
    rw [Option.map_eq_none_iff, maxByCount_eq_none_iff, foldl_countCandidate, map_eq_nil_iff,
      eq_nil_iff_forall_not_mem]
    simp only [mem_eraseDups, mem_filterMap, not_exists, not_and]
    constructor
    · intro hnone line hline
      have hline' := fun candidate => hnone candidate line hline
      exact ⟨hany line hline, Option.eq_none_iff_forall_ne_some.mpr hline'⟩
    · intro hnone candidate line hline hextr
      rw [(hnone line hline).2] at hextr
      cases hextr

theorem candidate_isPrefix {candidate : Text} (h : extractPrefixCandidate line = some candidate) :
    candidate <+: line := by
  rw [extractPrefixCandidate_eq] at h
  obtain ⟨mid, path, hfirst⟩ := extractFrom_eq_some h
  obtain ⟨rfl, -, -⟩ := candidateBefore_eq_some.mp hfirst.candidate_eq
  rw [hfirst.line_eq]
  have htrim : trimEnd mid <+: mid := rdropWhile_prefix _ _
  exact htrim.trans (prefix_append _ _)

variable {before : Text}

theorem exists_of_maxByCount
    (h : (maxByCount ((lines.filterMap extractPrefixCandidate).foldl countCandidate [])).map
      Prod.fst = some before) : ∃ line ∈ lines, extractPrefixCandidate line = some before := by
  obtain ⟨e, he, rfl⟩ := Option.map_eq_some_iff.mp h
  have hmem := mem_of_maxByCount he
  rw [foldl_countCandidate] at hmem
  obtain ⟨c, hc, rfl⟩ := mem_map.mp hmem
  exact mem_filterMap.mp (mem_eraseDups.mp hc)

theorem detectPrefix_cases (h : detectPrefix lines = some before) :
    before = englishPrefix ∨ (∀ line ∈ lines, ¬ englishPrefix <+: line) ∧
      ∃ line ∈ lines, extractPrefixCandidate line = some before := by
  unfold detectPrefix at h
  split at h
  · exact .inl (Option.some.inj h).symm
  · next hany =>
    simp only [any_eq_true, isPrefixOf_iff_prefix, not_exists, not_and] at hany
    exact .inr ⟨hany, exists_of_maxByCount h⟩

theorem getLast?_of_detectPrefix (h : detectPrefix lines = some before) :
    before.getLast? = some ':' := by
  rcases detectPrefix_cases h with rfl | ⟨-, line, -, hline⟩
  · decide
  · exact getLast?_of_extract hline

/-- What the first telling line says is what the whole output says, exactly when it is the English
text, or there is no English line and it is the most frequent candidate. -/
theorem detectPrefix_first_iff {quiet : List Text} (rest : List Text)
    (hquiet : ∀ l ∈ quiet, Parser.telling l = none) (hline : Parser.telling line = some before) :
    detectPrefix (quiet ++ line :: rest) = some before ↔
      before = englishPrefix ∨
        (∀ l ∈ quiet ++ line :: rest, ¬ englishPrefix <+: l) ∧
          ∀ other ≠ before,
            ((quiet ++ line :: rest).filterMap extractPrefixCandidate).count other <
              ((quiet ++ line :: rest).filterMap extractPrefixCandidate).count before := by
  unfold detectPrefix
  by_cases hany : ∃ l ∈ quiet ++ line :: rest, englishPrefix <+: l
  · have hbool : (quiet ++ line :: rest).any (englishPrefix.isPrefixOf ·) = true := by
      simpa only [any_eq_true, isPrefixOf_iff_prefix] using hany
    obtain ⟨l, hl, heng⟩ := hany
    rw [if_pos hbool, Option.some.injEq]
    constructor
    · rintro rfl
      exact .inl rfl
    · rintro (rfl | ⟨hnone, -⟩)
      · rfl
      · exact absurd heng (hnone l hl)
  · have hbool : ¬ (quiet ++ line :: rest).any (englishPrefix.isPrefixOf ·) = true := by
      simpa only [any_eq_true, isPrefixOf_iff_prefix] using hany
    have hnone : ∀ l ∈ quiet ++ line :: rest, ¬ englishPrefix <+: l := by
      intro l hl heng
      exact hany ⟨l, hl, heng⟩
    have hextr : ∀ l ∈ quiet ++ line :: rest,
        Parser.telling l = extractPrefixCandidate l := by
      intro l hl
      rw [Parser.telling, if_neg]
      exact fun h => hnone l hl <| isPrefixOf_iff_prefix.mp h
    have hfirst : extractPrefixCandidate line = some before := by
      rw [← hextr line (by simp), hline]
    have hhead : ((quiet ++ line :: rest).filterMap extractPrefixCandidate).head? =
        some before := by
      have hempty : quiet.filterMap extractPrefixCandidate = [] := by
        rw [filterMap_eq_nil_iff]
        intro l hl
        rw [← hextr l (mem_append_left _ hl), hquiet l hl]
      rw [filterMap_append, hempty, nil_append, filterMap_cons, hfirst]
      rfl
    rw [if_neg hbool, maxByCount_first_iff hhead]
    constructor
    · intro hmost
      exact .inr ⟨hnone, hmost⟩
    · rintro (rfl | ⟨-, hmost⟩)
      · exact absurd (candidate_isPrefix hfirst) (hnone line (by simp))
      · exact hmost

end Detected

theorem telling_chopLine (raw : List UInt8) :
    englishPrefix.isPrefixOf (fromUtf8Lossy (chopLine raw)) =
        englishPrefix.isPrefixOf (lineText raw) ∧
      extractPrefixCandidate (fromUtf8Lossy (chopLine raw)) =
        extractPrefixCandidate (lineText raw) := by
  rcases fromUtf8Lossy_chopLine raw with h | h
  · rw [h]
    exact ⟨rfl, rfl⟩
  · rw [h, extractPrefixCandidate_eq, extractPrefixCandidate_eq, extractFrom_append_cr,
      isPrefixOf_append_cr (by decide)]
    exact ⟨rfl, rfl⟩

theorem detectPrefix_chopLine (raws : List (List UInt8)) :
    detectPrefix (raws.map fun raw => fromUtf8Lossy (chopLine raw)) =
      detectPrefix (raws.map lineText) := by
  have heng : ∀ raw, englishPrefix.isPrefixOf (fromUtf8Lossy (chopLine raw)) =
      englishPrefix.isPrefixOf (lineText raw) := fun raw => (telling_chopLine raw).1
  have hextr : ∀ raw, extractPrefixCandidate (fromUtf8Lossy (chopLine raw)) =
      extractPrefixCandidate (lineText raw) := fun raw => (telling_chopLine raw).2
  simp only [detectPrefix, any_map, filterMap_map, Function.comp_def, heng, hextr]

theorem listedPath_chopLine {before : Text} (h : before.getLast? = some ':')
    (raw : List UInt8) :
    listedPath before (fromUtf8Lossy (chopLine raw)) = listedPath before (lineText raw) := by
  rcases fromUtf8Lossy_chopLine raw with hsame | hcr
  · rw [hsame]
  · rw [hcr, listedPath, listedPath, isPrefixOf_append_cr (by rw [h]; decide)]
    split
    · next hpre =>
      have hstart := isPrefixOf_iff_prefix.mp hpre
      rw [drop_append_of_le_length hstart.length_le, trim_append_cr]
    · rfl

theorem parseShowIncludes_eq (realpath : Text → Option NormalizedPath) (data : List UInt8)
    (source cwd : Text) :
    parseShowIncludes realpath data source cwd =
      let before := detectPrefix ((lines newline data).map lineText)
      let result := (lines newline data).foldl
        (fun r raw => takeLine (canonicalizePath realpath source cwd) (batchResolve realpath cwd)
          before (lineText raw) raw r) (.empty, [])
      (result.1.resolved, result.2) := by
  have hlines : splitLinesPreserving data =
      (lines newline data).map fun raw => (chopLine raw, raw) :=
    splitFrom_eq not_mem_nil data
  have htake : ∀ (r : Found × List UInt8) (raw : List UInt8),
      takeLine (canonicalizePath realpath source cwd) (batchResolve realpath cwd)
          (detectPrefix ((lines newline data).map lineText)) (fromUtf8Lossy (chopLine raw)) raw r =
        takeLine (canonicalizePath realpath source cwd) (batchResolve realpath cwd)
          (detectPrefix ((lines newline data).map lineText)) (lineText raw) raw r := by
    intro r raw
    unfold takeLine
    cases hdet : detectPrefix ((lines newline data).map lineText) with
    | none => rfl
    | some before =>
      simp only [Option.bind_some, listedPath_chopLine (getLast?_of_detectPrefix hdet)]
  unfold parseShowIncludes
  simp only [hlines, map_map, foldl_map, Function.comp_def, detectPrefix_chopLine]
  simp only [← htake]
  rfl

end Zccache.ShowIncludes
