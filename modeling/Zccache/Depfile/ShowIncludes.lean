import Mathlib.Data.Finset.Insert
import Zccache.Base.Lines
import Zccache.Base.Utf8
import Zccache.Core.NormalizedPath
import Zccache.Request.ResponseFormat

/-! # The notes of `/showIncludes`

A compiler that is asked for `/showIncludes` prints a note for every header it
opens, behind a text that depends on the locale. One parser reads the whole
output, and one reads it as it arrives. Both take the text before the path from
the output itself.
-/

namespace Zccache.ShowIncludes

open List Unix PrefixCode Utf8 Lines NormalizedPath Parser

def englishPrefix : Text :=
  "Note: including file:"

def maxPartialLineBytes : ℕ :=
  64 * 1024

def newline : UInt8 := 0x0A

def carriageReturn : UInt8 := 0x0D

/-- A drive with its colon and backslash, or the two backslashes of a share. -/
def looksLikeWindowsPathStart (t : Text) : Bool :=
  (t.head?.any Char.isAlpha && [':', '\\'].isPrefixOf t.tail) || ['\\', '\\'].isPrefixOf t

/-- The text before a path is a candidate if it ends with a colon and says something before. -/
def candidateBefore (before : Text) : Option Text :=
  let trimmed := trimEnd before
  if 2 ≤ (utf8 trimmed).length ∧ trimmed.getLast? = some ':' then some trimmed else none

/-- The first candidate, when the characters of `before` were passed. -/
def extractFrom (before : Text) : Text → Option Text
  | [] => none
  | c :: rest =>
    match if looksLikeWindowsPathStart (c :: rest) ∧ before ≠ [] then candidateBefore before
      else none with
    | some candidate => some candidate
    | none => extractFrom (before ++ [c]) rest

def extractPrefixCandidate (line : Text) : Option Text :=
  if (utf8 line).length < 4 then none else extractFrom [] line

def countCandidate (counts : List (Text × ℕ)) (candidate : Text) : List (Text × ℕ) :=
  if counts.any (·.1 = candidate) then
    counts.map fun entry => if entry.1 = candidate then (entry.1, entry.2 + 1) else entry
  else counts ++ [(candidate, 1)]

/-- Of several largest entries the last is taken. -/
def maxByCount (counts : List (Text × ℕ)) : Option (Text × ℕ) :=
  counts.foldl
    (fun best entry =>
      match best with
      | none => some entry
      | some b => if entry.2 < b.2 then some b else some entry) none

def detectPrefix (lines : List Text) : Option Text :=
  if lines.any (englishPrefix.isPrefixOf ·) then some englishPrefix
  else
    (maxByCount ((lines.filterMap extractPrefixCandidate).foldl countCandidate [])).map Prod.fst

/-- `PathBuf::push`. -/
def joinText (base path : Text) : Text :=
  if isAbsolute path then path
  else if base = [] ∨ base.getLast? = some sep then base ++ path
  else base ++ sep :: path

/-- What the file system, or the cache before it, has for a path; else the path is resolved by
its text. -/
def canonicalizePath (realpath : Text → Option NormalizedPath) (path cwd : Text) :
    NormalizedPath :=
  (realpath path).getD (new (if isAbsolute path then path else joinText cwd path))

/-- The spelling under which a listed path is looked up: the one parser normalises it. -/
def streamedSpelling (cwd path : Text) : Text :=
  if isAbsolute path then path
  else toText ((new cwd).join (components path)).path

def spelling (cwd path : Text) : Text :=
  if isAbsolute path then path else joinText cwd path

/-- The headers that were found, each once. -/
structure Found where
  seen : Finset NormalizedPath
  resolved : List NormalizedPath

namespace Found

def empty : Found :=
  ⟨∅, []⟩

def add (source path : NormalizedPath) (f : Found) : Found :=
  if path ≠ source ∧ path ∉ f.seen then ⟨insert path f.seen, f.resolved ++ [path]⟩ else f

end Found

def listedPath (before line : Text) : Option Text :=
  if before.isPrefixOf line then some (trim (line.drop before.length)) else none

def takeLine (source : NormalizedPath) (resolve : Text → NormalizedPath) (before : Option Text)
    (line : Text) (raw : List UInt8) (r : Found × List UInt8) : Found × List UInt8 :=
  match before.bind (listedPath · line) with
  | none => (r.1, r.2 ++ raw)
  | some path => if path = [] then r else (r.1.add source (resolve path), r.2)

def chop (b : UInt8) (l : List UInt8) : List UInt8 :=
  if l.getLast? = some b then l.dropLast else l

def splitFrom (current : List UInt8) : List UInt8 → List (List UInt8 × List UInt8)
  | [] => if current = [] then [] else [(current, current)]
  | b :: rest =>
    if b = newline then
      (chop carriageReturn current, current ++ [b]) :: splitFrom [] rest
    else splitFrom (current ++ [b]) rest

def splitLinesPreserving (data : List UInt8) : List (List UInt8 × List UInt8) :=
  splitFrom [] data

def parseShowIncludes (realpath : Text → Option NormalizedPath) (stderr : List UInt8)
    (source cwd : Text) : List NormalizedPath × List UInt8 :=
  let sourceCanonical := canonicalizePath realpath source cwd
  let lines := splitLinesPreserving stderr
  let before := detectPrefix (lines.map fun l => fromUtf8Lossy l.1)
  let resolve := fun path => canonicalizePath realpath (spelling cwd path) cwd
  let result := lines.foldl
    (fun r l => takeLine sourceCanonical resolve before (fromUtf8Lossy l.1) l.2 r) (.empty, [])
  (result.1.resolved, result.2)

structure Parser where
  sourceCanonical : NormalizedPath
  cwd : NormalizedPath
  detected : Option Text
  found : Found
  partialLine : List UInt8
  passthroughLine : Bool

namespace Parser

variable (realpath : Text → Option NormalizedPath)

def new (source cwd : Text) : Parser where
  sourceCanonical := canonicalizePath realpath source cwd
  cwd := NormalizedPath.new cwd
  detected := none
  found := .empty
  partialLine := []
  passthroughLine := false

/-- What the first line that tells anything says of the text before the paths. -/
def telling (line : Text) : Option Text :=
  if englishPrefix.isPrefixOf line then some englishPrefix else extractPrefixCandidate line

def resolve (p : Parser) (path : Text) : NormalizedPath :=
  let spelled :=
    if isAbsolute path then path else toText (p.cwd.join (components path)).path
  canonicalizePath realpath spelled (toText p.cwd.path)

variable (r : Parser × List UInt8)

def finishLine : Parser × List UInt8 :=
  let (p, output) := r
  let raw := p.partialLine
  let line := fromUtf8Lossy (chop carriageReturn (chop newline raw))
  let detected := p.detected.or (telling line)
  let taken := takeLine p.sourceCanonical (p.resolve realpath) detected line raw (p.found, output)
  ({ p with partialLine := [], detected := detected, found := taken.1 }, taken.2)

/-- Every round takes the chunk up to its next newline, or all of it. -/
def pushLoop : ℕ → List UInt8 → Parser × List UInt8 → Parser × List UInt8
  | 0, _, r => r
  | fuel + 1, chunk, (p, output) =>
    match chunk.span (· ≠ newline) with
    | (head, _ :: rest) =>
      if p.passthroughLine then
        pushLoop fuel rest ({ p with passthroughLine := false }, output ++ head ++ [newline])
      else
        pushLoop fuel rest
          (finishLine realpath
            ({ p with partialLine := p.partialLine ++ head ++ [newline] }, output))
    | (_, []) =>
      if chunk = [] then (p, output)
      else if p.passthroughLine then (p, output ++ chunk)
      else if maxPartialLineBytes < (p.partialLine ++ chunk).length then
        ({ p with partialLine := [], passthroughLine := true },
          output ++ (p.partialLine ++ chunk))
      else ({ p with partialLine := p.partialLine ++ chunk }, output)

def push (chunk : List UInt8) : Parser × List UInt8 :=
  pushLoop realpath chunk.length chunk r

def finish : List NormalizedPath × List UInt8 :=
  let r := if r.1.partialLine = [] then r else finishLine realpath r
  (r.1.found.resolved, r.2)

end Parser

/-- What is found in, and left of, an output that arrives in chunks. -/
def streamShowIncludes (realpath : Text → Option NormalizedPath) (chunks : List (List UInt8))
    (source cwd : Text) : List NormalizedPath × List UInt8 :=
  Parser.finish realpath
    (chunks.foldl (Parser.push realpath) (Parser.new realpath source cwd, []))

def lineText (raw : List UInt8) : Text :=
  fromUtf8Lossy (chop carriageReturn (chop newline raw))

/-- All lines are short enough to be kept until they are finished. -/
def Short (data : List UInt8) : Prop :=
  ∀ line ∈ lines newline data, (body newline line).length ≤ maxPartialLineBytes

namespace Parser

variable {realpath : Text → Option NormalizedPath}

def finishRaw (realpath : Text → Option NormalizedPath) (r : Parser × List UInt8)
    (raw : List UInt8) : Parser × List UInt8 :=
  finishLine realpath ({ r.1 with partialLine := raw }, r.2)

/-- The state after the complete lines of a text, with the rest of it kept. -/
def after (realpath : Text → Option NormalizedPath) (r : Parser × List UInt8)
    (data : List UInt8) : Parser × List UInt8 :=
  let r := (cut newline data).1.foldl (finishRaw realpath) r
  ({ r.1 with partialLine := (cut newline data).2 }, r.2)

variable {r : Parser × List UInt8}

theorem after_of_notMem {data : List UInt8} (h : newline ∉ data) :
    after realpath r data = ({ r.1 with partialLine := data }, r.2) := by
  rw [after, cut_of_notMem h]
  rfl

theorem after_line {first : List UInt8} (h : newline ∉ first) (rest : List UInt8) :
    after realpath r (first ++ newline :: rest) =
      after realpath (finishRaw realpath r (first ++ [newline])) rest := by
  rw [after, after, cut_line h]
  rfl

theorem pushLoop_eq {fuel : ℕ} {chunk : List UInt8} (hfuel : chunk.length ≤ fuel)
    (hpass : r.1.passthroughLine = false) (hopen : newline ∉ r.1.partialLine)
    (hshort : (cut newline (r.1.partialLine ++ chunk)).2.length ≤ maxPartialLineBytes) :
    pushLoop realpath fuel chunk r = after realpath r (r.1.partialLine ++ chunk) := by
  induction fuel generalizing chunk r with
  | zero =>
    have hnil : chunk = [] := length_eq_zero_iff.mp (Nat.le_zero.mp hfuel)
    rw [hnil, append_nil, after_of_notMem hopen]
    rfl
  | succ fuel ih =>
    obtain ⟨p, output⟩ := r
    have hline : ¬ p.passthroughLine = true := by
      rw [show p.passthroughLine = false from hpass]
      exact Bool.false_ne_true
    rcases exists_line (z := newline) chunk with hnot | ⟨first, rest, rfl, hfirst⟩
    · have hall : newline ∉ p.partialLine ++ chunk := by
        rw [mem_append, not_or]
        exact ⟨hopen, hnot⟩
      rw [cut_of_notMem hall] at hshort
      rw [after_of_notMem hall, pushLoop, span_of_notMem hnot]
      by_cases hnil : chunk = []
      · simp [hnil]
      · rw [if_neg hnil, if_neg hline, if_neg (not_lt.mpr hshort)]
    · have hall : newline ∉ p.partialLine ++ first := by
        rw [mem_append, not_or]
        exact ⟨hopen, hfirst⟩
      rw [← append_assoc] at hshort ⊢
      rw [cut_line hall] at hshort
      rw [after_line hall, pushLoop, span_line hfirst]
      dsimp only
      rw [if_neg hline]
      have hrest : rest.length ≤ fuel := by
        rw [length_append, length_cons] at hfuel
        omega
      exact ih hrest hpass not_mem_nil hshort

theorem push_eq (hpass : r.1.passthroughLine = false) (hopen : newline ∉ r.1.partialLine)
    {chunk : List UInt8}
    (hshort : (cut newline (r.1.partialLine ++ chunk)).2.length ≤ maxPartialLineBytes) :
    push realpath r chunk = after realpath r (r.1.partialLine ++ chunk) :=
  pushLoop_eq le_rfl hpass hopen hshort

theorem passthroughLine_foldl (r : Parser × List UInt8) (raws : List (List UInt8)) :
    (raws.foldl (finishRaw realpath) r).1.passthroughLine = r.1.passthroughLine := by
  induction raws generalizing r with
  | nil => rfl
  | cons raw raws ih => exact ih _

theorem after_kept (r : Parser × List UInt8) (kept data : List UInt8) :
    after realpath ({ r.1 with partialLine := kept }, r.2) data = after realpath r data := by
  unfold after
  cases (cut newline data).1 <;> rfl

/-- An unfinished line is only read together with what follows. -/
theorem after_after (r : Parser × List UInt8) (data more : List UInt8) :
    after realpath (after realpath r data) ((cut newline data).2 ++ more) =
      after realpath r (data ++ more) := by
  refine (after_kept ((cut newline data).1.foldl (finishRaw realpath) r) _ _).trans ?_
  simp only [after, cut_append data more, foldl_append]

/-- However the output is cut into chunks, its complete lines are finished. -/
theorem foldl_push {chunks : List (List UInt8)} (hpass : r.1.passthroughLine = false)
    (hopen : newline ∉ r.1.partialLine) (hshort : Short (r.1.partialLine ++ chunks.flatten)) :
    chunks.foldl (push realpath) r = after realpath r (r.1.partialLine ++ chunks.flatten) := by
  induction chunks generalizing r with
  | nil => 
    rw [flatten_nil, append_nil, after_of_notMem hopen]
    rfl
  | cons chunk chunks ih =>
    rw [flatten_cons, ← append_assoc] at hshort ⊢
    have hkept : (cut newline (r.1.partialLine ++ chunk)).2.length ≤ maxPartialLineBytes := by
      by_cases hnil : (cut newline (r.1.partialLine ++ chunk)).2 = []
      · rw [hnil]
        exact Nat.zero_le _
      · obtain ⟨line, hline, hbody⟩ := exists_prefix_body _ chunks.flatten hnil
        exact hbody.length_le.trans (hshort line hline)
    rw [foldl_cons, push_eq hpass hopen hkept, ih]
    · exact after_after r _ _
    · rw [after, passthroughLine_foldl]
      exact hpass
    · exact notMem_cut_snd _
    · intro line hline
      apply hshort line
      rw [lines_append]
      exact mem_append_right _ hline

end Parser

theorem streamShowIncludes_eq (realpath : Text → Option NormalizedPath)
    {chunks : List (List UInt8)} (hshort : Short chunks.flatten) (source cwd : Text) :
    streamShowIncludes realpath chunks source cwd =
      let r := (lines newline chunks.flatten).foldl (Parser.finishRaw realpath)
        (Parser.new realpath source cwd, [])
      (r.1.found.resolved, r.2) := by
  have hpush : chunks.foldl (Parser.push realpath) (Parser.new realpath source cwd, []) =
      Parser.after realpath (Parser.new realpath source cwd, []) chunks.flatten :=
    Parser.foldl_push rfl not_mem_nil hshort
  rw [streamShowIncludes, hpush]
  unfold Parser.finish Parser.after lines
  dsimp only
  by_cases hnil : (cut newline chunks.flatten).2 = []
  · rw [if_pos hnil, if_pos hnil]
  · rw [if_neg hnil, if_neg hnil, foldl_append]
    rfl

section LineByLine

variable (realpath : Text → Option NormalizedPath) (source cwd : Text)

def streamedResolve (path : Text) : NormalizedPath :=
  canonicalizePath realpath (streamedSpelling cwd path) (toText (new cwd).path)

def batchResolve (path : Text) : NormalizedPath :=
  canonicalizePath realpath (spelling cwd path) cwd

def scanLine (sourceCanonical : NormalizedPath) (resolve : Text → NormalizedPath)
    (s : Option Text × (Found × List UInt8)) (raw : List UInt8) :
    Option Text × (Found × List UInt8) :=
  let detected := s.1.or (Parser.telling (lineText raw))
  (detected, takeLine sourceCanonical resolve detected (lineText raw) raw s.2)

variable {source cwd} in
theorem foldl_finishRaw (raws : List (List UInt8)) {p : Parser}
    (hsrc : p.sourceCanonical = canonicalizePath realpath source cwd)
    (hcwd : p.cwd = new cwd) (output : List UInt8) :
    let r := raws.foldl (Parser.finishRaw realpath) (p, output)
    (r.1.detected, r.1.found, r.2) =
      raws.foldl (scanLine (canonicalizePath realpath source cwd) (streamedResolve realpath cwd))
        (p.detected, p.found, output) := by
  induction raws generalizing p output with
  | nil => rfl
  | cons raw raws ih =>
    have hres : p.resolve realpath = streamedResolve realpath cwd := by
      funext path
      rw [Parser.resolve, hcwd]
      rfl
    have hstep : scanLine (canonicalizePath realpath source cwd) (streamedResolve realpath cwd)
        (p.detected, p.found, output) raw =
          ((Parser.finishRaw realpath (p, output) raw).1.detected,
            (Parser.finishRaw realpath (p, output) raw).1.found,
            (Parser.finishRaw realpath (p, output) raw).2) := by
      rw [← hsrc, ← hres]
      rfl
    rw [foldl_cons, foldl_cons, hstep]
    exact ih (p := (Parser.finishRaw realpath (p, output) raw).1) hsrc hcwd _

variable (sourceCanonical : NormalizedPath) (resolve : Text → NormalizedPath)

theorem foldl_scanLine_some
    (before : Text) (raws : List (List UInt8)) (r : Found × List UInt8) :
    raws.foldl (scanLine sourceCanonical resolve) (some before, r) =
      (some before, raws.foldl
        (fun r raw => takeLine sourceCanonical resolve (some before) (lineText raw) raw r) r) := by
  induction raws generalizing r with
  | nil => rfl
  | cons raw raws ih => exact ih _

theorem foldl_scanLine_none
    {raws : List (List UInt8)} (h : ∀ raw ∈ raws, Parser.telling (lineText raw) = none)
    (r : Found × List UInt8) :
    raws.foldl (scanLine sourceCanonical resolve) (none, r) = (none, r.1, r.2 ++ raws.flatten) := by
  induction raws generalizing r with
  | nil => simp
  | cons raw raws ih =>
    have htelling := h raw mem_cons_self
    have hstep : scanLine sourceCanonical resolve (none, r) raw = (none, r.1, r.2 ++ raw) := by
      simp [scanLine, htelling, takeLine]
    rw [foldl_cons, hstep, ih fun raw hraw => h raw (mem_cons_of_mem _ hraw)]
    simp

end LineByLine

variable {q : Text}

section

variable (hq : isAbsolute q = false)

include hq

theorem foldl_components_relative (acc : Path) : (components q).foldl normalStep acc =
      ((q.splitOn sep).filterMap Component.ofSegment).foldl normalStep acc := by
  have hhead : ¬ q.head? = some sep := by
    simpa [isAbsolute] using hq
  rw [components, leadingComponent, if_neg hhead, foldl_append]
  split <;> rfl

theorem normalize_components_joinText (t : Text) :
    normalize (components (joinText t q)) = normalize (join (components t) (components q)) := by
  have hsegs : ∀ {t : Text}, t ≠ [] → normalize (components (t ++ sep :: q)) =
      (components q).foldl normalStep (normalize (components t)) := by
    intro t ht
    rw [components_append_sep ht, Unix.normalize, foldl_append, foldl_components_relative hq]
    rfl
  rw [normalize_join, joinText, hq, if_neg Bool.false_ne_true]
  by_cases hnil : t = []
  · rw [if_pos (.inl hnil), hnil]
    rfl
  · by_cases hlast : t.getLast? = some sep
    · -- The separator at the end of `t` is the one in between.
      obtain ⟨init, rfl⟩ : ∃ init, t = init ++ [sep] :=
        ⟨_, (dropLast_append_getLast? _ hlast).symm⟩
      rw [if_pos (.inr hlast), append_assoc, singleton_append]
      cases init with
      | nil =>
        rw [foldl_components_relative hq, nil_append, components, splitOn_sep_cons]
        rfl
      | cons c init =>
        have hend : components (c :: init ++ [sep]) = components (c :: init) := by
          rw [components_append_sep (cons_ne_nil _ _)]
          exact append_nil _
        rw [hend, hsegs (cons_ne_nil _ _)]
    · rw [if_neg (not_or.mpr ⟨hnil, hlast⟩), hsegs hnil]

theorem new_joinText_normalized (cwd : Text) : new (joinText (toText (new cwd).path) q) =
      new (joinText cwd q) := by
  apply ext
  change normalize (components (joinText _ q)) = normalize (components (joinText cwd q))
  rw [normalize_components_joinText hq, normalize_components_joinText hq,
    components_toText (new cwd).isNormal]
  exact normalize_normalize_join _ _

end

theorem canonicalizePath_normalized (realpath : Text → Option NormalizedPath) (path cwd : Text) :
    canonicalizePath realpath path (toText (new cwd).path) =
      canonicalizePath realpath path cwd := by
  unfold canonicalizePath
  by_cases habs : isAbsolute path = true
  · rw [if_pos habs, if_pos habs]
  · rw [if_neg habs, if_neg habs, new_joinText_normalized (Bool.eq_false_iff.mpr habs)]

end Zccache.ShowIncludes
