import Mathlib.Data.List.Chain
import Zccache.Base.Framing
import Zccache.Base.Lines
import Zccache.Request.KeyEnv
import Zccache.Request.ResponseFile

/-! # Arguments written to response files

The texts written for MSVC and for rustc follow other rules than the tokenizer.
The arguments are read back exactly if the two sets of rules agree on them.
-/

namespace Zccache.ResponseFile

open List Unix
open Lines (isWhitespace)

section Writing

def backslashRun (n : ℕ) : Text :=
  replicate n '\\'

/-- The rest of a quoted argument after a run of backslashes. -/
def quoteMsvc (backslashes : ℕ) : Text → Text
  | [] => backslashRun (backslashes * 2) ++ ['"']
  | c :: rest =>
    if c = '\\' then quoteMsvc (backslashes + 1) rest
    else if c = '"' then backslashRun (backslashes * 2 + 1) ++ '"' :: quoteMsvc 0 rest
    else backslashRun backslashes ++ c :: quoteMsvc 0 rest

variable (arg : Text)

def hasLineBreak : Bool :=
  '\n' ∈ arg || '\r' ∈ arg

def isPlain : Bool :=
  !arg.any isWhitespace && '"' ∉ arg && arg.head? ≠ some '@'

def formatMsvcArgument : Option Text :=
  if hasLineBreak arg then none
  else if arg = [] then some ['"', '"']
  else if isPlain arg then some arg
  else some ('"' :: quoteMsvc 0 arg)

def formatLines (format : Text → Option Text) : List Text → Option Text
  | [] => some []
  | arg :: rest =>
    (format arg).bind fun line =>
      (formatLines format rest).map fun content => line ++ '\n' :: content

def msvcIfSafe (args : List Text) : Option Text :=
  formatLines formatMsvcArgument args

def formatRustcArgument : Option Text :=
  if hasLineBreak arg then none else some arg

def rustcIfSafe (args : List Text) : Option Text :=
  formatLines formatRustcArgument args

end Writing

section Quoting

/-- What is read back of a quoted argument after a run of backslashes. -/
def readMsvc (backslashes : ℕ) : Text → Text
  | [] => backslashRun backslashes
  | c :: rest =>
    if c = '\\' then readMsvc (backslashes + 1) rest
    else if c = '"' then backslashRun backslashes ++ '"' :: readMsvc 0 rest
    else
      backslashRun (backslashes / 2) ++
        (if backslashes % 2 = 1 ∧ c = 'n' then '\n' else c) :: readMsvc 0 rest

variable {current : Text}

theorem parseFrom_backslashRun (n : ℕ) (rest : Text) :
    parseFrom (.double current) (backslashRun (n * 2) ++ rest) =
      parseFrom (.double (current ++ backslashRun n)) rest := by
  induction n generalizing current with
  | zero => simp [backslashRun]
  | succ n ih =>
    have hrun : backslashRun ((n + 1) * 2) = '\\' :: '\\' :: backslashRun (n * 2) := by
      rw [backslashRun, backslashRun, ← replicate_succ, ← replicate_succ]
      congr 1
      omega
    have hcurrent : current ++ ['\\'] ++ backslashRun n = current ++ backslashRun (n + 1) := by
      rw [append_assoc, backslashRun, backslashRun, replicate_succ]
      rfl
    rw [hrun, ← hcurrent, ← ih]
    rfl

theorem parseFrom_escaped (n : ℕ) (c : Char) (rest : Text) :
    parseFrom (.double current) (backslashRun (n * 2 + 1) ++ c :: rest) =
      parseFrom (.double (current ++ (backslashRun n ++ [if c = 'n' then '\n' else c]))) rest := by
  have hrun : backslashRun (n * 2 + 1) = backslashRun (n * 2) ++ ['\\'] := replicate_succ'
  rw [hrun, append_assoc, parseFrom_backslashRun, ← append_assoc]
  rfl

variable {c : Char}

theorem parseFrom_unescaped (n : ℕ) (hbs : c ≠ '\\') (hquote : c ≠ '"') (rest : Text) :
    parseFrom (.double current) (backslashRun (n * 2) ++ c :: rest) =
      parseFrom (.double (current ++ (backslashRun n ++ [c]))) rest := by
  rw [parseFrom_backslashRun, ← append_assoc]
  simp [parseFrom, Mode.step, hbs, hquote]

theorem parseFrom_quoteMsvc (n : ℕ) (a rest : Text) :
    parseFrom (.double current) (quoteMsvc n a ++ rest) =
      parseFrom (.bare (current ++ readMsvc n a)) rest := by
  induction a generalizing n current with
  | nil =>
    rw [quoteMsvc, append_assoc, parseFrom_backslashRun, readMsvc]
    rfl
  | cons c a ih =>
    simp only [quoteMsvc, readMsvc]
    split_ifs with hbs hquote hescape
    · exact ih (n + 1)
    · rw [append_assoc, cons_append, parseFrom_escaped, ih]
      simp
    · obtain ⟨hodd, rfl⟩ := hescape
      have hn : n = n / 2 * 2 + 1 := by omega
      rw [append_assoc, cons_append]
      nth_rewrite 1 [hn]
      rw [parseFrom_escaped, ih]
      simp
    · rcases Nat.mod_two_eq_zero_or_one n with heven | hodd
      · have hn : n = n / 2 * 2 := by omega
        rw [append_assoc, cons_append]
        nth_rewrite 1 [hn]
        rw [parseFrom_unescaped _ hbs hquote, ih]
        simp
      · have hn : n = n / 2 * 2 + 1 := by omega
        have hc : c ≠ 'n' := fun h => hescape ⟨hodd, h⟩
        rw [append_assoc, cons_append]
        nth_rewrite 1 [hn]
        rw [parseFrom_escaped, ih]
        simp [hc]

/-- A backslash stands before a backslash, before a double quote or at the end. -/
def EscapesOnly (a : Text) : Prop :=
  a.IsChain fun c next => c = '\\' → next = '\\' ∨ next = '"'
  deriving Decidable

theorem escapesOnly_cons {a : Text} (h : c ≠ '\\') : EscapesOnly (c :: a) ↔ EscapesOnly a := by
  simp [EscapesOnly, isChain_cons, h]

theorem escapesOnly_backslashRun (n : ℕ) : EscapesOnly (backslashRun n) :=
  isChain_replicate_of_rel n fun _ => .inl rfl

theorem escapesOnly_append {n : ℕ} {a : Text} :
    EscapesOnly (backslashRun n ++ c :: a) ↔
      (n = 0 ∨ c = '\\' ∨ c = '"') ∧ EscapesOnly (c :: a) := by
  have hrun := escapesOnly_backslashRun n
  unfold EscapesOnly at hrun ⊢
  rw [isChain_append, and_iff_right hrun, and_comm]
  refine and_congr_left fun _ => ?_
  cases n with
  | zero => simp [backslashRun]
  | succ n => simp [backslashRun, getLast?_replicate]

theorem readMsvc_eq_iff (n : ℕ) (a : Text) :
    readMsvc n a = backslashRun n ++ a ↔ EscapesOnly (backslashRun n ++ a) := by
  induction a generalizing n with
  | nil => simp [readMsvc, escapesOnly_backslashRun]
  | cons c a ih =>
    by_cases hbs : c = '\\'
    · subst hbs
      have hrun : backslashRun n ++ '\\' :: a = backslashRun (n + 1) ++ a := by
        rw [backslashRun, backslashRun, replicate_succ', append_assoc]
        rfl
      rw [readMsvc, if_pos rfl, hrun, ih]
    · have hrest : readMsvc 0 a = a ↔ EscapesOnly (c :: a) :=
        (ih 0).trans (escapesOnly_cons hbs).symm
      rw [escapesOnly_append, ← hrest, readMsvc, if_neg hbs]
      by_cases hquote : c = '"'
      · simp [hquote]
      · rw [if_neg hquote]
        cases n with
        | zero => simp [backslashRun, hbs, hquote]
        | succ n =>
          -- The run that is read back is shorter than the one that was written.
          refine iff_of_false (fun h => ?_) (by simp [hbs, hquote])
          have hread : (if (n + 1) % 2 = 1 ∧ c = 'n' then '\n' else c) ≠ '\\' := by
            split_ifs
            · decide
            · exact hbs
          obtain ⟨hruns, -⟩ := Framing.append_first_inj (p := (· ≠ '\\')) hread hbs
            (by simp [backslashRun]) (by simp [backslashRun]) h
          have hlength := congrArg length hruns
          simp only [backslashRun, length_replicate] at hlength
          omega

end Quoting

section Lines

variable {format : Text → Option Text} {arg line content : Text} {args : List Text}

theorem formatLines_cons :
    formatLines format (arg :: args) = some content ↔
      ∃ line tail, format arg = some line ∧ formatLines format args = some tail ∧
        content = line ++ '\n' :: tail := by
  simp only [formatLines, Option.bind_eq_some_iff, Option.map_eq_some_iff]
  constructor
  · rintro ⟨line, hline, tail, htail, rfl⟩
    exact ⟨line, tail, hline, htail, rfl⟩
  · rintro ⟨line, tail, hline, htail, rfl⟩
    exact ⟨line, hline, tail, htail, rfl⟩

def ReadsBack (line arg : Text) : Prop :=
  ∀ rest, parseFrom .blank (line ++ '\n' :: rest) = arg :: parseFrom .blank rest

theorem parse_formatLines (hformat : formatLines format args = some content)
    (hreads : ∀ arg ∈ args, ∀ line, format arg = some line → ReadsBack line arg) :
    parseResponseFileContent content = args := by
  induction args generalizing content with
  | nil =>
    obtain rfl := Option.some.inj hformat
    rfl
  | cons arg args ih =>
    obtain ⟨line, tail, hline, htail, rfl⟩ := formatLines_cons.mp hformat
    rw [parseResponseFileContent, hreads arg mem_cons_self line hline tail]
    rw [← parseResponseFileContent, ih htail fun a ha => hreads a (mem_cons_of_mem arg ha)]

theorem not_mem_of_hasLineBreak (h : hasLineBreak arg = false) : '\n' ∉ arg ∧ '\r' ∉ arg := by
  simpa [hasLineBreak] using h

end Lines

section Msvc

/-- A plain argument without a single quote, or a quoted one whose backslashes only escape. -/
def MsvcReadable (arg : Text) : Prop :=
  if isPlain arg then '\'' ∉ arg else EscapesOnly arg
  deriving Decidable

theorem isWhitespace_of_isBlank {c : Char} (h : isBlank c = true) : isWhitespace c = true := by
  simp only [isBlank, mem_cons, not_mem_nil, or_false, decide_eq_true_eq] at h
  rcases h with rfl | rfl | rfl | rfl <;> decide

variable {arg line rest : Text} {args ts : List Text}

theorem isBlank_of_isPlain (h : isPlain arg = true) : ∀ c ∈ arg, isBlank c = false := by
  intro c hc
  simp only [isPlain, Bool.and_eq_true, Bool.not_eq_true', any_eq_false] at h
  by_contra hblank
  exact h.1.1 c hc (isWhitespace_of_isBlank (by simpa using hblank))

theorem isLiteral_of_isPlain (h : isPlain arg = true) :
    (∀ c ∈ arg, isLiteral c = true) ↔ '\'' ∉ arg := by
  have hblank := isBlank_of_isPlain h
  have hquote : '"' ∉ arg := by
    simp only [isPlain, Bool.and_eq_true, decide_eq_true_eq] at h
    exact h.1.2
  simp only [isLiteral_iff]
  constructor
  · intro hall hmem
    exact (hall _ hmem).2.2 rfl
  · intro hsingle c hc
    exact ⟨hblank c hc, fun h => hquote (h ▸ hc), fun h => hsingle (h ▸ hc)⟩

theorem parse_quoted (a rest : Text) :
    parseFrom .blank ('"' :: quoteMsvc 0 a ++ '\n' :: rest) =
      readMsvc 0 a :: parseFrom .blank rest := by
  have hquote : parseFrom .blank ('"' :: quoteMsvc 0 a ++ '\n' :: rest) =
      parseFrom (.double []) (quoteMsvc 0 a ++ '\n' :: rest) := rfl
  rw [hquote, parseFrom_quoteMsvc, nil_append, parseFrom_bare_newline]

theorem readsBack_msvc (hline : formatMsvcArgument arg = some line) (h : MsvcReadable arg) :
    ReadsBack line arg := by
  intro rest
  simp only [formatMsvcArgument] at hline
  split_ifs at hline with hbreak hempty hplain
  · obtain rfl := Option.some.inj hline
    rw [hempty]
    rfl
  · obtain rfl := Option.some.inj hline
    rw [MsvcReadable, if_pos hplain] at h
    exact parseFrom_literal hempty ((isLiteral_of_isPlain hplain).mpr h)
  · obtain rfl := Option.some.inj hline
    rw [MsvcReadable, if_neg hplain] at h
    rw [parse_quoted, (readMsvc_eq_iff 0 arg).mpr h]
    rfl

theorem parse_msvc_ne (hline : formatMsvcArgument arg = some line) (h : ¬ MsvcReadable arg) :
    parseFrom .blank (line ++ '\n' :: rest) ≠ arg :: ts := by
  simp only [formatMsvcArgument] at hline
  split_ifs at hline with hbreak hempty hplain
  · rw [hempty] at h
    exact absurd (by decide) h
  · obtain rfl := Option.some.inj hline
    rw [MsvcReadable, if_pos hplain] at h
    refine head_ne_of_not_literal (not_mem_of_hasLineBreak (by simpa using hbreak)).1 ?_ ?_
    · intro c hc
      exact isBlank_of_isPlain hplain c (mem_of_mem_head? hc)
    · rwa [isLiteral_of_isPlain hplain]
  · obtain rfl := Option.some.inj hline
    rw [MsvcReadable, if_neg hplain] at h
    rw [parse_quoted]
    intro hread
    exact h ((readMsvc_eq_iff 0 arg).mp (cons.inj hread).1)

theorem msvc_reads_iff {content : Text} (hformat : msvcIfSafe args = some content) :
    parseResponseFileContent content = args ↔ ∀ arg ∈ args, MsvcReadable arg := by
  constructor
  · intro hparse
    induction args generalizing content with
    | nil => simp
    | cons arg args ih =>
      obtain ⟨line, tail, hline, htail, rfl⟩ := formatLines_cons.mp hformat
      have hread : MsvcReadable arg := by
        by_contra hne
        exact parse_msvc_ne hline hne hparse
      rw [parseResponseFileContent, readsBack_msvc hline hread] at hparse
      exact forall_mem_cons.mpr ⟨hread, ih htail (cons.inj hparse).2⟩
  · intro hall
    exact parse_formatLines hformat fun arg harg line hline => readsBack_msvc hline (hall arg harg)

end Msvc

section Rustc

/-- An argument that is not empty and has no blank and no quote. -/
def RustcReadable (arg : Text) : Prop :=
  arg ≠ [] ∧ ∀ c ∈ arg, isLiteral c = true
  deriving Decidable

variable {arg line content : Text} {args : List Text}

theorem formatRustcArgument_eq_some (h : formatRustcArgument arg = some line) :
    line = arg ∧ hasLineBreak arg = false := by
  simp only [formatRustcArgument] at h
  split_ifs at h with hbreak
  exact ⟨(Option.some.inj h).symm, by simpa using hbreak⟩

theorem length_of_rustcIfSafe (h : rustcIfSafe args = some content) :
    content.length = weight args ∧ ∀ c ∈ content.getLast?, c = '\n' := by
  induction args generalizing content with
  | nil =>
    obtain rfl := Option.some.inj h
    exact ⟨rfl, by simp⟩
  | cons arg args ih =>
    obtain ⟨line, tail, hline, htail, rfl⟩ := formatLines_cons.mp h
    obtain ⟨rfl, -⟩ := formatRustcArgument_eq_some hline
    obtain ⟨hlen, hlast⟩ := ih htail
    constructor
    · simp [weight, hlen]
      omega
    · cases tail with
      | nil => simp
      | cons c tail => simpa [getLast?_append, getLast?_cons] using hlast

/-- A blank at the start is lost, so that less is read than was written. -/
theorem isBlank_of_parse (hformat : rustcIfSafe args = some content)
    (hparse : parseResponseFileContent content = args) :
    ∀ c ∈ content.head?, isBlank c = false := by
  obtain ⟨hlen, hlast⟩ := length_of_rustcIfSafe hformat
  cases content with
  | nil => simp
  | cons c rest =>
    simp only [head?_cons, Option.mem_some_iff, forall_eq']
    by_contra hblank
    rw [Bool.not_eq_false] at hblank
    have hskip : parseFrom .blank (c :: rest) = parseFrom .blank rest := by
      simp [parseFrom, Mode.step, hblank]
    have hle : weight (parseFrom .blank rest) ≤ rest.length := by
      apply weight_parse_le
      intro d hd
      apply hlast d
      rw [getLast?_cons, Option.mem_def.mp hd]
      rfl
    rw [← hskip, ← parseResponseFileContent, hparse, ← hlen, length_cons] at hle
    omega

theorem rustc_reads_iff (hformat : rustcIfSafe args = some content) :
    parseResponseFileContent content = args ↔ ∀ arg ∈ args, RustcReadable arg := by
  constructor
  · intro hparse
    induction args generalizing content with
    | nil => simp
    | cons arg args ih =>
      have hfirst := isBlank_of_parse hformat hparse
      obtain ⟨line, tail, hline, htail, rfl⟩ := formatLines_cons.mp hformat
      obtain ⟨rfl, hbreak⟩ := formatRustcArgument_eq_some hline
      have hempty : line ≠ [] := by
        rintro rfl
        exact absurd (hfirst '\n' rfl) (by decide)
      have hlit : ∀ c ∈ line, isLiteral c = true := by
        by_contra hne
        refine head_ne_of_not_literal (not_mem_of_hasLineBreak hbreak).1 ?_ hne hparse
        intro c hc
        apply hfirst c
        rw [head?_append, Option.mem_def.mp hc]
        rfl
      rw [parseResponseFileContent, parseFrom_literal hempty hlit] at hparse
      exact forall_mem_cons.mpr ⟨⟨hempty, hlit⟩, ih htail (cons.inj hparse).2⟩
  · intro hall
    refine parse_formatLines hformat fun arg harg line hline rest => ?_
    obtain ⟨rfl, -⟩ := formatRustcArgument_eq_some hline
    exact parseFrom_literal (hall line harg).1 (hall line harg).2

end Rustc

/-- The arguments are read back exactly if the rules of the reader agree with those of the tool. -/
theorem reads_back_iff (args : List Text) (content : Text) :
    (msvcIfSafe args = some content →
        (parseResponseFileContent content = args ↔ ∀ arg ∈ args, MsvcReadable arg)) ∧
      (rustcIfSafe args = some content →
        (parseResponseFileContent content = args ↔ ∀ arg ∈ args, RustcReadable arg)) :=
  ⟨msvc_reads_iff, rustc_reads_iff⟩

/-- A path with a blank, a quote in a plain argument, and rustc arguments that are not quoted. -/
theorem arguments_misread :
    (∃ content, msvcIfSafe (texts ["C:\\dir\\a b.c"]) = some content ∧
        parseResponseFileContent content = texts ["C:dira b.c"]) ∧
      (∃ content, msvcIfSafe (texts ["-DX='a'", "b.c"]) = some content ∧
        parseResponseFileContent content = texts ["-DX=a", "b.c"]) ∧
      (∃ content, rustcIfSafe (texts ["--cfg", "feature=\"x y\"", ""]) = some content ∧
        parseResponseFileContent content = texts ["--cfg", "feature=x y"]) :=
  ⟨⟨_, rfl, by decide⟩, ⟨_, rfl, by decide⟩, _, rfl, by decide⟩

theorem reads_back_iff_paths :
    ∃ content, msvcIfSafe (texts ["", "C:\\a.c", "say \"hi\"", "dir \\\\"]) = some content ∧
      (parseResponseFileContent content = texts ["", "C:\\a.c", "say \"hi\"", "dir \\\\"] ↔
        ∀ arg ∈ texts ["", "C:\\a.c", "say \"hi\"", "dir \\\\"], MsvcReadable arg) :=
  ⟨_, rfl, (reads_back_iff _ _).1 rfl⟩

end Zccache.ResponseFile
