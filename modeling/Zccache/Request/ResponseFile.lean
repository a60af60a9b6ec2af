import Zccache.Base.Path

/-! # Response files

The text of a response file is read by one tokenizer, whichever tool it was
written for. Outside of quotes blanks separate the arguments. Inside of double
quotes a backslash escapes the next character.
-/

namespace Zccache.ResponseFile

open List Unix

/-- Where the reader stands, with the argument read so far. -/
inductive Mode where
  | blank
  | bare (current : Text)
  | double (current : Text)
  | escape (current : Text)
  | single (current : Text)

def isBlank (c : Char) : Bool :=
  c ∈ [' ', '\t', '\n', '\r']

namespace Mode

def current : Mode → Text
  | blank => []
  | bare current => current
  | double current => current
  | escape current => current
  | single current => current

/-- A character outside of quotes. -/
def unquoted (current : Text) (c : Char) : Mode :=
  if c = '"' then double current
  else if c = '\'' then single current
  else bare (current ++ [c])

/-- The argument that a character ends, and where the reader stands after it. -/
def step : Mode → Char → List Text × Mode
  | blank, c => if isBlank c then ([], blank) else ([], unquoted [] c)
  | bare current, c => if isBlank c then ([current], blank) else ([], unquoted current c)
  | double current, c =>
    if c = '"' then ([], bare current)
    else if c = '\\' then ([], escape current)
    else ([], double (current ++ [c]))
  | escape current, c => ([], double (current ++ [if c = 'n' then '\n' else c]))
  | single current, c => if c = '\'' then ([], bare current) else ([], single (current ++ [c]))

/-- At the end of the text an open quote is closed. -/
def finish : Mode → List Text
  | blank => []
  | mode => [mode.current]

end Mode

def parseFrom (mode : Mode) : Text → List Text
  | [] => mode.finish
  | c :: rest => (mode.step c).1 ++ parseFrom (mode.step c).2 rest

def parseResponseFileContent (content : Text) : List Text :=
  parseFrom .blank content

section Tokens

variable {c : Char} {current w rest : Text}

/-- A character that the reader takes as it is outside of quotes. -/
def isLiteral (c : Char) : Bool :=
  !isBlank c && c ≠ '"' && c ≠ '\''

theorem isLiteral_iff : isLiteral c = true ↔ isBlank c = false ∧ c ≠ '"' ∧ c ≠ '\'' := by
  simp [isLiteral, and_assoc]

theorem step_bare_of_isLiteral (h : isLiteral c = true) :
    Mode.step (.bare current) c = ([], .bare (current ++ [c])) := by
  obtain ⟨hblank, hdouble, hsingle⟩ := isLiteral_iff.mp h
  simp [Mode.step, Mode.unquoted, hblank, hdouble, hsingle]

theorem parseFrom_bare_append (h : ∀ c ∈ w, isLiteral c = true) :
    parseFrom (.bare current) (w ++ rest) = parseFrom (.bare (current ++ w)) rest := by
  induction w generalizing current with
  | nil => simp
  | cons c w ih =>
    rw [cons_append, parseFrom, step_bare_of_isLiteral (h c mem_cons_self)]
    have hrest := @ih (current ++ [c]) fun d hd => h d (mem_cons_of_mem c hd)
    simpa using hrest

theorem parseFrom_blank_cons (h : isLiteral c = true) :
    parseFrom .blank (c :: rest) = parseFrom (.bare [c]) rest := by
  obtain ⟨hblank, hdouble, hsingle⟩ := isLiteral_iff.mp h
  simp [parseFrom, Mode.step, Mode.unquoted, hblank, hdouble, hsingle]

theorem parseFrom_bare_newline :
    parseFrom (.bare current) ('\n' :: rest) = current :: parseFrom .blank rest := by
  simp [parseFrom, Mode.step, isBlank]

theorem parseFrom_literal (hw : w ≠ []) (h : ∀ c ∈ w, isLiteral c = true) :
    parseFrom .blank (w ++ '\n' :: rest) = w :: parseFrom .blank rest := by
  cases w with
  | nil => exact absurd rfl hw
  | cons c w =>
    rw [cons_append, parseFrom_blank_cons (h c mem_cons_self),
      parseFrom_bare_append fun d hd => h d (mem_cons_of_mem c hd), parseFrom_bare_newline]
    rfl

end Tokens

namespace Mode

/-- An open quote is a character that has been read and is no part of the argument. -/
def slack : Mode → ℕ
  | blank => 0
  | bare _ => 0
  | double _ => 1
  | escape _ => 1
  | single _ => 1

/-- What holds after a character that does not end the argument. -/
structure Follows (mode : Mode) (c : Char) (next : Mode) : Prop where
  inside : next ≠ blank
  extend : mode.current <+: next.current
  length_le : next.current.length + mode.slack ≤ mode.current.length + next.slack + 1
  weight_le : next.current.length + next.slack ≤ mode.current.length + mode.slack + 1
  newline : c = '\n' → '\n' ∈ next.current ∧ next.slack = 1

theorem slack_le_one (mode : Mode) : mode.slack ≤ 1 := by
  cases mode <;> simp [slack]

variable {mode next : Mode} {c x : Char}

theorem Follows.keep (hinside : next ≠ blank) (hcur : next.current = mode.current)
    (hc : c ≠ '\n') : Follows mode c next where
  inside := hinside
  extend := by rw [hcur]
  length_le := by
    have := mode.slack_le_one
    rw [hcur]
    omega
  weight_le := by
    have := next.slack_le_one
    rw [hcur]
    omega
  newline h := absurd h hc

theorem Follows.push (hinside : next ≠ blank) (hcur : next.current = mode.current ++ [x])
    (hslack : next.slack = mode.slack) (hx : c = '\n' → x = '\n' ∧ mode.slack = 1) :
    Follows mode c next where
  inside := hinside
  extend := by
    rw [hcur]
    exact prefix_append _ _
  length_le := by
    rw [hcur, hslack, length_append, length_singleton]
    omega
  weight_le := by
    rw [hcur, hslack, length_append, length_singleton]
    omega
  newline h := by
    obtain ⟨rfl, hopen⟩ := hx h
    exact ⟨by simp [hcur], hslack.trans hopen⟩

theorem follows_unquoted (mode : Mode) (hslack : mode.slack = 0) (hc : isBlank c = false) :
    Follows mode c (unquoted mode.current c) := by
  have hnewline : c ≠ '\n' := by
    rintro rfl
    exact absurd hc (by decide)
  unfold unquoted
  split_ifs
  · exact .keep nofun rfl hnewline
  · exact .keep nofun rfl hnewline
  · exact .push nofun rfl hslack.symm fun h => absurd h hnewline

/-- A blank outside of quotes ends the argument, and no other character does. -/
theorem step_cases (mode : Mode) (c : Char) :
    (mode.slack = 0 ∧ isBlank c = true ∧ mode.step c = (mode.finish, blank)) ∨
      ∃ next, mode.step c = ([], next) ∧ mode.Follows c next := by
  cases mode with
  | blank =>
    by_cases hc : isBlank c = true
    · exact .inl ⟨rfl, hc, by simp [step, hc, finish]⟩
    · rw [Bool.not_eq_true] at hc
      exact .inr ⟨unquoted [] c, by simp [step, hc], follows_unquoted blank rfl hc⟩
  | bare current =>
    by_cases hc : isBlank c = true
    · exact .inl ⟨rfl, hc, by simp [step, hc, finish, Mode.current]⟩
    · rw [Bool.not_eq_true] at hc
      exact .inr ⟨unquoted current c, by simp [step, hc],
        follows_unquoted (bare current) rfl hc⟩
  | double current =>
    refine .inr ?_
    simp only [step]
    split_ifs with hquote hescape
    · exact ⟨_, rfl, .keep nofun rfl (by rw [hquote]; decide)⟩
    · exact ⟨_, rfl, .keep nofun rfl (by rw [hescape]; decide)⟩
    · exact ⟨_, rfl, .push nofun rfl rfl fun h => ⟨h, rfl⟩⟩
  | escape current =>
    refine .inr ⟨_, rfl, .push nofun rfl rfl ?_⟩
    rintro rfl
    exact ⟨by decide, rfl⟩
  | single current =>
    refine .inr ?_
    simp only [step]
    split_ifs with hquote
    · exact ⟨_, rfl, .keep nofun rfl (by rw [hquote]; decide)⟩
    · exact ⟨_, rfl, .push nofun rfl rfl fun h => ⟨h, rfl⟩⟩

theorem finish_of_ne_blank (h : mode ≠ blank) : mode.finish = [mode.current] := by
  cases mode with
  | blank => exact absurd rfl h
  | bare | double | escape | single => rfl

end Mode

theorem parseFrom_extend {mode : Mode} (hmode : mode ≠ .blank) (s : Text) :
    ∃ t ts, parseFrom mode s = t :: ts ∧ mode.current <+: t := by
  induction s generalizing mode with
  | nil => exact ⟨mode.current, [], Mode.finish_of_ne_blank hmode, prefix_rfl⟩
  | cons c s ih =>
    rw [parseFrom]
    rcases mode.step_cases c with ⟨-, -, hstep⟩ | ⟨next, hstep, hnext⟩
    · rw [hstep, Mode.finish_of_ne_blank hmode]
      exact ⟨mode.current, _, rfl, prefix_rfl⟩
    · obtain ⟨t, ts, hparse, ht⟩ := ih hnext.inside
      rw [hstep]
      exact ⟨t, ts, hparse, hnext.extend.trans ht⟩

/-- The argument that the reader is in holds a line break or ends before the next one. -/
theorem parseFrom_head {mode : Mode} (hmode : mode ≠ .blank) (v rest : Text) :
    ∃ t ts, parseFrom mode (v ++ '\n' :: rest) = t :: ts ∧
      ('\n' ∈ t ∨ t.length + mode.slack ≤ mode.current.length + v.length) := by
  induction v generalizing mode with
  | nil =>
    rw [nil_append, parseFrom]
    rcases mode.step_cases '\n' with ⟨hslack, -, hstep⟩ | ⟨next, hstep, hnext⟩
    · rw [hstep, Mode.finish_of_ne_blank hmode]
      exact ⟨mode.current, _, rfl, .inr (by simp [hslack])⟩
    · obtain ⟨t, ts, hparse, ht⟩ := parseFrom_extend hnext.inside rest
      rw [hstep]
      exact ⟨t, ts, hparse, .inl (ht.subset (hnext.newline rfl).1)⟩
  | cons c v ih =>
    rw [cons_append, parseFrom]
    rcases mode.step_cases c with ⟨hslack, -, hstep⟩ | ⟨next, hstep, hnext⟩
    · rw [hstep, Mode.finish_of_ne_blank hmode]
      exact ⟨mode.current, _, rfl, .inr (by simp [hslack])⟩
    · obtain ⟨t, ts, hparse, ht⟩ := ih hnext.inside
      rw [hstep]
      refine ⟨t, ts, hparse, ht.imp_right fun hle => ?_⟩
      have := hnext.length_le
      simp only [length_cons]
      omega

theorem literal_or_split (a : Text) :
    (∀ c ∈ a, isLiteral c = true) ∨
      ∃ w c v, a = w ++ c :: v ∧ (∀ d ∈ w, isLiteral d = true) ∧ isLiteral c = false := by
  induction a with
  | nil => exact .inl (by simp)
  | cons d a ih =>
    by_cases hd : isLiteral d = true
    · rcases ih with hall | ⟨w, c, v, rfl, hw, hc⟩
      · exact .inl (forall_mem_cons.mpr ⟨hd, hall⟩)
      · exact .inr ⟨d :: w, c, v, rfl, forall_mem_cons.mpr ⟨hd, hw⟩, hc⟩
    · exact .inr ⟨[], d, a, rfl, by simp, by simpa using hd⟩

/-- The literal start of an argument has been read. -/
def afterLiteral : Text → Mode
  | [] => .blank
  | w => .bare w

theorem parseFrom_afterLiteral {w : Text} (h : ∀ c ∈ w, isLiteral c = true) (rest : Text) :
    parseFrom .blank (w ++ rest) = parseFrom (afterLiteral w) rest := by
  cases w with
  | nil => rfl
  | cons c w =>
    rw [cons_append, parseFrom_blank_cons (h c mem_cons_self),
      parseFrom_bare_append fun d hd => h d (mem_cons_of_mem c hd)]
    rfl

theorem step_afterLiteral {w : Text} {c : Char} (hlit : isLiteral c = false)
    (hblank : isBlank c = false) :
    ∃ next, (afterLiteral w).step c = ([], next) ∧ next ≠ .blank ∧ next.current = w ∧
      next.slack = 1 := by
  have hopen : (afterLiteral w).step c = ([], Mode.unquoted w c) := by
    cases w <;> simp [afterLiteral, Mode.step, hblank]
  rw [hopen]
  by_cases hdouble : c = '"'
  · exact ⟨.double w, by simp [Mode.unquoted, hdouble], nofun, rfl, rfl⟩
  · have hsingle : c = '\'' := by
      by_contra hne
      rw [isLiteral_iff.mpr ⟨hblank, hdouble, hne⟩] at hlit
      cases hlit
    exact ⟨.single w, by simp [Mode.unquoted, hsingle], nofun, rfl, rfl⟩

/-- An argument that is not literal is not the first one that is read back. -/
theorem head_ne_of_not_literal {a rest : Text} {ts : List Text} (hnewline : '\n' ∉ a)
    (hfirst : ∀ c ∈ a.head?, isBlank c = false) (hlit : ¬ ∀ c ∈ a, isLiteral c = true) :
    parseFrom .blank (a ++ '\n' :: rest) ≠ a :: ts := by
  obtain ⟨w, c, v, rfl, hw, hc⟩ := (literal_or_split a).resolve_left hlit
  intro hparse
  rw [append_assoc, parseFrom_afterLiteral hw, cons_append, parseFrom] at hparse
  by_cases hblank : isBlank c = true
  · -- The blank comes after a literal start, which is the argument that is read.
    cases w with
    | nil => exact absurd hblank (by simp [hfirst c rfl])
    | cons d w =>
      simp [afterLiteral, Mode.step, hblank] at hparse
  · obtain ⟨next, hstep, hinside, hcur, hslack⟩ :=
      step_afterLiteral (w := w) hc (by simpa using hblank)
    obtain ⟨t, ts', hhead, ht⟩ := parseFrom_head hinside v rest
    rw [hstep, nil_append, hhead] at hparse
    obtain ⟨rfl, -⟩ := List.cons.inj hparse
    rcases ht with ht | ht
    · exact hnewline ht
    · rw [hcur, hslack, length_append, length_cons] at ht
      omega

def weight (args : List Text) : ℕ :=
  (args.map fun arg => arg.length + 1).sum

theorem weight_append (args args' : List Text) :
    weight (args ++ args') = weight args + weight args' := by
  simp [weight]

theorem weight_finish_le (mode : Mode) : weight mode.finish ≤ mode.current.length + 1 := by
  cases mode <;> simp [weight, Mode.finish, Mode.current]

theorem weight_parseFrom_le (mode : Mode) (s : Text) :
    weight (parseFrom mode (s ++ ['\n'])) ≤ mode.current.length + mode.slack + s.length + 1 := by
  induction s generalizing mode with
  | nil =>
    rw [nil_append, parseFrom, parseFrom, weight_append]
    rcases mode.step_cases '\n' with ⟨-, -, hstep⟩ | ⟨next, hstep, hnext⟩
    · have hfin := weight_finish_le mode
      rw [hstep]
      simp only [Mode.finish, weight, map_nil, sum_nil, length_nil] at hfin ⊢
      omega
    · have hfin := weight_finish_le next
      have hweight := hnext.weight_le
      have hopen := (hnext.newline rfl).2
      rw [hstep]
      simp only [weight, map_nil, sum_nil, length_nil] at hfin ⊢
      omega
  | cons c s ih =>
    rw [cons_append, parseFrom, weight_append]
    rcases mode.step_cases c with ⟨hslack, -, hstep⟩ | ⟨next, hstep, hnext⟩
    · have hfin := weight_finish_le mode
      have hrest : weight (parseFrom .blank (s ++ ['\n'])) ≤ s.length + 1 := by
        simpa [Mode.current, Mode.slack] using ih .blank
      rw [hstep]
      simp only [length_cons]
      omega
    · have hweight := hnext.weight_le
      have hrest := ih next
      rw [hstep]
      simp only [weight, map_nil, sum_nil, length_cons] at hrest ⊢
      omega

theorem weight_parse_le {s : Text} (h : ∀ c ∈ s.getLast?, c = '\n') :
    weight (parseFrom .blank s) ≤ s.length := by
  rcases eq_nil_or_concat s with rfl | ⟨s, c, rfl⟩
  · simp [parseFrom, Mode.finish, weight]
  · obtain rfl := h c (by simp)
    have hle := weight_parseFrom_le .blank s
    simpa [Mode.current, Mode.slack] using hle

end Zccache.ResponseFile
