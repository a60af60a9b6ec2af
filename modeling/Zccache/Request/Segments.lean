import Zccache.Request.Reading

/-! # Segments of the arguments

The key parser cuts the arguments into segments of one or two. A segment that
holds a single option can be exchanged for another one, and neither parser
reads the other segments differently.
-/

namespace Zccache

open List Unix Option

/-- Options of which a compiler obeys the last: those that name one macro, the levels of
optimization, the language standards, and `-fX` with `-fno-X`. -/
inductive OptionFamily where
  | named (name : Text)
  | optimization
  | standard
  | feature (name : Text)
  deriving DecidableEq

/-- The name in the value of `-D`, which may have parameters and a body. -/
def macroName (t : Text) : Text :=
  t.takeWhile fun c => c ≠ '=' && c ≠ '('

def flagFamily (flag : Text) : Option OptionFamily :=
  if "-O".toList.isPrefixOf flag then some .optimization
  else if "-std=".toList.isPrefixOf flag || "--std=".toList.isPrefixOf flag then some .standard
  else if flag.contains '=' then none
  else ((flag.dropPrefix? "-fno-").or (flag.dropPrefix? "-f")).map .feature

namespace GnuAction

def family : GnuAction → Option OptionFamily
  | define t => some (.named (macroName t))
  | undefine t => some (.named t)
  | flag t => flagFamily t
  | _ => none

def text : GnuAction → Option Text
  | define t | undefine t | flag t | unknown t => some t
  | _ => none

end GnuAction

/-- What a segment can append: a text of its arguments, or a path. -/
inductive Appends : List Text → GnuAction → Prop where
  | define {t : Text} (hne : t ≠ []) : Appends ["-D" ++ t] (.define t)
  | defineValue (t : Text) : Appends ["-D", t] (.define t)
  | undefine {t : Text} (hne : t ≠ []) : Appends ["-U" ++ t] (.undefine t)
  | undefineValue (t : Text) : Appends ["-U", t] (.undefine t)
  | flag (t : Text) : Appends [t] (.flag t)
  | flagValue {option : Text} (hopt : option ∈ gnuFlagsWithValue) (t : Text) :
      Appends [option, t] (.flag (option ++ '=' :: t))
  | languageValue (t : Text) : Appends ["-x", t] (.flag ("-x " ++ t))
  | unknown (t : Text) : Appends [t] (.unknown t)
  | unknownValue (arg : Text) {t : Text} (hdash : t.head? ≠ some '-') :
      Appends [arg, t] (.unknown (arg ++ '=' :: t))
  | path (tokens : List Text) {x : GnuAction} (htext : x.text = none) : Appends tokens x

/-- The arguments that spell a single option of some family. -/
inductive IsOption : List Text → GnuAction → Prop where
  | define {t : Text} (hne : t ≠ []) : IsOption ["-D" ++ t] (.define t)
  | defineValue (t : Text) : IsOption ["-D", t] (.define t)
  | undefine {t : Text} (hne : t ≠ []) : IsOption ["-U" ++ t] (.undefine t)
  | undefineValue (t : Text) : IsOption ["-U", t] (.undefine t)
  | flag {t : Text} (hfam : flagFamily t ≠ none) : IsOption [t] (.flag t)
  | standardValue (t : Text) : IsOption ["-std", t] (.flag ("-std=" ++ t))

structure Segment where
  tokens : List Text
  actions : List GnuAction

def Reading.segment (cwd : Path) (arg : Text) (next : Option Text) : Reading → Segment
  | one actions => ⟨[arg], actions⟩
  | two operand =>
    match next with
    | some value => ⟨[arg, value], operand.actions cwd value⟩
    | none => ⟨[arg], []⟩

def segments (fs : FileSystem) (cwd : Path) : List Text → List Segment
  | [] => []
  | [arg] =>
    match readArg fs cwd arg none with
    | .one actions => [⟨[arg], actions⟩]
    | .two _ => [⟨[arg], []⟩]
  | arg :: next :: rest =>
    match readArg fs cwd arg (some next) with
    | .one actions => ⟨[arg], actions⟩ :: segments fs cwd (next :: rest)
    | .two operand => ⟨[arg, next], operand.actions cwd next⟩ :: segments fs cwd rest

def tokensOf (segs : List Segment) : List Text :=
  segs.flatMap Segment.tokens

variable {fs : FileSystem} {cwd : Path} {arg next : Text} {args rest : List Text}

@[simp] theorem tokensOf_nil : tokensOf [] = [] := rfl

@[simp] theorem tokensOf_cons (b : Segment) (segs : List Segment) :
    tokensOf (b :: segs) = b.tokens ++ tokensOf segs := rfl

theorem tokensOf_segments (args : List Text) : tokensOf (segments fs cwd args) = args := by
  fun_induction segments fs cwd args <;> simp_all

theorem flatMap_actions_segments (args : List Text) :
    (segments fs cwd args).flatMap Segment.actions = gnuActions fs cwd args := by
  fun_induction segments fs cwd args <;> simp_all [gnuActions]

variable {b : Segment}

theorem mem_segments (h : b ∈ segments fs cwd args) :
    b.tokens ⊆ args ∧ ∃ arg next, b = (readArg fs cwd arg next).segment cwd arg next := by
  fun_induction segments fs cwd args with
  | case1 => cases h
  | case2 arg actions hread | case3 arg operand hread =>
    obtain rfl := mem_singleton.mp h
    exact ⟨fun _ => id, arg, none, by rw [hread]; rfl⟩
  | case4 arg next rest actions hread ih =>
    rcases mem_cons.mp h with rfl | h
    · refine ⟨?_, arg, some next, by rw [hread]; rfl⟩
      simp
    · exact ⟨fun t ht => mem_cons_of_mem _ ((ih h).1 ht), (ih h).2⟩
  | case5 arg next rest operand hread ih =>
    rcases mem_cons.mp h with rfl | h
    · refine ⟨?_, arg, some next, by rw [hread]; rfl⟩
      simp
    · exact ⟨fun t ht => mem_cons_of_mem _ (mem_cons_of_mem _ ((ih h).1 ht)), (ih h).2⟩

theorem tokens_ne_nil (h : b ∈ segments fs cwd args) : b.tokens ≠ [] := by
  obtain ⟨-, arg, next, rfl⟩ := mem_segments h
  cases readArg fs cwd arg next with
  | one actions => simp [Reading.segment]
  | two operand => cases next <;> simp [Reading.segment]

section Rules

variable {next : Option Text} {r : Reading}

theorem readArg_induction {P : Reading → Prop}
    (hrule : ∀ rule ∈ gnuRules fs cwd arg next, ∀ r, rule = some r → P r)
    (hunk : P (unknownFlag cwd arg next)) : P (readArg fs cwd arg next) := by
  unfold readArg
  cases hfind : (gnuRules fs cwd arg next).findSome? id with
  | none => exact hunk
  | some r =>
    obtain ⟨rule, hmem, heq⟩ := exists_of_findSome?_eq_some hfind
    exact hrule rule hmem r heq

/-- A reading appends what its arguments spell, and takes the next argument for a flag that has
a value or when it is no flag itself. -/
structure Reading.Sound (cwd : Path) (arg : Text) (next : Option Text) (r : Reading) : Prop where
  appends : ∀ x ∈ (r.segment cwd arg next).actions, Appends (r.segment cwd arg next).tokens x
  value : ∀ operand t, r = .two operand → next = some t →
    arg ∈ gnuFlagsWithValue ∨ t.head? ≠ some '-'

theorem Reading.Sound.one {actions : List GnuAction} (h : ∀ x ∈ actions, Appends [arg] x) :
    (Reading.one actions).Sound cwd arg next :=
  ⟨h, fun _ _ h => by cases h⟩

variable {name : String}

theorem sound_valued {operand : Operand} (hname : name.toList ∈ gnuFlagsWithValue)
    (h : ∀ value, ∀ x ∈ operand.actions cwd value, Appends [name.toList, value] x) :
    ∀ r, valued arg next name operand = some r → r.Sound cwd arg next := by
  intro r hr
  obtain ⟨rfl, rfl⟩ := valued_eq_some hr
  refine ⟨fun x hx => ?_, fun _ _ _ _ => .inl hname⟩
  cases next with
  | none => cases hx
  | some value => exact h value x hx

theorem sound_joined {actions : Text → List GnuAction}
    (h : ∀ t, t ≠ [] → ∀ x ∈ actions t, Appends [name.toList ++ t] x) :
    ∀ r, joined arg name actions = some r → r.Sound cwd arg next := by
  intro r hr
  obtain ⟨t, hne, rfl, rfl⟩ := joined_eq_some hr
  exact .one (h t hne)

theorem sound_one {rule : Option Reading} {actions : List GnuAction}
    (hrule : ∀ r, rule = some r → r = .one actions) (h : ∀ x ∈ actions, Appends [arg] x) :
    ∀ r, rule = some r → r.Sound cwd arg next := by
  intro r hr
  obtain rfl := hrule r hr
  exact .one h

theorem sound_skipped {names : List String} (hnames : ∀ t ∈ texts names, t ∈ gnuFlagsWithValue) :
    ∀ r, spelled arg names (.two .skipped) = some r → r.Sound cwd arg next := by
  intro r hr
  obtain ⟨harg, rfl⟩ := spelled_eq_some hr
  refine ⟨fun x hx => ?_, fun _ _ _ _ => .inl (hnames arg harg)⟩
  cases next <;> cases hx

theorem appends_path {tokens : List Text} {y : GnuAction} (hy : y.text = none) :
    ∀ x ∈ [y], Appends tokens x :=
  forall_mem_singleton.mpr (.path tokens hy)

theorem appends_flag (arg : Text) : ∀ x ∈ [GnuAction.flag arg], Appends [arg] x :=
  forall_mem_singleton.mpr (.flag arg)

theorem appends_flagValue {option pre : Text} (hopt : option ∈ gnuFlagsWithValue)
    (hpre : pre = option ++ ['=']) (value : Text) :
    ∀ x ∈ [GnuAction.flag (pre ++ value)], Appends [option, value] x := by
  rw [forall_mem_singleton, hpre, append_assoc]
  exact .flagValue hopt value

theorem text_forwardedActions (options : List Text) :
    ∀ x ∈ forwardedActions cwd options, x.text = none := by
  fun_induction forwardedActions cwd options <;> simp_all [GnuAction.text]

theorem sound_unknownFlag : (unknownFlag cwd arg next).Sound cwd arg next := by
  have halone : (Reading.one [.unknown arg]).Sound cwd arg next :=
    .one (forall_mem_singleton.mpr (.unknown arg))
  unfold unknownFlag
  cases next with
  | none => exact halone
  | some value =>
    dsimp only
    split
    · next hdash =>
      refine ⟨forall_mem_singleton.mpr (.unknownValue arg hdash.1), ?_⟩
      rintro operand t - ⟨⟩
      exact .inr hdash.1
    · exact halone

theorem sound_gnuRules :
    ∀ rule ∈ gnuRules fs cwd arg next, ∀ r, rule = some r → r.Sound cwd arg next := by
  have hnil : ∀ x ∈ ([] : List GnuAction), Appends [arg] x := forall_mem_nil _
  have hjoin : ∀ {name : String} {actions : List GnuAction} (r : Reading),
      (joined arg name fun _ => actions) = some r → r = .one actions := by
    intro name actions r h
    obtain ⟨t, -, -, hr⟩ := joined_eq_some h
    exact hr
  have hsp : ∀ {names : List String} {reading : Reading} (r : Reading),
      spelled arg names reading = some r → r = reading := fun _ h => (spelled_eq_some h).2
  have hstarts : ∀ {prefixes : List String} {actions : List GnuAction} (r : Reading),
      startsWithAny arg prefixes actions = some r → r = .one actions :=
    fun _ => startsWithAny_eq_some
  simp only [gnuRules, forall_mem_cons]
  refine ⟨sound_valued (by decide) fun _ => appends_path rfl,
    sound_joined fun _ _ => appends_path rfl,
    sound_valued (by decide) fun _ => appends_path rfl,
    sound_valued (by decide) fun _ => appends_path rfl,
    sound_valued (by decide) fun _ => appends_path rfl,
    sound_valued (by decide) fun t => forall_mem_singleton.mpr (.defineValue t),
    sound_joined fun _ hne => forall_mem_singleton.mpr (.define hne),
    sound_valued (by decide) fun t => forall_mem_singleton.mpr (.undefineValue t),
    sound_joined fun _ hne => forall_mem_singleton.mpr (.undefine hne),
    sound_valued (by decide) fun _ => appends_path rfl,
    sound_joined fun _ _ => appends_path rfl,
    sound_valued (by decide) fun _ => appends_path rfl, sound_valued (by decide) ?_,
    sound_valued (by decide) fun _ => appends_path rfl, ?_, ?_,
    sound_one hstarts (appends_flag arg),
    sound_valued (by decide) (appends_flagValue (by decide) rfl),
    sound_valued (by decide) fun t => forall_mem_singleton.mpr (.languageValue t),
    sound_one hjoin (appends_flag arg),
    sound_valued (by decide) (appends_flagValue (by decide) rfl),
    sound_valued (by decide) (appends_flagValue (by decide) rfl),
    sound_valued (by decide) (appends_flagValue (by decide) rfl),
    sound_one hstarts (appends_flag arg), sound_one hsp (appends_flag arg),
    sound_one hsp hnil, sound_skipped (by decide), sound_one hjoin hnil,
    sound_skipped (by decide), ?_, sound_one hsp hnil, sound_one hstarts hnil, ?_,
    fun _ h => by cases h⟩
  · intro value x hx
    refine .path _ ?_
    rcases mem_cons.mp hx with rfl | hx
    · rfl
    · obtain ⟨pch, -, rfl⟩ := mem_map.mp hx
      rfl
  · intro r hr
    obtain ⟨options, -, rfl⟩ := map_eq_some_iff.mp hr
    refine .one fun x hx => ?_
    rcases mem_append.mp hx with hx | hx
    · exact .path _ (text_forwardedActions _ x hx)
    · exact appends_flag arg x hx
  · intro r hr
    obtain ⟨path, -, rfl⟩ := map_eq_some_iff.mp hr
    refine .one fun x hx => ?_
    rcases mem_cons.mp hx with rfl | hx
    · exact .flag arg
    · obtain ⟨file, -, rfl⟩ := mem_map.mp hx
      exact .path _ rfl
  · intro r hr
    split at hr
    · next hopt =>
      cases hr
      refine ⟨fun x hx => ?_, fun _ _ _ _ => .inl hopt.1⟩
      cases next with
      | none => cases hx
      | some value =>
        obtain rfl := mem_singleton.mp hx
        exact .flagValue hopt.1 value
    · cases hr
  · intro r hr
    split at hr
    · cases hr
    · cases hr
      exact .one (appends_path rfl)

theorem readArg_sound (arg : Text) (next : Option Text) :
    (readArg fs cwd arg next).Sound cwd arg next :=
  readArg_induction sound_gnuRules sound_unknownFlag

theorem appends_of_mem {b : Segment} (h : b ∈ segments fs cwd args) :
    ∀ x ∈ b.actions, Appends b.tokens x := by
  obtain ⟨-, arg, next, rfl⟩ := mem_segments h
  exact (readArg_sound arg next).appends

end Rules

section Families

variable {t : Text}

theorem flagFamily_cases (h : flagFamily t ≠ none) :
    (∃ u, t = "-O" ++ u) ∨ (∃ u, t = "-std=" ++ u) ∨ (∃ u, t = "--std=" ++ u) ∨
      ∃ u, t = "-f" ++ u ∧ '=' ∉ u := by
  unfold flagFamily at h
  split at h
  · next hO =>
    obtain ⟨u, rfl⟩ := isPrefixOf_iff_prefix.mp hO
    exact .inl ⟨u, rfl⟩
  split at h
  · next hstd =>
    rcases Bool.or_eq_true _ _ ▸ hstd with hstd | hstd
    all_goals obtain ⟨u, rfl⟩ := isPrefixOf_iff_prefix.mp hstd
    · exact .inr (.inl ⟨u, rfl⟩)
    · exact .inr (.inr (.inl ⟨u, rfl⟩))
  split at h
  · exact absurd rfl h
  · next heq =>
    have hno : '=' ∉ t := by simpa using heq
    have hf : ∃ u, t = "-f" ++ u := by
      cases hdrop : t.dropPrefix? "-fno-" with
      | some u =>
        refine ⟨"no-" ++ u, ?_⟩
        rw [dropPrefix?_eq_some.mp hdrop]
        rfl
      | none =>
        rw [hdrop, none_or, Ne, map_eq_none_iff] at h
        obtain ⟨u, hu⟩ := ne_none_iff_exists'.mp h
        exact ⟨u, dropPrefix?_eq_some.mp hu⟩
    obtain ⟨u, rfl⟩ := hf
    exact .inr (.inr (.inr ⟨u, rfl, fun hmem => hno (mem_append_right _ hmem)⟩))

theorem readArg_flag (h : flagFamily t ≠ none) (next : Option Text) :
    readArg fs cwd t next = .one [.flag t] := by
  rcases flagFamily_cases h with ⟨u, rfl⟩ | ⟨u, rfl⟩ | ⟨u, rfl⟩ | ⟨u, rfl, hno⟩
  · rfl
  · rfl
  · rfl
  · -- without `=` it is none of the flags that name a profile
    have hprofile : ∀ option ∈ ["-fprofile-use=".toList, "-fprofile-dir=".toList],
        ("-f".toList ++ u).dropPrefix? option = none := by
      intro option hopt
      rw [eq_none_iff_forall_ne_some]
      intro path hpath
      have hopt : '=' ∈ option := by
        clear hpath
        revert option
        decide
      have hmem : '=' ∈ "-f".toList ++ u := by
        rw [dropPrefix?_eq_some.mp hpath]
        exact mem_append_left _ hopt
      rcases mem_append.mp hmem with hmem | hmem
      · revert hmem
        decide
      · exact hno hmem
    unfold readArg gnuRules
    rw [hprofile _ mem_cons_self, hprofile _ (mem_cons_of_mem _ mem_cons_self)]
    rfl

theorem readArg_value {arg : Text} (h : arg ∈ gnuFlagsWithValue) (hne : arg ≠ "-mllvm")
    (value : Text) : ∃ operand, readArg fs cwd arg (some value) = .two operand := by
  revert arg
  simp only [gnuFlagsWithValue, texts, map_cons, map_nil, forall_mem_cons]
  and_intros
  all_goals first
    | exact fun _ => ⟨_, rfl⟩
    | exact fun hne => absurd rfl hne
    | exact forall_mem_nil _

theorem readArg_define (hne : t ≠ []) (next : Option Text) :
    readArg fs cwd ("-D" ++ t) next = .one [.define t] := by
  simp [readArg, gnuRules, valued, joined, hne, List.dropPrefix?]

theorem readArg_undefine (hne : t ≠ []) (next : Option Text) :
    readArg fs cwd ("-U" ++ t) next = .one [.undefine t] := by
  simp [readArg, gnuRules, valued, joined, hne, List.dropPrefix?]

theorem segments_cons_one {actions : List GnuAction}
    (h : ∀ next, readArg fs cwd arg next = .one actions) (rest : List Text) :
    segments fs cwd (arg :: rest) = ⟨[arg], actions⟩ :: segments fs cwd rest := by
  cases rest with
  | nil | cons => simp [segments, h]

theorem segments_cons_two (actions : Text → List GnuAction)
    (h : readArg fs cwd arg (some next) = .two (.text actions)) (rest : List Text) :
    segments fs cwd (arg :: next :: rest) =
      ⟨[arg, next], actions next⟩ :: segments fs cwd rest := by
  simp [segments, h, Operand.actions]

variable {tokens : List Text} {x : GnuAction}

theorem IsOption.segments_append (h : IsOption tokens x) (rest : List Text) :
    segments fs cwd (tokens ++ rest) = ⟨tokens, [x]⟩ :: segments fs cwd rest := by
  cases h with
  | define hne => exact segments_cons_one (readArg_define hne) rest
  | defineValue t => exact segments_cons_two (fun t => [.define t]) rfl rest
  | undefine hne => exact segments_cons_one (readArg_undefine hne) rest
  | undefineValue t => exact segments_cons_two (fun t => [.undefine t]) rfl rest
  | flag hfam => exact segments_cons_one (readArg_flag hfam) rest
  | standardValue t =>
    exact segments_cons_two (fun t => [.flag ("-std=" ++ t)]) rfl rest

theorem IsOption.head (h : IsOption tokens x) :
    ∃ token rest, tokens = token :: rest ∧ token.head? = some '-' := by
  cases h with
  | define | undefine => exact ⟨_, [], rfl, rfl⟩
  | defineValue t | undefineValue t | standardValue t => exact ⟨_, [t], rfl, rfl⟩
  | flag hfam =>
    refine ⟨_, [], rfl, ?_⟩
    rcases flagFamily_cases hfam with ⟨u, rfl⟩ | ⟨u, rfl⟩ | ⟨u, rfl⟩ | ⟨u, rfl, -⟩ <;> rfl

end Families

section Exchange

variable {b b' : Segment} {segs segs' : List Segment}

theorem segments_eq_cons (h : segments fs cwd (b.tokens ++ rest) = b :: segs) :
    (∃ arg, b.tokens = [arg] ∧ rest = [] ∧ segs = []) ∨
      (∃ arg actions next tail, b = ⟨[arg], actions⟩ ∧ rest = next :: tail ∧
        readArg fs cwd arg (some next) = .one actions ∧ segs = segments fs cwd rest) ∨
      ∃ arg value operand, b = ⟨[arg, value], operand.actions cwd value⟩ ∧
        readArg fs cwd arg (some value) = .two operand ∧ segs = segments fs cwd rest := by
  generalize hargs : b.tokens ++ rest = args at h
  rcases args with _ | ⟨arg, _ | ⟨next, tail⟩⟩
  · cases h
  · have hsingle : b.tokens = [arg] ∧ segs = [] := by
      simp only [segments] at h
      split at h <;> cases h <;> exact ⟨rfl, rfl⟩
    rw [hsingle.1] at hargs
    exact .inl ⟨arg, hsingle.1, by simpa using hargs, hsingle.2⟩
  · simp only [segments] at h
    split at h
    · next actions hread =>
      cases h
      cases hargs
      exact .inr (.inl ⟨arg, actions, next, tail, rfl, rfl, hread, rfl⟩)
    · next operand hread =>
      cases h
      cases hargs
      exact .inr (.inr ⟨arg, next, operand, rfl, hread, rfl⟩)

/-- Segments that the key parser finds again in their arguments. -/
def Chained (fs : FileSystem) (cwd : Path) (segs : List Segment) : Prop :=
  segments fs cwd (tokensOf segs) = segs

theorem chained_segments (args : List Text) : Chained fs cwd (segments fs cwd args) := by
  rw [Chained, tokensOf_segments]

theorem Chained.cons (h : Chained fs cwd (b :: segs)) :
    segments fs cwd (b.tokens ++ tokensOf segs) = b :: segs := h

theorem Chained.tokens_ne_nil (h : Chained fs cwd segs) (hb : b ∈ segs) : b.tokens ≠ [] := by
  rw [← h] at hb
  exact Zccache.tokens_ne_nil hb

theorem Chained.tail (h : Chained fs cwd (b :: segs)) : Chained fs cwd segs := by
  rcases segments_eq_cons h with ⟨arg, -, -, rfl⟩ | ⟨arg, actions, next, tail, -, -, -, hsegs⟩ |
    ⟨arg, value, operand, -, -, hsegs⟩
  · rfl
  all_goals exact hsegs.symm

theorem Chained.of_append {front : List Segment} (h : Chained fs cwd (front ++ segs)) :
    Chained fs cwd segs := by
  induction front with
  | nil => exact h
  | cons b front ih => exact ih h.tail

def Segment.OneOption (b : Segment) : Prop :=
  ∃ x, IsOption b.tokens x ∧ b.actions = [x]

theorem Segment.OneOption.segments_append (h : b.OneOption) (rest : List Text) :
    segments fs cwd (b.tokens ++ rest) = b :: segments fs cwd rest := by
  obtain ⟨x, hx, hacts⟩ := h
  rw [hx.segments_append, ← hacts]

def Exchanged (b b' : Segment) : Prop :=
  b = b' ∨ b.OneOption ∧ b'.OneOption

variable (h : List.Forall₂ Exchanged segs segs')

include h

/-- No argument tells exchanged segments behind it apart. -/
theorem readArg_exchanged (hsegs : Chained fs cwd segs) {next : Text} {tail : List Text}
    (htoks : tokensOf segs = next :: tail) (arg : Text) :
    ∃ next' tail', tokensOf segs' = next' :: tail' ∧
      readArg fs cwd arg (some next') = readArg fs cwd arg (some next) := by
  cases h with
  | nil => cases htoks
  | @cons b b' segs segs' hb h =>
    rcases hb with rfl | ⟨⟨x, hx, -⟩, ⟨x', hx', -⟩⟩
    · obtain ⟨token, tokens, htok⟩ := exists_cons_of_ne_nil (hsegs.tokens_ne_nil
        mem_cons_self)
      rw [tokensOf_cons, htok] at htoks
      cases htoks
      exact ⟨next, tokens ++ tokensOf segs', by rw [tokensOf_cons, htok]; rfl, rfl⟩
    · obtain ⟨token, tokens, htok, hdash⟩ := hx.head
      obtain ⟨token', tokens', htok', hdash'⟩ := hx'.head
      rw [tokensOf_cons, htok] at htoks
      cases htoks
      refine ⟨token', tokens' ++ tokensOf segs', by rw [tokensOf_cons, htok']; rfl, ?_⟩
      exact readArg_next (hdash'.trans hdash.symm) (fun hne => absurd hdash' hne) arg

/-- The key parser finds the other segments again after an exchange. -/
theorem Chained.exchange (hsegs : Chained fs cwd segs) : Chained fs cwd segs' := by
  induction h with
  | nil => rfl
  | @cons b b' segs segs' hb h ih =>
    have htail : segments fs cwd (tokensOf segs') = segs' := ih hsegs.tail
    rw [Chained, tokensOf_cons]
    rcases hb with rfl | ⟨-, hb'⟩
    · rcases segments_eq_cons hsegs with ⟨arg, htoks, hrest, rfl⟩ |
        ⟨arg, actions, next, tail, rfl, hrest, hread, -⟩ | ⟨arg, value, operand, rfl, hread, -⟩
      · cases h
        exact hsegs
      · obtain ⟨next', tail', htoks', hnext⟩ := readArg_exchanged h hsegs.tail hrest arg
        rw [htoks'] at htail ⊢
        simp [segments, hnext, hread, htail]
      · simp [segments, hread, htail]
    · rw [hb'.segments_append, htail]

end Exchange

end Zccache
