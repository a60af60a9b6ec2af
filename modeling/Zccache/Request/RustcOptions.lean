import Zccache.Base.LastWins
import Zccache.Request.RustcArgs

/-! # What rustc reads

rustc cuts its command line into units: an argument by itself, or an option
together with its value. Of the options that set lint levels the last one that
covers a lint decides, and of the remapped prefixes the last one that matches a
path. The key parser cuts a plainly written command line in the same places.
-/

namespace Zccache

open List Unix LastWins Option

inductive LintLevel where
  | allow
  | warn
  | forceWarn
  | deny
  | forbid
  deriving DecidableEq

/-- The options whose order, value or presence changes what rustc produces. -/
inductive RustcOption where
  | lint (level : LintLevel) (name : Text)
  | remap (text : Text)
  | envSet (text : Text)
  | dependency (text : Text)
  deriving DecidableEq

/-- Options that the key parser reads together with the next argument. -/
def pairedFlags : List Text :=
  texts ["--edition", "--crate-type", "--crate-name", "--emit", "--target", "--cap-lints", "--cfg",
    "--check-cfg", "--extern", "--out-dir", "--error-format", "--json", "--color",
    "--diagnostic-width", "--sysroot", "--remap-path-prefix", "--env-set", "-o", "-L", "-l", "-C",
    "--codegen", "-A", "-W", "-D", "-F", "-Z"]

/-- Options of rustc that take a value, which the key parser takes for a separate argument. -/
def strayValueFlags : List Text :=
  texts ["--print", "--explain", "--allow", "--warn", "--force-warn", "--deny", "--forbid"]

def rustcUnits : List Text → List (List Text)
  | [] => []
  | [arg] => [[arg]]
  | arg :: next :: rest =>
    if arg ∈ pairedFlags ∨ arg ∈ strayValueFlags then [arg, next] :: rustcUnits rest
    else [arg] :: rustcUnits (next :: rest)

def lintLevelOf (flag : Text) : Option LintLevel :=
  if flag ∈ texts ["-A", "--allow"] then some .allow
  else if flag ∈ texts ["-W", "--warn"] then some .warn
  else if flag ∈ texts ["--force-warn"] then some .forceWarn
  else if flag ∈ texts ["-D", "--deny"] then some .deny
  else if flag ∈ texts ["-F", "--forbid"] then some .forbid
  else none

def lintNames : List Text :=
  texts ["-A", "--allow", "-W", "--warn", "--force-warn", "-D", "--deny", "-F", "--forbid"]

def valueOption (flag value : Text) : Option RustcOption :=
  if flag = "--remap-path-prefix" then some (.remap value)
  else if flag = "--env-set" then some (.envSet value)
  else if flag = "--extern" then some (.dependency value)
  else (lintLevelOf flag).map (.lint · value)

/-- `--flag=value`, or `-fvalue` for a flag of one letter. -/
def joinedOption (arg : Text) : Option RustcOption :=
  if "--".toList.isPrefixOf arg then
    (splitOnce '=' arg).bind fun parts => valueOption parts.1 parts.2
  else (lintLevelOf (arg.take 2)).map (.lint · (arg.drop 2))

def unitOption : List Text → Option RustcOption
  | [arg] => joinedOption arg
  | [flag, value] => valueOption flag value
  | _ => none

def rustcOptions (args : List Text) : List RustcOption :=
  (rustcUnits args).filterMap unitOption

section Meaning

variable {Lint : Type} (covers : Text → Lint → Bool)

def RustcOption.levelOf (lint : Lint) : RustcOption → Option LintLevel
  | RustcOption.lint level name => if covers name lint then some level else none
  | _ => none

variable (args : List Text)

/-- The level of a lint. A lint is covered by its own name and by the names of its groups. -/
def lintLevel (lint : Lint) : Option LintLevel :=
  lastBy (RustcOption.levelOf covers lint) (rustcOptions args)

/-- Split at the last equals sign. -/
def splitLast (t : Text) : Option (Text × Text) :=
  (splitOnce '=' t.reverse).map fun parts => (parts.2.reverse, parts.1.reverse)

/-- A path below the old prefix moves below the new one. -/
def RustcOption.remapped (path : Path) : RustcOption → Option Path
  | .remap t => (splitLast t).bind fun parts =>
    (stripPrefix path (components parts.1)).map (join (components parts.2))
  | _ => none

def remapPath (path : Path) : Path :=
  (lastBy (RustcOption.remapped path) (rustcOptions args)).getD path

def envSets : List Text :=
  (rustcOptions args).filterMap fun
    | .envSet t => some t
    | _ => none

def externNames : List Text :=
  (rustcOptions args).filterMap fun
    | .dependency t => some (beforeFirst '=' t)
    | _ => none

/-- Two command lines mean the same to rustc, as far as these options go. -/
structure SameMeaning (args args' : List Text) : Prop where
  lints : ∀ lint, lintLevel covers args lint = lintLevel covers args' lint
  paths : ∀ path, remapPath args path = remapPath args' path
  envSets : ∀ t, t ∈ envSets args ↔ t ∈ envSets args'
  externs : ∀ name, name ∈ externNames args ↔ name ∈ externNames args'

end Meaning

def RustcAction.option : RustcAction → Option RustcOption
  | .remap t => some (.remap t)
  | .envSet t => some (.envSet t)
  | .dependency t => some (.dependency t)
  | .lint flag t => valueOption flag t
  | .unknown t => joinedOption t
  | _ => none

def RustcAction.text : RustcAction → Text
  | .edition t | .crateType t | .crateName t | .emit t | .target t | .capLints t | .cfg t
  | .checkCfg t | .dependency t | .remap t | .envSet t | .codegen t | .unknown t | .source t
  | .unkeyed _ t => t
  | .lint flag t => flag ++ ' ' :: t

def RustcAction.WellFormed : RustcAction → Prop
  | .lint flag _ => flag ∈ texts ["-A", "-W", "-D", "-F"]
  | .unknown t => t.head? = some '-'
  | _ => True

/-- Flags of one letter without a value can be written together. -/
def isBundle (arg : Text) : Bool :=
  arg.take 2 ∈ texts ["-g", "-O", "-v", "-V", "-h"] && 2 < arg.length

/-- A unit that rustc, the key parser and the classifier read alike. -/
def isPlainUnit : List Text → Bool
  | [arg] => arg ∉ pairedFlags && arg ∉ strayValueFlags && arg ≠ "--" && !isBundle arg
  | [flag, value] =>
    flag ∈ pairedFlags && !(flag ∈ texts ["-l", "-Z"] && value.head? = some '-')
  | _ => false

def PlainlyWritten (args : List Text) : Prop :=
  ∀ u ∈ rustcUnits args, isPlainUnit u = true
  deriving Decidable

variable {u : List Text} {us : List (List Text)} {args rest : List Text}

theorem flatten_rustcUnits (args : List Text) : (rustcUnits args).flatten = args := by
  fun_induction rustcUnits args with
  | case1 | case2 => rfl
  | case3 arg next rest _ ih | case4 arg next rest _ ih => simp [ih]

theorem isPlainUnit_cases (h : isPlainUnit u = true) :
    (∃ arg, u = [arg] ∧ arg ∉ pairedFlags ∧ arg ∉ strayValueFlags) ∨
      ∃ flag ∈ pairedFlags, ∃ value, u = [flag, value] ∧
        (flag ∈ texts ["-l", "-Z"] → value.head? ≠ some '-') := by
  unfold isPlainUnit at h
  split at h
  · next arg =>
    simp only [Bool.and_eq_true, decide_eq_true_eq] at h
    exact .inl ⟨arg, rfl, h.1.1.1, h.1.1.2⟩
  · next flag value =>
    simp only [Bool.and_eq_true, Bool.not_eq_true', Bool.and_eq_false_iff, decide_eq_true_eq,
      decide_eq_false_iff_not] at h
    exact .inr ⟨flag, h.1, value, rfl, fun hflag => h.2.resolve_left (not_not_intro hflag)⟩
  · cases h

theorem rustcUnits_append (h : isPlainUnit u = true) (rest : List Text) :
    rustcUnits (u ++ rest) = u :: rustcUnits rest := by
  rcases isPlainUnit_cases h with ⟨arg, rfl, hpair, hstray⟩ | ⟨flag, hflag, value, rfl, -⟩
  · cases rest with
    | nil => rfl
    | cons next rest =>
      exact if_neg (by simp [hpair, hstray])
  · exact if_pos (.inl hflag)

theorem rustcUnits_flatten (h : ∀ u ∈ us, isPlainUnit u = true) : rustcUnits us.flatten = us := by
  induction us with
  | nil => rfl
  | cons u us ih =>
    obtain ⟨hu, hus⟩ := forall_mem_cons.mp h
    rw [flatten_cons, rustcUnits_append hu, ih hus]

variable {arg : Text}

theorem takeOption_of_ne {option : Text × (Text → RustcAction)} (h : arg ≠ option.1)
    (next : Option Text) :
    takeOption arg next option =
      (arg.dropPrefix? (option.1 ++ ['='])).map fun value => .one [option.2 value] :=
  if_neg h

variable {flags : List String}

theorem takeValue_of_notMem (h : arg ∉ texts flags) (next : Option Text)
    (action : Text → RustcAction) : takeValue arg next flags action = none :=
  if_neg fun hmem => h hmem.1

/-- Away from the options with a value the next argument does not matter. -/
theorem readRustcArg_next (h : arg ∉ pairedFlags) (next : Option Text) :
    readRustcArg arg next = readRustcArg arg none := by
  have hlong : longOptions.findSome? (takeOption arg next) =
      longOptions.findSome? (takeOption arg none) := by
    have hflags : ∀ option ∈ longOptions, option.1 ∈ pairedFlags := by decide
    have hne : ∀ option ∈ longOptions, arg ≠ option.1 :=
      fun option hopt heq => h (heq ▸ hflags option hopt)
    rw [← head?_filterMap, ← head?_filterMap]
    congr 1
    refine filterMap_congr fun option hopt => ?_
    rw [takeOption_of_ne (hne option hopt), takeOption_of_ne (hne option hopt)]
  have hshort : shortRules arg next = shortRules arg none := by
    have hval : ∀ {flags : List String} {action : Text → RustcAction},
        texts flags ⊆ pairedFlags →
          takeValue arg next flags action = takeValue arg none flags action := by
      intro flags action hsub
      rw [takeValue_of_notMem (fun hmem => h (hsub hmem)),
        takeValue_of_notMem (fun hmem => h (hsub hmem))]
    unfold shortRules
    rw [hval (by decide), hval (by decide), hval (by decide), hval (by decide),
      hval (by decide), hval (by decide)]
  rw [readRustcArg, readRustcArg, hlong, hshort]

/-- The kinds of a single argument. -/
inductive SingleArg : Text → List RustcAction → Prop where
  | long {option : Text × (Text → RustcAction)} (h : option ∈ longOptions) (value : Text) :
      SingleArg (option.1 ++ '=' :: value) [option.2 value]
  | search (value : Text) : SingleArg ("-L" ++ value) [.unkeyed "-L" value]
  | library (value : Text) : SingleArg ("-l" ++ value) [.unknown ("-l " ++ value)]
  | codegen (value : Text) : SingleArg ("-C" ++ value) [.codegen value]
  | debug : SingleArg "-g" [.codegen "debuginfo=2"]
  | optimize : SingleArg "-O" [.codegen "opt-level=2"]
  | flag {arg : Text} (h : arg.head? = some '-') : SingleArg arg [.unknown arg]
  | source {arg : Text} (h : arg.head? ≠ some '-') : SingleArg arg [.source arg]
  | stray {arg : Text} (h : arg.head? ≠ some '-') : SingleArg arg []

variable {action : Text → RustcAction} {reading : RustcReading}

theorem takeJoined_eq_some {flag : String} (h : takeJoined arg flag action = some reading) :
    ∃ value, arg = flag.toList ++ value ∧ reading = .one [action value] := by
  unfold takeJoined at h
  split at h
  · cases h
  · obtain ⟨value, hval, rfl⟩ := map_eq_some_iff.mp h
    exact ⟨value, dropPrefix?_eq_some.mp hval, rfl⟩

theorem takeValue_none : takeValue arg none flags action = none :=
  if_neg fun h => nomatch h.2

theorem singleArg_of_shortRules (h : some reading ∈ shortRules arg none) :
    ∃ actions, reading = .one actions ∧ SingleArg arg actions := by
  have hif : ∀ {c : Prop} [Decidable c] {x : RustcReading},
      some reading = (if c then some x else none) → c ∧ reading = x := by
    intro c _ x hx
    split at hx
    · next hc => exact ⟨hc, some.inj hx⟩
    · cases hx
  simp only [shortRules, takeValue_none, mem_cons, not_mem_nil, reduceCtorEq, false_or,
    or_false] at h
  rcases h with hsearch | hlib | hcg | hdebug | hoptimize | hflag
  · obtain ⟨value, rfl, rfl⟩ := takeJoined_eq_some hsearch.symm
    exact ⟨_, rfl, .search value⟩
  · split at hlib
    · cases hlib
    · obtain ⟨value, rfl, rfl⟩ := takeJoined_eq_some hlib.symm
      exact ⟨_, rfl, .library value⟩
  · obtain ⟨value, rfl, rfl⟩ := takeJoined_eq_some hcg.symm
    exact ⟨_, rfl, .codegen value⟩
  · obtain ⟨rfl, rfl⟩ := hif hdebug
    exact ⟨_, rfl, .debug⟩
  · obtain ⟨rfl, rfl⟩ := hif hoptimize
    exact ⟨_, rfl, .optimize⟩
  · obtain ⟨hhead, rfl⟩ := hif hflag
    exact ⟨_, rfl, .flag hhead⟩

theorem readRustcArg_none (arg : Text) :
    ∃ actions, readRustcArg arg none = .one actions ∧ SingleArg arg actions := by
  unfold readRustcArg
  cases hlong : longOptions.findSome? (takeOption arg none) with
  | some reading =>
    obtain ⟨option, hopt, htake⟩ := exists_of_findSome?_eq_some hlong
    unfold takeOption at htake
    split at htake
    · cases htake
    · obtain ⟨value, hval, rfl⟩ := map_eq_some_iff.mp htake
      rw [dropPrefix?_eq_some.mp hval, append_assoc]
      exact ⟨_, rfl, .long hopt value⟩
  | none =>
    cases hshort : (shortRules arg none).findSome? id with
    | some reading =>
      obtain ⟨rule, hrule, rfl⟩ := exists_of_findSome?_eq_some hshort
      exact singleArg_of_shortRules hrule
    | none =>
      have hhead : arg.head? ≠ some '-' := by
        intro hhead
        have hlast : (if arg.head? = some '-' then some (.one [.unknown arg]) else none) ∈
            shortRules arg none := mem_of_getLast? rfl
        rw [if_pos hhead] at hlast
        cases findSome?_eq_none_iff.mp hshort _ hlast
      split
      · exact ⟨_, rfl, .source hhead⟩
      · exact ⟨_, rfl, .stray hhead⟩

variable {flag : Text}

theorem mem_of_lintLevelOf {level : LintLevel} (h : lintLevelOf flag = some level) :
    flag ∈ lintNames := by
  unfold lintLevelOf at h
  split_ifs at h with h₁ h₂ h₃ h₄ h₅
  · exact (by decide : texts ["-A", "--allow"] ⊆ lintNames) h₁
  · exact (by decide : texts ["-W", "--warn"] ⊆ lintNames) h₂
  · exact (by decide : texts ["--force-warn"] ⊆ lintNames) h₃
  · exact (by decide : texts ["-D", "--deny"] ⊆ lintNames) h₄
  · exact (by decide : texts ["-F", "--forbid"] ⊆ lintNames) h₅

theorem joinedOption_positional (h : arg.head? ≠ some '-') : joinedOption arg = none := by
  have hlong : ¬ "--".toList.isPrefixOf arg = true := by
    intro hpre
    obtain ⟨rest, rfl⟩ := isPrefixOf_iff_prefix.mp hpre
    exact h rfl
  rw [joinedOption, if_neg hlong, map_eq_none_iff, eq_none_iff_forall_ne_some]
  intro level hlevel
  have hdash : ∀ flag ∈ lintNames, flag.head? = some '-' := by decide
  have hhead := hdash _ (mem_of_lintLevelOf hlevel)
  cases arg with
  | nil => cases hhead
  | cons c arg => exact h hhead

theorem joinedOption_long (hlong : "--".toList.isPrefixOf flag = true) (hequals : '=' ∉ flag)
    (value : Text) : joinedOption (flag ++ '=' :: value) = valueOption flag value := by
  have hpre : "--".toList.isPrefixOf (flag ++ '=' :: value) = true := by
    have hstart := isPrefixOf_iff_prefix.mp hlong
    exact isPrefixOf_iff_prefix.mpr (hstart.trans (prefix_append _ _))
  rw [joinedOption, if_pos hpre, splitOnce_eq_some_iff.mpr ⟨rfl, hequals⟩, bind_some]

theorem longOptions_option : ∀ option ∈ longOptions, ∀ value,
    (option.2 value).option = valueOption option.1 value := by
  simp only [longOptions, forall_mem_cons]
  and_intros
  all_goals first
    | exact fun _ => rfl
    | exact forall_mem_nil _

variable {actions : List RustcAction}

theorem singleArg_option (h : SingleArg arg actions) :
    actions.filterMap RustcAction.option = (joinedOption arg).toList := by
  cases h with
  | @long option h value =>
    have hsp : ∀ option ∈ longOptions,
        "--".toList.isPrefixOf option.1 = true ∧ '=' ∉ option.1 := by decide
    rw [joinedOption_long (hsp option h).1 (hsp option h).2,
      ← longOptions_option option h value]
    cases hopt : (option.2 value).option <;> simp [hopt]
  | search | library | codegen | debug | optimize => rfl
  | flag h => cases hopt : joinedOption arg <;> simp [RustcAction.option, hopt]
  | source h => simp [RustcAction.option, joinedOption_positional h]
  | stray h => simp [joinedOption_positional h]

def pairedAction (flag value : Text) : RustcAction :=
  match readRustcArg flag (some value) with
  | .two action => action value
  | .one _ => .unkeyed flag value

section

variable (h : flag ∈ pairedFlags)

include h

theorem rustcActions_paired (value : Text) (rest : List Text) :
    rustcActions (flag :: value :: rest) = pairedAction flag value :: rustcActions rest ∧
      (pairedAction flag value).option = valueOption flag value := by
  revert h flag
  simp only [pairedFlags, texts, map_cons, map_nil, forall_mem_cons]
  and_intros
  all_goals first
    | rfl
    | exact forall_mem_nil _

theorem pairedAction_wellFormed (value : Text) : (pairedAction flag value).WellFormed ∧
      ∃ lead, nul ∉ lead ∧ (pairedAction flag value).text = lead ++ value := by
  revert h flag
  simp only [pairedFlags, texts, map_cons, map_nil, forall_mem_cons]
  refine ⟨?_, ?_, ?_, ?_, ?_, ?_, ?_, ?_, ?_, ?_, ?_, ?_, ?_, ?_, ?_, ?_, ?_, ?_, ?_,
    ⟨rfl, "-l ", by decide, rfl⟩, ?_, ?_,
    ⟨mem_of_elem_eq_true rfl, "-A ", by decide, rfl⟩,
    ⟨mem_of_elem_eq_true rfl, "-W ", by decide, rfl⟩,
    ⟨mem_of_elem_eq_true rfl, "-D ", by decide, rfl⟩,
    ⟨mem_of_elem_eq_true rfl, "-F ", by decide, rfl⟩,
    ⟨rfl, "-Z ", by decide, rfl⟩, forall_mem_nil _⟩
  all_goals exact ⟨True.intro, [], not_mem_nil, rfl⟩

end

theorem SingleArg.wellFormed (h : SingleArg arg actions) :
    ∀ a ∈ actions, a.WellFormed ∧ (nul ∉ arg → nul ∉ a.text) := by
  have happ : ∀ {lead value : Text}, nul ∉ lead ++ value → nul ∉ value :=
    fun h hmem => h (mem_append_right _ hmem)
  intro a ha
  cases h with
  | @long option h value =>
    rw [mem_singleton.mp ha]
    have hlong : ∀ option ∈ longOptions, (option.2 value).WellFormed ∧
        (option.2 value).text = value := by
      simp only [longOptions, forall_mem_cons]
      and_intros
      all_goals first
        | rfl
        | exact True.intro
        | exact forall_mem_nil _
    rw [(hlong option h).2]
    exact ⟨(hlong option h).1, fun hnul hmem => happ hnul (mem_cons_of_mem _ hmem)⟩
  | search value | codegen value =>
    rw [mem_singleton.mp ha]
    exact ⟨True.intro, happ⟩
  | library value =>
    rw [mem_singleton.mp ha]
    refine ⟨rfl, fun hnul hmem => ?_⟩
    rcases mem_append.mp hmem with hmem | hmem
    · exact absurd hmem (by decide)
    · exact happ hnul hmem
  | debug | optimize =>
    rw [mem_singleton.mp ha]
    exact ⟨True.intro, fun _ => by decide⟩
  | flag h =>
    rw [mem_singleton.mp ha]
    exact ⟨h, fun hnul => hnul⟩
  | source h =>
    rw [mem_singleton.mp ha]
    exact ⟨True.intro, fun hnul => hnul⟩
  | stray h => cases ha

/-- The key parser reads a plain unit alone, and sees in it the option that rustc sees. -/
theorem rustcActions_append (h : isPlainUnit u = true) :
    (∀ rest, rustcActions (u ++ rest) = rustcActions u ++ rustcActions rest) ∧
      (rustcActions u).filterMap RustcAction.option = (unitOption u).toList ∧
      ∀ a ∈ rustcActions u, a.WellFormed ∧ ((∀ token ∈ u, nul ∉ token) → nul ∉ a.text) := by
  rcases isPlainUnit_cases h with ⟨arg, rfl, hpair, -⟩ | ⟨flag, hflag, value, rfl, -⟩
  · obtain ⟨actions, hread, hsingle⟩ := readRustcArg_none arg
    have hunit : rustcActions [arg] = actions := by rw [rustcActions, hread]
    refine ⟨fun rest => ?_, ?_, ?_⟩
    · cases rest with
      | nil => simp [rustcActions]
      | cons next rest =>
        rw [hunit, singleton_append, rustcActions, readRustcArg_next hpair, hread]
    · rw [hunit]
      exact singleArg_option hsingle
    · rw [hunit]
      intro a ha
      obtain ⟨hform, hnul⟩ := hsingle.wellFormed a ha
      exact ⟨hform, fun htoks => hnul (htoks arg mem_cons_self)⟩
  · have hread := fun rest => (rustcActions_paired hflag value rest).1
    refine ⟨fun rest => ?_, ?_, ?_⟩
    · rw [hread, cons_append, cons_append, nil_append, hread]
      rfl
    · rw [hread, rustcActions, unitOption, ← (rustcActions_paired hflag value []).2]
      cases hopt : (pairedAction flag value).option <;> simp [hopt]
    · rw [hread, rustcActions]
      intro a ha
      rw [mem_singleton.mp ha]
      obtain ⟨hform, lead, hlead, htext⟩ := pairedAction_wellFormed hflag value
      refine ⟨hform, fun htoks hmem => ?_⟩
      rw [htext] at hmem
      rcases mem_append.mp hmem with hmem | hmem
      · exact hlead hmem
      · exact htoks value (by simp) hmem

theorem rustcActions_flatten (h : ∀ u ∈ us, isPlainUnit u = true) :
    rustcActions us.flatten = us.flatMap rustcActions := by
  induction us with
  | nil => rfl
  | cons u us ih =>
    obtain ⟨hu, hus⟩ := forall_mem_cons.mp h
    rw [flatten_cons, (rustcActions_append hu).1, ih hus, flatMap_cons]

theorem rustcOptions_flatten (h : ∀ u ∈ us, isPlainUnit u = true) :
    rustcOptions us.flatten = (rustcActions us.flatten).filterMap RustcAction.option := by
  rw [rustcOptions, rustcUnits_flatten h, rustcActions_flatten h]
  induction us with
  | nil => rfl
  | cons u us ih =>
    obtain ⟨hu, hus⟩ := forall_mem_cons.mp h
    rw [flatMap_cons, filterMap_append, (rustcActions_append hu).2.1, ← ih hus]
    cases hopt : unitOption u <;> simp [hopt]

theorem rustcOptions_eq (h : PlainlyWritten args) :
    rustcOptions args = (rustcActions args).filterMap RustcAction.option := by
  have hopts := rustcOptions_flatten h
  rwa [flatten_rustcUnits] at hopts

theorem wellFormed_of_mem (h : PlainlyWritten args) {a : RustcAction} (ha : a ∈ rustcActions args) :
    a.WellFormed ∧ ((∀ token ∈ args, nul ∉ token) → nul ∉ a.text) := by
  rw [← flatten_rustcUnits args, rustcActions_flatten h] at ha
  obtain ⟨u, hu, hau⟩ := mem_flatMap.mp ha
  obtain ⟨hform, hnul⟩ := (rustcActions_append (h u hu)).2.2 a hau
  refine ⟨hform, fun htoks => hnul fun token htok => htoks token ?_⟩
  rw [← flatten_rustcUnits args]
  exact mem_flatten.mpr ⟨u, hu, htok⟩

end Zccache
