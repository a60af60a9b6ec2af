import Zccache.Request.MsvcInvocation

/-! # Values of cl options

cl and clang-cl take macros, include directories and forced includes in either spelling of
the option, joined or separate. The key parser knows most options with a slash only, and
some include directories not at all.
-/

namespace Zccache

open List Unix Units GnuAction

/-- The values of cl that decide what is preprocessed. -/
inductive ClInput where
  | define
  | undefine
  | includeDir
  | systemDir
  | forceInclude
  deriving DecidableEq

/-- The values of some options in a unit, joined or separate. -/
def valuesOf (options : List Text) : Text × Option Text → List Text
  | (arg, some value) => if arg ∈ options then [value] else []
  | (arg, none) => (options.filterMap fun option => arg.dropPrefix? option).filter (· ≠ [])

/-- What a driver reads of its arguments. The results below are for every driver: `cl` and
`clangCl` have the options of those two that are known here, and need not have them all. -/
structure ClDriver where
  spellings : ClInput → List Text
  /-- The options whose value may be the next argument. -/
  separate : List Text
  /-- The argument after which there are no options. -/
  endsOptions : Option Text

namespace ClDriver

def cl : ClDriver where
  spellings
    | .define => texts ["/D", "-D"]
    | .undefine => texts ["/U", "-U"]
    | .includeDir => texts ["/I", "-I"]
    | .systemDir => texts ["/external:I", "-external:I"]
    | .forceInclude => texts ["/FI", "-FI"]
  separate := texts ["/D", "-D", "/U", "-U", "/I", "-I", "/external:I", "-external:I", "/FI", "-FI",
    "/Fo", "-Fo", "/Tc", "-Tc", "/Tp", "-Tp"]
  endsOptions := none

def clangCl : ClDriver where
  spellings input :=
    cl.spellings input ++ if input = .systemDir then texts ["/imsvc", "-imsvc"] else []
  separate := cl.separate ++ texts ["/imsvc", "-imsvc", "/o", "-o"]
  endsOptions := "--".toList

variable (driver : ClDriver)

def options (args : List Text) : List (Text × Option Text) :=
  (units (· ∈ driver.separate) args).takeWhile fun u => some u.1 ≠ driver.endsOptions

def values (input : ClInput) : Text × Option Text → List Text :=
  valuesOf (driver.spellings input)

end ClDriver

section Listed

variable {cwd : Path} {args options : List Text} {arg v : Text} {input : ClInput}

theorem mem_valuesOf_none :
    v ∈ valuesOf options (arg, none) ↔ v ≠ [] ∧ ∃ option ∈ options, arg = option ++ v := by
  simp [valuesOf, dropPrefix?_eq_some, and_comm]

theorem mem_valuesOf_some {value : Text} :
    v ∈ valuesOf options (arg, some value) ↔ v = value ∧ arg ∈ options := by
  simp [valuesOf, and_comm]

namespace ClInput

def action (cwd : Path) (value : Text) : ClInput → GnuAction
  | define => .define value
  | undefine => .undefine value
  | includeDir => .includeDir .user (resolvePath cwd value)
  | systemDir => .includeDir .system (resolvePath cwd value)
  | forceInclude => .forceInclude (resolvePath cwd value)

/-- A value is in the list where the key wants it. -/
def Listed (p : ParsedArgs) (cwd : Path) (value : Text) : ClInput → Prop
  | define => value ∈ p.defines
  | undefine => value ∈ p.undefines
  | includeDir => resolvePath cwd value ∈ p.includeSearch.user
  | systemDir => resolvePath cwd value ∈ p.includeSearch.system
  | forceInclude => resolvePath cwd value ∈ p.forceIncludes

/-- The options that the key parser knows. -/
def keySpellings : ClInput → List Text
  | define => ["/D"]
  | undefine => ["/U"]
  | includeDir => texts ["/I", "-I"]
  | systemDir => []
  | forceInclude => ["/FI"]

def keyValues (input : ClInput) : Text × Option Text → List Text :=
  valuesOf input.keySpellings

theorem listed_iff :
    input.Listed (parseMsvcArgs args cwd) cwd v ↔ input.action cwd v ∈ msvcActions cwd args := by
  cases input <;>
    simp [Listed, action, parseMsvcArgs, ParsedArgs.ofActions, sortTexts, StableSort.mem_sortBy,
      defineOf_eq_some, undefineOf_eq_some, dirOf_eq_some,
      forceIncludeOf_eq_some]

theorem readMsvcArg_joined (harg : arg ∈ input.keySpellings) (hne : v ≠ []) :
    readMsvcArg cwd (arg ++ v) none = .one [input.action cwd v] := by
  cases input with
  | define | undefine | forceInclude =>
    obtain rfl := mem_singleton.mp harg
    simp [readMsvcArg, msvcRules, valued_none, joined, action, dropPrefix?, hne]
  | includeDir =>
    rcases mem_pair.mp harg with rfl | rfl
    all_goals simp [readMsvcArg, msvcRules, valued_none, joined, action, dropPrefix?, hne]
  | systemDir => cases harg

variable {u : Text × Option Text}

theorem action_mem_unit_iff (hu : u ∈ units keyTakesValue args) :
    input.action cwd v ∈ msvcUnitActions cwd u ↔
      ∃ w ∈ input.keyValues u, input.action cwd w = input.action cwd v := by
  obtain ⟨arg, value⟩ := u
  constructor
  · intro hmem
    cases value with
    | none =>
      obtain ⟨actions, hread, halone⟩ := readMsvcArg_none cwd arg
      simp only [msvcUnitActions, hread] at hmem
      simp only [keyValues, mem_valuesOf_none]
      cases halone <;> cases input <;>
        simp only [action, mem_singleton, not_mem_nil, reduceCtorEq, includeDir.injEq,
          false_and] at hmem
      case includeDir t hne hsp =>
        rcases hsp with rfl | rfl
        · exact ⟨t, ⟨hne, "/I", by decide, rfl⟩, congrArg _ hmem.2.symm⟩
        · exact ⟨t, ⟨hne, "-I", by decide, rfl⟩, congrArg _ hmem.2.symm⟩
      all_goals
        next t hne hsp => exact ⟨t, ⟨hne, _, mem_singleton_self _, hsp⟩, hmem.symm⟩
    | some value =>
      obtain ⟨operand, hread, hval⟩ :=
        readMsvcArg_of_mem cwd (keyTakesValue_iff.mp (takes_of_mem_units hu)) value
      simp only [msvcUnitActions, hread] at hmem
      simp only [keyValues, mem_valuesOf_some]
      generalize operand.actions cwd value = actions at hval hmem
      cases hval <;> cases input <;>
        simp only [action, mem_singleton, reduceCtorEq, includeDir.injEq, false_and] at hmem
      case includeDir hsp =>
        rcases hsp with rfl | rfl
        all_goals exact ⟨value, ⟨rfl, by decide⟩, congrArg _ hmem.2.symm⟩
      all_goals exact ⟨value, ⟨rfl, by decide⟩, hmem.symm⟩
  · rintro ⟨w, hval, heq⟩
    rw [← heq]
    cases value with
    | none =>
      obtain ⟨hne, option, hoption, rfl⟩ := mem_valuesOf_none.mp hval
      simp only [msvcUnitActions, readMsvcArg_joined hoption hne, mem_singleton]
    | some value =>
      obtain ⟨rfl, harg⟩ := mem_valuesOf_some.mp hval
      cases input with
      | includeDir =>
        rcases mem_pair.mp harg with rfl | rfl <;> exact mem_singleton_self _
      | define | undefine | forceInclude =>
        obtain rfl := mem_singleton.mp harg
        exact mem_singleton_self _
      | systemDir => cases harg

/-- The key parser lists the values in the spellings that it knows, and no others. -/
theorem listed_iff_units :
    input.Listed (parseMsvcArgs args cwd) cwd v ↔
      ∃ u ∈ units keyTakesValue args, ∃ w ∈ input.keyValues u,
        input.action cwd w = input.action cwd v := by
  rw [listed_iff, msvcActions_eq_flatMap, mem_flatMap]
  exact exists_congr fun u => and_congr_right action_mem_unit_iff

end ClInput

end Listed

variable (driver : ClDriver) (cwd : Path) (args : List Text)

def ValuesListed : Prop :=
  ∀ input : ClInput, ∀ u ∈ driver.options args, ∀ v ∈ driver.values input u,
    input.Listed (parseMsvcArgs args cwd) cwd v

/-- What the classifier takes for a separate value is one for the key parser too. -/
def ValuesConsumed : Prop :=
  valuePositions classifierTakesValue 0 args ⊆ valuePositions keyTakesValue 0 args

/-- Of the options that the classifier knows, only those that the key parser knows too are
followed by their value. -/
def KnownOptionsOnly : Prop :=
  ∀ u ∈ units classifierTakesValue args, u.2.isSome → u.1 ∈ msvcValuedOptions

/-- A value is given in a spelling that the key parser knows, or repeated in one. -/
def SpellingsKnown : Prop :=
  ∀ input : ClInput, ∀ u ∈ driver.options args, ∀ v ∈ driver.values input u,
    ∃ u' ∈ units keyTakesValue args, ∃ w ∈ input.keyValues u',
      input.action cwd w = input.action cwd v

theorem classifierTakesValue_of_key (arg : Text) (h : keyTakesValue arg = true) :
    classifierTakesValue arg = true := by
  rw [keyTakesValue_iff] at h
  revert arg
  decide

theorem valuesConsumed_iff : ValuesConsumed args ↔ KnownOptionsOnly args := by
  rw [ValuesConsumed, valuePositions_subset_iff classifierTakesValue_of_key]
  simp only [keyTakesValue_iff, KnownOptionsOnly]

/-- The key parser reads every value of a driver, and takes the values that the classifier takes,
just when it knows their spellings. -/
theorem optionValues_reach_key_iff :
    ValuesListed driver cwd args ∧ ValuesConsumed args ↔
      KnownOptionsOnly args ∧ SpellingsKnown driver cwd args := by
  rw [valuesConsumed_iff, and_comm]
  refine and_congr_right fun _ => ?_
  simp only [ValuesListed, SpellingsKnown, ClInput.listed_iff_units]

/-- A macro after `-D` and a directory after `-imsvc` are lost: a cacheable compilation is read
alike for two values. The classifier does not take the directory for a value. -/
theorem option_value_lost :
    let args name value := texts ["/c", name, value, "a.c"]
    let cwd := components "/work"
    (∃ c, parseMsvcInvocation "cl" (args "-D" "MODE=1") .msvc = .cacheable c) ∧
      ¬ ValuesListed .cl cwd (args "-D" "MODE=1") ∧ ¬ ValuesConsumed (args "-D" "MODE=1") ∧
      parseMsvcArgs (args "-D" "MODE=1") cwd = parseMsvcArgs (args "-D" "MODE=2") cwd ∧
      (∃ c, parseMsvcInvocation "clang-cl" (args "-imsvc" "inc") .msvc = .cacheable c) ∧
      ¬ ValuesListed .clangCl cwd (args "-imsvc" "inc") ∧ KnownOptionsOnly (args "-imsvc" "inc") ∧
      parseMsvcArgs (args "-imsvc" "inc") cwd = parseMsvcArgs (args "-imsvc" "inc2") cwd := by
  refine ⟨⟨_, rfl⟩, fun hlist => ?_, fun hcons => ?_, rfl, ⟨_, rfl⟩, fun hlist => ?_,
    by unfold KnownOptionsOnly; decide, rfl⟩
  · have hdefines : "MODE=1".toList ∈ (parseMsvcArgs (texts ["/c", "-D", "MODE=1", "a.c"])
        (components "/work")).defines :=
      hlist .define ("-D", some "MODE=1") (by decide) _ (by decide)
    revert hdefines
    decide
  · have hpos : 2 ∈ valuePositions keyTakesValue 0 (texts ["/c", "-D", "MODE=1", "a.c"]) :=
      hcons (by decide)
    revert hpos
    decide
  · have hdirs : resolvePath (components "/work") "inc" ∈ (parseMsvcArgs
        (texts ["/c", "-imsvc", "inc", "a.c"]) (components "/work")).includeSearch.system :=
      hlist .systemDir ("-imsvc", some "inc") (by decide) _ (by decide)
    revert hdirs
    decide

end Zccache
