import Mathlib.Data.Prod.Lex
import Zccache.Base.Sort
import Zccache.Context.CompileContext

/-! # Environment variables in keys

Which variables of the client reach a key. The fingerprint of a request selects
more of them than the context key, by the same rules but for one: a linker
variable is also found under a different case.
-/

namespace Zccache

open List Unix StableSort

abbrev Env := List (Name × Name)

def texts (ts : List String) : List Text :=
  ts.map String.toList

inductive CcEnvScope where
  | gnu
  | msvc
  | any

def gnuCcEnvKeyed : List Text :=
  texts ["CPATH", "C_INCLUDE_PATH", "CPLUS_INCLUDE_PATH", "OBJC_INCLUDE_PATH", "SDKROOT",
    "MACOSX_DEPLOYMENT_TARGET", "IPHONEOS_DEPLOYMENT_TARGET", "TVOS_DEPLOYMENT_TARGET",
    "WATCHOS_DEPLOYMENT_TARGET", "XROS_DEPLOYMENT_TARGET", "GCC_EXEC_PREFIX", "COMPILER_PATH",
    "SOURCE_DATE_EPOCH", "DEPENDENCIES_OUTPUT", "SUNPRO_DEPENDENCIES"]

def msvcCcEnvKeyed : List Text :=
  texts ["CL", "_CL_", "INCLUDE", "VSLANG"]

def localeEnvKeyed : List Text :=
  texts ["LC_ALL", "LC_MESSAGES", "LANG", "LANGUAGE"]

def rustcEnvKeyed : List Text :=
  texts ["RUSTC_BOOTSTRAP"]

def appleEnvKeyed : List Text :=
  texts ["SDKROOT", "MACOSX_DEPLOYMENT_TARGET", "IPHONEOS_DEPLOYMENT_TARGET",
    "TVOS_DEPLOYMENT_TARGET", "WATCHOS_DEPLOYMENT_TARGET", "XROS_DEPLOYMENT_TARGET"]

def linkEnvKeyed : List Text :=
  texts ["LIBRARY_PATH", "COMPILER_PATH", "GCC_EXEC_PREFIX", "LIB", "LINK", "_LINK_"]

def requestControlEnvKeyed : List Text :=
  texts ["ZCCACHE_FAST", "ZCCACHE_SCAN_SYSTEM_HEADERS", "ZCCACHE_DYLINT_CACHE_INPUT_HASH"]

def neverKeyedExact : List Text :=
  texts ["CI", "TERM", "MAKEFLAGS", "CARGO_MAKEFLAGS", "CARGO_INCREMENTAL"]

def neverKeyedPrefixes : List Text :=
  texts ["GITHUB_", "SOLDR_", "CARGO_TERM_"]

def volatileCargoEnvVars : List Text :=
  texts ["CARGO", "CARGO_HOME", "CARGO_MANIFEST_DIR", "CARGO_MANIFEST_PATH", "CARGO_TARGET_DIR"]

def isNeverKeyedEnv (name : Text) : Bool :=
  if name ∈ requestControlEnvKeyed then false
  else
    "ZCCACHE_".toList.isPrefixOf name || name ∈ neverKeyedExact ||
      neverKeyedPrefixes.any (·.isPrefixOf name)

def isVolatileCargoEnvVar (key : Text) : Bool :=
  key ∈ volatileCargoEnvVars ||
    match key.dropPrefix? "CARGO_TARGET_" with
    | some targetKey => "_LINKER".toList.isSuffixOf targetKey
    | none => false

def isConservativelyKeyedCargoEnv (name : Text) : Bool :=
  "CARGO_".toList.isPrefixOf name && !isNeverKeyedEnv name && !isVolatileCargoEnvVar name

def eqIgnoreAsciiCase (a b : Text) : Bool :=
  a.map Char.toLower = b.map Char.toLower

variable (env : Env)

/-- The value of the last variable whose name is a hit. -/
def lastValue (hit : Text → Bool) : Option Text :=
  (env.reverse.find? fun e => hit e.1.val).map fun e => e.2.val

def collect (table : List Text) (caseInsensitive : Bool) : List (Text × Text) :=
  table.filterMap fun name =>
    (lastValue env fun k => if caseInsensitive then eqIgnoreAsciiCase k name else k = name).map
      (Prod.mk name)

/-- An exact name wins; a differently cased one counts when there is no exact match. -/
def collectLinkTable : List (Text × Text) :=
  linkEnvKeyed.filterMap fun name =>
    ((lastValue env (· = name)).or (lastValue env (eqIgnoreAsciiCase · name))).map (Prod.mk name)

def keyedCcEnv : CcEnvScope → List (Text × Text)
  | .gnu => collect env gnuCcEnvKeyed false
  | .msvc => collect env msvcCcEnvKeyed true
  | .any => collect env gnuCcEnvKeyed false ++ collect env msvcCcEnvKeyed true

def keyedLocaleEnv : List (Text × Text) :=
  collect env localeEnvKeyed false

/-- What any rustc invocation may key: the Apple and the linker variables included. -/
def keyedRustcEnvSuperset : List (Text × Text) :=
  collect env rustcEnvKeyed false ++ collect env appleEnvKeyed false ++ collectLinkTable env

/-- The variables of a request's fingerprint. `cargo` is false for a C/C++ compiler. -/
def requestEnvFingerprintVars (cargo : Bool) (env : Env) : List (Text × Text) :=
  let control := env.filterMap fun e =>
    if cargo && isConservativelyKeyedCargoEnv e.1.val || e.1.val ∈ requestControlEnvKeyed then
      some (e.1.val, e.2.val)
    else none
  dedupRuns (sortBy toLex
    (control ++ keyedCcEnv env .any ++ keyedRustcEnvSuperset env ++ keyedLocaleEnv env))

def beforeFirst (c : Char) (t : Text) : Text :=
  t.takeWhile (· ≠ c)

/-- The message locale that gcc resolves, when it is not plain English. -/
def gccMessageLocale : Option Text :=
  let get (name : String) := (lastValue env (· = name.toList)).filter fun v => !v.isEmpty
  (((get "LC_ALL").or (get "LC_MESSAGES")).or (get "LANG")).bind fun locale =>
    let parts := (splitOnce '@' locale).getD (locale, [])
    let base := beforeFirst '.' parts.1
    let language := get "LANGUAGE"
    if base ∈ texts ["", "C", "POSIX"] then none
    else if language.isNone && parts.2.isEmpty && base ∈ texts ["en", "en_US"] then none
    else some (base ++ '@' :: parts.2 ++ '|' :: language.getD [])

inductive CompilerFamily where
  | gcc
  | clang
  | msvc
  | rustc
  | rustfmt
  deriving DecidableEq

def CompilerFamily.envScope : CompilerFamily → Option CcEnvScope
  | msvc => some .msvc
  | gcc | clang => some .gnu
  | rustc | rustfmt => none

/-- The environment as flags of the context key. Only gcc translates its messages. -/
def ccEnvKeyFlags (family : CompilerFamily) (env : Env) : List Text :=
  match family.envScope with
  | none => []
  | some scope =>
    (keyedCcEnv env scope).map (fun e => "zccache:env:".toList ++ e.1 ++ '=' :: e.2) ++
      if family = .gcc then
        (gccMessageLocale env).toList.map ("zccache:env:MESSAGE_LOCALE=".toList ++ ·)
      else []

variable {env : Env} {name v : Text} {e : Text × Text}

variable {table : List Text}

theorem mem_collect :
    (name, v) ∈ collect env table false ↔ name ∈ table ∧ lastValue env (· = name) = some v := by
  simp only [collect, mem_filterMap, Bool.false_eq_true, if_false, Option.map_eq_some_iff,
    Prod.mk.injEq]
  constructor
  · rintro ⟨name', hname', v', hv', rfl, rfl⟩
    exact ⟨hname', hv'⟩
  · rintro ⟨hname, hv⟩
    exact ⟨name, hname, v, hv, rfl, rfl⟩

theorem mem_table_of_collect {caseInsensitive : Bool}
    (h : (name, v) ∈ collect env table caseInsensitive) : name ∈ table := by
  obtain ⟨name', hname', h⟩ := mem_filterMap.mp h
  obtain ⟨v', -, heq⟩ := Option.map_eq_some_iff.mp h
  cases heq
  exact hname'

theorem lastValue_mem {hit : Text → Bool} (h : lastValue env hit = some v) :
    ∃ e ∈ env, hit e.1.val = true ∧ e.2.val = v := by
  obtain ⟨e, he, rfl⟩ := Option.map_eq_some_iff.mp h
  have hhit := find?_some he
  exact ⟨e, mem_reverse.mp (mem_of_find?_eq_some he), hhit, rfl⟩

theorem mem_collectLinkTable_iff :
    (name, v) ∈ collectLinkTable env ↔
      name ∈ linkEnvKeyed ∧
        (lastValue env (· = name)).or (lastValue env (eqIgnoreAsciiCase · name)) = some v := by
  simp only [collectLinkTable, mem_filterMap, Option.map_eq_some_iff, Prod.mk.injEq]
  constructor
  · rintro ⟨name', hlink, v', hv', rfl, rfl⟩
    exact ⟨hlink, hv'⟩
  · rintro ⟨hlink, hv⟩
    exact ⟨name, hlink, v, hv, rfl, rfl⟩

theorem mem_requestEnvFingerprintVars_iff {cargo : Bool} :
    (name, v) ∈ requestEnvFingerprintVars cargo env ↔
      (∃ e ∈ env, (cargo && isConservativelyKeyedCargoEnv name ||
        name ∈ requestControlEnvKeyed) = true ∧ e.1.val = name ∧ e.2.val = v) ∨
      (name, v) ∈ collect env gnuCcEnvKeyed false ∨ (name, v) ∈ collect env msvcCcEnvKeyed true ∨
      (name, v) ∈ collect env rustcEnvKeyed false ∨ (name, v) ∈ collect env appleEnvKeyed false ∨
      (name, v) ∈ collectLinkTable env ∨ (name, v) ∈ collect env localeEnvKeyed false := by
  have hctrl : (name, v) ∈ env.filterMap (fun e =>
        if cargo && isConservativelyKeyedCargoEnv e.1.val || e.1.val ∈ requestControlEnvKeyed then
          some (e.1.val, e.2.val)
        else none) ↔
      ∃ e ∈ env, (cargo && isConservativelyKeyedCargoEnv name ||
        name ∈ requestControlEnvKeyed) = true ∧ e.1.val = name ∧ e.2.val = v := by
    rw [mem_filterMap]
    constructor
    · rintro ⟨e, he, hif⟩
      split at hif
      · next hkeyed =>
        cases hif
        exact ⟨e, he, hkeyed, rfl, rfl⟩
      · cases hif
    · rintro ⟨e, he, hkeyed, rfl, rfl⟩
      exact ⟨e, he, if_pos hkeyed⟩
  simp only [requestEnvFingerprintVars, mem_dedupRuns, mem_sortBy, mem_append, keyedCcEnv,
    keyedRustcEnvSuperset, keyedLocaleEnv, hctrl, or_assoc]

def fingerprintNames : List Text :=
  requestControlEnvKeyed ++ gnuCcEnvKeyed ++ msvcCcEnvKeyed ++ rustcEnvKeyed ++ appleEnvKeyed ++
    linkEnvKeyed ++ localeEnvKeyed

end Zccache
