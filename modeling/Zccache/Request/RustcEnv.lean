import Zccache.Request.RustcSections

/-! # The environment of a rustc request

The fingerprint of a request chooses its variables after a look at the arguments, the
context key after parsing them. The fingerprint is as fine as the key when the look
does not mistake a value for an option.
-/

namespace Zccache

open List Unix StableSort

variable {D : Type}

def isPlainRustc (compiler : Text) : Bool :=
  let base := baseName compiler
  (dropSuffix ".exe" base).getD base = "rustc"

def listsDepInfo (kinds : Text) : Bool :=
  (kinds.splitOn ',').any fun part => beforeFirst '=' part = "dep-info"

/-- Every `--emit` counts, wherever it stands. -/
def argvEmitsDepInfo : List Text → Bool
  | [] => false
  | [arg] => (arg.dropPrefix? "--emit=").any listsDepInfo
  | arg :: next :: rest =>
    if arg = "--emit" then listsDepInfo next || argvEmitsDepInfo rest
    else (arg.dropPrefix? "--emit=").any listsDepInfo || argvEmitsDepInfo (next :: rest)

def argvMayLoadProcMacro (args : List Text) : Bool :=
  args.any isDylibPath

def keysCargoEnv (compiler : Text) (args : List Text) : Bool :=
  detectFamily compiler = .rustc &&
    (!isPlainRustc compiler || !argvEmitsDepInfo args || argvMayLoadProcMacro args)

/-- Dylint's driver has the rustc to run and its arguments as its own arguments. -/
def dylintInnerRustcArgs (compiler : Text) (args : List Text) :
    Except Text (Option (Text × List Text)) :=
  if !isDylintDriver compiler then .ok none
  else
    match args with
    | [] => .error "dylint-driver requires an inner rustc executable"
    | inner :: rustcArgs =>
      if isVersionOf "rustc" (executableStem inner) then .ok (some (inner, rustcArgs))
      else .error "dylint-driver inner rustc executable is missing or unsupported"

/-- A run of rustc or of a driver around it. -/
structure RustcCommand where
  compiler : NormalizedPath
  args : List Text
  cwd : Path
  isRustc : detectFamily compiler.caseKey = .rustc

namespace RustcCommand

variable (c : RustcCommand)

def isPlainRustcDriver : Bool :=
  isPlainRustc c.compiler.caseKey ||
    match dylintInnerRustcArgs c.compiler.caseKey c.args with
    | .ok (some _) => true
    | _ => false

def rustcArgs : List Text :=
  match dylintInnerRustcArgs c.compiler.caseKey c.args with
  | .ok (some (_, args)) => args
  | _ => c.args

def contextEnv (compilerHash : D) (c : RustcCommand) (env : Env) : List (Text × Text) :=
  (rustcContext c.cwd env compilerHash c.isPlainRustcDriver c.rustcArgs).selectedEnv

def fingerprintEnv (env : Env) : List (Text × Text) :=
  requestEnvFingerprintVars (keysCargoEnv c.compiler.caseKey c.args) env

def envFacts : RustcEnvFacts :=
  let args := parseRustcArgs c.rustcArgs c.cwd
  .fromParts args.target args.crateTypes args.emitTypes
    (args.externs.map fun e => toText e.path.path) c.isPlainRustcDriver

/-- The fingerprint has every variable of the key, and tells the environments apart that the key
tells apart. -/
structure EnvAsFine (compilerHash : D) (c : RustcCommand) (env env' : Env) : Prop where
  subset : c.contextEnv compilerHash env ⊆ c.fingerprintEnv env
  eq_of_eq : c.fingerprintEnv env = c.fingerprintEnv env' →
    c.contextEnv compilerHash env = c.contextEnv compilerHash env'

/-- When the look at the arguments of plain rustc finds dep-info and no dynamic library, then one
of the options does ask for dep-info, and no extern is a dynamic library. -/
def ReadAlike : Prop :=
  isPlainRustc c.compiler.caseKey = true → argvEmitsDepInfo c.args = true →
    argvMayLoadProcMacro c.args = false →
      (∃ kinds, .emit kinds ∈ rustcActions c.args ∧ listsDepInfo kinds = true) ∧
        ∀ e ∈ (parseRustcArgs c.args c.cwd).externs, isDylibPath (toText e.path.path) = false

end RustcCommand

section Tables

variable {env env' : Env} {cargo : Bool} {name v : Text}

/-- The variables of cargo that a key holds when they may be read untracked. -/
def cargoEnv (env : Env) : List (Text × Text) :=
  (env.map fun e => (e.1.val, e.2.val)).filter fun e => isConservativelyKeyedCargoEnv e.1

theorem mem_cargoEnv :
    (name, v) ∈ cargoEnv env ↔
      isConservativelyKeyedCargoEnv name = true ∧ ∃ e ∈ env, e.1.val = name ∧ e.2.val = v := by
  simp only [cargoEnv, mem_filter, mem_map, Prod.mk.injEq]
  exact and_comm

theorem notMem_of_cargo {table : List Text} (htable : table ⊆ fingerprintNames)
    (h : isConservativelyKeyedCargoEnv name = true) : name ∉ table := by
  have hnames : ∀ name ∈ fingerprintNames, isConservativelyKeyedCargoEnv name = false := by decide
  intro hmem
  rw [hnames name (htable hmem)] at h
  cases h

theorem mem_fingerprint_cargo (h : isConservativelyKeyedCargoEnv name = true) :
    (name, v) ∈ requestEnvFingerprintVars cargo env ↔
      cargo = true ∧ ∃ e ∈ env, e.1.val = name ∧ e.2.val = v := by
  have hcoll : ∀ {table : List Text} {caseInsensitive : Bool}, table ⊆ fingerprintNames →
      (name, v) ∉ collect env table caseInsensitive :=
    fun htable hmem => notMem_of_cargo htable h (mem_table_of_collect hmem)
  rw [mem_requestEnvFingerprintVars_iff]
  constructor
  · rintro (⟨e, he, hkeyed, hname, hv⟩ | hmem | hmem | hmem | hmem | hmem | hmem)
    · have hctrl : name ∉ requestControlEnvKeyed := notMem_of_cargo (by decide) h
      simp only [h, Bool.and_true, hctrl, decide_false, Bool.or_false] at hkeyed
      exact ⟨hkeyed, e, he, hname, hv⟩
    · exact absurd hmem (hcoll (by decide))
    · exact absurd hmem (hcoll (by decide))
    · exact absurd hmem (hcoll (by decide))
    · exact absurd hmem (hcoll (by decide))
    · exact absurd (mem_collectLinkTable_iff.mp hmem).1 (notMem_of_cargo (by decide) h)
    · exact absurd hmem (hcoll (by decide))
  · rintro ⟨rfl, e, he, hname, hv⟩
    exact .inl ⟨e, he, by simp [h], hname, hv⟩

theorem notMem_otherTables (h : name ∈ rustcEnvKeyed ++ appleEnvKeyed ++ linkEnvKeyed) :
    (cargo && isConservativelyKeyedCargoEnv name || name ∈ requestControlEnvKeyed) = false ∧
      name ∉ msvcCcEnvKeyed ∧ name ∉ localeEnvKeyed := by
  have hall : ∀ name ∈ rustcEnvKeyed ++ appleEnvKeyed ++ linkEnvKeyed,
      (isConservativelyKeyedCargoEnv name = false ∧ name ∉ requestControlEnvKeyed) ∧
        name ∉ msvcCcEnvKeyed ∧ name ∉ localeEnvKeyed := by decide
  obtain ⟨⟨hcargo, hctrl⟩, hother⟩ := hall name h
  refine ⟨?_, hother⟩
  rw [hcargo, Bool.and_false, Bool.false_or]
  exact decide_eq_false hctrl

theorem mem_fingerprint_exact (h : name ∈ rustcEnvKeyed ++ appleEnvKeyed) :
    (name, v) ∈ requestEnvFingerprintVars cargo env ↔ lastValue env (· = name) = some v := by
  have hlink : name ∉ linkEnvKeyed := by
    revert h name
    decide
  obtain ⟨hctrl, hmsvc, hlocale⟩ := notMem_otherTables (mem_append_left linkEnvKeyed h)
  rw [mem_requestEnvFingerprintVars_iff, hctrl]
  constructor
  · rintro (⟨_, _, hfalse, _⟩ | hmem | hmem | hmem | hmem | hmem | hmem)
    · cases hfalse
    · exact (mem_collect.mp hmem).2
    · exact absurd (mem_table_of_collect hmem) hmsvc
    · exact (mem_collect.mp hmem).2
    · exact (mem_collect.mp hmem).2
    · exact absurd (mem_collectLinkTable_iff.mp hmem).1 hlink
    · exact absurd (mem_table_of_collect hmem) hlocale
  · intro hv
    rcases mem_append.mp h with hrustc | happle
    · exact .inr (.inr (.inr (.inl (mem_collect.mpr ⟨hrustc, hv⟩))))
    · exact .inr (.inr (.inr (.inr (.inl (mem_collect.mpr ⟨happle, hv⟩)))))

theorem mem_fingerprint_link (h : name ∈ linkEnvKeyed) :
    (name, v) ∈ requestEnvFingerprintVars cargo env ↔
      (lastValue env (· = name)).or (lastValue env (eqIgnoreAsciiCase · name)) = some v := by
  have hexact : name ∉ rustcEnvKeyed ∧ name ∉ appleEnvKeyed := by
    revert h name
    decide
  obtain ⟨hctrl, hmsvc, hlocale⟩ := notMem_otherTables (mem_append_right _ h)
  rw [mem_requestEnvFingerprintVars_iff, hctrl]
  constructor
  · rintro (⟨_, _, hfalse, _⟩ | hmem | hmem | hmem | hmem | hmem | hmem)
    · cases hfalse
    · rw [(mem_collect.mp hmem).2, Option.some_or]
    · exact absurd (mem_table_of_collect hmem) hmsvc
    · exact absurd (mem_table_of_collect hmem) hexact.1
    · exact absurd (mem_table_of_collect hmem) hexact.2
    · exact (mem_collectLinkTable_iff.mp hmem).2
    · exact absurd (mem_table_of_collect hmem) hlocale
  · intro hv
    exact .inr (.inr (.inr (.inr (.inr (.inl (mem_collectLinkTable_iff.mpr ⟨h, hv⟩))))))

theorem mem_tables_of_keyedRustcEnv {facts : RustcEnvFacts}
    (h : (name, v) ∈ keyedRustcEnv env facts) :
    name ∈ rustcEnvKeyed ++ appleEnvKeyed ++ linkEnvKeyed := by
  simp only [keyedRustcEnv, mem_append] at h ⊢
  rcases h with (hrustc | happle) | hlink
  · exact .inl (.inl (mem_table_of_collect hrustc))
  · split at happle
    · exact .inl (.inr (mem_table_of_collect happle))
    · cases happle
  · split at hlink
    · exact .inr (mem_collectLinkTable_iff.mp hlink).1
    · cases hlink

theorem keyedRustcEnv_subset (facts : RustcEnvFacts) :
    keyedRustcEnv env facts ⊆ requestEnvFingerprintVars cargo env := by
  rintro ⟨name, v⟩ h
  simp only [keyedRustcEnv, mem_append] at h
  rw [mem_requestEnvFingerprintVars_iff]
  rcases h with (hrustc | happle) | hlink
  · exact .inr (.inr (.inr (.inl hrustc)))
  · split at happle
    · exact .inr (.inr (.inr (.inr (.inl happle))))
    · cases happle
  · split at hlink
    · exact .inr (.inr (.inr (.inr (.inr (.inl hlink)))))
    · cases hlink

theorem keyedRustcEnv_of_fingerprint
    (h : requestEnvFingerprintVars cargo env = requestEnvFingerprintVars cargo env')
    (facts : RustcEnvFacts) : keyedRustcEnv env facts = keyedRustcEnv env' facts := by
  have hexact : ∀ table ⊆ rustcEnvKeyed ++ appleEnvKeyed,
      collect env table false = collect env' table false := by
    intro table htable
    refine filterMap_congr fun name hname => ?_
    have hlast : lastValue env (· = name) = lastValue env' (· = name) := by
      ext v
      rw [← mem_fingerprint_exact (htable hname), h, mem_fingerprint_exact (htable hname)]
    simp only [Bool.false_eq_true, if_false, hlast]
  have hlink : collectLinkTable env = collectLinkTable env' := by
    refine filterMap_congr fun name hname => ?_
    congr 1
    ext v
    rw [← mem_fingerprint_link hname, h, mem_fingerprint_link hname]
  unfold keyedRustcEnv
  rw [hexact rustcEnvKeyed (subset_append_left _ _),
    hexact appleEnvKeyed (subset_append_right _ _), hlink]

theorem cargoEnv_perm
    (h : requestEnvFingerprintVars true env = requestEnvFingerprintVars true env')
    (hnodup : (cargoEnv env).Nodup) (hnodup' : (cargoEnv env').Nodup) :
    (cargoEnv env).Perm (cargoEnv env') := by
  rw [perm_ext_iff_of_nodup hnodup hnodup']
  rintro ⟨name, v⟩
  rw [mem_cargoEnv, mem_cargoEnv]
  refine and_congr_right fun hcargo => ?_
  have hmem : (name, v) ∈ requestEnvFingerprintVars true env ↔
      (name, v) ∈ requestEnvFingerprintVars true env' := by rw [h]
  simpa [mem_fingerprint_cargo hcargo] using hmem

end Tables

namespace RustcCommand

variable {c : RustcCommand} {compilerHash : D} {env env' : Env}

theorem contextEnv_eq :
    c.contextEnv compilerHash env = sortBy toLex (keyedRustcEnv env c.envFacts ++
      if c.envFacts.mayReadEnvUntracked then cargoEnv env else []) := by
  have hkeyed : ∀ name, name ∈ rustcEnvKeyed ++ appleEnvKeyed ++ linkEnvKeyed ∨
      isConservativelyKeyedCargoEnv name = true →
      (!(isVolatileCargoEnvVar name || name = dylintCacheInputHashEnv ||
        isNeverKeyedEnv name)) = true := by
    rintro name (htable | hcargo)
    · revert htable name
      decide
    · have hne : name ≠ dylintCacheInputHashEnv := by
        rintro rfl
        revert hcargo
        decide
      unfold isConservativelyKeyedCargoEnv at hcargo
      simp only [Bool.and_eq_true, Bool.not_eq_true'] at hcargo
      simp [hcargo, hne]
  have henv : (rustcContext c.cwd env compilerHash c.isPlainRustcDriver c.rustcArgs).envVars =
      sortBy toLex (keyedRustcEnv env c.envFacts ++
        if c.envFacts.mayReadEnvUntracked then cargoEnv env else []) := rfl
  rw [contextEnv, RustcCompileContext.selectedEnv, henv, filter_eq_self]
  rintro ⟨name, v⟩ hmem
  refine hkeyed name ?_
  rw [mem_sortBy, mem_append] at hmem
  rcases hmem with htable | hcargo
  · exact .inl (mem_tables_of_keyedRustcEnv htable)
  · split at hcargo
    · exact .inr (mem_cargoEnv.mp hcargo).1
    · cases hcargo

theorem isDylintDriver_of_isPlainRustc {compiler : Text} (h : isPlainRustc compiler = true) :
    isDylintDriver compiler = false := by
  have hstem : executableStem compiler = "rustc" := by
    have hplain := of_decide_eq_true h
    unfold executableStem
    dsimp only
    cases hexe : dropSuffix ".exe" (baseName compiler) with
    | some stem =>
      rw [hexe, Option.getD_some] at hplain
      rw [hplain, Option.some_or, Option.getD_some]
    | none =>
      rw [hexe, Option.getD_none] at hplain
      rw [hplain]
      decide
  rw [isDylintDriver, hstem]
  decide

theorem depInfo_mem_emitTypes {args : List Text} (cwd : Path) :
    "dep-info".toList ∈ (parseRustcArgs args cwd).emitTypes ↔
      ∃ kinds, .emit kinds ∈ rustcActions args ∧ listsDepInfo kinds = true := by
  have hkinds : ∀ kinds, listsDepInfo kinds = true ↔
      "dep-info".toList ∈ (RustcAction.emit kinds).emitTypesOf := by
    intro kinds
    simp only [listsDepInfo, any_eq_true, decide_eq_true_eq, RustcAction.emitTypesOf,
      mem_map]
  have hmem : "dep-info".toList ∈ (parseRustcArgs args cwd).emitTypes ↔
      ∃ a ∈ rustcActions args, "dep-info".toList ∈ a.emitTypesOf :=
    mem_eraseRepeats.trans mem_flatMap
  rw [hmem]
  constructor
  · rintro ⟨a, ha, hat⟩
    cases a with
    | emit kinds => exact ⟨kinds, ha, (hkinds kinds).mpr hat⟩
    | _ => cases hat
  · rintro ⟨kinds, hmem, hlists⟩
    exact ⟨_, hmem, (hkinds kinds).mp hlists⟩

/-- The fingerprint holds the variables of cargo whenever the key does, just when the arguments
are read alike. -/
theorem readAlike_iff :
    c.ReadAlike ↔ (c.envFacts.mayReadEnvUntracked = true →
      keysCargoEnv c.compiler.caseKey c.args = true) := by
  unfold ReadAlike keysCargoEnv
  rw [decide_eq_true c.isRustc, Bool.true_and]
  cases hplain : isPlainRustc c.compiler.caseKey with
  | false => simp
  | true =>
    have hinner : dylintInnerRustcArgs c.compiler.caseKey c.args = .ok none := by
      simp [dylintInnerRustcArgs, isDylintDriver_of_isPlainRustc hplain]
    have huntr : c.envFacts.mayReadEnvUntracked =
        (!(parseRustcArgs c.args c.cwd).emitTypes.contains "dep-info".toList ||
          ((parseRustcArgs c.args c.cwd).externs.map fun e => toText e.path.path).any
            isDylibPath) := by
      simp [envFacts, RustcEnvFacts.fromParts, rustcArgs, isPlainRustcDriver, hinner, hplain]
    rw [huntr, ← depInfo_mem_emitTypes c.cwd]
    cases argvEmitsDepInfo c.args <;> cases argvMayLoadProcMacro c.args <;> simp

/-- For environments without repeated variables of cargo the fingerprint is as fine as the key
just when the arguments are read alike. -/
theorem envAsFine_iff (compilerHash : D) (c : RustcCommand) :
    (∀ env env' : Env, (cargoEnv env).Nodup → (cargoEnv env').Nodup →
      c.EnvAsFine compilerHash env env') ↔ c.ReadAlike := by
  rw [readAlike_iff]
  constructor
  · intro hfine huntr
    let env : Env := [(⟨"CARGO_PKG_VERSION", by decide⟩, ⟨"1", by decide⟩)]
    have hcargo : isConservativelyKeyedCargoEnv "CARGO_PKG_VERSION" = true := by decide
    have hmem : ("CARGO_PKG_VERSION".toList, "1".toList) ∈ c.contextEnv compilerHash env := by
      rw [contextEnv_eq, if_pos huntr, mem_sortBy]
      exact mem_append_right _ (by decide)
    exact ((mem_fingerprint_cargo hcargo).mp
      ((hfine env env (by decide) (by decide)).subset hmem)).1
  · intro hkeyed env env' hnodup hnodup'
    constructor
    · rw [contextEnv_eq]
      rintro ⟨name, v⟩ hmem
      rw [mem_sortBy, mem_append] at hmem
      rcases hmem with htable | hcargo
      · exact keyedRustcEnv_subset c.envFacts htable
      · split at hcargo
        · next huntr =>
          obtain ⟨hname, hmem⟩ := mem_cargoEnv.mp hcargo
          exact (mem_fingerprint_cargo hname).mpr ⟨hkeyed huntr, hmem⟩
        · cases hcargo
    · intro heq
      rw [contextEnv_eq, contextEnv_eq, keyedRustcEnv_of_fingerprint heq]
      refine sortBy_eq_of_perm toLex.injective (List.Perm.append_left _ ?_)
      split
      · next huntr =>
        unfold fingerprintEnv at heq
        rw [hkeyed huntr] at heq
        exact cargoEnv_perm heq hnodup hnodup'
      · exact List.Perm.refl _

def plainCommand (args : List String) : RustcCommand where
  compiler := .new "rustc"
  args := texts args
  cwd := components "/work"
  isRustc := by decide

def packageEnv (versions : List Name) : Env :=
  versions.map fun version => (⟨"CARGO_PKG_VERSION", by decide⟩, version)

/-- A remap whose value looks like `--emit` hides the version of the package from the fingerprint,
and so does a variable that is listed twice hide the second entry. -/
theorem emit_value_mistaken :
    let c := plainCommand
      ["--remap-path-prefix", "--emit=dep-info", "--crate-type", "lib", "lib.rs"]
    let c' := plainCommand ["--crate-type", "lib", "lib.rs"]
    let one : Name := ⟨"1", by decide⟩
    let two : Name := ⟨"2", by decide⟩
    isCacheableRustc false c.args ∧
      c.fingerprintEnv (packageEnv [one]) = c.fingerprintEnv (packageEnv [two]) ∧
      c.contextEnv () (packageEnv [one]) ≠ c.contextEnv () (packageEnv [two]) ∧
      ¬ c.contextEnv () (packageEnv [one]) ⊆ c.fingerprintEnv (packageEnv [one]) ∧
      isCacheableRustc false c'.args ∧
      c'.fingerprintEnv (packageEnv [one]) = c'.fingerprintEnv (packageEnv [one, one]) ∧
      c'.contextEnv () (packageEnv [one]) ≠ c'.contextEnv () (packageEnv [one, one]) := by
  refine ⟨?_, ?_, ?_, ?_, ?_, ?_, ?_⟩ <;> decide +kernel

end RustcCommand

end Zccache
