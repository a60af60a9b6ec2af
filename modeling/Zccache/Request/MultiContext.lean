import Zccache.Request.MsvcInvocation
import Zccache.Request.Salts

/-! # One source and many

A compilation of one source and a batch of several have builders of their own for
the context. Both choose a key parser, add the environment and the trace of includes,
mark how dependencies are found, and salt the context that is registered.
-/

namespace Zccache

open List Unix Units

variable {D : Type}

/-- The options for dependency files among the arguments. -/
structure UserDepFlags where
  hasMd : Bool
  hasMmd : Bool
  mfPath : Option NormalizedPath
  depfileToStdout : Bool

def UserDepFlags.default : UserDepFlags where
  hasMd := false
  hasMmd := false
  mfPath := none
  depfileToStdout := false

namespace UserDepFlags

def recordDepfilePath (cwd : Path) (path : Text) (d : UserDepFlags) : UserDepFlags :=
  { d with
    depfileToStdout := path = "-"
    mfPath := if path = "-" then none else some (resolvePath cwd path) }

def recordMd (option : Text) (d : UserDepFlags) : UserDepFlags :=
  { d with hasMd := true, hasMmd := option = "-MMD" }

end UserDepFlags

def joinedMf (option : Text) : Option Text :=
  (option.dropPrefix? "-MF").filter (· ≠ [])

def forwardedOptionTakesValue (option : Text) : Bool :=
  option ∈ gnuFlagsWithValue ||
    option ∈ texts ["-D", "-U", "-I", "-MT", "-MQ", "-include", "-imacros", "-isystem", "-iquote",
      "-idirafter", "-iprefix", "-iwithprefix", "-iwithprefixbefore", "-isysroot", "--sysroot"]

/-- The options that go on to the preprocessor. There `-MD` has the path as its value. -/
def parseForwardedStream (cwd : Path) (d : UserDepFlags) : List Text → UserDepFlags
  | [] => d
  | [option] =>
    if option ∈ texts ["-MD", "-MMD"] then d.recordMd option
    else
      match joinedMf option with
      | some path => d.recordDepfilePath cwd path
      | none => d
  | option :: next :: rest =>
    if option ∈ texts ["-MD", "-MMD"] then
      parseForwardedStream cwd ((d.recordMd option).recordDepfilePath cwd next) rest
    else if option ∈ texts ["-MF", "-dependency-file"] then
      parseForwardedStream cwd (d.recordDepfilePath cwd next) rest
    else
      match joinedMf option with
      | some path => parseForwardedStream cwd (d.recordDepfilePath cwd path) (next :: rest)
      | none =>
        if forwardedOptionTakesValue option then parseForwardedStream cwd d rest
        else parseForwardedStream cwd d (next :: rest)

/-- An option of the driver, which may take the next argument with it. -/
def parseDriverOption (cwd : Path) (option : Text) (next : Option Text) (d : UserDepFlags) :
    UserDepFlags × Bool :=
  if option ∈ texts ["-MD", "-MMD"] then (d.recordMd option, false)
  else if option = "-MF" then
    match next with
    | some path => (d.recordDepfilePath cwd path, true)
    | none => (d, false)
  else
    match joinedMf option with
    | some path => (d.recordDepfilePath cwd path, false)
    | none =>
      (d, (option ∈ gnuFlagsWithValue || option ∈ texts ["-MT", "-MQ"]) && next.isSome)

/-- `stream` holds the options of a run of `-Xpreprocessor` that has not ended yet. -/
def parseUserDepFlagsFrom (cwd : Path) (d : UserDepFlags) (stream : List Text) :
    List Text → UserDepFlags
  | [] => parseForwardedStream cwd d stream
  | [arg] =>
    match arg.dropPrefix? "-Xpreprocessor=" with
    | some option => parseForwardedStream cwd d (stream ++ [option])
    | none =>
      let d := parseForwardedStream cwd d stream
      match arg.dropPrefix? "-Wp," with
      | some options => parseForwardedStream cwd d (options.splitOn ',')
      | none => (parseDriverOption cwd arg none d).1
  | arg :: next :: rest =>
    if arg = "-Xpreprocessor" then
      parseUserDepFlagsFrom cwd d (stream ++ [next]) rest
    else
      match arg.dropPrefix? "-Xpreprocessor=" with
      | some option => parseUserDepFlagsFrom cwd d (stream ++ [option]) (next :: rest)
      | none =>
        let d := parseForwardedStream cwd d stream
        match arg.dropPrefix? "-Wp," with
        | some options =>
          parseUserDepFlagsFrom cwd (parseForwardedStream cwd d (options.splitOn ',')) []
            (next :: rest)
        | none =>
          match parseDriverOption cwd arg (some next) d with
          | (d, true) => parseUserDepFlagsFrom cwd d [] rest
          | (d, false) => parseUserDepFlagsFrom cwd d [] (next :: rest)

def parseUserDepFlags (args : List Text) (cwd : Path) : UserDepFlags :=
  parseUserDepFlagsFrom cwd .default [] args

/-- For cl the trace of includes is what `-MD` is for gcc. -/
def msvcUserDepFlags (args : List Text) : UserDepFlags :=
  { UserDepFlags.default with
    hasMd := (units keyTakesValue args).any fun u => (parseShowIncludesArg u.1).isSome }

inductive DependencyDiscoveryMode where
  | allHeaders
  | skipSystemHeaders
  deriving DecidableEq

def DependencyDiscoveryMode.marker : DependencyDiscoveryMode → Text
  | allHeaders => "zccache:dependency-discovery=all-headers"
  | skipSystemHeaders => "zccache:dependency-discovery=skip-system-headers"

def UserDepFlags.marker (d : UserDepFlags) : Text :=
  if d.hasMmd then "zccache:user-depfile=mmd"
  else if d.hasMd then "zccache:user-depfile=md"
  else "zccache:user-depfile=none"

def pushOnce (flags : List Text) (marker : Text) : List Text :=
  if marker ∈ flags then flags else flags ++ [marker]

/-- Mark how dependencies are found, so that a partial list is not taken for a full one. -/
def DependencyDiscoveryMode.applyToCcContext (mode : DependencyDiscoveryMode)
    (ctx : CompileContext D) (d : UserDepFlags) : CompileContext D :=
  { ctx with unknownFlags := pushOnce (pushOnce ctx.unknownFlags mode.marker) d.marker }

def DependencyDiscoveryMode.applyUserDepfileContentToCcContext (ctx : CompileContext D)
    (d : UserDepFlags) (args : List Text) (keyRoot : Option Text) : CompileContext D :=
  withSalts ctx (userDepfileContent d.hasMd args keyRoot)

def sourceModeForKey (output : NormalizedPath) : SourceMode :=
  if extension output.path ∈ [some "pch".toList, some "gch".toList] then .header else .normal

def pchSalts (H : Hasher D) (mode : SourceMode) (cwd : Path) (args : List Text) : List Text :=
  if mode = .header then [exactInvocationKeyFlag H cwd args] else []

def saltPchKey (H : Hasher D) (ctx : CompileContext D) (mode : SourceMode) (cwd : Path)
    (args : List Text) : CompileContext D :=
  withSalts ctx (pchSalts H mode cwd args)

section Builders

def msvcShowIncludesKeyFlags (family : CompilerFamily) (args : List Text) : Option Text :=
  if family ≠ .msvc then none
  else
    (msvcShowIncludesMode args).map fun
      | .all => "zccache:msvc-showincludes:all"
      | .userOnly => "zccache:msvc-showincludes:user"

/-- A context and the options for dependency files that were found on the way. -/
structure BuildContextResult (D : Type) where
  ctx : CompileContext D
  depFlags : UserDepFlags

variable (fs : FileSystem) (cwd : Path) (systemIncludes : List NormalizedPath) (env : Env)
  (compilerHash : D)

variable (compilation : CacheableCompilation) (mode : DependencyDiscoveryMode)
variable (family : CompilerFamily)

def unitSource : NormalizedPath :=
  let source := compilation.sourceFile
  if source.path.head? = some .rootDir then source else .ofPath (join cwd source.path)

def saltedContext (args : List Text) (parsed : ParsedArgs) :
    CompileContext D :=
  let ctx := CompileContext.fromParsedArgs parsed compilerHash
  { ctx with
    flags := sortTexts (ctx.flags ++ ccEnvKeyFlags family env ++
      (msvcShowIncludesKeyFlags family args).toList)
    includeSearch := { ctx.includeSearch with
      system := systemIncludes.foldl (fun dirs dir => if dir ∈ dirs then dirs else dirs ++ [dir])
        ctx.includeSearch.system } }

/-- The lists of the arguments, and the options for dependency files. -/
def parseCcArgs (msvc : Bool) (args : List Text) : ParsedArgs × UserDepFlags :=
  if msvc then (parseMsvcArgs args cwd, msvcUserDepFlags args)
  else (parseGnuArgs fs args cwd, parseUserDepFlags args cwd)

/-- The builder for one source chooses the parser by the family alone. -/
def BuildContextResult.buildCcCompileContext :
    BuildContextResult D :=
  let args := compilation.originalArgs
  let parsed := parseCcArgs fs cwd (compilation.family = .msvc) args
  { ctx :=
      { saltedContext systemIncludes env compilerHash compilation.family args parsed.1 with
        sourceFile := unitSource cwd compilation }
    depFlags := parsed.2 }

/-- The builder for several sources goes by the look of the arguments too. -/
def buildMultiBaseContext (args : List Text)
    (mode : DependencyDiscoveryMode) : BuildContextResult D :=
  let parsed := parseCcArgs fs cwd (family = .msvc || looksLikeMsvcArgs args) args
  { ctx := mode.applyToCcContext
      (saltedContext systemIncludes env compilerHash family args parsed.1) parsed.2
    depFlags := parsed.2 }

variable (H : Hasher D) (root : Path)

/-- The context that is registered for a single source. -/
def singleUnitContext (compilation : CacheableCompilation) :
    CompileContext D :=
  let built := BuildContextResult.buildCcCompileContext fs cwd systemIncludes env compilerHash
    compilation
  let ctx := mode.applyToCcContext built.ctx built.depFlags
  let ctx := saltPchKey H ctx (sourceModeForKey compilation.outputFile) cwd compilation.originalArgs
  DependencyDiscoveryMode.applyUserDepfileContentToCcContext ctx built.depFlags
    compilation.originalArgs (some (toText root))

/-- The context that is registered for one source in a batch: that of the batch with the source of
the unit. A hit in a batch does not put a root back into its dependency file, so the salt keeps the
root as it is. -/
def multiUnitContext (compilation : CacheableCompilation) :
    CompileContext D :=
  let base := buildMultiBaseContext fs cwd systemIncludes env compilerHash compilation.family
    compilation.originalArgs mode
  DependencyDiscoveryMode.applyUserDepfileContentToCcContext
    { base.ctx with sourceFile := unitSource cwd compilation } base.depFlags
    compilation.originalArgs none

/-- There is no precompiled header, and no dependency file that names the root. -/
def SaltsAgree : Prop :=
  sourceModeForKey compilation.outputFile = .normal ∧
    UnsaltedArgs
      (parseCcArgs fs cwd (compilation.family = .msvc) compilation.originalArgs).2.hasMd
      compilation.originalArgs (toText root)

end Builders

def parseCcInvocation (compiler : Text) (args : List Text) : Option ParsedInvocation :=
  match detectFamily compiler with
  | .rustc | .rustfmt => none
  | .msvc => some (parseMsvcInvocation compiler args .msvc)
  | family =>
    if looksLikeMsvcArgs args then some (parseMsvcInvocation compiler args family)
    else some (parseGnuInvocation compiler args true)

variable {compiler : Text} {args : List Text} {compilation : CacheableCompilation}

theorem parseCcInvocation_eq_cacheable
    (h : parseCcInvocation compiler args = some (.cacheable compilation)) :
    compilation.originalArgs = args ∧ compilation.family = detectFamily compiler := by
  unfold parseCcInvocation at h
  split at h
  · cases h
  · cases h
  · next hfam =>
    rw [hfam]
    exact parseMsvcInvocation_eq_cacheable (Option.some.inj h)
  · split at h
    · exact parseMsvcInvocation_eq_cacheable (Option.some.inj h)
    · exact parseGnuInvocation_eq_cacheable (Option.some.inj h)

section Agreement

variable (H : Host D) (fs : FileSystem) (cwd root : Path) (systemIncludes : List NormalizedPath)
  (env : Env) (compilerHash : D) (mode : DependencyDiscoveryMode) (worktreeSalt : Option Path)

theorem pchSalts_eq_nil_iff {output : NormalizedPath} :
    pchSalts H.toHasher (sourceModeForKey output) cwd args = [] ↔
      sourceModeForKey output = .normal := by
  unfold pchSalts sourceModeForKey
  split <;> simp

theorem isSalt_pchSalts {sourceMode : SourceMode} :
    ∀ flag ∈ pchSalts H.toHasher sourceMode cwd args, IsSalt flag := by
  intro flag h
  unfold pchSalts at h
  split at h
  · exact mem_singleton.mp h ▸ isSalt_exactInvocationKeyFlag H.toHasher cwd args
  · cases h

/-- With one parser for both ways, the registered contexts differ in their salts only. -/
theorem unitContexts_eq_withSalts
    (hparser : (compilation.family = .msvc || looksLikeMsvcArgs compilation.originalArgs) =
      decide (compilation.family = .msvc)) :
    let args := compilation.originalArgs
    let hasMd := (parseCcArgs fs cwd (compilation.family = .msvc) args).2.hasMd
    ∃ ctx : CompileContext D,
      singleUnitContext fs cwd systemIncludes env compilerHash mode H.toHasher root compilation =
        withSalts ctx (pchSalts H.toHasher (sourceModeForKey compilation.outputFile) cwd args ++
          userDepfileContent hasMd args (some (toText root))) ∧
      multiUnitContext fs cwd systemIncludes env compilerHash mode compilation =
        withSalts ctx (userDepfileContent hasMd args none) := by
  refine ⟨mode.applyToCcContext (BuildContextResult.buildCcCompileContext fs cwd systemIncludes env
    compilerHash compilation).ctx (parseCcArgs fs cwd (compilation.family = .msvc)
      compilation.originalArgs).2, withSalts_withSalts _, ?_⟩
  simp only [multiUnitContext, buildMultiBaseContext, hparser]
  rfl

/-- Where both ways choose the same parser, they give one source the same key just when they salt
it alike. -/
theorem unitContextKeys_agree_iff (hH : Function.Injective H.digest)
    (h : parseCcInvocation compiler args = some (.cacheable compilation))
    (hnul : ∀ arg ∈ args, nul ∉ arg)
    (hparser : detectFamily compiler = .msvc ∨ looksLikeMsvcArgs args = false) :
    computeContextKey H (singleUnitContext fs cwd systemIncludes env compilerHash mode H.toHasher
        root compilation) (some root) worktreeSalt =
      computeContextKey H (multiUnitContext fs cwd systemIncludes env compilerHash mode compilation)
        (some root) worktreeSalt ↔ SaltsAgree fs cwd compilation root := by
  obtain ⟨rfl, hfam⟩ := parseCcInvocation_eq_cacheable h
  rw [← hfam] at hparser
  have hone : (compilation.family = .msvc || looksLikeMsvcArgs compilation.originalArgs) =
      decide (compilation.family = .msvc) := by
    rcases hparser with hmsvc | hlooks
    · simp [hmsvc]
    · simp [hlooks]
  obtain ⟨ctx, hsingle, hmulti⟩ :=
    unitContexts_eq_withSalts H fs cwd root systemIncludes env compilerHash mode hone
  rw [hsingle, hmulti, contextKey_withSalts_eq_iff H (some root) worktreeSalt hH
    (isSalt_pchSalts H cwd) hnul, pchSalts_eq_nil_iff H cwd]
  rfl

end Agreement

/-- A unit has two keys if the parsers differ, if its dependency file names the root, or if it is
a precompiled header. With clang and a macro after `/D` one of the two leaves the macro out. -/
theorem unit_keyed_twice :
    let cwd := components "/work"
    let single c := computeContextKey .transparent (singleUnitContext .empty cwd [] [] ([] : Text)
      .allHeaders .transparent cwd c) (some cwd) none
    let multi c := computeContextKey .transparent (multiUnitContext .empty cwd [] [] ([] : Text)
      .allHeaders c) (some cwd) none
    (∃ c c', parseCcInvocation "clang" (texts ["/c", "/DX", "a.c"]) = some (.cacheable c) ∧
      parseCcInvocation "clang" (texts ["/c", "/DY", "a.c"]) = some (.cacheable c') ∧
      single c ≠ multi c ∧ single c = single c') ∧
    (∃ c, parseCcInvocation "gcc" (texts ["-c", "-MD", "-I/work/inc", "a.c"]) =
      some (.cacheable c) ∧ single c ≠ multi c) ∧
    ∃ c, parseCcInvocation "gcc" (texts ["-x", "c-header", "a.h", "-o", "a.gch"]) =
      some (.cacheable c) ∧ single c ≠ multi c := by
  refine ⟨⟨_, _, rfl, rfl, ?_, ?_⟩, ⟨_, rfl, ?_⟩, ⟨_, rfl, ?_⟩⟩
  all_goals decide +kernel

theorem unitContextKeys_agree_iff_relative :
    let cwd := components "/work"
    ∃ c, parseCcInvocation "gcc" (texts ["-c", "-MD", "-Iinc", "a.c"]) = some (.cacheable c) ∧
      computeContextKey .transparent (singleUnitContext .empty cwd [] [] ([] : Text) .allHeaders
          .transparent cwd c) (some cwd) none =
        computeContextKey .transparent (multiUnitContext .empty cwd [] [] ([] : Text) .allHeaders c)
          (some cwd) none :=
  ⟨_, rfl, (unitContextKeys_agree_iff .transparent .empty (components "/work") (components "/work")
    [] [] [] .allHeaders none transparent_injective
    (show parseCcInvocation "gcc" (texts ["-c", "-MD", "-Iinc", "a.c"]) = some (.cacheable _) from
      rfl) (by decide) (.inr (by decide))).mpr ⟨by decide, by decide⟩⟩

end Zccache
