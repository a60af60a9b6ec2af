import Zccache.Request.KeyEnv

/-! # Compiler invocations

The classifier decides from the compiler and its arguments whether an
invocation is one compilation, several or nothing that can be cached. It reads
the arguments as they are spelled.
-/

namespace Zccache

open Unix

def fileName (p : Path) : Option Text :=
  match p.getLast? with
  | some (.normal name) => some name.val
  | _ => none

/-- The parts of a file name around its last dot, unless the dot comes first. -/
def splitAtLastDot (name : Text) : Text × Option Text :=
  match splitOnce '.' name.reverse with
  | none => (name, none)
  | some (_, []) => (name, none)
  | some (after, before) => (before.reverse, some after.reverse)

def fileStem (p : Path) : Option Text :=
  (fileName p).map fun name => (splitAtLastDot name).1

def extension (p : Path) : Option Text :=
  (fileName p).bind fun name => (splitAtLastDot name).2

/-- The text after the last occurrence of a separator of either kind. -/
def baseName (t : Text) : Text :=
  (t.reverse.takeWhile fun c => c ≠ '/' ∧ c ≠ '\\').reverse

def dropSuffix (suffix t : Text) : Option Text :=
  (t.reverse.dropPrefix? suffix.reverse).map List.reverse

def executableStem (executable : Text) : Text :=
  let base := baseName executable
  ((dropSuffix ".exe" base).or (dropSuffix ".EXE" base)).getD base

def isDylintDriver (executable : Text) : Bool :=
  executableStem executable = "dylint-driver"

/-- The base name without what follows its last dot. -/
def compilerStem (compiler : Text) : Text :=
  match splitOnce '.' (baseName compiler).reverse with
  | some (_, stem) => stem.reverse
  | none => baseName compiler

/-- A program by its name, or by its name and a version. -/
def isVersionOf (program : String) (name : Text) : Bool :=
  name = program.toList || (program.toList ++ ['-']).isPrefixOf name

def isClangClName (name : Text) : Bool :=
  isVersionOf "clang-cl" (name.map Char.toLower)

def detectFamily (compiler : Text) : CompilerFamily :=
  let name := compilerStem compiler
  if isVersionOf "rustfmt" name then .rustfmt
  else if isDylintDriver compiler || isVersionOf "rustc" name ||
      isVersionOf "clippy-driver" name then .rustc
  else if isClangClName name then .msvc
  else if name.tails.any ("clang".toList.isPrefixOf ·) || name ∈ texts ["emcc", "em++"] then .clang
  else if eqIgnoreAsciiCase name "cl" then .msvc
  else .gcc

def CompilerFamily.pchExtension : CompilerFamily → Option Text
  | gcc => some "gch"
  | clang => some "pch"
  | msvc | rustc | rustfmt => none

/-- One segment after a leading `/` that starts with a letter is taken for a slash flag. -/
def looksLikeMsvcArgs (args : List Text) : Bool :=
  args.any fun arg =>
    match arg with
    | '/' :: first :: rest => first.isAlpha && !(first :: rest).contains '/'
    | _ => false

section Sources

inductive SourceMode where
  | normal
  | header
  | headerUnit
  | module
  deriving DecidableEq

def SourceMode.impliesCompilation : SourceMode → Bool
  | header | headerUnit => true
  | normal | module => false

def sourceModeFromLanguage (lang : Text) : Option SourceMode :=
  if lang ∈ texts ["c-header", "c++-header"] then some .header
  else if lang ∈ texts ["c-header-unit", "c++-header-unit"] then some .headerUnit
  else if lang = "c++-module" then some .module
  else none

def sourceExtensions : List Text :=
  texts ["c", "cc", "cpp", "cxx", "c++", "C", "m", "mm", "i", "ii", "cppm", "ixx", "s", "S"]

def moduleExtensions : List Text :=
  texts ["cppm", "ixx"]

def hasExtension (table : List Text) (t : Text) : Bool :=
  match extension (components t) with
  | some ext => ext ∈ table
  | none => false

def sourceModeFromExtension (t : Text) : SourceMode :=
  if hasExtension moduleExtensions t then .module else .normal

def gnuFlagsWithValue : List Text :=
  texts ["-o", "-D", "-U", "-I", "-isystem", "-iquote", "-idirafter", "-include", "-include-pch",
    "-imacros", "-isysroot", "-target", "--target", "-MF", "-MQ", "-MT", "-std", "-x", "-arch",
    "-march", "-mtune", "-mcpu", "-Xclang", "-mllvm", "--serialize-diagnostics"]

/-- What the classifier has seen of the arguments. -/
structure GnuScan where
  hasC : Bool
  hasPrecompile : Bool
  sources : List (Text × SourceMode)
  output : Option Text
  mode : SourceMode
  unknownFlags : List Text
  positionalOnly : Bool

def GnuScan.start : GnuScan where
  hasC := false
  hasPrecompile := false
  sources := []
  output := none
  mode := .normal
  unknownFlags := []
  positionalOnly := false

/-- In a special mode every operand is a source, else its extension decides. -/
def GnuScan.operand (s : GnuScan) (arg : Text) : GnuScan :=
  let mode := if s.mode ≠ .normal then s.mode else sourceModeFromExtension arg
  if hasExtension sourceExtensions arg || s.mode ≠ .normal then
    { s with sources := s.sources ++ [(arg, mode)] }
  else s

/-- The value of a flag. Only the language of `-x` is looked at. -/
def GnuScan.flagValue (s : GnuScan) (arg next : Text) : GnuScan :=
  if arg = "-x" then { s with mode := (sourceModeFromLanguage next).getD .normal } else s

/-- Flags with which an invocation is never cached, and the reason given. -/
def uncacheableFlag (arg : Text) : Option Text :=
  if arg ∈ texts ["-E", "-M", "-MM"] then some ("preprocessing-only flag: " ++ arg)
  else if arg = "-" then some "stdin source not cacheable"
  else if arg = "-fprofile-use" then
    some "implicit -fprofile-use profile input is not cacheable"
  else none

/-- One pass over the arguments, or the reason why the invocation is not cached. -/
def scanGnu (s : GnuScan) : List Text → Except Text GnuScan
  | [] => .ok s
  | arg :: rest =>
    if s.positionalOnly then scanGnu (s.operand arg) rest
    else if arg = "--" then scanGnu { s with positionalOnly := true } rest
    else
      match uncacheableFlag arg with
      | some reason => .error reason
      | none =>
        if arg = "-c" then scanGnu { s with hasC := true } rest
        else if arg = "--precompile" then scanGnu { s with hasPrecompile := true } rest
        else if arg = "-o" then
          match rest with
          | [] => .ok s
          | next :: rest => scanGnu { s with output := some next } rest
        else
          match arg.dropPrefix? "-o" with
          | some path => scanGnu { s with output := some path } rest
          | none =>
            if arg ∈ gnuFlagsWithValue then
              match rest with
              | [] => .ok s
              | next :: rest => scanGnu (s.flagValue arg next) rest
            else if arg.head? = some '-' then
              scanGnu { s with unknownFlags := s.unknownFlags ++ [arg] } rest
            else scanGnu (s.operand arg) rest

/-- What the scan makes of one argument before any `--`. -/
inductive ScanStep where
  | reject (reason : Text)
  | alone (update : GnuScan → GnuScan)
  | valued (update : Text → GnuScan → GnuScan)

def scanStep (arg : Text) : ScanStep :=
  match uncacheableFlag arg with
  | some reason => .reject reason
  | none =>
    if arg = "-c" then .alone fun s => { s with hasC := true }
    else if arg = "--precompile" then .alone fun s => { s with hasPrecompile := true }
    else if arg = "-o" then .valued fun next s => { s with output := some next }
    else
      match arg.dropPrefix? "-o" with
      | some path => .alone fun s => { s with output := some path }
      | none =>
        if arg ∈ gnuFlagsWithValue then .valued fun next s => s.flagValue arg next
        else if arg.head? = some '-' then
          .alone fun s => { s with unknownFlags := s.unknownFlags ++ [arg] }
        else .alone fun s => s.operand arg

variable {s : GnuScan}

theorem scanGnu_positional (hpos : s.positionalOnly = true) (arg : Text) (rest : List Text) :
    scanGnu s (arg :: rest) = scanGnu (s.operand arg) rest := by
  conv_lhs => unfold scanGnu
  rw [if_pos hpos]

theorem scanGnu_dashes (hpos : s.positionalOnly = false) (rest : List Text) :
    scanGnu s ("--" :: rest) = scanGnu { s with positionalOnly := true } rest := by
  conv_lhs => unfold scanGnu
  rw [if_neg (Bool.eq_false_iff.mp hpos), if_pos rfl]

theorem scanGnu_cons {arg : Text} (hpos : s.positionalOnly = false) (hne : arg ≠ "--")
    (rest : List Text) :
    scanGnu s (arg :: rest) =
      match scanStep arg, rest with
      | .reject reason, _ => .error reason
      | .alone update, rest => scanGnu (update s) rest
      | .valued _, [] => .ok s
      | .valued update, next :: rest => scanGnu (update next s) rest := by
  conv_lhs => unfold scanGnu
  rw [if_neg (Bool.eq_false_iff.mp hpos), if_neg hne]
  unfold scanStep
  cases uncacheableFlag arg with
  | some reason => rfl
  | none =>
    dsimp only
    split
    · rfl
    split
    · rfl
    split
    · cases rest <;> rfl
    cases arg.dropPrefix? "-o" with
    | some path => rfl
    | none =>
      dsimp only
      split
      · cases rest <;> rfl
      split <;> rfl

theorem scanStep_eq_valued {arg : Text} {update : Text → GnuScan → GnuScan}
    (h : scanStep arg = .valued update) : arg ∈ gnuFlagsWithValue := by
  unfold scanStep at h
  split at h
  · cases h
  split at h
  · cases h
  split at h
  · cases h
  split at h
  · next ho => exact ho ▸ by decide
  split at h
  · cases h
  split at h
  · assumption
  · split at h <;> cases h

end Sources

def sideOutputPrefixes : List Text :=
  texts ["--serialize-diagnostics", "-dependency-file", "-mj", "-save-temps=", "-gsplit-dwarf",
    "-fdump-", "-ftime-trace=", "-fcallgraph-info", "-foptimization-record-file", "-fopt-info",
    "-fdiagnostics-file=", "-fdiagnostics-format=sarif-file"]

def sideOutputFlags : List Text :=
  texts ["-save-temps", "--coverage", "-coverage", "-fprofile-arcs", "-ftest-coverage",
    "-ftime-trace", "-fstack-usage", "-fsave-optimization-record"]

/-- A flag that makes the compiler write more than its object and depfile. -/
def isSideOutputFlag (arg : Text) : Bool :=
  let lower := arg.map Char.toLower
  sideOutputPrefixes.any (·.isPrefixOf lower) || lower ∈ sideOutputFlags ||
    "-fmodule".toList.isPrefixOf lower && lower ≠ "-fmodules-ts" ||
    "-wa,".toList.isPrefixOf lower && lower.contains '='

def unmodeledSideOutputFlag (args : List Text) : Option Text :=
  args.find? isSideOutputFlag

/-- The output next to the working directory that stands in for a missing `-o`. -/
def defaultOutput (source : Text) (family : CompilerFamily) (mode : SourceMode)
    (hasPrecompile : Bool) : Text :=
  let path := components source
  let object := (fileStem path).getD "a" ++ ".o"
  match mode with
  | .header =>
    match family.pchExtension with
    | some ext => (fileName path).getD source ++ '.' :: ext
    | none => object
  | .headerUnit => (fileName path).getD source ++ ".pcm"
  | .module | .normal =>
    if hasPrecompile then (fileStem path).getD "a" ++ ".pcm" else object

structure CacheableCompilation where
  compiler : NormalizedPath
  family : CompilerFamily
  sourceFile : NormalizedPath
  outputFile : NormalizedPath
  originalArgs : List Text
  unknownFlags : List Text

inductive ParsedInvocation where
  | cacheable (compilation : CacheableCompilation)
  | multiFile (compilations : List CacheableCompilation)
  | nonCacheable (reason : Text)

def gnuCompilation (compiler : Text) (args : List Text) (s : GnuScan) (source : Text)
    (output : Text) : CacheableCompilation where
  compiler := .new compiler
  family := detectFamily compiler
  sourceFile := .new source
  outputFile := .new output
  originalArgs := args
  unknownFlags := s.unknownFlags

/-- The classifier for gcc and clang with GNU style arguments. -/
def parseGnuInvocation (compiler : Text) (args : List Text) (rejectSideOutputs : Bool) :
    ParsedInvocation :=
  match scanGnu .start args with
  | .error reason => .nonCacheable reason
  | .ok s =>
    let output source mode :=
      s.output.getD (defaultOutput source (detectFamily compiler) mode s.hasPrecompile)
    if !s.hasC && !s.hasPrecompile && !s.mode.impliesCompilation then
      .nonCacheable "no -c flag (likely a link invocation)"
    else
      match s.sources, (unmodeledSideOutputFlag args).filter fun _ => rejectSideOutputs with
      | [], _ => .nonCacheable "no source file found"
      | _ :: _, some flag =>
        .nonCacheable ("unmodeled compiler side output requested by " ++ flag)
      | [(source, mode)], none =>
        .cacheable (gnuCompilation compiler args s source (output source mode))
      | sources, none =>
        if s.output.isSome then
          .nonCacheable "multi-file explicit output is compiler-owned"
        else
          let compilations := sources.map fun e =>
            gnuCompilation compiler args s e.1 (output e.1 e.2)
          if (compilations.map (·.outputFile)).Nodup then .multiFile compilations
          else .nonCacheable "multi-file output name collision"

theorem parseGnuInvocation_eq_cacheable {compiler : Text} {args : List Text} {reject : Bool}
    {c : CacheableCompilation} (h : parseGnuInvocation compiler args reject = .cacheable c) :
    c.originalArgs = args ∧ c.family = detectFamily compiler := by
  unfold parseGnuInvocation at h
  split at h
  · cases h
  · dsimp only at h
    split at h
    · cases h
    · split at h
      · cases h
      · cases h
      · cases h
        exact ⟨rfl, rfl⟩
      · split at h
        · cases h
        · split at h <;> cases h

end Zccache
