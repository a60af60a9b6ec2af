import Zccache.Base.Lines
import Zccache.Request.RustcContext

/-! # Rustc arguments

The key parser goes through the arguments of rustc once. It takes an argument
alone or together with the one after it. The classifier decides from the same
arguments whether the invocation is cached.
-/

namespace Zccache

open Unix StableSort
open Lines (trim)

variable {D : Type}

/-- What one argument, or an argument with its value, says. -/
inductive RustcAction where
  | edition (value : Text)
  | crateType (value : Text)
  | crateName (value : Text)
  | emit (value : Text)
  | target (value : Text)
  | capLints (value : Text)
  | cfg (value : Text)
  | checkCfg (value : Text)
  | dependency (value : Text)
  | remap (value : Text)
  | envSet (value : Text)
  | codegen (value : Text)
  | lint (flag value : Text)
  | unknown (flag : Text)
  | source (path : Text)
  /-- An option that is kept out of the key. -/
  | unkeyed (flag value : Text)
  deriving DecidableEq

/-- An argument stands alone, or takes the next one as its value. -/
inductive RustcReading where
  | one (actions : List RustcAction)
  | two (action : Text → RustcAction)

section Rules

variable (arg : Text) (next : Option Text)

def longOptions : List (Text × (Text → RustcAction)) :=
  [("--edition", .edition), ("--crate-type", .crateType),
    ("--crate-name", .crateName), ("--emit", .emit), ("--target", .target),
    ("--cap-lints", .capLints), ("--cfg", .cfg), ("--check-cfg", .checkCfg),
    ("--extern", .dependency), ("--out-dir", .unkeyed "--out-dir"),
    ("--error-format", .unkeyed "--error-format"),
    ("--json", .unkeyed "--json"), ("--color", .unkeyed "--color"),
    ("--diagnostic-width", .unkeyed "--diagnostic-width"),
    ("--sysroot", .unkeyed "--sysroot"), ("--remap-path-prefix", .remap),
    ("--env-set", .envSet)]

/-- `--flag value` or `--flag=value`. -/
def takeOption (option : Text × (Text → RustcAction)) : Option RustcReading :=
  if arg = option.1 then (if next.isSome then some (.two option.2) else none)
  else (arg.dropPrefix? (option.1 ++ ['='])).map fun value => .one [option.2 value]

/-- `-x value`. -/
def takeValue (flags : List String) (action : Text → RustcAction) : Option RustcReading :=
  if arg ∈ texts flags ∧ next.isSome then some (.two action) else none

/-- `-xvalue`. -/
def takeJoined (flag : String) (action : Text → RustcAction) : Option RustcReading :=
  if arg = flag.toList then none
  else (arg.dropPrefix? flag.toList).map fun value => .one [action value]

/-- The rules for the short options in their order; the first that applies is taken. -/
def shortRules : List (Option RustcReading) :=
  [takeValue arg next ["-o"] (.unkeyed "-o"),
    takeValue arg next ["-L"] (.unkeyed "-L"),
    takeJoined arg "-L" (.unkeyed "-L"),
    takeValue arg next ["-l"] fun value => .unknown ("-l " ++ value),
    if "--".toList.isPrefixOf arg then none
    else takeJoined arg "-l" fun value => .unknown ("-l " ++ value),
    takeValue arg next ["-C", "--codegen"] .codegen,
    takeJoined arg "-C" .codegen,
    if arg = "-g" then some (.one [.codegen "debuginfo=2"]) else none,
    if arg = "-O" then some (.one [.codegen "opt-level=2"]) else none,
    takeValue arg next ["-A", "-W", "-D", "-F"] (.lint arg),
    takeValue arg next ["-Z"] fun value => .unknown ("-Z " ++ value),
    if arg.head? = some '-' then some (.one [.unknown arg]) else none]

def dotRs : Text := ".rs"

def readRustcArg : RustcReading :=
  ((longOptions.findSome? (takeOption arg next)).or ((shortRules arg next).findSome? id)).getD
    (.one (if dotRs.isSuffixOf arg then [.source arg] else []))

end Rules

def rustcActions : List Text → List RustcAction
  | [] => []
  | [arg] =>
    match readRustcArg arg none with
    | .one actions => actions
    | .two _ => []
  | arg :: next :: rest =>
    match readRustcArg arg (some next) with
    | .one actions => actions ++ rustcActions (next :: rest)
    | .two action => action next :: rustcActions rest

structure ExternCrate where
  name : Text
  path : NormalizedPath

/-- The key fields of the parsed arguments. -/
structure RustcParsedArgs where
  sourceFile : NormalizedPath
  crateName : Option Text
  crateTypes : List Text
  edition : Option Text
  emitTypes : List Text
  cfgs : List Text
  checkCfgs : List Text
  codegenFlags : List Text
  target : Option Text
  capLints : Option Text
  externs : List ExternCrate
  lintFlags : List Text
  unknownFlags : List Text
  extraFilename : Option Text
  cargoMetadata : Option Text
  remapPathPrefixes : List Text

namespace RustcAction

def editionOf : RustcAction → Option Text
  | edition t => some t
  | _ => none

def crateTypesOf : RustcAction → List Text
  | crateType t => t.splitOn ','
  | _ => []

def crateNameOf : RustcAction → Option Text
  | crateName t => some t
  | _ => none

/-- The kinds of `--emit=kind=path,...`. -/
def emitTypesOf : RustcAction → List Text
  | emit t => (t.splitOn ',').map (beforeFirst '=')
  | _ => []

def targetOf : RustcAction → Option Text
  | target t => some t
  | _ => none

def capLintsOf : RustcAction → Option Text
  | capLints t => some t
  | _ => none

def cfgOf : RustcAction → Option Text
  | cfg t => some t
  | _ => none

def checkCfgOf : RustcAction → Option Text
  | checkCfg t => some t
  | _ => none

/-- An extern with a path. The modifier `noprelude` is dropped, others stay in the name. -/
def externOf (cwd : Path) : RustcAction → Option ExternCrate
  | dependency t =>
    (splitOnce '=' t).map fun parts =>
      ⟨(parts.1.dropPrefix? "noprelude:").getD parts.1, resolvePath cwd parts.2⟩
  | _ => none

def remapOf : RustcAction → Option Text
  | remap t => some t
  | _ => none

def codegenOf : RustcAction → Option Text
  | codegen t => some t
  | _ => none

def lintOf : RustcAction → Option Text
  | lint flag t => some (flag ++ ' ' :: t)
  | _ => none

def unknownOf : RustcAction → Option Text
  | unknown t => some t
  | _ => none

def sourceOf : RustcAction → Option Text
  | source t => some t
  | _ => none

end RustcAction

variable (option : Text)

def codegenKey : Text :=
  beforeFirst '=' option

def codegenValue : Text :=
  ((splitOnce '=' option).map Prod.snd).getD []

def isKeyedCodegen : Bool :=
  codegenKey option ∉ texts ["metadata", "extra-filename", "incremental", "linker", "link-arg",
    "link-args", "save-temps", "remark"]

def lastCodegenValue (key : String) (options : List Text) : Option Text :=
  ((options.filter fun option => codegenKey option = key.toList).map codegenValue).getLast?

/-- The fields as the parser leaves them. Of a single value the last one counts. -/
def RustcParsedArgs.ofActions (cwd : Path) (actions : List RustcAction) : RustcParsedArgs :=
  let codegen := actions.filterMap RustcAction.codegenOf
  { sourceFile := ((actions.filterMap RustcAction.sourceOf).getLast?.map (resolvePath cwd)).getD
      (.new [])
    crateName := (actions.filterMap RustcAction.crateNameOf).getLast?
    crateTypes := actions.flatMap RustcAction.crateTypesOf
    edition := (actions.filterMap RustcAction.editionOf).getLast?
    emitTypes := eraseRepeats (actions.flatMap RustcAction.emitTypesOf)
    cfgs := sortTexts (actions.filterMap RustcAction.cfgOf)
    checkCfgs := sortTexts (actions.filterMap RustcAction.checkCfgOf)
    codegenFlags := codegen.filter isKeyedCodegen
    target := (actions.filterMap RustcAction.targetOf).getLast?
    capLints := (actions.filterMap RustcAction.capLintsOf).getLast?
    externs := actions.filterMap (RustcAction.externOf cwd)
    lintFlags := sortTexts (actions.filterMap RustcAction.lintOf)
    unknownFlags := sortTexts (actions.filterMap RustcAction.unknownOf)
    extraFilename := lastCodegenValue "extra-filename" codegen
    cargoMetadata := lastCodegenValue "metadata" codegen
    remapPathPrefixes := actions.filterMap RustcAction.remapOf }

def parseRustcArgs (args : List Text) (cwd : Path) : RustcParsedArgs :=
  .ofActions cwd (rustcActions args)

/-- What makes an invocation sensitive to its environment. -/
structure RustcEnvFacts where
  apple : Bool
  links : Bool
  mayReadEnvUntracked : Bool

def contains (word t : Text) : Bool :=
  t.tails.any (word.isPrefixOf ·)

def isDylibPath (path : Text) : Bool :=
  (texts [".so", ".dylib", ".dll"]).any (·.isSuffixOf (path.map Char.toLower))

def RustcEnvFacts.fromParts (target : Option Text) (crateTypes emitTypes externPaths : List Text)
    (plainRustc : Bool) : RustcEnvFacts where
  apple := target.all (contains "apple")
  links :=
    (crateTypes.isEmpty || (crateTypes.flatMap (·.splitOn ',')).any fun t =>
      trim t ∈ texts ["bin", "dylib", "cdylib", "proc-macro"]) &&
    (emitTypes.isEmpty || emitTypes.contains "link")
  mayReadEnvUntracked :=
    !plainRustc || !emitTypes.contains "dep-info" || externPaths.any isDylibPath

def keyedRustcEnv (env : Env) (facts : RustcEnvFacts) : List (Text × Text) :=
  collect env rustcEnvKeyed false ++
    (if facts.apple then collect env appleEnvKeyed false else []) ++
    (if facts.links then collectLinkTable env else [])

/-- The context of the parsed arguments. `plainRustc` is false for a driver that may read the
environment by itself. -/
def RustcCompileContext.fromParsedArgsWithDriver (args : RustcParsedArgs) (clientEnv : Env)
    (compilerHash : D) (plainRustc : Bool) : RustcCompileContext D :=
  let facts := RustcEnvFacts.fromParts args.target args.crateTypes args.emitTypes
    (args.externs.map fun e => toText e.path.path) plainRustc
  { sourceFile := args.sourceFile
    crateName := args.crateName
    crateTypes := sortTexts args.crateTypes
    edition := args.edition
    emitTypes := sortTexts args.emitTypes
    cfgs := args.cfgs
    checkCfgs := args.checkCfgs
    codegenFlags := args.codegenFlags
    cargoMetadata := args.cargoMetadata
    extraFilename := args.extraFilename
    target := args.target
    capLints := args.capLints
    externCrates := sortBy toLex (args.externs.map fun e => (e.name, toText e.path.path))
    lintFlags := args.lintFlags
    unknownFlags := args.unknownFlags
    remapPathPrefixes := sortTexts args.remapPathPrefixes
    envVars := sortBy toLex (keyedRustcEnv clientEnv facts ++
      if facts.mayReadEnvUntracked then
        (clientEnv.map fun e => (e.1.val, e.2.val)).filter fun e =>
          isConservativelyKeyedCargoEnv e.1
      else [])
    compilerHash := compilerHash }

/-- Flags whose value the classifier skips. -/
def rustcFlagsWithValue : List Text :=
  texts ["--edition", "--crate-type", "--crate-name", "--emit", "--out-dir", "--target",
    "--cap-lints", "--extern", "--error-format", "--json", "--color", "--diagnostic-width",
    "--sysroot", "--cfg", "--check-cfg", "-o", "-L", "-C", "-A", "-W", "-D", "-F", "--codegen",
    "--remap-path-prefix", "--env-set"]

/-- What the classifier has seen of the arguments. -/
structure RustcScan where
  crateTypes : List Text
  source : Option Text
  crateName : Option Text
  extraFilename : Option Text
  linker : Option Text
  target : Option Text
  emitTypes : List Text
  unknownFlags : List Text
  isTestHarness : Bool

def RustcScan.start : RustcScan where
  crateTypes := []
  source := none
  crateName := none
  extraFilename := none
  linker := none
  target := none
  emitTypes := []
  unknownFlags := []
  isTestHarness := false

def RustcScan.flagValue (s : RustcScan) (flag value : Text) : RustcScan :=
  if flag = "--crate-type" then { s with crateTypes := s.crateTypes ++ value.splitOn ',' }
  else if flag = "--crate-name" then { s with crateName := some value }
  else if flag = "--emit" then
    { s with emitTypes := s.emitTypes ++ (value.splitOn ',').map (beforeFirst '=') }
  else if flag = "--target" then { s with target := some value }
  else if flag = "-C" ∨ flag = "--codegen" then
    { s with
      extraFilename := (value.dropPrefix? "extra-filename=").or s.extraFilename
      linker := (value.dropPrefix? "linker=").or s.linker }
  else s

def RustcScan.argument (s : RustcScan) (arg : Text) : RustcScan :=
  if "--".toList.isPrefixOf arg && arg.contains '=' then
    match splitOnce '=' arg with
    | some (flag, value) => if flag = "--codegen" then s else s.flagValue flag value
    | none => s
  else if "-C".toList.isPrefixOf arg then s.flagValue "-C" (arg.drop 2)
  else if arg = "--test" then
    { s with isTestHarness := true, unknownFlags := s.unknownFlags ++ [arg] }
  else if arg.head? = some '-' then { s with unknownFlags := s.unknownFlags ++ [arg] }
  else if dotRs.isSuffixOf arg then { s with source := some arg }
  else s

def scanRustc (s : RustcScan) : List Text → RustcScan
  | [] => s
  | [arg] => if arg ∈ rustcFlagsWithValue then s else s.argument arg
  | arg :: next :: rest =>
    if arg ∈ rustcFlagsWithValue then scanRustc (s.flagValue arg next) rest
    else scanRustc (s.argument arg) (next :: rest)

/-- autocfg gives its probes random names of 16 hexadecimal digits and a number. -/
def isRandomizedAutocfgCrateName (name : Text) : Bool :=
  match (name.dropPrefix? "autocfg_").bind (splitOnce '_') with
  | some (uuid, probe) =>
    uuid.length = 16 && uuid.all (fun c => c.isDigit || c.toLower ∈ "abcdef".toList) &&
      !probe.isEmpty && probe.all Char.isDigit
  | none => false

def isDylintLinker (linker : Option Text) : Bool :=
  (linker.bind fun path => fileStem (components path)).any
    (eqIgnoreAsciiCase · "dylint-link")

/-- Whether rustc's output is cached: the source file, or the reason why not. -/
inductive RustcPlan where
  | nonCacheable (reason : Text)
  | cacheable (source : Text) (unknownFlags : List Text)
  deriving DecidableEq

def parseRustcPlan (args : List Text) (cacheTestBins : Bool) : RustcPlan :=
  let s := scanRustc .start args
  match s.source with
  | none => .nonCacheable "no .rs source file found"
  | some source =>
    if s.crateTypes = ["lib".toList] && s.emitTypes.contains "llvm-ir" &&
        s.crateName.any isRandomizedAutocfgCrateName then
      .nonCacheable "randomized autocfg probe crate name"
    else
      let crateTypes := if s.crateTypes.isEmpty then ["bin".toList] else s.crateTypes
      let isDylintCdylib := crateTypes = ["cdylib".toList] && s.target.isNone &&
        s.extraFilename.all List.isEmpty && isDylintLinker s.linker
      match crateTypes.find? fun t =>
          !(t ∈ texts ["lib", "rlib", "staticlib", "proc-macro", "bin"] ||
            t = "cdylib" && isDylintCdylib) with
      | some t => .nonCacheable ("non-cacheable crate type: " ++ t)
      | none =>
        if s.isTestHarness && !cacheTestBins then
          .nonCacheable "test harness link product not cacheable"
        else .cacheable source s.unknownFlags

end Zccache
