import Zccache.Request.RustcEnv
import Zccache.Request.RustcOrder

/-! # The announced output of rustc

The classifier names one output of a cached rustc invocation, from the options
alone. A path on the command line comes first, and otherwise the emitted kinds
and the crate types make the file name.
-/

namespace Zccache

open List Unix RustcAction

inductive RustcHost where
  | linux
  | macos
  | windows
  deriving DecidableEq

section FileNames

/-- Dynamic libraries are named after the host. -/
def hostLibraryFilename (stem : Text) : RustcHost → Text
  | .windows => stem ++ ".dll"
  | .macos => "lib" ++ stem ++ ".dylib"
  | .linux => "lib" ++ stem ++ ".so"

variable (crateName extra : Text) (target : Option Text) (host : RustcHost)

def rustcProcMacroFilename : Text :=
  hostLibraryFilename (crateName ++ extra) host

def rustcDylintCdylibFilename : Text :=
  hostLibraryFilename crateName host

/-- Targets whose static archives are `.lib` files. -/
def isMsvcLike : Bool :=
  match target with
  | some triple =>
    "-msvc".toList.isSuffixOf triple || (triple.splitOn '-').contains "uefi"
  | none => host = .windows

def rustcStaticlibFilename :
    Text :=
  if isMsvcLike target host then crateName ++ extra ++ ".lib"
  else "lib" ++ crateName ++ extra ++ ".a"

def isWindowsTarget : Bool :=
  match target with
  | some triple => (triple.splitOn '-').contains "windows"
  | none => host = .windows

def rustcBinFilename : Text :=
  if isWindowsTarget target host then crateName ++ extra ++ ".exe" else crateName ++ extra

structure EmitOutput where
  kind : Text
  extension : Text
  libPrefixed : Bool

def emitOutputExtensions : List EmitOutput :=
  [⟨"metadata", "rmeta", true⟩, ⟨"dep-info", "d", false⟩,
    ⟨"obj", "o", false⟩, ⟨"asm", "s", false⟩,
    ⟨"llvm-ir", "ll", false⟩, ⟨"llvm-bc", "bc", false⟩,
    ⟨"bitcode", "bc", false⟩, ⟨"mir", "mir", false⟩]

/-- Everything that the file name of the output depends on. -/
structure RustcOutputShape where
  host : RustcHost
  primaryEmit : Option Text
  metadataOnly : Bool
  name : Text
  suffix : Text
  target : Option Text
  isProcMacro : Bool
  isBin : Bool
  isDylintCdylib : Bool
  isStaticlib : Bool

def RustcOutputShape.linkFilename (shape : RustcOutputShape) : Text :=
  if shape.isProcMacro then rustcProcMacroFilename shape.name shape.suffix shape.host
  else if shape.isDylintCdylib then rustcDylintCdylibFilename shape.name shape.host
  else if shape.isBin then rustcBinFilename shape.name shape.suffix shape.target shape.host
  else if shape.isStaticlib then
    rustcStaticlibFilename shape.name shape.suffix shape.target shape.host
  else "lib" ++ shape.name ++ shape.suffix ++ ".rlib"

def rustcPrimaryOutputFilename (shape : RustcOutputShape) : Text :=
  if shape.metadataOnly then "lib" ++ shape.name ++ shape.suffix ++ ".rmeta"
  else
    match shape.primaryEmit.bind fun emit => emitOutputExtensions.find? (·.kind = emit) with
    | some output =>
      (if output.libPrefixed then "lib".toList else []) ++ shape.name ++ shape.suffix ++
        '.' :: output.extension
    | none => shape.linkFilename

end FileNames

/-- A part of `--emit`: the kind and the path behind an equals sign. -/
def emitPart (part : Text) : Text × Option Text :=
  match splitOnce '=' part with
  | some (kind, path) => (kind, some path)
  | none => (part, none)

namespace RustcAction

def emitPartsOf : RustcAction → List (Text × Option Text)
  | emit t => (t.splitOn ',').map emitPart
  | _ => []

def unkeyedOf (flag : String) : RustcAction → Option Text
  | unkeyed f t => if f = flag.toList then some t else none
  | _ => none

end RustcAction

/-- Where the arguments send the outputs. -/
structure RustcDestinations where
  outputFile : Option Text
  outDir : Option Text
  explicitLinkOutput : Option Text
  explicitOutput : Option Text

namespace RustcDestinations

def start : RustcDestinations where
  outputFile := none
  outDir := none
  explicitLinkOutput := none
  explicitOutput := none

variable (d : RustcDestinations)

/-- Of the paths for `link` the last one is kept, of all paths the first one. -/
def emit : Text × Option Text → RustcDestinations
  | (_, none) => d
  | (kind, some path) =>
    { d with
      explicitLinkOutput :=
        if kind = "link" ∧ path ≠ "-" then some path else d.explicitLinkOutput
      explicitOutput :=
        if path ≠ "-" ∧ path ≠ [] ∧ d.explicitOutput = none then some path
        else d.explicitOutput }

def flagValue (flag value : Text) : RustcDestinations :=
  if flag = "--emit" then ((value.splitOn ',').map emitPart).foldl emit d
  else if flag = "--out-dir" then { d with outDir := some value }
  else if flag = "-o" then { d with outputFile := some value }
  else d

def argument (arg : Text) : RustcDestinations :=
  if "--".toList.isPrefixOf arg then
    match splitOnce '=' arg with
    | some (flag, value) => d.flagValue flag value
    | none => d
  else d

end RustcDestinations

/-- The same pass over the arguments as `scanRustc`. -/
def scanDestinations (d : RustcDestinations) : List Text → RustcDestinations
  | [] => d
  | [arg] => if arg ∈ rustcFlagsWithValue then d else d.argument arg
  | arg :: next :: rest =>
    if arg ∈ rustcFlagsWithValue then scanDestinations (d.flagValue arg next) rest
    else scanDestinations (d.argument arg) (next :: rest)

section Plan

/-- The output as it is spelled, or a file name for a directory. -/
inductive RustcOutputPlan where
  | explicit (path : Text)
  | inDirectory (directory filename : Text)
  deriving DecidableEq

variable (host : RustcHost)

def RustcScan.outputShape (s : RustcScan) (suffix : Text) : RustcOutputShape :=
  let crateTypes := if s.crateTypes.isEmpty then ["bin".toList] else s.crateTypes
  let hasLinkEmit := s.emitTypes.contains "link"
  { host := host
    primaryEmit :=
      if hasLinkEmit then some "link".toList
      else s.emitTypes.find? fun kind => (emitOutputExtensions.map (·.kind)).contains kind
    metadataOnly := !hasLinkEmit && s.emitTypes.contains "metadata"
    name := s.crateName.getD
      ((s.source.bind fun source => fileStem (components source)).getD "unknown")
    suffix := suffix
    target := s.target
    isProcMacro := crateTypes.contains "proc-macro"
    isBin := crateTypes.contains "bin"
    isDylintCdylib := crateTypes = ["cdylib".toList] && s.target.isNone &&
      s.extraFilename.all List.isEmpty && isDylintLinker s.linker
    isStaticlib := crateTypes.contains "staticlib" }

/-- The suffix is left out when the output goes to the working directory. -/
def rustcOutputPlan (s : RustcScan) (d : RustcDestinations) : RustcOutputPlan :=
  match d.outputFile.or (d.explicitLinkOutput.or d.explicitOutput) with
  | some path => .explicit path
  | none =>
    match d.outDir with
    | some directory => .inDirectory directory
        (rustcPrimaryOutputFilename (s.outputShape host (s.extraFilename.getD [])))
    | none => .explicit (rustcPrimaryOutputFilename (s.outputShape host []))

def RustcOutputPlan.outputFile : RustcOutputPlan → NormalizedPath
  | explicit path => .new path
  | inDirectory directory filename =>
    .new (toText ((NormalizedPath.new directory).join (components filename)).path)

namespace RustcCommand

def outputFile (cacheTestBins : Bool) (c : RustcCommand) : Option NormalizedPath :=
  match dylintInnerRustcArgs c.compiler.caseKey c.args with
  | .error _ => none
  | .ok _ =>
    if isCacheableRustc cacheTestBins c.rustcArgs then
      some (rustcOutputPlan host (scanRustc .start c.rustcArgs)
        (scanDestinations .start c.rustcArgs)).outputFile
    else none

/-- The output file, below the working directory unless it is absolute. -/
def outputPath (c : RustcCommand) (outputFile : NormalizedPath) : NormalizedPath :=
  if outputFile.path.head? = some .rootDir then outputFile
  else (NormalizedPath.ofPath c.cwd).join outputFile.path

end RustcCommand

end Plan

variable {s : RustcScan} {d : RustcDestinations} {u args : List Text} {us : List (List Text)}

def RustcScan.naming (s : RustcScan) : RustcScan :=
  { s with source := none, unknownFlags := [], isTestHarness := false }

/-- What an action of the key parser says to the classifier about the output. -/
def RustcScan.act (s : RustcScan) : RustcAction → RustcScan
  | .crateType t => s.flagValue "--crate-type" t
  | .crateName t => s.flagValue "--crate-name" t
  | .emit t => s.flagValue "--emit" t
  | .target t => s.flagValue "--target" t
  | .codegen t => s.flagValue "-C" t
  | _ => s

def RustcDestinations.act (d : RustcDestinations) : RustcAction → RustcDestinations
  | .emit t => d.flagValue "--emit" t
  | .unkeyed flag t =>
    { d with
      outputFile := (unkeyedOf "-o" (.unkeyed flag t)).or d.outputFile
      outDir := (unkeyedOf "--out-dir" (.unkeyed flag t)).or d.outDir }
  | _ => d

theorem naming_flagValue (s : RustcScan) (flag value : Text) :
    (s.flagValue flag value).naming = s.naming.flagValue flag value := by
  unfold RustcScan.flagValue
  split_ifs <;> rfl

theorem naming_act (s : RustcScan) (a : RustcAction) : (s.act a).naming = s.naming.act a := by
  cases a with
  | crateType t | crateName t | emit t | target t | codegen t => exact naming_flagValue s _ t
  | _ => rfl

theorem naming_foldl_act (actions : List RustcAction) (s : RustcScan) :
    (actions.foldl RustcScan.act s).naming = actions.foldl RustcScan.act s.naming :=
  (foldl_hom RustcScan.naming fun s a => (naming_act s a).symm).symm

variable {arg : Text}

theorem naming_argument_positional (h : arg.head? ≠ some '-') (s : RustcScan) :
    (s.argument arg).naming = s.naming := by
  cases arg with
  | nil => rfl
  | cons c arg =>
    have hc : c ≠ '-' := fun hc => h (congrArg some hc)
    have hlong : "--".toList.isPrefixOf (c :: arg) = false := by simp [List.isPrefixOf, hc.symm]
    have hcg : "-C".toList.isPrefixOf (c :: arg) = false := by
      simp [List.isPrefixOf, hc.symm]
    have htest : c :: arg ≠ "--test" := by simp [hc]
    rw [RustcScan.argument, hlong, hcg, if_neg (by simp), if_neg (by simp), if_neg htest,
      if_neg h]
    split_ifs <;> rfl

theorem destinations_argument_positional (h : arg.head? ≠ some '-') (d : RustcDestinations) :
    d.argument arg = d := by
  refine if_neg fun hpre => h ?_
  obtain ⟨rest, rfl⟩ := isPrefixOf_iff_prefix.mp hpre
  rfl

theorem longOptions_known : ∀ option ∈ longOptions, ∀ value t, option.2 value ≠ .unknown t := by
  simp [longOptions]

variable {flag : Text}

theorem ne_long_of_unknown {t : Text} (h : readRustcArg arg none = .one [.unknown t])
    (hflag : flag ∈ longOptions.map Prod.fst) (value : Text) : arg ≠ flag ++ '=' :: value := by
  obtain ⟨option, hopt, rfl⟩ := mem_map.mp hflag
  unfold readRustcArg at h
  cases hlong : longOptions.findSome? (takeOption arg none) with
  | some reading =>
    rw [hlong, Option.some_or, Option.getD_some] at h
    obtain ⟨known, hknown, htake⟩ := exists_of_findSome?_eq_some hlong
    rw [h] at htake
    unfold takeOption at htake
    split at htake
    · cases htake
    · obtain ⟨v, -, hv⟩ := Option.map_eq_some_iff.mp htake
      injection hv with hv
      injection hv with hv
      exact absurd hv (longOptions_known known hknown v t)
  | none =>
    rintro rfl
    have htake := findSome?_eq_none_iff.mp hlong option hopt
    rw [takeOption_of_ne (by simp), dropPrefix?_eq_some.mpr (by rw [append_assoc]; rfl)]
      at htake
    cases htake

theorem ne_codegen_of_unknown {t : Text} (h : readRustcArg arg none = .one [.unknown t])
    (hpair : arg ∉ pairedFlags) (value : Text) : arg ≠ "-C" ++ value := by
  rintro rfl
  cases value with
  | nil => exact hpair (by decide)
  | cons c value =>
    injection h with h
    injection h with h
    cases h

theorem naming_argument_unknown (h : readRustcArg arg none = .one [.unknown arg])
    (hpair : arg ∉ pairedFlags) (s : RustcScan) : (s.argument arg).naming = s.naming := by
  unfold RustcScan.argument
  split
  · next hlong =>
    rw [Bool.and_eq_true] at hlong
    cases hsplit : splitOnce '=' arg with
    | none => rfl
    | some parts =>
      obtain ⟨rfl, -⟩ := splitOnce_eq_some_iff.mp hsplit
      have hne : ∀ flag ∈ longOptions.map Prod.fst, parts.1 ≠ flag :=
        fun flag hflag heq => ne_long_of_unknown h hflag parts.2 (by rw [heq])
      dsimp only
      split
      · rfl
      · next hcg =>
        have hshort : parts.1 ≠ "-C" := by
          intro heq
          rw [heq] at hlong
          exact absurd hlong.1 (by simp [List.isPrefixOf])
        rw [RustcScan.flagValue, if_neg (hne _ (by decide)), if_neg (hne _ (by decide)),
          if_neg (hne _ (by decide)), if_neg (hne _ (by decide)),
          if_neg (not_or.mpr ⟨hshort, hcg⟩)]
  · split
    · next hcg =>
      obtain ⟨value, hval⟩ := isPrefixOf_iff_prefix.mp hcg
      exact absurd hval.symm (ne_codegen_of_unknown h hpair value)
    · split_ifs <;> rfl

theorem destinations_argument_unknown (h : readRustcArg arg none = .one [.unknown arg])
    (d : RustcDestinations) : d.argument arg = d := by
  unfold RustcDestinations.argument
  split
  · next hlong =>
    cases hsplit : splitOnce '=' arg with
    | none => rfl
    | some parts =>
      obtain ⟨rfl, -⟩ := splitOnce_eq_some_iff.mp hsplit
      have hne : ∀ flag ∈ longOptions.map Prod.fst, parts.1 ≠ flag :=
        fun flag hflag heq => ne_long_of_unknown h hflag parts.2 (by rw [heq])
      have hshort : parts.1 ≠ "-o" := by
        intro heq
        rw [heq] at hlong
        exact absurd hlong (by simp [List.isPrefixOf])
      dsimp only
      rw [RustcDestinations.flagValue, if_neg (hne _ (by decide)), if_neg (hne _ (by decide)),
        if_neg hshort]
  · rfl

theorem scan_single {actions : List RustcAction} (hread : readRustcArg arg none = .one actions)
    (harg : SingleArg arg actions) (hpair : arg ∉ pairedFlags) :
    (s.argument arg).naming = (actions.foldl RustcScan.act s).naming ∧
      d.argument arg = actions.foldl RustcDestinations.act d := by
  cases harg with
  | @long option h value =>
    have hsp : ∀ option ∈ longOptions,
        "--".toList.isPrefixOf option.1 = true ∧ '=' ∉ option.1 ∧
          option.1 ≠ "--codegen" := by decide
    obtain ⟨hlong, hequals, hcg⟩ := hsp option h
    have hpre : "--".toList.isPrefixOf (option.1 ++ '=' :: value) = true := by
      have hstart := isPrefixOf_iff_prefix.mp hlong
      exact isPrefixOf_iff_prefix.mpr (hstart.trans (prefix_append _ _))
    have hsplit : splitOnce '=' (option.1 ++ '=' :: value) = some (option.1, value) :=
      splitOnce_eq_some_iff.mpr ⟨rfl, hequals⟩
    have hact : ∀ option ∈ longOptions, s.flagValue option.1 value = s.act (option.2 value) ∧
        d.flagValue option.1 value = d.act (option.2 value) := by
      simp only [longOptions, forall_mem_cons]
      and_intros
      all_goals first
        | rfl
        | exact forall_mem_nil _
    rw [RustcScan.argument, if_pos (by rw [hpre]; simp), hsplit, RustcDestinations.argument,
      if_pos hpre, hsplit]
    dsimp only
    rw [if_neg hcg, (hact option h).1, (hact option h).2]
    exact ⟨rfl, rfl⟩
  | search | library | codegen | debug | optimize => exact ⟨rfl, rfl⟩
  | flag h =>
    exact ⟨naming_argument_unknown hread hpair s, destinations_argument_unknown hread d⟩
  | source h | stray h =>
    exact ⟨naming_argument_positional h s, destinations_argument_positional h d⟩

theorem flagValue_paired : ∀ flag ∈ rustcFlagsWithValue, ∀ value,
    s.flagValue flag value = s.act (pairedAction flag value) ∧
      d.flagValue flag value = d.act (pairedAction flag value) := by
  simp only [rustcFlagsWithValue, texts, map_cons, map_nil, forall_mem_cons]
  and_intros
  all_goals first
    | exact fun _ => ⟨rfl, rfl⟩
    | exact forall_mem_nil _

/-- The classifier takes the value of `-l` and `-Z` for an argument of its own. -/
theorem scan_stray {value : Text} (hflag : flag ∈ texts ["-l", "-Z"])
    (hval : value.head? ≠ some '-') :
    (scanRustc s [flag, value]).naming = s.naming ∧ scanDestinations d [flag, value] = d := by
  have hmem : value ∉ rustcFlagsWithValue := by
    have hdash : ∀ arg ∈ rustcFlagsWithValue, arg.head? = some '-' := by decide
    exact fun hmem => hval (hdash value hmem)
  have hscan : ∀ s : RustcScan, (scanRustc s [value]).naming = s.naming := by
    intro s
    rw [scanRustc, if_neg hmem]
    exact naming_argument_positional hval s
  have hdest : scanDestinations d [value] = d := by
    rw [scanDestinations, if_neg hmem]
    exact destinations_argument_positional hval d
  simp only [texts, map_cons, map_nil, mem_cons, not_mem_nil, or_false]
    at hflag
  rcases hflag with rfl | rfl
  · exact ⟨hscan (s.argument "-l"), hdest⟩
  · exact ⟨hscan (s.argument "-Z"), hdest⟩

theorem scan_paired {value : Text} (hflag : flag ∈ pairedFlags)
    (hval : flag ∈ texts ["-l", "-Z"] → value.head? ≠ some '-') :
    (scanRustc s [flag, value]).naming = (s.act (pairedAction flag value)).naming ∧
      scanDestinations d [flag, value] = d.act (pairedAction flag value) := by
  have htable : ∀ flag ∈ pairedFlags, flag ∈ rustcFlagsWithValue ∨ flag ∈ texts ["-l", "-Z"] := by
    decide
  rcases htable flag hflag with hmem | hmem
  · obtain ⟨hscan, hdest⟩ := @flagValue_paired s d flag hmem value
    have hread : scanRustc s [flag, value] = s.flagValue flag value := if_pos hmem
    have hread' : scanDestinations d [flag, value] = d.flagValue flag value := if_pos hmem
    rw [hread, hscan, hread', hdest]
    exact ⟨rfl, rfl⟩
  · obtain ⟨hscan, hdest⟩ := @scan_stray s d flag value hmem (hval hmem)
    have hact : ∀ flag ∈ texts ["-l", "-Z"], s.act (pairedAction flag value) = s ∧
        d.act (pairedAction flag value) = d := by
      simp only [texts, map_cons, map_nil, forall_mem_cons]
      exact ⟨⟨rfl, rfl⟩, ⟨rfl, rfl⟩, forall_mem_nil _⟩
    rw [hscan, hdest, (hact flag hmem).1, (hact flag hmem).2]
    exact ⟨rfl, rfl⟩

/-- Of a plain unit the classifier learns about the output what the key parser does. -/
theorem scan_unit (h : isPlainUnit u = true) :
    (scanRustc s u).naming = ((rustcActions u).foldl RustcScan.act s).naming ∧
      scanDestinations d u = (rustcActions u).foldl RustcDestinations.act d := by
  rcases isPlainUnit_cases h with ⟨arg, rfl, hpair, -⟩ | ⟨flag, hflag, value, rfl, hval⟩
  · have hsub : ∀ arg ∈ rustcFlagsWithValue, arg ∈ pairedFlags := by decide
    have hmem : arg ∉ rustcFlagsWithValue := fun hmem => hpair (hsub arg hmem)
    obtain ⟨actions, hread, harg⟩ := readRustcArg_none arg
    rw [scanRustc, if_neg hmem, scanDestinations, if_neg hmem, rustcActions, hread]
    exact scan_single hread harg hpair
  · rw [(rustcActions_paired hflag value []).1, rustcActions]
    exact scan_paired hflag hval

theorem scanDestinations_append (h : isPlainUnit u = true) (rest : List Text) :
    scanDestinations d (u ++ rest) = scanDestinations (scanDestinations d u) rest := by
  have hsingle : ∀ d arg rest, arg ∉ rustcFlagsWithValue →
      scanDestinations d (arg :: rest) = scanDestinations (d.argument arg) rest := by
    intro d arg rest hmem
    cases rest with
    | nil | cons => exact if_neg hmem
  exact pass_append (fun _ => rfl) hsingle (fun _ _ _ _ hmem => if_pos hmem) h d rest

theorem scan_units (h : ∀ u ∈ us, isPlainUnit u = true) :
    (scanRustc s us.flatten).naming = (us.flatMap rustcActions).foldl RustcScan.act s.naming ∧
      scanDestinations d us.flatten = (us.flatMap rustcActions).foldl RustcDestinations.act d := by
  induction us generalizing s d with
  | nil => exact ⟨rfl, rfl⟩
  | cons u us ih =>
    obtain ⟨hu, hus⟩ := forall_mem_cons.mp h
    obtain ⟨hscan, hdest⟩ := @scan_unit s d u hu
    obtain ⟨hscans, hdests⟩ := @ih (scanRustc s u) (scanDestinations d u) hus
    rw [flatten_cons, scanRustc_append hu, scanDestinations_append hu, hscans, hdests, hscan,
      hdest, naming_foldl_act, flatMap_cons, foldl_append, foldl_append]
    exact ⟨rfl, rfl⟩

theorem scan_plain (h : PlainlyWritten args) :
    (scanRustc .start args).naming = (rustcActions args).foldl RustcScan.act .start ∧
      scanDestinations .start args = (rustcActions args).foldl RustcDestinations.act .start := by
  have hscan := @scan_units .start .start (rustcUnits args) h
  rwa [← rustcActions_flatten h, flatten_rustcUnits] at hscan

theorem filterMap_getLast?_append {α β : Type} (f : α → Option β) (l : List α) (a : α) :
    ((l ++ [a]).filterMap f).getLast? = (f a).or (l.filterMap f).getLast? := by
  cases h : f a <;> simp [h]

theorem foldl_act (actions : List RustcAction) :
    actions.foldl RustcScan.act .start =
      { RustcScan.start with
        crateTypes := actions.flatMap crateTypesOf
        crateName := (actions.filterMap crateNameOf).getLast?
        extraFilename := ((actions.filterMap codegenOf).filterMap
          (·.dropPrefix? "extra-filename=")).getLast?
        linker := ((actions.filterMap codegenOf).filterMap
          (·.dropPrefix? "linker=")).getLast?
        target := (actions.filterMap targetOf).getLast?
        emitTypes := actions.flatMap emitTypesOf } := by
  induction actions using List.reverseRecOn with
  | nil => rfl
  | append_singleton actions a ih =>
    rw [foldl_append, ih, foldl_cons, foldl_nil]
    simp only [flatMap_append, flatMap_singleton, filterMap_filterMap,
      filterMap_getLast?_append]
    cases a <;>
      simp [RustcScan.act, RustcScan.flagValue, crateTypesOf, crateNameOf,
        codegenOf, targetOf, emitTypesOf]

theorem foldl_emit_with (parts : List (Text × Option Text)) (d : RustcDestinations)
    (output dir : Option Text) :
    parts.foldl RustcDestinations.emit { d with outputFile := output, outDir := dir } =
      { parts.foldl RustcDestinations.emit d with outputFile := output, outDir := dir } := by
  induction parts generalizing d with
  | nil => rfl
  | cons part parts ih =>
    obtain ⟨kind, path⟩ := part
    cases path with
    | none => exact ih d
    | some path => exact ih (d.emit (kind, some path))

theorem foldl_destinations_act (actions : List RustcAction) :
    actions.foldl RustcDestinations.act .start =
      { (actions.flatMap emitPartsOf).foldl RustcDestinations.emit .start with
        outputFile := (actions.filterMap (unkeyedOf "-o")).getLast?
        outDir := (actions.filterMap (unkeyedOf "--out-dir")).getLast? } := by
  induction actions using List.reverseRecOn with
  | nil => rfl
  | append_singleton actions a ih =>
    rw [foldl_append, ih, foldl_cons, foldl_nil]
    simp only [flatMap_append, flatMap_singleton, filterMap_getLast?_append,
      foldl_append]
    cases a with
    | emit t => exact foldl_emit_with _ _ _ _
    | _ => rfl

end Zccache
