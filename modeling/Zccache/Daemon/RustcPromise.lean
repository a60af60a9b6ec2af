import Zccache.Daemon.RustcOutputs

/-! # Promised and collected outputs

rustc documents the files that it writes for the kinds of `--emit`. The announced
output, the expected outputs and the collected files are the same when that is one
file, and when the command line settles its path. They differ as soon as a second
kind is emitted, and when a suffix is given without an output directory.
-/

namespace Zccache

open List Unix RustcOutputArgs
open StableSort (eraseRepeats mem_eraseRepeats)

/-- How a target names what the linker makes: the end of an executable, and what stands around the
stem of a library. -/
structure LinkNames where
  exe : Text
  staticlib : Text × Text
  dylib : Text × Text

def linkFilename (names : LinkNames) (crateType stem : Text) : Text :=
  if crateType = "bin" then stem ++ names.exe
  else if crateType = "staticlib" then names.staticlib.1 ++ stem ++ names.staticlib.2
  else if crateType ∈ texts ["dylib", "cdylib", "proc-macro"] then
    names.dylib.1 ++ stem ++ names.dylib.2
  else "lib" ++ stem ++ ".rlib"

/-- What a command line says about the outputs. -/
structure OutputOptions where
  source : Option Text
  crateTypes : List Text
  crateName : Option Text
  emits : List (Text × Option Text)
  output : Option Text
  outDir : Option Text
  extraFilename : Text
  target : Option Text
  splitDebuginfo : Option Text
  isTest : Bool
  onlyPrints : Bool
  deriving DecidableEq

def OutputOptions.ofActions (actions : List RustcAction) : OutputOptions :=
  let codegen := actions.filterMap RustcAction.codegenOf
  { source := (actions.filterMap RustcAction.sourceOf).getLast?
    crateTypes := actions.flatMap RustcAction.crateTypesOf
    crateName := (actions.filterMap RustcAction.crateNameOf).getLast?
    emits := actions.flatMap RustcAction.emitPartsOf
    output := (actions.filterMap (RustcAction.unkeyedOf "-o")).getLast?
    outDir := (actions.filterMap (RustcAction.unkeyedOf "--out-dir")).getLast?
    extraFilename := (lastCodegenValue "extra-filename" codegen).getD []
    target := (actions.filterMap RustcAction.targetOf).getLast?
    splitDebuginfo := lastCodegenValue "split-debuginfo" codegen
    isTest := actions.contains (.unknown "--test")
    onlyPrints := (texts ["-h", "--help", "-V", "--version"]).any
      fun flag => actions.contains (.unknown flag) }

/-- rustc also takes the value of `-o` and `--codegen` from the same argument. -/
def documentedUnit : List Text → List RustcAction
  | [arg] =>
    match arg.dropPrefix? "--codegen=", arg.dropPrefix? "-o" with
    | some option, _ => [.codegen option]
    | none, some path => [.unkeyed "-o" path]
    | none, none => rustcActions [arg]
  | u => rustcActions u

/-- rustc reads the names of codegen options with hyphens or with underscores. -/
def hyphenated : RustcAction → RustcAction
  | .codegen t =>
    .codegen ((codegenKey t).map (fun c => if c = '_' then '-' else c) ++
      t.drop (codegenKey t).length)
  | a => a

def documentedActions (args : List Text) : List RustcAction :=
  ((rustcUnits args).flatMap documentedUnit).map hyphenated

namespace OutputOptions

variable (names : LinkNames) (sourceName : Text) (cwd : Path) (o : OutputOptions)

def kinds : List Text :=
  if o.emits.isEmpty then ["link".toList] else o.emits.map Prod.fst

/-- A test harness is an executable whatever the crate type. -/
def builtTypes : List Text :=
  if o.isTest || o.crateTypes.isEmpty then ["bin".toList] else o.crateTypes

/-- The path that is given for a kind. The last mention of the kind counts. -/
def pathOf (kind : Text) : Option Text :=
  (o.emits.filter (·.1 = kind)).getLast?.bind Prod.snd

def unnamedKinds : List Text :=
  (eraseRepeats o.kinds).filter fun kind => (o.pathOf kind).isNone

def documentedExtensions : List (Text × Text) :=
  [("dep-info", "d"), ("obj", "o"), ("asm", "s"),
    ("llvm-ir", "ll"), ("llvm-bc", "bc"), ("mir", "mir")]

/-- Libraries and their metadata are named after the crate, the other files after the output. -/
def filenames (stem crate kind : Text) : List Text :=
  if kind = "link" then
    o.builtTypes.map fun t => linkFilename names t (if t = "bin" then stem else crate)
  else if kind = "metadata" then ["lib".toList ++ crate ++ ".rmeta"]
  else ((documentedExtensions.lookup kind).map fun ext => stem ++ '.' :: ext).toList

def outputDir : Path :=
  (o.outDir.map fun dir => (resolvePath cwd dir).path).getD cwd

/-- The files of one kind. Without `--crate-name` the source names the crate. With `-o` and
several kinds the directory and the stem of the output are used. -/
def filesOf (kind : Text) : List NormalizedPath :=
  let crate := o.crateName.getD sourceName ++ o.extraFilename
  match o.pathOf kind, o.output with
  | some path, _ => if path = "-" then [] else [resolvePath cwd path]
  | none, some path =>
    if path = "-" then []
    else if o.unnamedKinds.length ≤ 1 then [resolvePath cwd path]
    else
      let output := (resolvePath cwd path).path
      (o.filenames names ((fileStem output).getD [] ++ o.extraFilename) crate kind).map
        fun file => .ofPath (join output.dropLast (components file))
  | none, none =>
    (o.filenames names crate crate kind).map
      fun file => .ofPath (join (o.outputDir cwd) (components file))

/-- Everything that rustc writes, unstable options and debug files aside. -/
def files : List NormalizedPath :=
  if o.onlyPrints then [] else o.kinds.flatMap (o.filesOf names sourceName cwd)

end OutputOptions

def HoldsExactly (fs : NormalizedPath → Option EntryMetadata)
    (files : List NormalizedPath) : Prop :=
  ∀ path, (path ∈ files → ∃ len, fs path = some ⟨true, len⟩) ∧ (path ∉ files → fs path = none)

/-- rustc, the classifier and the key parser read the same options. -/
structure WritesPlainly (args : List Text) : Prop where
  plain : PlainlyWritten args
  separate : ∀ arg, [arg] ∈ rustcUnits args →
    ¬ "-o" <+: arg ∧ ¬ "--codegen=" <+: arg
  codegen : ∀ option, .codegen option ∈ rustcActions args →
    '_' ∉ codegenKey option ∧ option ≠ "extra-filename"
  source : (scanRustc .start args).crateName = none →
    (scanRustc .start args).source = (OutputOptions.ofActions (rustcActions args)).source

/-- How the classifier takes the linker's products to be named. -/
def assumedNames (host : RustcHost) (target : Option Text) : LinkNames where
  exe := if isWindowsTarget target host then ".exe" else []
  staticlib :=
    if isMsvcLike target host then ([], ".lib") else ("lib", ".a")
  dylib :=
    match host with
    | .windows => ([], ".dll")
    | .macos => ("lib", ".dylib")
    | .linux => ("lib", ".so")

def linkGroups : List (List Text) :=
  [texts ["proc-macro"], texts ["bin"], texts ["staticlib"], texts ["lib", "rlib"]]

/-- The kinds that have a file beside the products of the linker. -/
def fileKinds : List Text :=
  texts ["metadata", "dep-info", "obj", "asm", "llvm-ir", "llvm-bc", "mir"]

def linkOnly : List (List (Text × Option Text)) :=
  [[], [("link", none)]]

/-- The crate is named on the command line, or rustc names it after the source file. -/
def OutputOptions.Names (o : OutputOptions) (sourceName name : Text) : Prop :=
  o.crateName = some name ∨
    o.crateName = none ∧ sourceName = name ∧
      (o.source.bind fun source => fileStem (components source)) = some name

/-- One file is written, at a path that the command line settles. -/
inductive OneFile (host : RustcHost) (names : LinkNames) (sourceName : Text)
    (o : OutputOptions) : Prop where
  | byKind {kind name : Text} (hkind : kind ∈ fileKinds) (hemits : o.emits = [(kind, none)])
      (hname : o.Names sourceName name) (hout : o.output = none)
      (hsuf : o.outDir = none → o.extraFilename = [])
  | byCrateType {name : Text} (hemits : o.emits ∈ linkOnly) (hname : o.Names sourceName name)
      (hout : o.output = none) (hsuf : o.outDir = none → o.extraFilename = [])
      (htypes : ∃ group ∈ linkGroups, o.crateTypes ⊆ group)
      (htest : o.isTest = true → o.crateTypes ⊆ texts ["bin"])
      (hnames : ∀ t ∈ o.builtTypes, ∀ stem,
        linkFilename names t stem = linkFilename (assumedNames host o.target) t stem)
  | named {kind path : Text} (hkind : kind ∈ "link".toList :: fileKinds)
      (hemits : o.emits = [(kind, some path)]) (hpath : path ≠ "-".toList ∧ path ≠ [])
      (hout : o.output = none)
  | output {path : Text} (hemits : o.emits ∈ linkOnly) (hout : o.output = some path)
      (hpath : path ≠ "-".toList)

/-- rustc compiles, and no file is expected beside a library or an executable. -/
structure NoSideFiles (host : RustcHost) (o : OutputOptions) : Prop where
  compiles : o.onlyPrints = false
  crateTypes : o.crateTypes ≠ ["cdylib".toList]
  target : o.target.all (fun triple => !"-pc-windows-msvc".toList.isSuffixOf triple) = true
  host : o.target = none → host ≠ .windows
  debuginfo : o.splitDebuginfo ≠ some "packed".toList

section Paths

variable (c : RustcCommand)

theorem resolvePath_eq (cwd : Path) (t : Text) :
    resolvePath cwd t = .ofPath (join cwd (components t)) := by
  unfold resolvePath
  split
  · next habs =>
    have hhead : t.head? = some sep := by simpa [isAbsolute] using habs
    obtain ⟨rest, hrest, -⟩ := isAbsolute_components hhead
    rw [join, if_pos (by rw [hrest]; rfl)]
    rfl
  · rfl

theorem outputPath_eq (path : NormalizedPath) :
    c.outputPath path = .ofPath (join c.cwd path.path) := by
  unfold RustcCommand.outputPath
  split
  · next hroot => rw [join, if_pos hroot, NormalizedPath.ofPath_path]
  · apply NormalizedPath.ext
    exact normalize_normalize_join c.cwd path.path

theorem outputPath_explicit (t : Text) :
    c.outputPath (RustcOutputPlan.explicit t).outputFile = resolvePath c.cwd t := by
  rw [outputPath_eq, resolvePath_eq]
  apply NormalizedPath.ext
  exact normalize_join_normalize c.cwd (components t)

theorem outputPath_inDirectory (directory filename : Text) :
    c.outputPath (RustcOutputPlan.inDirectory directory filename).outputFile =
      .ofPath (join (resolvePath c.cwd directory).path (components filename)) := by
  have hfile : (RustcOutputPlan.inDirectory directory filename).outputFile =
      (NormalizedPath.new directory).join (components filename) := by
    rw [RustcOutputPlan.outputFile, ← NormalizedPath.caseKey_eq, NormalizedPath.new_caseKey]
  rw [hfile, outputPath_eq, resolvePath_eq]
  apply NormalizedPath.ext
  change normalize (join c.cwd (normalize (join (normalize (components directory))
      (components filename)))) =
    normalize (join (normalize (join c.cwd (components directory))) (components filename))
  rw [normalize_join_normalize, normalize_join_assoc, ← normalize_normalize_join,
    normalize_join_normalize]

end Paths

section Announced

variable {args : List Text} {s : RustcScan} {d : RustcDestinations} {o : OutputOptions}

theorem codegenKey_eq_iff {key option : Text} (hne : option ≠ key) {v : Text} :
    codegenKey option = key ∧ codegenValue option = v ↔
      splitOnce '=' option = some (key, v) := by
  by_cases hequals : '=' ∈ option
  · obtain ⟨rest, hsplit⟩ := splitOnce_beforeFirst hequals
    simp [codegenKey, codegenValue, hsplit]
  · rw [codegenKey, beforeFirst_of_notMem hequals, splitOnce_eq_none_iff.mpr hequals]
    simp [hne]

/-- The classifier looks for the option with its equals sign, the key parser at the name. -/
theorem lastCodegenValue_eq {key : String} (hkey : '=' ∉ key.toList) {options : List Text}
    (h : ∀ option ∈ options, option ≠ key.toList) :
    (options.filterMap (·.dropPrefix? (key.toList ++ ['=']))).getLast? =
      lastCodegenValue key options := by
  have hread : ∀ option ∈ options, ∀ v, option.dropPrefix? (key.toList ++ ['=']) = some v ↔
      codegenKey option = key.toList ∧ codegenValue option = v := by
    intro option hopt v
    rw [codegenKey_eq_iff (h option hopt), dropPrefix?_eq_some, splitOnce_eq_some_iff,
      append_assoc]
    simp [hkey]
  congr 1
  clear h
  induction options with
  | nil => rfl
  | cons option options ih =>
    obtain ⟨hopt, hopts⟩ := forall_mem_cons.mp hread
    by_cases hk : codegenKey option = key.toList
    · rw [filterMap_cons, (hopt _).mpr ⟨hk, rfl⟩, ih hopts]
      simp [hk]
    · have hnone : option.dropPrefix? (key.toList ++ ['=']) = none := by
        apply Option.eq_none_iff_forall_ne_some.mpr
        intro v hv
        exact hk ((hopt v).mp hv).1
      rw [filterMap_cons, hnone, ih hopts]
      simp [hk]

theorem emitTypesOf_eq (a : RustcAction) :
    a.emitTypesOf = (a.emitPartsOf).map Prod.fst := by
  cases a with
  | emit t =>
    simp only [RustcAction.emitTypesOf, RustcAction.emitPartsOf, map_map]
    apply map_congr_left
    intro part _
    simp only [Function.comp, emitPart]
    by_cases hequals : '=' ∈ part
    · obtain ⟨rest, hsplit⟩ := splitOnce_beforeFirst hequals
      rw [hsplit]
    · rw [splitOnce_eq_none_iff.mpr hequals, beforeFirst_of_notMem hequals]
  | _ => rfl

theorem emitTypes_eq (actions : List RustcAction) :
    actions.flatMap RustcAction.emitTypesOf =
      (actions.flatMap RustcAction.emitPartsOf).map Prod.fst := by
  rw [map_flatMap]
  exact congrArg (actions.flatMap ·) (funext emitTypesOf_eq)

/-- The classifier has read these options. -/
structure ReadAs (s : RustcScan) (d : RustcDestinations) (o : OutputOptions) : Prop where
  source : o.crateName = none → s.source = o.source
  crateTypes : s.crateTypes = o.crateTypes
  crateName : s.crateName = o.crateName
  emitTypes : s.emitTypes = o.emits.map Prod.fst
  target : s.target = o.target
  extraFilename : s.extraFilename.getD [] = o.extraFilename
  destinations : d =
    { o.emits.foldl RustcDestinations.emit .start with outputFile := o.output, outDir := o.outDir }

theorem WritesPlainly.readAs (h : WritesPlainly args) :
    ReadAs (scanRustc .start args) (scanDestinations .start args)
      (.ofActions (rustcActions args)) := by
  obtain ⟨hscan, hdest⟩ := scan_plain h.plain
  rw [foldl_act] at hscan
  rw [foldl_destinations_act] at hdest
  have hcg : ∀ option ∈ (rustcActions args).filterMap RustcAction.codegenOf,
      option ≠ "extra-filename" := by
    intro option hopt
    obtain ⟨a, ha, hof⟩ := mem_filterMap.mp hopt
    cases a with
    | codegen t =>
      cases hof
      exact (h.codegen option ha).2
    | _ => cases hof
  have hsuf : (scanRustc .start args).extraFilename =
      lastCodegenValue "extra-filename" ((rustcActions args).filterMap RustcAction.codegenOf) :=
    (congrArg RustcScan.extraFilename hscan).trans (lastCodegenValue_eq (by decide) hcg)
  have hname := congrArg RustcScan.crateName hscan
  constructor
  · exact fun hnone => h.source (hname.trans hnone)
  · exact congrArg RustcScan.crateTypes hscan
  · exact hname
  · exact (congrArg RustcScan.emitTypes hscan).trans (emitTypes_eq _)
  · exact congrArg RustcScan.target hscan
  · rw [hsuf]
    rfl
  · exact hdest

/-- The classifier announces an output by the name of the crate. -/
theorem ReadAs.name_eq (hread : ReadAs s d o) (host : RustcHost) (suffix : Text)
    {sourceName name : Text} (h : o.Names sourceName name) :
    (s.outputShape host suffix).name = name := by
  change s.crateName.getD _ = name
  rw [hread.crateName]
  rcases h with hname | ⟨hnone, -, hstem⟩
  · rw [hname, Option.getD_some]
  · rw [hnone, hread.source hnone, hstem]
    rfl

theorem OutputOptions.Names.getD_eq {sourceName name : Text} (h : o.Names sourceName name) :
    o.crateName.getD sourceName = name := by
  rcases h with hname | ⟨hnone, hsource, -⟩
  · rw [hname, Option.getD_some]
  · rw [hnone, Option.getD_none, hsource]

theorem outputPath_of_explicit (c : RustcCommand) (host : RustcHost) {path : Text}
    (h : d.outputFile.or (d.explicitLinkOutput.or d.explicitOutput) = some path) :
    c.outputPath (rustcOutputPlan host s d).outputFile = resolvePath c.cwd path := by
  rw [rustcOutputPlan, h]
  exact outputPath_explicit c path

theorem outputPath_of_filename (c : RustcCommand) (host : RustcHost)
    (h : d.outputFile.or (d.explicitLinkOutput.or d.explicitOutput) = none)
    (hsuf : d.outDir = none → s.extraFilename.getD [] = []) :
    c.outputPath (rustcOutputPlan host s d).outputFile =
      .ofPath (join ((d.outDir.map fun dir => (resolvePath c.cwd dir).path).getD c.cwd)
        (components
          (rustcPrimaryOutputFilename (s.outputShape host (s.extraFilename.getD []))))) := by
  rw [rustcOutputPlan, h]
  cases hdir : d.outDir with
  | none =>
    rw [hsuf hdir]
    exact (outputPath_explicit c _).trans (resolvePath_eq _ _)
  | some dir => exact outputPath_inDirectory c dir _

theorem filename_of_kind (host : RustcHost) (names : LinkNames) (o : OutputOptions)
    {kind name : Text} (suffix : Text) (hkind : kind ∈ fileKinds)
    (hemits : s.emitTypes = [kind]) (hname : (s.outputShape host suffix).name = name) :
    expectedFilename kind (name ++ suffix) =
        some (rustcPrimaryOutputFilename (s.outputShape host suffix)) ∧
      o.filenames names (name ++ suffix) (name ++ suffix) kind =
        [rustcPrimaryOutputFilename (s.outputShape host suffix)] := by
  obtain ⟨crateTypes, source, crateName, extraFilename, linker, target, emitTypes, unknownFlags,
    isTestHarness⟩ := s
  subst hemits hname
  revert hkind kind
  simp only [fileKinds, texts, map_cons, map_nil, forall_mem_cons]
  and_intros
  all_goals first
    | rfl
    | exact forall_mem_nil _

/-- Crate types with one product have one name for it, the one that the classifier assumes. -/
theorem linkFilename_of_group {shape : RustcOutputShape} {types group : List Text} {t : Text}
    (hgroup : group ∈ linkGroups) (hsub : types ⊆ group) (ht : t ∈ types)
    (hproc : shape.isProcMacro = types.contains "proc-macro")
    (hdylint : shape.isDylintCdylib = true → types = ["cdylib".toList])
    (hbin : shape.isBin = types.contains "bin")
    (hstatic : shape.isStaticlib = types.contains "staticlib") :
    shape.linkFilename =
      linkFilename (assumedNames shape.host shape.target) t (shape.name ++ shape.suffix) := by
  have hno : ∀ x, x ∉ group → types.contains x = false := by
    intro x hx
    simpa using fun hmem => hx (hsub hmem)
  have hyes : ∀ x, t = x → types.contains x = true := by
    rintro x rfl
    simpa using ht
  have hcdylib : "cdylib".toList ∉ group → shape.isDylintCdylib = false := by
    intro hnot
    by_contra h
    apply hnot
    apply hsub
    rw [hdylint (by simpa using h)]
    exact mem_cons_self
  have htg := hsub ht
  unfold RustcOutputShape.linkFilename
  rw [hproc, hbin, hstatic]
  simp only [linkGroups, mem_cons, not_mem_nil, or_false] at hgroup
  rcases hgroup with rfl | rfl | rfl | rfl
  · obtain rfl : t = "proc-macro" := mem_singleton.mp htg
    rw [hyes _ rfl, if_pos rfl]
    cases hhost : shape.host with
    | _ =>
      simp [rustcProcMacroFilename, hostLibraryFilename, linkFilename, assumedNames, texts]
  · obtain rfl : t = "bin" := mem_singleton.mp htg
    rw [hno _ (by decide), hcdylib (by decide), hyes _ rfl]
    cases hwindows : isWindowsTarget shape.target shape.host <;>
      simp [rustcBinFilename, linkFilename, assumedNames, hwindows]
  · obtain rfl : t = "staticlib" := mem_singleton.mp htg
    rw [hno _ (by decide), hcdylib (by decide), hno "bin" (by decide), hyes _ rfl]
    cases hmsvc : isMsvcLike shape.target shape.host <;>
      simp [rustcStaticlibFilename, linkFilename, assumedNames, hmsvc]
  · rw [hno _ (by decide), hcdylib (by decide), hno "bin" (by decide), hno "staticlib" (by decide)]
    simp only [texts, map_cons, map_nil, mem_cons, not_mem_nil, or_false] at htg
    rcases htg with rfl | rfl <;> simp [linkFilename, texts]

theorem filename_of_crateTypes (host : RustcHost) {name suffix t : Text}
    (hemits : s.emitTypes = [] ∨ s.emitTypes = ["link".toList])
    (hname : (s.outputShape host suffix).name = name)
    (htypes : ∃ group ∈ linkGroups, s.crateTypes ⊆ group)
    (ht : t ∈ if s.crateTypes.isEmpty then ["bin".toList] else s.crateTypes) :
    rustcPrimaryOutputFilename (s.outputShape host suffix) =
      linkFilename (assumedNames host s.target) t (name ++ suffix) := by
  obtain ⟨group, hgroup, hsub⟩ : ∃ group ∈ linkGroups,
      (if s.crateTypes.isEmpty then ["bin".toList] else s.crateTypes) ⊆ group := by
    split
    · exact ⟨texts ["bin"], by decide, by decide⟩
    · exact htypes
  have hlink : rustcPrimaryOutputFilename (s.outputShape host suffix) =
      (s.outputShape host suffix).linkFilename := by
    obtain ⟨crateTypes, source, crateName, extraFilename, linker, target, emitTypes, unknownFlags,
      isTestHarness⟩ := s
    rcases hemits with rfl | rfl <;> rfl
  have hdylint : (s.outputShape host suffix).isDylintCdylib = true →
      (if s.crateTypes.isEmpty then ["bin".toList] else s.crateTypes) = ["cdylib".toList] := by
    intro h
    simp only [RustcScan.outputShape, Bool.and_eq_true, decide_eq_true_eq] at h
    exact h.1.1.1
  rw [hlink, linkFilename_of_group hgroup hsub ht rfl hdylint rfl rfl, hname]
  rfl

end Announced

section Expected

variable {host : RustcHost} {cwd : Path} {p : RustcOutputArgs} {primary : NormalizedPath}

theorem foldl_pushUnique_self {paths : List NormalizedPath} (h : ∀ path ∈ paths, path = primary) :
    paths.foldl pushUniqueOutputPath [primary] = [primary] := by
  induction paths with
  | nil => rfl
  | cons path paths ih =>
    obtain ⟨rfl, hpaths⟩ := forall_mem_cons.mp h
    rw [foldl_cons, pushUniqueOutputPath, if_pos (mem_singleton.mpr rfl)]
    exact ih hpaths

theorem placeExplicit_self (kind : Text) :
    placeExplicit [primary] (kind, primary) = [primary] := by
  unfold placeExplicit
  cases h : isOutputOf kind primary with
  | true => simp [h]
  | false => simp [h, pushUniqueOutputPath]

theorem lastCodegenValue_filter {key : String} (h : ∀ option, codegenKey option = key.toList →
      isKeyedCodegen option = true) (options : List Text) :
    lastCodegenValue key (options.filter isKeyedCodegen) = lastCodegenValue key options := by
  have hfilt : (options.filter isKeyedCodegen).filter (fun o => codegenKey o = key.toList) =
      options.filter fun o => codegenKey o = key.toList := by
    rw [filter_filter]
    apply filter_congr
    intro option _
    cases hkey : decide (codegenKey option = key.toList) with
    | false => rfl
    | true => simp [h option (of_decide_eq_true hkey)]
  rw [lastCodegenValue, lastCodegenValue, hfilt]

theorem sidecarPaths_eq_nil {actions : List RustcAction}
    (h : NoSideFiles host (.ofActions actions)) (clientEnv : Option Env) :
    sidecarPaths host cwd (.ofActions cwd actions) primary clientEnv = [] := by
  have hdylint : dylintLibrarySidecarOutputPath host cwd (.ofActions cwd actions) primary
      clientEnv = none := by
    have hne : (ofActions cwd actions).crateTypes ≠ ["cdylib".toList] :=
      h.crateTypes
    unfold dylintLibrarySidecarOutputPath
    rw [guard, if_neg hne]
    rfl
  have hpdb : msvcTargetWritesPdb host (.ofActions cwd actions) = false := by
    have htgt := h.target
    have hsame : (ofActions cwd actions).target =
        (OutputOptions.ofActions actions).target := rfl
    rw [msvcTargetWritesPdb, hsame]
    cases hcase : (OutputOptions.ofActions actions).target with
    | none => exact decide_eq_false (h.host hcase)
    | some triple =>
      rw [hcase, Option.all_some, Bool.not_eq_true'] at htgt
      exact htgt
  have hpacked : (ofActions cwd actions).effectiveCodegenValue "split-debuginfo" ≠
      some "packed".toList := by
    have hkeyed : ∀ option, codegenKey option = "split-debuginfo" →
        isKeyedCodegen option = true := by
      intro option hopt
      rw [isKeyedCodegen, hopt]
      decide
    intro hval
    exact h.debuginfo ((lastCodegenValue_filter hkeyed _).symm.trans hval)
  have hdwp : linuxPackedDwarfSidecarOutputPath host (.ofActions cwd actions) primary = none := by
    unfold linuxPackedDwarfSidecarOutputPath
    dsimp only
    rw [decide_eq_false hpacked]
    simp
  rw [sidecarPaths, hdylint, hpdb, hdwp]
  rfl

theorem expected_of_unnamed {clientEnv : Option Env}
    (hside : sidecarPaths host cwd p primary clientEnv = []) (hexplicit : p.explicitEmitPaths = [])
    (hkinds : ∀ kind ∈ p.emitTypes, ∀ path, expectedPath cwd p kind = some path → path = primary) :
    rustcExpectedOutputPaths host cwd p primary clientEnv = [primary] := by
  have hpaths : ∀ path ∈ p.emitTypes.filterMap (expectedPath cwd p), path = primary := by
    intro path hpath
    obtain ⟨kind, hkind, hsome⟩ := mem_filterMap.mp hpath
    exact hkinds kind hkind path hsome
  unfold rustcExpectedOutputPaths
  simp [hexplicit, hside, foldl_pushUnique_self hpaths]

theorem expected_of_named {clientEnv : Option Env} {kind : Text}
    (hside : sidecarPaths host cwd p primary clientEnv = [])
    (hexplicit : p.explicitEmitPaths = [(kind, primary)]) (hkinds : p.emitTypes = [kind]) :
    rustcExpectedOutputPaths host cwd p primary clientEnv = [primary] := by
  have hfirst : (([(kind, primary)].find? (·.1 = "link".toList)).map (·.2)).getD primary =
      primary := by
    rw [find?_singleton]
    split <;> rfl
  unfold rustcExpectedOutputPaths
  dsimp only
  rw [hexplicit, hfirst, hkinds, hside]
  simp [placeExplicit_self]

end Expected

section Collected

variable {fs : NormalizedPath → Option EntryMetadata} {primary : NormalizedPath}

theorem addOutputFile_self {len : ℕ} (h : ∀ path, path ≠ primary → fs path = none)
    (path : NormalizedPath) :
    addOutputFile fs [⟨(fileName primary.path).getD [], primary, len⟩] path =
      [⟨(fileName primary.path).getD [], primary, len⟩] := by
  unfold addOutputFile
  by_cases hpath : path = primary
  · simp [hpath]
  · rw [h path hpath]
    simp

theorem collected_eq (host : RustcHost) (cwd : Path) (p : RustcOutputArgs)
    {files : List NormalizedPath} (hfs : HoldsExactly fs files)
    (hfiles : ∀ path, path ∈ files ↔ path = primary) :
    (collectRustcOutputFiles fs host cwd p primary).map (·.path) = [primary] := by
  obtain ⟨len, hprim⟩ := (hfs primary).1 ((hfiles primary).mpr rfl)
  have hothers : ∀ path, path ≠ primary → fs path = none :=
    fun path hne => (hfs path).2 fun hmem => hne ((hfiles path).mp hmem)
  have hfold : ∀ paths : List NormalizedPath,
      paths.foldl (addOutputFile fs) [⟨(fileName primary.path).getD [], primary, len⟩] =
        [⟨(fileName primary.path).getD [], primary, len⟩] := by
    intro paths
    induction paths with
    | nil => rfl
    | cons path paths ih =>
      rw [foldl_cons, addOutputFile_self hothers]
      exact ih
  rw [collectRustcOutputFiles, hprim]
  simp [hfold]

end Collected

section OneFile

variable {host : RustcHost} {names : LinkNames} {sourceName : Text} {s : RustcScan}
  {d : RustcDestinations} {o : OutputOptions} (c : RustcCommand)

theorem foldl_emit_unnamed {emits : List (Text × Option Text)} (h : ∀ part ∈ emits, part.2 = none)
    (d : RustcDestinations) : emits.foldl RustcDestinations.emit d = d := by
  induction emits with
  | nil => rfl
  | cons part emits ih =>
    obtain ⟨hpart, hemits⟩ := forall_mem_cons.mp h
    obtain ⟨kind, path⟩ := part
    subst hpart
    exact ih hemits

theorem ReadAs.announced_unnamed (hread : ReadAs s d o) (host : RustcHost)
    (hemits : ∀ part ∈ o.emits, part.2 = none) (hout : o.output = none)
    (hsuf : o.outDir = none → o.extraFilename = []) :
    c.outputPath (rustcOutputPlan host s d).outputFile =
      .ofPath (join (o.outputDir c.cwd)
        (components (rustcPrimaryOutputFilename (s.outputShape host o.extraFilename)))) := by
  have hd := hread.destinations
  rw [foldl_emit_unnamed hemits, hout] at hd
  subst hd
  rw [outputPath_of_filename c host rfl (by rw [hread.extraFilename]; exact hsuf),
    hread.extraFilename]
  rfl

theorem ReadAs.announced_named (hread : ReadAs s d o) (host : RustcHost) {kind path : Text}
    (hemits : o.emits = [(kind, some path)]) (hpath : path ≠ "-" ∧ path ≠ [])
    (hout : o.output = none) :
    c.outputPath (rustcOutputPlan host s d).outputFile = resolvePath c.cwd path := by
  have hd := hread.destinations
  rw [hemits, hout] at hd
  subst hd
  apply outputPath_of_explicit c host
  have hfirst : path ≠ "-" ∧ path ≠ [] ∧ True := ⟨hpath.1, hpath.2, True.intro⟩
  simp only [foldl_cons, foldl_nil, RustcDestinations.emit, RustcDestinations.start,
    if_pos hfirst, Option.none_or]
  split <;> rfl

theorem ReadAs.announced_output (hread : ReadAs s d o) (host : RustcHost) {path : Text}
    (hout : o.output = some path) :
    c.outputPath (rustcOutputPlan host s d).outputFile = resolvePath c.cwd path := by
  have hd := hread.destinations
  rw [hout] at hd
  subst hd
  exact outputPath_of_explicit c host rfl

theorem of_linkOnly (h : o.emits ∈ linkOnly) :
    (∀ part ∈ o.emits, part.2 = none) ∧ o.kinds = ["link".toList] ∧ o.pathOf "link" = none ∧
      (o.emits.map Prod.fst = [] ∨ o.emits.map Prod.fst = ["link".toList]) := by
  simp only [linkOnly, mem_cons, not_mem_nil, or_false] at h
  rcases h with h | h <;> simp [OutputOptions.kinds, OutputOptions.pathOf, h]

theorem OutputOptions.builtTypes_ne_nil (o : OutputOptions) : o.builtTypes ≠ [] := by
  unfold OutputOptions.builtTypes
  split
  · simp
  · next h =>
    rw [Bool.or_eq_true, not_or, List.isEmpty_iff] at h
    exact h.2

theorem mem_crateTypes_of_builtTypes {t : Text} (h : t ∈ o.builtTypes)
    (htest : o.isTest = true → o.crateTypes ⊆ texts ["bin"]) :
    t ∈ if o.crateTypes.isEmpty then ["bin".toList] else o.crateTypes := by
  unfold OutputOptions.builtTypes at h
  cases hempty : o.crateTypes.isEmpty with
  | true => simpa [hempty] using h
  | false =>
    cases htestCase : o.isTest with
    | false => simpa [hempty, htestCase] using h
    | true =>
      obtain rfl : t = "bin" := by simpa [htestCase] using h
      obtain ⟨first, rest, hcons⟩ :=
        exists_cons_of_ne_nil (isEmpty_eq_false_iff.mp hempty)
      have hfirst : first ∈ o.crateTypes := hcons ▸ mem_cons_self
      have hbin : first = "bin" := mem_singleton.mp (htest htestCase hfirst)
      rw [if_neg Bool.false_ne_true, ← hbin]
      exact hfirst

theorem OneFile.mem_files_iff (hone : OneFile host names sourceName o) (hread : ReadAs s d o)
    (hcompiles : o.onlyPrints = false) (path : NormalizedPath) :
    path ∈ o.files names sourceName c.cwd ↔
      path = c.outputPath (rustcOutputPlan host s d).outputFile := by
  have hfiles : o.files names sourceName c.cwd =
      o.kinds.flatMap (o.filesOf names sourceName c.cwd) := by
    simp [OutputOptions.files, hcompiles]
  rw [hfiles]
  cases hone with
  | @byKind kind name hkind hemits hname hout hsuf =>
    have hkinds : o.kinds = [kind] := by simp [OutputOptions.kinds, hemits]
    have hpath : o.pathOf kind = none := by simp [OutputOptions.pathOf, hemits]
    have htypes : s.emitTypes = [kind] := by simp [hread.emitTypes, hemits]
    have hfilename := filename_of_kind host names o o.extraFilename hkind htypes
      (hread.name_eq host _ hname)
    rw [hread.announced_unnamed c host (by simp [hemits]) hout hsuf]
    simp [hkinds, OutputOptions.filesOf, hpath, hout, hname.getD_eq, hfilename.2]
  | @byCrateType name hemits hname hout hsuf htypes htest hnames =>
    obtain ⟨hunnamed, hkinds, hpath, hlinks⟩ := of_linkOnly hemits
    have hfilename : ∀ t ∈ o.builtTypes,
        rustcPrimaryOutputFilename (s.outputShape host o.extraFilename) =
          linkFilename names t (name ++ o.extraFilename) := by
      intro t ht
      rw [hnames t ht, ← hread.target]
      apply filename_of_crateTypes host _ (hread.name_eq host _ hname)
      · rwa [hread.crateTypes]
      · rw [hread.crateTypes]
        exact mem_crateTypes_of_builtTypes ht htest
      · rwa [hread.emitTypes]
    obtain ⟨first, hfirst⟩ := exists_mem_of_ne_nil _ o.builtTypes_ne_nil
    rw [hread.announced_unnamed c host hunnamed hout hsuf]
    simp only [hkinds, flatMap_singleton, OutputOptions.filesOf, hpath, hout, hname.getD_eq,
      OutputOptions.filenames, if_pos, ite_self, map_map, mem_map, Function.comp]
    constructor
    · rintro ⟨t, ht, rfl⟩
      rw [hfilename t ht]
    · rintro rfl
      exact ⟨first, hfirst, by rw [hfilename first hfirst]⟩
  | @named kind path' hkind hemits hpath hout =>
    have hkinds : o.kinds = [kind] := by simp [OutputOptions.kinds, hemits]
    have hgiven : o.pathOf kind = some path' := by simp [OutputOptions.pathOf, hemits]
    rw [hread.announced_named c host hemits hpath hout, hkinds, flatMap_singleton,
      OutputOptions.filesOf, hgiven]
    simp only [if_neg hpath.1, mem_singleton]
  | @output path' hemits hout hpath =>
    obtain ⟨-, hkinds, hgiven, -⟩ := of_linkOnly hemits
    have hone : o.unnamedKinds.length ≤ 1 := by
      rw [OutputOptions.unnamedKinds, hkinds]
      exact length_filter_le _ _
    rw [hread.announced_output c host hout, hkinds, flatMap_singleton,
      OutputOptions.filesOf, hgiven, hout]
    simp only [if_neg hpath, if_pos hone, mem_singleton]

theorem emitTypes_ofActions (cwd : Path) (actions : List RustcAction) :
    (ofActions cwd actions).emitTypes =
      eraseRepeats ((OutputOptions.ofActions actions).emits.map Prod.fst) :=
  congrArg eraseRepeats (emitTypes_eq actions)

variable {actions : List RustcAction}

theorem explicitEmitPaths_unnamed {cwd : Path}
    (h : ∀ part ∈ (OutputOptions.ofActions actions).emits, part.2 = none) :
    (ofActions cwd actions).explicitEmitPaths = [] := by
  apply filterMap_eq_nil_iff.mpr
  rintro ⟨kind, path⟩ hpart
  obtain rfl : path = none := h _ hpart
  rfl

theorem fileStem_resolvePath (cwd : Path) {t stem : Text}
    (h : fileStem (components t) = some stem) :
    fileStem (resolvePath cwd t).path = some stem := by
  have hname : ∀ name, fileName (components t) = some name →
      fileName (resolvePath cwd t).path = some name := by
    intro name hname
    unfold fileName at hname
    split at hname
    · next last hlast =>
      obtain ⟨init, hinit⟩ := getLast?_eq_some_iff.mp hlast
      have hpath : (resolvePath cwd t).path =
          init.foldl normalStep (normalize cwd) ++ [.normal last] := by
        rw [resolvePath_eq, hinit]
        exact (normalize_join cwd _).trans (foldl_append ..)
      simpa [fileName, hpath] using hname
    · cases hname
  obtain ⟨name, hfile, rfl⟩ := Option.map_eq_some_iff.mp h
  rw [fileStem, hname name hfile, Option.map_some]

theorem stem_ofActions {cwd : Path} {name : Text}
    (h : (OutputOptions.ofActions actions).Names sourceName name) :
    (ofActions cwd actions).stem =
      name ++ (OutputOptions.ofActions actions).extraFilename := by
  have hname : (ofActions cwd actions).effectiveCrateName = name := by
    change (OutputOptions.ofActions actions).crateName.getD ((fileStem
      (((OutputOptions.ofActions actions).source.map (resolvePath cwd)).getD (.new [])).path).getD
        _) = name
    rcases h with hname | ⟨hnone, -, hstem⟩
    · rw [hname, Option.getD_some]
    · obtain ⟨source, hsource, hstem⟩ := Option.bind_eq_some_iff.mp hstem
      rw [hnone, hsource, Option.map_some, Option.getD_some, fileStem_resolvePath cwd hstem]
      rfl
  rw [stem, hname]
  rfl

theorem inOutputDir_ofActions (cwd : Path) (actions : List RustcAction) (filename : Text) :
    (ofActions cwd actions).inOutputDir cwd filename =
      .ofPath (join ((OutputOptions.ofActions actions).outputDir cwd) (components filename)) := by
  have hdir : ((ofActions cwd actions).outDir.map (·.path)).getD cwd =
      (OutputOptions.ofActions actions).outputDir cwd := by
    change (((OutputOptions.ofActions actions).outDir.map (resolvePath cwd)).map
      (·.path)).getD cwd = _
    rw [Option.map_map]
    rfl
  rw [inOutputDir, hdir]

theorem OneFile.expected_eq (hone : OneFile host names sourceName (.ofActions actions))
    (hread : ReadAs s d (.ofActions actions)) (hside : NoSideFiles host (.ofActions actions))
    (clientEnv : Option Env) :
    rustcExpectedOutputPaths host c.cwd (.ofActions c.cwd actions)
        (c.outputPath (rustcOutputPlan host s d).outputFile) clientEnv =
      [c.outputPath (rustcOutputPlan host s d).outputFile] := by
  have hnone : ∀ primary,
      sidecarPaths host c.cwd (.ofActions c.cwd actions) primary clientEnv = [] :=
    fun _ => sidecarPaths_eq_nil hside clientEnv
  have hlinkOnly : (OutputOptions.ofActions actions).emits ∈ linkOnly → ∀ primary,
      rustcExpectedOutputPaths host c.cwd (.ofActions c.cwd actions) primary clientEnv =
        [primary] := by
    intro hemits primary
    obtain ⟨hunnamed, -, -, hlinks⟩ := of_linkOnly hemits
    apply expected_of_unnamed (hnone primary) (explicitEmitPaths_unnamed hunnamed)
    intro kind hkind path hpath
    rw [emitTypes_ofActions, mem_eraseRepeats] at hkind
    rcases hlinks with h | h
    · rw [h] at hkind
      cases hkind
    · rw [h, mem_singleton] at hkind
      subst hkind
      cases hpath
  cases hone with
  | @byKind kind name hkind hemits hname hout hsuf =>
    apply expected_of_unnamed (hnone _) (explicitEmitPaths_unnamed (by simp [hemits]))
    intro kind' hkind' path hpath
    obtain rfl : kind' = kind := by
      simpa [emitTypes_ofActions, mem_eraseRepeats, hemits] using hkind'
    have htypes : s.emitTypes = [kind'] := by simp [hread.emitTypes, hemits]
    have hfilename := filename_of_kind host names (.ofActions actions)
      (OutputOptions.ofActions actions).extraFilename hkind htypes (hread.name_eq host _ hname)
    rw [expectedPath, stem_ofActions hname, hfilename.1, Option.map_some, inOutputDir_ofActions]
      at hpath
    rw [hread.announced_unnamed c host (by simp [hemits]) hout hsuf]
    exact (Option.some.inj hpath).symm
  | byCrateType hemits | output hemits => exact hlinkOnly hemits _
  | @named kind path hkind hemits hpath hout =>
    have hexplicit : (ofActions c.cwd actions).explicitEmitPaths =
        [(kind, resolvePath c.cwd path)] := by
      change (OutputOptions.ofActions actions).emits.filterMap (explicitEmitPath c.cwd) = _
      rw [hemits]
      simp only [filterMap_cons, explicitEmitPath, if_pos hpath, filterMap_nil]
    rw [hread.announced_named c host hemits hpath hout]
    apply expected_of_named (hnone _) hexplicit
    rw [emitTypes_ofActions, hemits]
    rfl

end OneFile

variable {args : List Text}

theorem hyphenated_codegen {option : Text} (h : '_' ∉ codegenKey option) :
    hyphenated (.codegen option) = .codegen option := by
  have hkey : (codegenKey option).map (fun c => if c = '_' then '-' else c) =
      codegenKey option := by
    apply (map_congr_left _).trans (map_id _)
    intro c hc
    exact if_neg fun heq : c = '_' => h (heq ▸ hc)
  rw [hyphenated, hkey]
  exact congrArg _ (prefix_iff_eq_append.mp <| takeWhile_prefix _)

theorem dropPrefix?_eq_none {t lead : Text} (h : ¬ lead <+: t) : t.dropPrefix? lead = none := by
  apply Option.eq_none_iff_forall_ne_some.mpr
  intro rest hrest
  exact h ⟨rest, (dropPrefix?_eq_some.mp hrest).symm⟩

/-- Of a plainly written command line rustc reads what the key parser reads. -/
theorem WritesPlainly.documentedActions_eq (h : WritesPlainly args) :
    documentedActions args = rustcActions args := by
  have hunit : ∀ u ∈ rustcUnits args, documentedUnit u = rustcActions u := by
    intro u hu
    unfold documentedUnit
    split
    · next arg =>
      obtain ⟨hout, hcg⟩ := h.separate arg hu
      rw [dropPrefix?_eq_none hout, dropPrefix?_eq_none hcg]
    · rfl
  have hread := rustcActions_flatten h.plain
  rw [flatten_rustcUnits] at hread
  rw [documentedActions, flatMap_congr hunit, ← hread]
  apply (map_congr_left _).trans (map_id _)
  intro a ha
  cases a with
  | codegen option => exact hyphenated_codegen (h.codegen option ha).1
  | _ => rfl

namespace RustcCommand

variable (c : RustcCommand)

def options : OutputOptions :=
  .ofActions (documentedActions c.rustcArgs)

def expectedPaths (host : RustcHost) (clientEnv : Option Env) (output : NormalizedPath) :
    List NormalizedPath :=
  rustcExpectedOutputPaths host c.cwd (.ofActions c.cwd (rustcActions c.rustcArgs))
    (c.outputPath output) clientEnv

def collectedPaths (host : RustcHost) (fs : NormalizedPath → Option EntryMetadata)
    (output : NormalizedPath) : List NormalizedPath :=
  (collectRustcOutputFiles fs host c.cwd (.ofActions c.cwd (rustcActions c.rustcArgs))
    (c.outputPath output)).map (·.path)

/-- The announced output is all that is expected, and all that is collected. -/
structure SameOutputs (host : RustcHost) (clientEnv : Option Env)
    (fs : NormalizedPath → Option EntryMetadata) (output : NormalizedPath) : Prop where
  expected : ∀ path, path ∈ c.expectedPaths host clientEnv output ↔ path = c.outputPath output
  collected : ∀ path, path ∈ c.collectedPaths host fs output ↔ path = c.outputPath output

def holding (files : List NormalizedPath) (path : NormalizedPath) : Option EntryMetadata :=
  if path ∈ files then some ⟨true, 1⟩ else none

theorem holdsExactly_holding (files : List NormalizedPath) : HoldsExactly (holding files) files :=
  fun _ => ⟨fun h => ⟨1, if_pos h⟩, fun h => if_neg h⟩

/-- What rustc writes on a host that names things as the classifier assumes. -/
def writtenFiles (c : RustcCommand) : List NormalizedPath :=
  c.options.files (assumedNames .linux none) [] c.cwd

def filesAt (ts : List String) : List NormalizedPath :=
  ts.map fun t => .new t.toList

theorem SameOutputs.single {c : RustcCommand} {host : RustcHost} {clientEnv : Option Env}
    {fs : NormalizedPath → Option EntryMetadata} {output : NormalizedPath}
    (h : c.SameOutputs host clientEnv fs output) :
    (∀ path ∈ c.expectedPaths host clientEnv output, path = c.outputPath output) ∧
      c.outputPath output ∈ c.collectedPaths host fs output :=
  ⟨fun path hpath => (h.expected path).mp hpath, (h.collected _).mpr rfl⟩

end RustcCommand

end Zccache
