import Zccache.Request.Classifier

/-! # GNU compiler arguments

The parser goes through the arguments once. It takes an argument alone or
together with the one after it, and what it takes goes to the lists of the
compile context.
-/

namespace Zccache

open Unix StableSort

variable {D : Type}

/-- What the parser asks the file system. -/
structure FileSystem where
  isFile : NormalizedPath → Bool
  isDir : NormalizedPath → Bool
  /-- The regular files below a directory, sorted. -/
  filesUnder : NormalizedPath → List NormalizedPath

/-- Neither a file nor a directory exists. -/
def FileSystem.empty : FileSystem :=
  ⟨fun _ => false, fun _ => false, fun _ => []⟩

def resolvePath (cwd : Path) (t : Text) : NormalizedPath :=
  if isAbsolute t then .new t else .ofPath (join cwd (components t))

def isSourceFile (p : NormalizedPath) : Bool :=
  ((extension p.path).getD []).map Char.toLower ∈
    texts ["c", "cc", "cpp", "cxx", "c++", "m", "mm", "s", "sx", "i", "ii"]

inductive IncludeDir where
  | iquote
  | user
  | system
  | after
  deriving DecidableEq

/-- One entry that the parser appends to one of its lists. -/
inductive GnuAction where
  | includeDir (kind : IncludeDir) (dir : NormalizedPath)
  | define (text : Text)
  | undefine (text : Text)
  | output (path : NormalizedPath)
  | forceInclude (path : NormalizedPath)
  | flag (text : Text)
  | source (path : NormalizedPath)
  | unknown (text : Text)
  deriving DecidableEq

/-- How the value of an option is read. -/
inductive Operand where
  | path (actions : NormalizedPath → List GnuAction)
  | text (actions : Text → List GnuAction)
  | output
  | skipped

/-- An argument stands alone, or takes the next one as its value. -/
inductive Reading where
  | one (actions : List GnuAction)
  | two (operand : Operand)

def Operand.actions (cwd : Path) (next : Text) : Operand → List GnuAction
  | path actions => actions (resolvePath cwd next)
  | text actions => actions next
  | output => [.output (resolvePath cwd next)]
  | skipped => []

def gccImplicitPch (fs : FileSystem) (header : NormalizedPath) : Option NormalizedPath :=
  let gch := NormalizedPath.new (toText header.path ++ ".gch")
  if fs.isFile gch then some gch else none

/-- A directory stands for the profiles in it, anything else for itself. -/
def profileInputFiles (fs : FileSystem) (root : NormalizedPath) : List NormalizedPath :=
  if fs.isFile root then [root]
  else if !fs.isDir root then [root]
  else
    let files := fs.filesUnder root
    if files.isEmpty then [root] else files

/-- The options that `-Wp,` hands to the preprocessor. -/
def forwardedActions (cwd : Path) : List Text → List GnuAction
  | [] => []
  | [_] => []
  | option :: path :: rest =>
    if option = "-I" then
      .includeDir .user (resolvePath cwd path) :: forwardedActions cwd rest
    else if option = "-isystem" then
      .includeDir .system (resolvePath cwd path) :: forwardedActions cwd rest
    else if option = "-imacros" ∨ option = "-include" then
      .forceInclude (resolvePath cwd path) :: forwardedActions cwd rest
    else forwardedActions cwd (path :: rest)

section Rules

variable (fs : FileSystem) (cwd : Path) (arg : Text) (next : Option Text)

def valued (name : String) (operand : Operand) : Option Reading :=
  if arg = name.toList ∧ next.isSome then some (.two operand) else none

def joined (name : String) (actions : Text → List GnuAction) : Option Reading :=
  if arg = name.toList then none
  else (arg.dropPrefix? name.toList).map fun rest => .one (actions rest)

def spelled (names : List String) (reading : Reading) : Option Reading :=
  if arg ∈ texts names then some reading else none

def startsWithAny (prefixes : List String) (actions : List GnuAction) : Option Reading :=
  if (texts prefixes).any (·.isPrefixOf arg) then some (.one actions) else none

/-- The rules of the parser in their order; the first that applies is taken. -/
def gnuRules : List (Option Reading) :=
  [valued arg next "-I" (.path fun p => [.includeDir .user p]),
    joined arg "-I" fun dir => [.includeDir .user (resolvePath cwd dir)],
    valued arg next "-isystem" (.path fun p => [.includeDir .system p]),
    valued arg next "-iquote" (.path fun p => [.includeDir .iquote p]),
    valued arg next "-idirafter" (.path fun p => [.includeDir .after p]),
    valued arg next "-D" (.text fun t => [.define t]),
    joined arg "-D" fun t => [.define t],
    valued arg next "-U" (.text fun t => [.undefine t]),
    joined arg "-U" fun t => [.undefine t],
    valued arg next "-o" .output,
    joined arg "-o" fun t => [.output (resolvePath cwd t)],
    valued arg next "-include-pch" (.path fun p => [.forceInclude p]),
    valued arg next "-include"
      (.path fun p => .forceInclude p :: (gccImplicitPch fs p).toList.map .forceInclude),
    valued arg next "-imacros" (.path fun p => [.forceInclude p]),
    (arg.dropPrefix? "-Wp,").map fun options =>
      .one (forwardedActions cwd (options.splitOn ',') ++ [.flag arg]),
    ((arg.dropPrefix? "-fprofile-use=").or
      (arg.dropPrefix? "-fprofile-dir=")).map fun path =>
        .one (.flag arg ::
          (profileInputFiles fs (resolvePath cwd path)).map .forceInclude),
    startsWithAny arg ["-std=", "--std="] [.flag arg],
    valued arg next "-std" (.text fun t => [.flag ("-std=" ++ t)]),
    valued arg next "-x" (.text fun t => [.flag ("-x " ++ t)]),
    joined arg "-x" fun _ => [.flag arg],
    valued arg next "-march" (.text fun t => [.flag ("-march=" ++ t)]),
    valued arg next "-mtune" (.text fun t => [.flag ("-mtune=" ++ t)]),
    valued arg next "-mcpu" (.text fun t => [.flag ("-mcpu=" ++ t)]),
    startsWithAny arg ["-O", "-f", "-m", "-W", "-g", "--target="] [.flag arg],
    spelled arg ["-pthread", "-pipe"] (.one [.flag arg]),
    spelled arg ["-MD", "-MMD"] (.one []),
    spelled arg ["-MF"] (.two .skipped),
    joined arg "-MF" fun _ => [],
    spelled arg ["-MQ", "-MT"] (.two .skipped),
    if arg ∈ gnuFlagsWithValue ∧ next.isSome then
      some (.two (.text fun t => [.flag (arg ++ '=' :: t)]))
    else none,
    spelled arg ["-c", "-S", "-E", "-v", "-w"] (.one []),
    startsWithAny arg ["-M"] [],
    if arg.head? = some '-' then none else some (.one [.source (resolvePath cwd arg)])]

/-- An unknown flag keeps a following argument that is neither a flag nor a source. -/
def unknownFlag : Reading :=
  match next with
  | some t =>
    if t.head? ≠ some '-' ∧ isSourceFile (resolvePath cwd t) = false then
      .two (.text fun t => [.unknown (arg ++ '=' :: t)])
    else .one [.unknown arg]
  | none => .one [.unknown arg]

def readArg : Reading :=
  ((gnuRules fs cwd arg next).findSome? id).getD (unknownFlag cwd arg next)

end Rules

section Applied

variable {arg : Text} {next : Option Text} {r : Reading}

theorem valued_eq_some {name : String} {operand : Operand}
    (h : valued arg next name operand = some r) :
    arg = name.toList ∧ r = .two operand := by
  unfold valued at h
  split at h
  · next harg => exact ⟨harg.1, (Option.some.inj h).symm⟩
  · cases h

theorem joined_eq_some {name : String} {actions : Text → List GnuAction}
    (h : joined arg name actions = some r) :
    ∃ t, t ≠ [] ∧ arg = name.toList ++ t ∧ r = .one (actions t) := by
  unfold joined at h
  split at h
  · cases h
  · next hne =>
    obtain ⟨t, ht, rfl⟩ := Option.map_eq_some_iff.mp h
    have harg := dropPrefix?_eq_some.mp ht
    refine ⟨t, ?_, harg, rfl⟩
    rintro rfl
    exact hne (by simpa using harg)

theorem spelled_eq_some {names : List String} {reading : Reading}
    (h : spelled arg names reading = some r) : arg ∈ texts names ∧ r = reading := by
  unfold spelled at h
  split at h
  · next harg => exact ⟨harg, (Option.some.inj h).symm⟩
  · cases h

theorem startsWithAny_eq_some {prefixes : List String} {actions : List GnuAction}
    (h : startsWithAny arg prefixes actions = some r) : r = .one actions := by
  unfold startsWithAny at h
  split at h
  · exact (Option.some.inj h).symm
  · cases h

end Applied

/-- Everything that the parser appends, in the order of the arguments. -/
def gnuActions (fs : FileSystem) (cwd : Path) : List Text → List GnuAction
  | [] => []
  | [arg] =>
    match readArg fs cwd arg none with
    | .one actions => actions
    | .two _ => []
  | arg :: next :: rest =>
    match readArg fs cwd arg (some next) with
    | .one actions => actions ++ gnuActions fs cwd (next :: rest)
    | .two operand => operand.actions cwd next ++ gnuActions fs cwd rest

structure ParsedArgs where
  sourceFile : NormalizedPath
  outputFile : Option NormalizedPath
  includeSearch : IncludeSearchPaths
  defines : List Text
  undefines : List Text
  flags : List Text
  forceIncludes : List NormalizedPath
  unknownFlags : List Text

namespace GnuAction

def dirOf (kind : IncludeDir) : GnuAction → Option NormalizedPath
  | includeDir kind' dir => if kind' = kind then some dir else none
  | _ => none

def outputOf : GnuAction → Option NormalizedPath
  | output path => some path
  | _ => none

def defineOf : GnuAction → Option Text
  | define t => some t
  | _ => none

def undefineOf : GnuAction → Option Text
  | undefine t => some t
  | _ => none

def flagOf : GnuAction → Option Text
  | flag t => some t
  | _ => none

def forceIncludeOf : GnuAction → Option NormalizedPath
  | forceInclude path => some path
  | _ => none

def sourceOf : GnuAction → Option NormalizedPath
  | source path => some path
  | _ => none

def unknownOf : GnuAction → Option Text
  | unknown t => some t
  | _ => none

variable {x : GnuAction} {t : Text} {path : NormalizedPath}

theorem dirOf_eq_some {kind : IncludeDir} :
    x.dirOf kind = some path ↔ x = .includeDir kind path := by
  cases x <;> simp [dirOf]

theorem defineOf_eq_some : x.defineOf = some t ↔ x = .define t := by
  cases x <;> simp [defineOf]

theorem undefineOf_eq_some : x.undefineOf = some t ↔ x = .undefine t := by
  cases x <;> simp [undefineOf]

theorem flagOf_eq_some : x.flagOf = some t ↔ x = .flag t := by
  cases x <;> simp [flagOf]

theorem forceIncludeOf_eq_some : x.forceIncludeOf = some path ↔ x = .forceInclude path := by
  cases x <;> simp [forceIncludeOf]

theorem unknownOf_eq_some : x.unknownOf = some t ↔ x = .unknown t := by
  cases x <;> simp [unknownOf]

end GnuAction

def sortTexts (ts : List Text) : List Text :=
  sortBy id ts

/-- The lists as the parser leaves them. The last output wins. The source is the first operand
with the extension of a source file, or else the first operand. -/
def ParsedArgs.ofActions (actions : List GnuAction) : ParsedArgs :=
  let sources := actions.filterMap GnuAction.sourceOf
  { sourceFile := ((sources.find? isSourceFile).or sources.head?).getD (.new [])
    outputFile := (actions.filterMap GnuAction.outputOf).getLast?
    includeSearch :=
      { iquote := actions.filterMap (GnuAction.dirOf .iquote)
        user := actions.filterMap (GnuAction.dirOf .user)
        system := actions.filterMap (GnuAction.dirOf .system)
        after := actions.filterMap (GnuAction.dirOf .after) }
    defines := sortTexts (actions.filterMap GnuAction.defineOf)
    undefines := sortTexts (actions.filterMap GnuAction.undefineOf)
    flags := sortTexts (actions.filterMap GnuAction.flagOf)
    forceIncludes := actions.filterMap GnuAction.forceIncludeOf
    unknownFlags := sortTexts (actions.filterMap GnuAction.unknownOf) }

def parseGnuArgs (fs : FileSystem) (args : List Text) (cwd : Path) : ParsedArgs :=
  .ofActions (gnuActions fs cwd args)

def CompileContext.fromParsedArgs (args : ParsedArgs) (compilerHash : D) : CompileContext D where
  sourceFile := args.sourceFile
  includeSearch := args.includeSearch
  defines := sortTexts args.defines
  undefines := sortTexts args.undefines
  flags := sortTexts args.flags
  forceIncludes := args.forceIncludes
  unknownFlags := sortTexts args.unknownFlags
  compilerHash := compilerHash

end Zccache
