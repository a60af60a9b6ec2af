import Zccache.Request.GnuArgs

/-! # Command lines of linkers and archivers

The parsers for GNU ld, for a compiler that drives the linker and for GNU ar.
What they take for inputs and for flags goes into the key of a link.
-/

namespace Zccache

open Unix StableSort

/-- What a part of the command line contributes. -/
structure LinkPart where
  flags : List Text := []
  inputs : List Text := []
  output : Option Text := none
  secondaryOutputs : List Text := []
  buildIdUuid : Bool := false
  compileOnly : Bool := false
  deriving DecidableEq

/-- An argument stands alone, or takes the next one, if there is one, as its value. -/
inductive LinkReading where
  | one (part : LinkPart)
  | two (alone : LinkPart) (part : Text → LinkPart)

def linkParts (read : Text → LinkReading) : List Text → List LinkPart
  | [] => []
  | [arg] =>
    match read arg with
    | .one part => [part]
    | .two alone _ => [alone]
  | arg :: next :: rest =>
    match read arg with
    | .one part => part :: linkParts read (next :: rest)
    | .two _ part => part next :: linkParts read rest

section Readings

variable (arg : Text)

/-- `-` is the standard output, anything else a file. -/
def fileUnlessDash (t : Text) : List Text :=
  if t = "-" then [] else [t]

def valuedFlag : LinkReading :=
  .two { flags := [arg] } fun value => { flags := [arg, value] }

def outputFlag : LinkReading :=
  .two {} fun value => { output := some value }

/-- GNU ld and lld. -/
def readLdArg : LinkReading :=
  if "--out-implib=".toList.isPrefixOf arg then
    .one { flags := [arg], secondaryOutputs := [arg.drop "--out-implib=".length] }
  else if arg = "--out-implib" then
    .two { flags := [arg] } fun value => { flags := [arg, value], secondaryOutputs := [value] }
  else if "-Map=".toList.isPrefixOf arg then
    .one { flags := [arg], secondaryOutputs := fileUnlessDash (arg.drop "-Map=".length) }
  else if arg = "-Map" then
    .two { flags := [arg] } fun value =>
      { flags := [arg, value], secondaryOutputs := fileUnlessDash value }
  else if "--dependency-file=".toList.isPrefixOf arg then
    .one
      { flags := [arg], secondaryOutputs := fileUnlessDash (arg.drop "--dependency-file=".length) }
  else if arg = "--dependency-file" then
    .two { flags := [arg] } fun value =>
      { flags := [arg, value], secondaryOutputs := fileUnlessDash value }
  else if arg ∈ texts ["-map", "-dependency_info"] then
    .two { flags := [arg] } fun value => { flags := [arg, value], secondaryOutputs := [value] }
  else if arg ∈ texts ["-shared", "--shared", "-dylib"] then .one { flags := [arg] }
  else if arg = "-o" then outputFlag
  else if "--output=".toList.isPrefixOf arg then
    .one { output := some (arg.drop "--output=".length) }
  else if arg = "--build-id=uuid" then .one { flags := [arg], buildIdUuid := true }
  else if "--build-id".toList.isPrefixOf arg then .one { flags := [arg] }
  else if arg ∈ texts ["-soname", "-h"] then valuedFlag arg
  else if "--soname=".toList.isPrefixOf arg then .one { flags := [arg] }
  else if arg ∈ texts ["-install_name", "-L"] then valuedFlag arg
  else if (texts ["-L", "-l", "-Wl,"]).any (·.isPrefixOf arg) then .one { flags := [arg] }
  else if arg ∈ texts ["-T", "--script", "--version-script"] then
    .two { flags := [arg] } fun value => { flags := [arg, value], inputs := [value] }
  else if arg = "-z" then valuedFlag arg
  else if "--version-script=".toList.isPrefixOf arg then
    .one { flags := [arg], inputs := [arg.drop "--version-script=".length] }
  else if arg.head? = some '-' then .one { flags := [arg] }
  else .one { inputs := [arg] }

def objectExtensions : List Text :=
  texts ["o", "obj", "a", "lib", "lo", "so", "dylib", "dll"]

def isLinkerInput (path : Text) : Bool :=
  (extension (components path)).any (· ∈ objectExtensions)

/-- The files that a `-Wl,` argument makes the linker write. -/
def forwardedOutputs : List Text → List Text
  | [] => []
  | part :: rest =>
    ((part.dropPrefix? "--out-implib=").toList ++
      ((part.dropPrefix? "-Map=").toList.flatMap fileUnlessDash) ++
      (if part ∈ texts ["-Map", "--dependency-file"] then
        rest.head?.toList.flatMap fileUnlessDash
      else []) ++
      ((part.dropPrefix? "--dependency-file=").toList.flatMap fileUnlessDash) ++
      if part ∈ texts ["-map", "-dependency_info"] then
        rest.head?.toList.filter fun value => !value.isEmpty
      else []) ++ forwardedOutputs rest

/-- A compiler driver such as gcc. Operands that are no objects are passed over. -/
def readDriverArg : LinkReading :=
  if arg ∈ texts ["-shared", "--shared"] then .one { flags := [arg] }
  else if arg = "-c" then .one { compileOnly := true }
  else if arg = "-o" then outputFlag
  else if "-Wl,".toList.isPrefixOf arg then
    .one
      { flags := [arg]
        buildIdUuid := (arg.splitOn ',').contains "--build-id=uuid"
        secondaryOutputs := forwardedOutputs (arg.splitOn ',') }
  else if arg = "-L" then valuedFlag arg
  else if (texts ["-L", "-l"]).any (·.isPrefixOf arg) then .one { flags := [arg] }
  else if arg ∈ texts ["-target", "--target", "-isysroot"] then valuedFlag arg
  else if arg.head? = some '-' then .one { flags := [arg] }
  else if isLinkerInput arg then .one { inputs := [arg] }
  else .one {}

end Readings

/-- An invocation that is cached. -/
structure CacheableLink where
  inputFiles : List NormalizedPath
  outputFile : NormalizedPath
  secondaryOutputs : List NormalizedPath
  cacheRelevantFlags : List Text
  nonDeterministic : Bool
  deriving DecidableEq

/-- The last output counts. -/
def CacheableLink.ofParts (parts : List LinkPart) : Except Text CacheableLink :=
  match (parts.filterMap LinkPart.output).getLast? with
  | none => .error "no output file specified (-o)"
  | some output =>
    if parts.flatMap LinkPart.inputs = [] then .error "no input files specified"
    else .ok
      { inputFiles := (parts.flatMap LinkPart.inputs).map .new
        outputFile := .new output
        secondaryOutputs :=
          eraseRepeats ((parts.flatMap LinkPart.secondaryOutputs).map .new)
        cacheRelevantFlags := parts.flatMap LinkPart.flags
        nonDeterministic := parts.any LinkPart.buildIdUuid }

variable (args : List Text)

def parseGnuLd : Except Text CacheableLink :=
  if args.isEmpty then .error "no arguments"
  else CacheableLink.ofParts (linkParts readLdArg args)

def parseCompilerDriverLink : Except Text CacheableLink :=
  let parts := linkParts readDriverArg args
  if args.isEmpty then .error "no arguments"
  else if parts.any LinkPart.compileOnly then
    .error "-c flag present (compilation, not linking)"
  else CacheableLink.ofParts parts

/-- The linkers that search libraries with `-L` and `-l`. -/
inductive LinkTool where
  | gnuLd
  | compilerDriver
  deriving DecidableEq

def parseLinkerInvocation : LinkTool → List Text → Except Text CacheableLink
  | .gnuLd => parseGnuLd
  | .compilerDriver => parseCompilerDriverLink

/-- The long options before the operation of ar. Two of them take a value. -/
def arLongFlags : List Text → List Text × List Text
  | [] => ([], [])
  | [arg] => if "--".toList.isPrefixOf arg then ([arg], []) else ([], [arg])
  | arg :: next :: rest =>
    if "--".toList.isPrefixOf arg then
      if next.head? ≠ some '-' ∧ arg ∈ texts ["--plugin", "--target"] then
        let more := arLongFlags rest
        (arg :: next :: more.1, more.2)
      else
        let more := arLongFlags (next :: rest)
        (arg :: more.1, more.2)
    else ([], arg :: next :: rest)

/-- The parts of an ar command line. -/
structure ArCommand where
  longFlags : List Text
  operation : Text
  /-- The name of a member and the count that the modifiers `a`, `b`, `i` and `N` ask for. -/
  positional : List Text
  archive : Text
  members : List Text
  deriving DecidableEq

def splitArCommand : Except Text ArCommand :=
  if args.isEmpty then .error "no arguments"
  else
    let (longFlags, rest) := arLongFlags args
    match rest with
    | [] => .error "no operation specified"
    | op :: operands =>
      let op := (op.dropPrefix? ['-']).getD op
      if op.contains 'x' then .error "extract operation (x) not cacheable"
      else if op.contains 't' then .error "list operation (t) not cacheable"
      else if op.contains 'd' then .error "delete operation (d) not cacheable"
      else if op.contains 'p' then .error "print operation (p) not cacheable"
      else if !op.contains 'r' && !op.contains 'q' then
        .error ("unsupported operation: " ++ op)
      else
        let skipped := (if op.contains 'a' || op.contains 'b' || op.contains 'i' then 1 else 0) +
          if op.contains 'N' then 1 else 0
        match operands.drop skipped with
        | [] => .error "no archive file specified"
        | archive :: members =>
          if members.isEmpty then .error "no input files specified"
          else .ok
            { longFlags, operation := op, positional := operands.take skipped, archive,
              members }

/-- Only the operation and the long options become flags of the key. -/
def ArCommand.toLink (command : ArCommand) : CacheableLink where
  inputFiles := command.members.map .new
  outputFile := .new command.archive
  secondaryOutputs := []
  cacheRelevantFlags := command.operation :: command.longFlags
  nonDeterministic := !command.operation.contains 'D'

end Zccache
