import Zccache.Request.MsvcArgs

/-! # Invocations of cl and clang-cl

The classifier for slash style arguments. It takes either spelling of a flag, and
the value of an option from the same or from the next argument.
-/

namespace Zccache

open Unix Units

section Flags

variable (arg : Text)

def isFlag : Bool :=
  (flagRest arg).isSome

def flagBody : Text :=
  (flagRest arg).getD arg

def stripFlag (head : String) : Option Text :=
  (flagRest arg).bind (·.dropPrefix? head.toList)

def isExactFlag (head : String) : Bool :=
  flagRest arg = some head.toList

def msvcSourceExtensions : List Text :=
  texts ["c", "cc", "cpp", "cxx", "c++", "cppm", "ixx", "m", "mm", "i", "ii", "s", "sx"]

def isMsvcSourceFile (t : Text) : Bool :=
  match extension (components t) with
  | some ext => ext.map Char.toLower ∈ msvcSourceExtensions
  | none => false

/-- A text with one slash in front and a letter or a question mark after it. -/
def looksLikeMsvcFlag : Bool :=
  isFlag arg && !(flagBody arg).contains '/' &&
    (flagBody arg).head?.any fun c => c.isAlpha || c = '?'

end Flags

/-- What the classifier has seen of the arguments. -/
structure MsvcScan where
  hasC : Bool
  output : Option Text
  sources : List Text
  unknownFlags : List Text
  externalPdb : Bool

namespace MsvcScan

def start : MsvcScan where
  hasC := false
  output := none
  sources := []
  unknownFlags := []
  externalPdb := false

def unknown (s : MsvcScan) (args : List Text) : MsvcScan :=
  { s with unknownFlags := s.unknownFlags ++ args }

def source (s : MsvcScan) (path : Text) : MsvcScan :=
  { s with sources := s.sources ++ [path] }

def positional (s : MsvcScan) (arg : Text) : MsvcScan :=
  if isMsvcSourceFile arg then s.source arg else s.unknown [arg]

end MsvcScan

/-- What the classifier makes of one argument. An option that wants a value may come last. -/
inductive MsvcStep where
  | reject (reason : Text)
  | alone (update : MsvcScan → MsvcScan)
  | valued (last : MsvcScan → MsvcScan) (update : Text → MsvcScan → MsvcScan)

def uncacheableMsvcFlag (arg : Text) : Option Text :=
  if isExactFlag arg "E" || isExactFlag arg "EP" || isExactFlag arg "P" then
    some ("preprocessing-only flag: " ++ arg)
  else if arg = "/?" || isExactFlag arg "help" || isExactFlag arg "HELP" ||
      arg ∈ texts ["--version", "--help"] then
    some ("help/version query: " ++ arg)
  else none

/-- The value of an option stands in the rest of the argument, or else in the next one. -/
def valueStep (rest : Text) (update : Text → MsvcScan → MsvcScan) : MsvcStep :=
  if rest = [] then .valued id update else .alone (update rest)

def msvcStep (arg : Text) : MsvcStep :=
  if arg = [] then .alone id
  else
    match uncacheableMsvcFlag arg with
    | some reason => .reject reason
    | none =>
      if isExactFlag arg "c" then .alone fun s => { s with hasC := true }
      else if eqIgnoreAsciiCase (flagBody arg) "zi" then
        .alone fun s => { s.unknown [arg] with externalPdb := true }
      else
        match stripFlag arg "Fo" with
        | some [] => .valued id fun next s => { s with output := some next }
        | some rest =>
          .alone fun s => { s with output := some ((rest.dropPrefix? [':']).getD rest) }
        | none =>
          if (stripFlag arg "Fe").isSome || (stripFlag arg "Fd").isSome ||
              (stripFlag arg "Fp").isSome then .alone fun s => s.unknown [arg]
          else
            match arg.dropPrefix? "-o" with
            | some rest => valueStep rest fun path s => { s with output := some path }
            | none =>
              match (stripFlag arg "Tc").or (stripFlag arg "Tp") with
              | some rest => valueStep rest fun path s => s.source path
              | none =>
                if isExactFlag arg "TC" || isExactFlag arg "TP" then
                  .alone fun s => s.unknown [arg]
                else if isExactFlag arg "D" || isExactFlag arg "U" ||
                    isExactFlag arg "I" || isExactFlag arg "FI" then
                  .valued (·.unknown [arg]) fun next s => s.unknown [arg, next]
                else if arg.head? = some '-' || looksLikeMsvcFlag arg then
                  .alone fun s => s.unknown [arg]
                else .alone (·.positional arg)

/-- One pass over the arguments, or the reason why the invocation is not cached. -/
def scanMsvc (s : MsvcScan) : List Text → Except Text MsvcScan
  | [] => .ok s
  | arg :: rest =>
    match msvcStep arg with
    | .reject reason => .error reason
    | .alone update => scanMsvc (update s) rest
    | .valued last update =>
      match rest with
      | [] => .ok (last s)
      | next :: rest => scanMsvc (update next s) rest

def classifierTakesValue (arg : Text) : Bool :=
  match msvcStep arg with
  | .valued .. => true
  | _ => false

def msvcSideOutputHeads : List Text :=
  texts ["Fd", "Fp", "Fr", "FR", "Fi", "Fa"]

def msvcSideOutputLowerHeads : List Text :=
  texts ["yc", "doc", "module:", "headerunit", "sourcedependencies"]

/-- A flag that makes the compiler write more than its object. -/
def isMsvcSideOutputFlag (arg : Text) : Bool :=
  let lower := arg.map Char.toLower
  let body := flagBody arg
  let lowerBody := body.map Char.toLower
  msvcSideOutputHeads.any (·.isPrefixOf body) || lowerBody ∈ texts ["fa", "fac", "fas", "facs"] ||
    msvcSideOutputLowerHeads.any (·.isPrefixOf lowerBody) ||
    lower ∈ texts ["/zi", "-zi", "/interface", "-interface"] ||
    (texts ["/ifc", "-ifc"]).any (·.isPrefixOf lower)

def msvcDefaultOutput (source : Text) : Text :=
  (fileStem (components source)).getD "a" ++ ".obj"

/-- A path that ends like a directory. -/
def namesDirectory (path : Text) : Bool :=
  path.getLast? = some '/' || path.getLast? = some '\\'

def msvcCompilation (compiler : Text) (family : CompilerFamily) (args : List Text) (s : MsvcScan)
    (source : Text) (output : Text) : CacheableCompilation where
  compiler := .new compiler
  family := family
  sourceFile := .new source
  outputFile := .new output
  originalArgs := args
  unknownFlags := s.unknownFlags

def parseMsvcInvocation (compiler : Text) (args : List Text) (family : CompilerFamily) :
    ParsedInvocation :=
  match scanMsvc .start args with
  | .error reason => .nonCacheable reason
  | .ok s =>
    if !s.hasC then .nonCacheable "no /c flag (likely a link invocation)"
    else
      match s.sources with
      | [] => .nonCacheable "no source file found in MSVC/clang-cl invocation"
      | source :: more =>
        if more = [] ∧ s.externalPdb then
          .nonCacheable "MSVC /Zi debug info writes an external PDB side output"
        else
          match args.find? isMsvcSideOutputFlag with
          | some flag =>
            .nonCacheable ("unmodeled compiler side output requested by " ++ flag)
          | none =>
            if more = [] then
              .cacheable (msvcCompilation compiler family args s source
                (s.output.getD (msvcDefaultOutput source)))
            else if s.output.any (!namesDirectory ·) then
              .nonCacheable "multi-file explicit output is compiler-owned"
            else
              let compilations := (source :: more).map fun src =>
                msvcCompilation compiler family args s src
                  (s.output.getD [] ++ msvcDefaultOutput src)
              if (compilations.map fun c => (toText c.outputFile.path).map Char.toLower).Nodup
              then .multiFile compilations
              else .nonCacheable "multi-file output name collision"

theorem parseMsvcInvocation_eq_cacheable {compiler : Text} {args : List Text}
    {family : CompilerFamily} {c : CacheableCompilation}
    (h : parseMsvcInvocation compiler args family = .cacheable c) :
    c.originalArgs = args ∧ c.family = family := by
  unfold parseMsvcInvocation at h
  split at h
  · cases h
  split at h
  · cases h
  split at h
  · cases h
  split at h
  · cases h
  split at h
  · cases h
  split at h
  · cases h
    exact ⟨rfl, rfl⟩
  split at h
  · cases h
  dsimp only at h
  split at h <;> cases h

end Zccache
