import Zccache.Graph.KeyInputs
import Zccache.Request.RustcArgs

/-! # The dep-info of rustc

After a run rustc has listed the files that it read and the variables that the
crate asked for. The scanner keeps the files that exist.
-/

namespace Zccache

open Unix StableSort
open Lines (trim)

structure RustcDepScan where
  scan : ScanResult
  envDepNames : List Text

def isAsciiWhitespace (c : Char) : Bool :=
  c = ' ' || c = '\t' || c = '\n' || c = '\r' || c.toNat = 12

/-- The words of the right side of a rule. A backslash takes the next character with it. -/
def depWords (word : Text) : Text → List Text
  | [] => if word.isEmpty then [] else [word]
  | '\\' :: c :: rest => depWords (word ++ ['\\', c]) rest
  | c :: rest =>
    if isAsciiWhitespace c then (if word.isEmpty then [] else [word]) ++ depWords [] rest
    else depWords (word ++ [c]) rest

def unescapeSpaces : Text → Text
  | [] => []
  | '\\' :: ' ' :: rest => ' ' :: unescapeSpaces rest
  | c :: rest => c :: unescapeSpaces rest

/-- What follows the colon of a rule. The colon of a drive letter does not count. -/
def ruleRightSide : Text → Option Text
  | c :: ':' :: rest =>
    if c.isAlpha then (splitOnce ':' rest).map Prod.snd
    else (splitOnce ':' (c :: ':' :: rest)).map Prod.snd
  | line => (splitOnce ':' line).map Prod.snd

def lineDeps (line : Text) : List Text :=
  if line.head? = some '#' then []
  else
    ((ruleRightSide line).toList.flatMap fun rightSide => depWords [] (trim rightSide)).map
      unescapeSpaces

/-- The variable of a line `# env-dep:NAME=value`. -/
def lineEnvDep (line : Text) : Option Text :=
  (line.dropPrefix? "# env-dep:").bind fun rest =>
    let name := trim (rest.takeWhile (· ≠ '='))
    if name.isEmpty then none else some name

variable (content : Text)

def depinfoLines : List Text :=
  (content.splitOn '\n').map trim

def depinfoFiles (cwd : Path) : List NormalizedPath :=
  ((depinfoLines content).flatMap lineDeps).eraseDups.map fun dep =>
    .ofPath (join cwd (components dep))

def depinfoEnvNames : List Text :=
  sortTexts ((depinfoLines content).filterMap lineEnvDep).eraseDups

def parseRustcDepinfo (source : NormalizedPath) (cwd : Path)
    (fileExists : NormalizedPath → Bool) : RustcDepScan where
  scan :=
    { resolved := sortBy NormalizedPath.caseKey
        ((depinfoFiles content cwd).filter fun p => p ≠ source ∧ fileExists p)
      unresolved := []
      hasComputed := false }
  envDepNames := depinfoEnvNames content

def RustcDepScan.empty : RustcDepScan :=
  ⟨⟨[], [], false⟩, []⟩

example : (parseRustcDepinfo
    "m.d: src/m.rs src/a\\ b.rs gen.rs\n\nsrc/m.rs:\n# env-dep:A=1\n# env-dep:B"
    (.new "/w/src/m.rs") (components "/w")
    fun p => p ≠ .new "/w/gen.rs").scan.resolved = [.new "/w/src/a b.rs"] := by
  decide +kernel

end Zccache
