import Mathlib.Data.List.DropRight
import Zccache.Base.Template
import Zccache.Exec.Depfile

/-! # Depfiles that are shared between worktrees

A stored depfile has a marker in place of the root of the worktree that it was
written in, and a delivered one has the root of the requesting worktree there.
A depfile that names a path below the root in another spelling is bound to its
root by a header. Texts stand for bytes here: only ASCII is ever looked for.
-/

namespace Zccache

open Unix Templates

def depfileWorktreeRootMarker : Text :=
  "/__zccache_worktree_root_3f0c1e5a9b7d4c26a8e1f4b2d6c9a071__"

def depfileRootBoundPrefix : Text :=
  "# zccache-worktree-bound "

/-- The spelling of a root that can be replaced. -/
def rootSpelling (root : Text) : Option Text :=
  let text := root.rdropWhile fun c => c = '/' || c = '\\'
  if isAbsolute root = true ∧ text ≠ [] ∧ text.getLast? ≠ some ':' then some text else none

/-- The Make quoting of one byte, after a number of backslashes. -/
def quotedByte (precedingBackslashes : ℕ) (c : Char) : Text :=
  if c = '\\' then [c]
  else if c = ' ' ∨ c = '\t' then List.replicate (precedingBackslashes + 1) '\\' ++ [c]
  else if c = '#' then ['\\', '#']
  else if c = '$' then ['$', '$']
  else [c]

def quoteFrom (precedingBackslashes : ℕ) : Text → Text
  | [] => []
  | c :: rest =>
    quotedByte precedingBackslashes c ++
      quoteFrom (if c = '\\' then precedingBackslashes + 1 else 0) rest

def quoteMakeDepfilePath (path : Text) : Text :=
  quoteFrom 0 path

/-- Whether a path can start here. What is before is given backwards. -/
def unescapedWhitespaceBefore : Text → Bool
  | [] => true
  | c :: before =>
    c = '\n' || c = '\r' ||
      (c = ' ' || c = '\t') && (before.takeWhile (· = '\\')).length % 2 = 0

def rootEndsAt : Text → Bool
  | [] => true
  | '\\' :: rest => rest.head? = some '\n' || rest.head? = some '\r'
  | c :: _ => c ∈ [' ', '\t', '\n', '\r', ':', '/']

variable (bytes : Text) (keyRoot : Option Text)

/-- The root is replaced where it is the whole beginning of a path. -/
def canonicalizeDepfileRoot (keyRoot : Text) : Text :=
  match rootSpelling keyRoot with
  | none => bytes
  | some root =>
    fill depfileWorktreeRootMarker (cut (quoteMakeDepfilePath root)
      (fun before after => unescapedWhitespaceBefore before && rootEndsAt after) [] 0 bytes)

def containsDepfileRootMarker : Bool :=
  depfileWorktreeRootMarker <:+: bytes

/-- Every path that a depfile names, targets and files alike. -/
def depfilePathTokens (content : Text) : List Text :=
  (splitAndUnescape [] 0 (joinContinuations content)).filterMap fun token =>
    let path := if token.getLast? = some ':' then token.dropLast else token
    if path.isEmpty then none else some path

/-- Whether a path is still below the root, in a spelling that was not replaced. -/
def namesUnrewrittenRootPath (canonical keyRoot : Text) : Bool :=
  (depfilePathTokens canonical).any fun token =>
    isAbsolute token && !depfileWorktreeRootMarker.isPrefixOf token &&
      Unix.startsWith (NormalizedPath.new token).path (components keyRoot)

def bindDepfileToRoot (canonical keyRoot : Text) : Text :=
  depfileRootBoundPrefix ++ keyRoot ++ '\n' :: canonical

/-- What is stored of a depfile that was written in the worktree. -/
def canonicalizeCapturedDepfileRoot (keyRoot : Text) : Text :=
  let canonical := canonicalizeDepfileRoot bytes keyRoot
  if namesUnrewrittenRootPath canonical keyRoot then bindDepfileToRoot canonical keyRoot
  else canonical

/-- A header must name the root of the request, and goes. -/
def dropBoundHeader : Option Text :=
  match bytes.dropPrefix? depfileRootBoundPrefix with
  | none => some bytes
  | some rest =>
    if '\n' ∉ rest then none
    else
      keyRoot.bind fun root =>
        if rest.takeWhile (· ≠ '\n') = root then some ((rest.dropWhile (· ≠ '\n')).drop 1)
        else none

def replaceDepfileRootMarker : Option Text :=
  if containsDepfileRootMarker bytes then
    (keyRoot.bind rootSpelling).map fun root =>
      fill (quoteMakeDepfilePath root)
        (cut depfileWorktreeRootMarker (fun _ _ => true) [] 0 bytes)
  else some bytes

/-- What is delivered to a request, if the depfile can be replayed there. -/
def rehydrateDepfileRoot : Option Text :=
  (dropBoundHeader bytes keyRoot).bind fun bytes => replaceDepfileRootMarker bytes keyRoot

example : rehydrateDepfileRoot (canonicalizeCapturedDepfileRoot
    "m.o: /w/a/x.h \\\n /u/x.h /w/ab.h\n" "/w/a") (some "/v/b c") =
      some "m.o: /v/b\\ c/x.h \\\n /u/x.h /w/ab.h\n" := by
  decide +kernel

end Zccache
