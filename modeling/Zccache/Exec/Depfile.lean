import Zccache.Request.RustcArgs

/-! # Depfiles

A depfile is a rule of Make: a target, a colon and the files that the target
was made from. Lines are continued by a backslash, and the names are quoted as
GCC and Clang quote them.
-/

namespace Zccache

open Unix List
open Lines (flush trim)

/-- A continued line becomes one line. -/
def joinContinuations : Text → Text
  | [] => []
  | '\\' :: '\n' :: rest => ' ' :: joinContinuations rest
  | '\\' :: '\r' :: '\n' :: rest => ' ' :: joinContinuations rest
  | '\\' :: '\r' :: rest => ' ' :: joinContinuations rest
  | c :: rest => c :: joinContinuations rest

/-- A colon after a single letter and before a slash is that of a drive. -/
def isDriveColon (previous last : Option Char) (rest : Text) : Bool :=
  last.any Char.isAlpha && !previous.any Char.isAlphanum &&
    (rest.head? = some '\\' || rest.head? = some '/')

/-- What follows the colon that separates the target from the files. -/
def afterSeparatorColon (previous last : Option Char) : Text → Option Text
  | [] => none
  | c :: rest =>
    if c = ':' ∧ isDriveColon previous last rest = false then some rest
    else afterSeparatorColon last (some c) rest

/-- The names of a rule. `current` is the name read so far, and `run` counts the backslashes that
were read after it. -/
def splitAndUnescape (current : Text) (run : ℕ) : Text → List Text
  | [] => flush (current ++ replicate run '\\')
  | '\\' :: rest => splitAndUnescape current (run + 1) rest
  | '$' :: '$' :: rest => splitAndUnescape (current ++ replicate run '\\' ++ ['$']) 0 rest
  | c :: rest =>
    if c = ' ' ∨ c = '\t' then
      -- before a blank the backslashes are doubled, and one more escapes the blank
      if run % 2 = 1 then
        splitAndUnescape (current ++ replicate (run / 2) '\\' ++ [c]) 0 rest
      else
        flush (current ++ replicate (run / 2) '\\') ++ splitAndUnescape [] 0 rest
    else if c = '#' ∧ 0 < run then
      splitAndUnescape (current ++ replicate (run - 1) '\\' ++ ['#']) 0 rest
    else if c = '\n' ∨ c = '\r' then
      flush (current ++ replicate run '\\') ++ splitAndUnescape [] 0 rest
    else splitAndUnescape (current ++ replicate run '\\' ++ [c]) 0 rest

/-- The files that a depfile lists, without the source. An empty depfile and one without a colon
are malformed. -/
def parseDepfile (content : Text) (source : NormalizedPath) (cwd : Path) :
    Option (List NormalizedPath) :=
  if (trim content).isEmpty then none
  else
    (afterSeparatorColon none none (joinContinuations content)).map fun deps =>
      (((splitAndUnescape [] 0 deps).map fun token =>
        NormalizedPath.ofPath (join cwd (components token))).filter (· ≠ source)).eraseDups

example : parseDepfile "m.o: a.h \\\n  /u/b\\ c.h a.h d$$.h\n" (.new "/w")
    (components "/w") =
      some [.new "/w/a.h", .new "/u/b c.h", .new "/w/d$.h"] := by
  decide +kernel

end Zccache
