import Mathlib.Data.List.Lex
import Zccache.Base.Codec
import Zccache.Base.SortedMap
import Zccache.Base.Utf8

/-! # Rows of the artifact index

What the index keeps of a cached artifact: all that a hit needs but the bytes of
the outputs. Two earlier shapes of a row lack the linker's output modes, or the
verdicts of rustc as well.
-/

namespace Zccache.Store

open Codecs
open Utf8 (isContinuation)

abbrev Bytes := Vec UInt8

/-- The bytes are UTF-8: no overlong forms, no surrogates, nothing above U+10FFFF. -/
def isUtf8 : List UInt8 → Bool
  | [] => true
  | [a] => a < 0x80
  | a :: b :: rest =>
    if a < 0x80 then isUtf8 (b :: rest)
    else if 0xC2 ≤ a && a ≤ 0xDF then isContinuation b && isUtf8 rest
    else
      match rest with
      | [] => false
      | c :: rest =>
        if 0xE0 ≤ a && a ≤ 0xEF then
          isContinuation b && isContinuation c && (a ≠ 0xE0 || 0xA0 ≤ b) &&
            (a ≠ 0xED || b ≤ 0x9F) && isUtf8 rest
        else
          match rest with
          | [] => false
          | d :: rest =>
            0xF0 ≤ a && a ≤ 0xF4 && isContinuation b && isContinuation c &&
              isContinuation d && (a ≠ 0xF0 || 0x90 ≤ b) && (a ≠ 0xF4 || b ≤ 0x8F) &&
              isUtf8 rest

structure Str where
  bytes : Bytes
  utf8 : isUtf8 bytes.toList = true
  deriving DecidableEq

/-- Texts are ordered by their bytes. -/
def Str.order (s : Str) : List ℕ :=
  s.bytes.toList.map UInt8.toNat

structure ArtifactVerdict where
  stdout : Bytes
  stderr : Bytes
  exitCode : Int32
  deriving DecidableEq

/-- The verdicts by their keys, in ascending order. -/
structure VerdictMap where
  entries : Vec (Str × ArtifactVerdict)
  sorted : SortedMap.Sorted (fun e => Str.order e.1) entries.toList
  deriving DecidableEq

namespace VerdictMap

def empty : VerdictMap :=
  ⟨.empty, List.Pairwise.nil⟩

/-- Of several verdicts under one key the last stays. -/
def ofList (verdicts : Vec (Str × ArtifactVerdict)) : VerdictMap where
  entries := ⟨SortedMap.ofList (fun e => Str.order e.1) verdicts.toList,
    (SortedMap.length_ofList_le _ _).trans_lt verdicts.fits⟩
  sorted := SortedMap.sorted_ofList _

@[simp] theorem ofList_entries (m : VerdictMap) : ofList m.entries = m := by
  obtain ⟨entries, hsort⟩ := m
  unfold ofList
  congr 1
  exact Vec.ext (SortedMap.ofList_of_sorted hsort)

end VerdictMap

/-- A row from before verdicts were kept. -/
structure LegacyArtifactIndex where
  outputNames : Vec Str
  outputSizes : Vec UInt64
  stdout : Bytes
  stderr : Bytes
  exitCode : Int32
  totalSize : UInt64
  storedAtSecs : UInt64
  deriving DecidableEq

/-- A row from before output modes were kept. -/
structure LegacyVerdictArtifactIndex extends LegacyArtifactIndex where
  rustcVerdicts : VerdictMap
  deriving DecidableEq

structure ArtifactIndex extends LegacyVerdictArtifactIndex where
  outputModes : Vec UInt32
  deriving DecidableEq

def LegacyVerdictArtifactIndex.upgrade (row : LegacyVerdictArtifactIndex) : ArtifactIndex :=
  { row with outputModes := .empty }

def LegacyArtifactIndex.upgrade (row : LegacyArtifactIndex) : ArtifactIndex :=
  { row with
    rustcVerdicts := .empty
    outputModes := .empty }

def sampleKey : Str :=
  ⟨⟨[0x6B], by decide⟩, rfl⟩

def sampleRow : ArtifactIndex :=
  LegacyArtifactIndex.upgrade ⟨.empty, .empty, .empty, .empty, 0, 0, 1⟩

end Zccache.Store
