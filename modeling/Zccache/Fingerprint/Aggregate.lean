import Zccache.Fingerprint.Skip

/-! # What the aggregate hash tells apart

The stream of the aggregate hash has a separator after each relative path and
none after a content. Where a content ends is not part of the stream, so that
two file sets of one hash are equal only if their contents are equally long.
-/

namespace Zccache.Fingerprint

open Unix Framing

variable {D : Type}

/-- The aggregate hash of files in the order of their relative paths. -/
def aggregateHash (H : Hasher D) (files : List (Text × Text)) : Text :=
  H.toHex (H.hashText (aggregateStream files))

/-- Scanned files with their contents. A byte of a content is the character with its code. -/
structure Scanned where
  files : List (Text × Text)
  names : ∀ file ∈ files, nul ∉ file.1
  sorted : files.Pairwise fun file next => file.1 < next.1

def Scanned.contentLengths (s : Scanned) : List ℕ :=
  s.files.map fun file => file.2.length

theorem aggregateHash_inj_iff {H : Hasher D} (hdigest : Function.Injective H.digest)
    (hhex : Function.Injective H.toHex) (s s' : Scanned)
    (h : aggregateHash H s.files = aggregateHash H s'.files) :
    s.files = s'.files ↔ s.contentLengths = s'.contentLengths := by
  constructor
  · intro hfiles
    rw [Scanned.contentLengths, hfiles, Scanned.contentLengths]
  · intro hlens
    have hrecs := records_eq_of_aggregateStream (text_injective (hdigest (hhex h)))
    exact records_inj_of_lengths s.names s'.names hlens hrecs

/-- The first file ends in the name of the second one of `unshifted`. -/
def shifted : Scanned where
  files := [("a", "1b\x00"), ("c", "2")]
  names := by decide
  sorted := by decide

def unshifted : Scanned where
  files := [("a", "1"), ("b", "c\x002")]
  names := by decide
  sorted := by decide

theorem aggregateHash_transparent_shifted :
    aggregateHash .transparent shifted.files = aggregateHash .transparent unshifted.files := by
  have hstream : aggregateStream shifted.files = aggregateStream unshifted.files := by decide
  rw [aggregateHash, hstream, aggregateHash]

theorem aggregateHash_shifted :
    Function.Injective Hasher.transparent.digest ∧ Function.Injective Hasher.transparent.toHex ∧
      aggregateHash .transparent shifted.files = aggregateHash .transparent unshifted.files ∧
      shifted.files ≠ unshifted.files :=
  ⟨transparent_injective, fun _ _ h => h, aggregateHash_transparent_shifted, by decide⟩

theorem aggregateHash_inj_iff_shifted :
    shifted.files = unshifted.files ↔ shifted.contentLengths = unshifted.contentLengths :=
  aggregateHash_inj_iff transparent_injective (fun _ _ h => h) shifted unshifted
    aggregateHash_transparent_shifted

end Zccache.Fingerprint
