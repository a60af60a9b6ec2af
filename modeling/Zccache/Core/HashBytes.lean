import Zccache.Base.PrefixCode
import Zccache.Core.Hash

/-! # The bytes of a digest stream

Digests of thirty-two bytes, which stand in a hashed byte string like any other
bytes.
-/

namespace Zccache

open List Unix Framing PrefixCode

abbrev ContentHash := {bytes : List UInt8 // bytes.length = 32}

def Atom.bytes : Atom ContentHash → List UInt8
  | ch c => String.utf8EncodeChar c
  | digest d => d.val

theorem flatMap_bytes_text (t : Text) : (text t).flatMap Atom.bytes = utf8 t := by
  rw [text, flatMap_map]
  rfl

theorem flatMap_bytes_framed (ts : List Text) :
    (framed (ts.map text)).flatMap Atom.bytes = (ts.map utf8).flatMap (· ++ [0]) := by
  unfold framed
  induction ts with
  | nil => rfl
  | cons t ts ih =>
    have hnul : Atom.bytes (.ch nul) = [0] := by decide
    rw [map_cons, frame_cons, flatMap_append, flatMap_cons, flatMap_bytes_text, hnul,
      ih, map_cons, flatMap_cons, append_assoc]

theorem flatMap_val_inj {ds ds' : List ContentHash}
    (h : ds.flatMap Subtype.val = ds'.flatMap Subtype.val) : ds = ds' := by
  have hcode : Delimits (fun _ => True) (Subtype.val : ContentHash → List UInt8) :=
    delimits_of_length (fun d => d.property) fun _ _ _ _ hval => Subtype.ext hval
  refine hcode.flatMap_inj ?_ (fun _ _ => trivial) (fun _ _ => trivial) h
  intro d hnil
  exact absurd d.property (by rw [hnil]; decide)

end Zccache
