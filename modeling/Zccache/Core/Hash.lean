import Zccache.Base.Path
import Zccache.Base.PrefixCode

/-! # Digests

A digest function over streams that mix text with raw digests. A raw digest is
one atom of a stream, so that a digest function can be injective.
-/

namespace Zccache

open List Unix Framing PrefixCode

variable {D : Type}

inductive Atom (D : Type) where
  | ch (c : Char)
  | digest (d : D)
  deriving DecidableEq

/-- The hash primitive: a digest of a stream, and the hexadecimal text of a digest. -/
structure Hasher (D : Type) where
  digest : List (Atom D) → D
  toHex : D → Text

abbrev Name := {t : Text // nul ∉ t}

abbrev Field (D : Type) := List (Atom D)

def text (t : Text) : Field D :=
  t.map Atom.ch

def raw (d : D) : Field D :=
  [Atom.digest d]

def framed (fields : List (Field D)) : List (Atom D) :=
  frame (Atom.ch nul) fields

def Hasher.hashText (H : Hasher D) (t : Text) : D :=
  H.digest (text t)

theorem text_injective {s t : Text} (h : (text s : Field D) = text t) : s = t :=
  map_injective_iff.mpr (fun _ _ h => Atom.ch.inj h) h

theorem raw_injective {d e : D} (h : raw d = raw e) : d = e :=
  Atom.digest.inj (cons.inj h).1

theorem text_ne_raw (t : Text) (d : D) : (text t : Field D) ≠ raw d := by
  intro h
  cases t with
  | nil | cons => cases h

@[simp] theorem nul_notMem_text {t : Text} : Atom.ch nul ∉ (text t : Field D) ↔ nul ∉ t := by
  simp [text]

@[simp] theorem nul_notMem_raw (d : D) : Atom.ch nul ∉ raw d := by
  simp [raw]

def quoteText (d : Text) : Text :=
  d.flatMap fun c => ['x', c]

def spellAtom : Atom Text → Text
  | .ch c => ['c', c]
  | .digest d => 'd' :: (quoteText d ++ ['.'])

def Hasher.transparent : Hasher Text where
  digest atoms := atoms.flatMap spellAtom
  toHex d := d

theorem quoteText_inj {d e r s : Text}
    (h : quoteText d ++ '.' :: r = quoteText e ++ '.' :: s) : d = e ∧ r = s := by
  induction d generalizing e with
  | nil =>
    cases e with
    | nil => exact ⟨rfl, (cons.inj h).2⟩
    | cons b e => exact absurd (cons.inj h).1 (by decide)
  | cons a d ih =>
    cases e with
    | nil => exact absurd (cons.inj h).1 (by decide)
    | cons b e =>
      obtain ⟨rfl, htail⟩ := cons.inj (cons.inj h).2
      obtain ⟨rfl, rfl⟩ := ih htail
      exact ⟨rfl, rfl⟩

theorem delimits_spellAtom : Delimits (fun _ => True) spellAtom := by
  intro a b _ _ r s h
  cases a with
  | ch c =>
    cases b with
    | ch c' =>
      obtain ⟨rfl, rfl⟩ := cons.inj (cons.inj h).2
      exact ⟨rfl, rfl⟩
    | digest d => exact absurd (cons.inj h).1 (by decide)
  | digest d =>
    cases b with
    | ch c => exact absurd (cons.inj h).1 (by decide)
    | digest d' =>
      have htail := (cons.inj h).2
      simp only [append_eq, append_assoc, singleton_append] at htail
      obtain ⟨rfl, rfl⟩ := quoteText_inj htail
      exact ⟨rfl, rfl⟩

theorem transparent_injective : Function.Injective Hasher.transparent.digest := by
  intro a b h
  refine delimits_spellAtom.flatMap_inj (fun x => ?_) (by simp) (by simp) h
  cases x <;> simp [spellAtom]

theorem framed_injective {fs gs : List (Field D)} (hf : ∀ f ∈ fs, Atom.ch nul ∉ f)
    (hg : ∀ g ∈ gs, Atom.ch nul ∉ g) (h : framed fs = framed gs) : fs = gs :=
  frame_injective hf hg h

end Zccache
