import Zccache.Base.PrefixCode

/-! # Reading bytes as text

Lossy decoding of UTF-8: a well-formed sequence is read as its character, and the
longest part of an ill-formed one that could have begun a character as one
replacement character.
-/

namespace Utf8

open List PrefixCode

def replacement : Char := '�'

def decode? (bytes : List UInt8) : Option Char :=
  bytes.toByteArray.utf8DecodeChar? 0

def isContinuation (b : UInt8) : Bool :=
  0x80 ≤ b ∧ b ≤ 0xBF

/-- The bytes that can follow the first byte of a sequence of three or four. -/
def secondFits (a b : UInt8) : Bool :=
  if a = 0xE0 then 0xA0 ≤ b ∧ b ≤ 0xBF
  else if a = 0xED then 0x80 ≤ b ∧ b ≤ 0x9F
  else if a = 0xF0 then 0x90 ≤ b ∧ b ≤ 0xBF
  else if a = 0xF4 then 0x80 ≤ b ∧ b ≤ 0x8F
  else 0xE0 ≤ a ∧ a ≤ 0xF4 ∧ isContinuation b

/-- How many bytes of an ill-formed sequence are replaced together. -/
def illFormedLength : List UInt8 → ℕ
  | a :: b :: c :: _ =>
    if secondFits a b then if 0xF0 ≤ a ∧ isContinuation c then 3 else 2 else 1
  | [a, b] => if secondFits a b then 2 else 1
  | _ => 1

/-- Decodes what follows the first `skip` bytes. -/
def lossyFrom : ℕ → List UInt8 → List Char
  | _, [] => []
  | skip + 1, _ :: rest => lossyFrom skip rest
  | 0, b :: rest =>
    match decode? (b :: rest) with
    | some c => c :: lossyFrom (c.utf8Size - 1) rest
    | none => replacement :: lossyFrom (illFormedLength (b :: rest) - 1) rest

/-- `String::from_utf8_lossy`. -/
def fromUtf8Lossy (bytes : List UInt8) : List Char :=
  lossyFrom 0 bytes

variable {bytes rest : List UInt8} {c : Char}

@[simp] theorem decode?_encode_append (c : Char) (rest : List UInt8) :
    decode? (String.utf8EncodeChar c ++ rest) = some c := by
  rw [decode?, toByteArray_append]
  exact ByteArray.utf8DecodeChar?_utf8EncodeChar_append

theorem decode?_eq_some_iff :
    decode? bytes = some c ↔ ∃ rest, bytes = String.utf8EncodeChar c ++ rest := by
  constructor
  · intro h
    obtain ⟨l, hl⟩ := ByteArray.exists_of_utf8DecodeChar?_eq_some h
    refine ⟨l.data.toList, ?_⟩
    have hdata := congrArg (fun b => b.data.toList) hl
    simpa using hdata
  · rintro ⟨rest, rfl⟩
    exact decode?_encode_append c rest

theorem utf8EncodeChar_of_mem_ascii {b : UInt8} (h : b ∈ String.utf8EncodeChar c)
    (hb : b < 0x80) : String.utf8EncodeChar c = [b] := by
  have hb : b.toNat < 128 := hb
  have hone : c.val.toNat ≤ 127 := by
    by_contra hlarge
    unfold String.utf8EncodeChar at h
    simp only at h
    split_ifs at h <;>
      simp only [mem_cons, not_mem_nil, or_false, ← UInt8.toNat_inj,
        UInt8.toNat_ofNat'] at h <;> omega
  unfold String.utf8EncodeChar at h ⊢
  simp only [hone, if_true, mem_singleton] at h ⊢
  rw [h]

theorem one_le_illFormedLength (bytes : List UInt8) : 1 ≤ illFormedLength bytes := by
  unfold illFormedLength
  split
  · split_ifs <;> omega
  · split_ifs <;> omega
  · exact Nat.le_refl 1

theorem illFormedLength_le (h : bytes ≠ []) : illFormedLength bytes ≤ bytes.length := by
  unfold illFormedLength
  split
  · simp only [length_cons]
    split_ifs <;> omega
  · simp only [length_cons]
    split_ifs <;> omega
  · exact length_pos_of_ne_nil h

theorem lossyFrom_eq (skip : ℕ) (bytes : List UInt8) :
    lossyFrom skip bytes = fromUtf8Lossy (bytes.drop skip) := by
  induction skip generalizing bytes with
  | zero => rfl
  | succ skip ih =>
    cases bytes with
    | nil => rfl
    | cons b rest => exact ih rest

@[simp] theorem fromUtf8Lossy_encode_append (c : Char) (rest : List UInt8) :
    fromUtf8Lossy (String.utf8EncodeChar c ++ rest) = c :: fromUtf8Lossy rest := by
  have hdec := decode?_encode_append c rest
  have hlen := String.length_utf8EncodeChar c
  cases hbs : String.utf8EncodeChar c with
  | nil => exact absurd hbs String.utf8EncodeChar_ne_nil
  | cons b tail =>
    rw [hbs, cons_append] at hdec
    rw [hbs, length_cons] at hlen
    rw [cons_append, fromUtf8Lossy, lossyFrom, hdec]
    dsimp only
    rw [lossyFrom_eq, ← hlen, Nat.add_sub_cancel, drop_left]

theorem fromUtf8Lossy_of_none {b : UInt8} (h : decode? (b :: rest) = none) :
    fromUtf8Lossy (b :: rest) =
      replacement :: fromUtf8Lossy ((b :: rest).drop (illFormedLength (b :: rest))) := by
  rw [fromUtf8Lossy, lossyFrom, h]
  rw [lossyFrom_eq]
  obtain ⟨n, hn⟩ := Nat.exists_eq_add_of_le' (one_le_illFormedLength (b :: rest))
  rw [hn, Nat.add_sub_cancel, drop_succ_cons]

@[simp] theorem fromUtf8Lossy_utf8 (t : List Char) : fromUtf8Lossy (utf8 t) = t := by
  induction t with
  | nil => rfl
  | cons c t ih =>
    rw [utf8, flatMap_cons, fromUtf8Lossy_encode_append]
    exact congrArg (c :: ·) ih

/-- Decoding one sequence after the other: what a property of the bytes has to survive. -/
theorem lossy_induction {P : List UInt8 → Prop} (hnil : P [])
    (hchar : ∀ c rest, P rest → P (String.utf8EncodeChar c ++ rest))
    (hbad : ∀ b rest, decode? (b :: rest) = none →
      P ((b :: rest).drop (illFormedLength (b :: rest))) → P (b :: rest))
    (bytes : List UInt8) : P bytes := by
  induction hn : bytes.length using Nat.strongRecOn generalizing bytes with
  | ind n ih =>
    cases bytes with
    | nil => exact hnil
    | cons b rest =>
      cases hdec : decode? (b :: rest) with
      | some c =>
        obtain ⟨tail, htail⟩ := decode?_eq_some_iff.mp hdec
        have hpos : 0 < (String.utf8EncodeChar c).length :=
          length_pos_of_ne_nil String.utf8EncodeChar_ne_nil
        rw [htail] at hn ⊢
        rw [length_append] at hn
        exact hchar c tail (ih tail.length (by omega) tail rfl)
      | none =>
        have hpos := one_le_illFormedLength (b :: rest)
        refine hbad b rest hdec (ih _ ?_ _ rfl)
        rw [length_drop]
        simp only [length_cons] at hn ⊢
        omega

theorem fromUtf8Lossy_eq_nil : fromUtf8Lossy bytes = [] ↔ bytes = [] := by
  constructor
  · intro h
    cases bytes with
    | nil => rfl
    | cons b rest =>
      cases hdec : decode? (b :: rest) with
      | some c =>
        obtain ⟨tail, htail⟩ := decode?_eq_some_iff.mp hdec
        rw [htail, fromUtf8Lossy_encode_append] at h
        cases h
      | none =>
        rw [fromUtf8Lossy_of_none hdec] at h
        cases h
  · rintro rfl
    rfl

section Ascii

variable {s : Char} {b : UInt8}

section Byte

variable (hb : b < 0x80)

include hb

theorem not_isContinuation : isContinuation b = false := by
  have hb : b.toNat < 128 := hb
  simp only [isContinuation, decide_eq_false_iff_not, not_and, UInt8.le_iff_toNat_le,
    UInt8.reduceToNat]
  omega

theorem secondFits_ascii (a : UInt8) : secondFits a b = false := by
  have hcont := not_isContinuation hb
  have hb : b.toNat < 128 := hb
  unfold secondFits
  split_ifs <;>
    simp only [decide_eq_false_iff_not, not_and, UInt8.le_iff_toNat_le, UInt8.reduceToNat,
      hcont, Bool.false_eq_true, not_false_eq_true, implies_true] <;>
    omega

theorem illFormedLength_append (hbs : bytes ≠ []) (rest : List UInt8) :
    illFormedLength (bytes ++ b :: rest) = illFormedLength bytes := by
  match bytes, hbs with
  | [a], _ =>
    have hfit := secondFits_ascii hb a
    cases rest <;> simp [illFormedLength, hfit]
  | [a, a'], _ =>
    have hcont := not_isContinuation hb
    simp [illFormedLength, hcont]
  | a :: a' :: a'' :: _, _ => rfl

theorem decode?_append_ascii (hnone : decode? bytes = none) (hbs : bytes ≠ [])
    (rest : List UInt8) : decode? (bytes ++ b :: rest) = none := by
  by_contra hsome
  obtain ⟨c, hc⟩ := Option.ne_none_iff_exists'.mp hsome
  obtain ⟨tail, htail⟩ := decode?_eq_some_iff.mp hc
  rcases append_eq_append_iff.mp htail with ⟨more, hmore, hrest⟩ | ⟨more, hmore, -⟩
  · cases more with
    | nil =>
      rw [append_nil] at hmore
      rw [← hmore, ← append_nil (String.utf8EncodeChar c), decode?_encode_append] at hnone
      cases hnone
    | cons x more =>
      -- the byte lies inside the sequence of a character, which it then is by itself
      obtain ⟨rfl, -⟩ := List.cons.inj hrest
      have hsingle := utf8EncodeChar_of_mem_ascii (c := c) (by rw [hmore]; simp) hb
      rw [hsingle] at hmore
      cases bytes with
      | nil => exact hbs rfl
      | cons a bytes => simp at hmore
  · rw [hmore, decode?_encode_append] at hnone
    cases hnone

end Byte

variable (hs : String.utf8EncodeChar s = [b])

include hs

/-- A byte below 0x80 ends every sequence before it. -/
theorem fromUtf8Lossy_append_ascii (hb : b < 0x80) (bytes rest : List UInt8) :
    fromUtf8Lossy (bytes ++ b :: rest) = fromUtf8Lossy bytes ++ s :: fromUtf8Lossy rest := by
  induction bytes using lossy_induction with
  | hnil =>
    have hchar := fromUtf8Lossy_encode_append s rest
    rwa [hs] at hchar
  | hchar c tail ih =>
    rw [append_assoc, fromUtf8Lossy_encode_append, fromUtf8Lossy_encode_append, ih,
      cons_append]
  | hbad a tail hnone ih =>
    have hdec := decode?_append_ascii hb hnone (cons_ne_nil a tail) rest
    have hlen := illFormedLength_append hb (cons_ne_nil a tail) rest
    rw [cons_append] at hdec hlen ⊢
    rw [fromUtf8Lossy_of_none hdec, fromUtf8Lossy_of_none hnone, hlen, ← cons_append,
      drop_append_of_le_length (illFormedLength_le (cons_ne_nil a tail)), ih,
      cons_append]

theorem replacement_ne : replacement ≠ s := by
  rintro rfl
  have hlen : (String.utf8EncodeChar replacement).length ≠ 1 := by decide
  exact hlen (congrArg List.length hs)

theorem mem_of_mem_fromUtf8Lossy (h : s ∈ fromUtf8Lossy bytes) : b ∈ bytes := by
  induction bytes using lossy_induction with
  | hnil => cases h
  | hchar c rest ih =>
    rw [fromUtf8Lossy_encode_append, mem_cons] at h
    rw [mem_append]
    rcases h with rfl | h
    · exact .inl (by rw [hs]; exact mem_singleton_self b)
    · exact .inr (ih h)
  | hbad a rest hnone ih =>
    rw [fromUtf8Lossy_of_none hnone, mem_cons] at h
    rcases h with h | h
    · exact absurd h.symm (replacement_ne hs)
    · exact mem_of_mem_drop (ih h)

theorem head_of_head_fromUtf8Lossy (h : (fromUtf8Lossy bytes).head? = some s) :
    bytes.head? = some b := by
  induction bytes using lossy_induction with
  | hnil => cases h
  | hchar c rest _ =>
    rw [fromUtf8Lossy_encode_append, head?_cons] at h
    rw [Option.some.inj h, hs]
    rfl
  | hbad a rest hnone _ =>
    rw [fromUtf8Lossy_of_none hnone, head?_cons] at h
    exact absurd (Option.some.inj h) (replacement_ne hs)

end Ascii

end Utf8
