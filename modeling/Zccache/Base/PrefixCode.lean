import Mathlib.Algebra.Group.Nat.Defs
import Mathlib.Data.List.Basic
import Zccache.Base.Framing

/-! # Codes that are told from what follows

A code is delimited if it can be taken off the front of a stream: two streams
that start with the codes of two values are equal only if the values and the
rests are. Values of a known size, pairs and counted lists have such codes.
-/

namespace PrefixCode

open List

variable {α β γ : Type}

/-- Streams that start with the codes of two values that meet `P` agree only if the values and what
follows agree. -/
def Delimits (P : β → Prop) (enc : β → List α) : Prop :=
  ∀ ⦃b b' : β⦄, P b → P b' → ∀ ⦃r r' : List α⦄, enc b ++ r = enc b' ++ r' → b = b' ∧ r = r'

variable {P : β → Prop} {enc : β → List α}

theorem Delimits.mono {Q : β → Prop} (h : Delimits P enc) (hPQ : ∀ b, Q b → P b) : Delimits Q enc :=
  fun _ _ hb hb' _ _ heq => h (hPQ _ hb) (hPQ _ hb') heq

theorem delimits_of_length {n : ℕ} (hlen : ∀ b, (enc b).length = n)
    (hinj : ∀ b b', P b → P b' → enc b = enc b' → b = b') : Delimits P enc := by
  intro b b' hb hb' r r' h
  obtain ⟨henc, hrest⟩ := append_inj h ((hlen b).trans (hlen b').symm)
  exact ⟨hinj b b' hb hb' henc, hrest⟩

theorem Delimits.pair {Q : γ → Prop} {f : β → List α} {g : γ → List α} (hf : Delimits P f)
    (hg : Delimits Q g) : Delimits (fun p => P p.1 ∧ Q p.2) fun p : β × γ => f p.1 ++ g p.2 := by
  rintro ⟨b, c⟩ ⟨b', c'⟩ ⟨hb, hc⟩ ⟨hb', hc'⟩ r r' h
  simp only [append_assoc] at h
  obtain ⟨rfl, hrest⟩ := hf hb hb' h
  obtain ⟨rfl, rfl⟩ := hg hc hc' hrest
  exact ⟨rfl, rfl⟩

/-- The size of a value comes first, and values of one size are delimited. -/
theorem Delimits.sized {N : ℕ → Prop} {num : ℕ → List α} {size : β → ℕ} {body : β → List α}
    (hnum : Delimits N num) (hbody : ∀ n, Delimits (fun b => P b ∧ size b = n) body) :
    Delimits (fun b => N (size b) ∧ P b) fun b => num (size b) ++ body b := by
  rintro b b' ⟨hsize, hb⟩ ⟨hsize', hb'⟩ r r' h
  simp only [append_assoc] at h
  obtain ⟨hn, hrest⟩ := hnum hsize hsize' h
  exact hbody (size b') ⟨hb, hn⟩ ⟨hb', rfl⟩ hrest

theorem Delimits.flatMap (h : Delimits P enc) (n : ℕ) :
    Delimits (fun l => (∀ b ∈ l, P b) ∧ l.length = n) fun l : List β => l.flatMap enc := by
  rintro l l' ⟨hl, hlen⟩ ⟨hl', hlen'⟩ r r' heq
  induction l generalizing l' n with
  | nil =>
    obtain rfl : l' = [] := length_eq_zero_iff.mp (hlen'.trans hlen.symm)
    exact ⟨rfl, heq⟩
  | cons b l ih =>
    cases l' with
    | nil => exact absurd (hlen.trans hlen'.symm) (by simp)
    | cons b' l' =>
      simp only [flatMap_cons, append_assoc] at heq
      obtain ⟨rfl, hrest⟩ := h (hl b mem_cons_self) (hl' b' mem_cons_self) heq
      obtain ⟨rfl, rfl⟩ := ih l.length (fun c hc => hl c (mem_cons_of_mem b hc)) rfl
        (fun c hc => hl' c (mem_cons_of_mem b hc))
        (Nat.succ.inj (hlen'.trans hlen.symm)) hrest
      exact ⟨rfl, rfl⟩

/-- Where nothing follows, the number of the values need not be known. -/
theorem Delimits.flatMap_inj (h : Delimits P enc) (hne : ∀ b, enc b ≠ []) {l l' : List β}
    (hl : ∀ b ∈ l, P b) (hl' : ∀ b ∈ l', P b) (heq : l.flatMap enc = l'.flatMap enc) : l = l' := by
  induction l generalizing l' with
  | nil =>
    cases l' with
    | nil => rfl
    | cons b' l' => exact absurd heq (by simp [hne b'])
  | cons b l ih =>
    cases l' with
    | nil => exact absurd heq (by simp [hne b])
    | cons b' l' =>
      obtain ⟨rfl, hrest⟩ := h (hl b mem_cons_self) (hl' b' mem_cons_self) heq
      rw [ih (fun c hc => hl c (mem_cons_of_mem b hc))
        (fun c hc => hl' c (mem_cons_of_mem b hc)) hrest]

theorem delimits_terminated (z : α) : Delimits (z ∉ ·) fun f : List α => f ++ [z] := by
  intro f g hf hg r r' h
  simp only [append_assoc, singleton_append] at h
  exact Framing.append_terminator_inj hf hg h

theorem frame_injective {z : α} {fs gs : List (List α)} (hf : ∀ f ∈ fs, z ∉ f)
    (hg : ∀ g ∈ gs, z ∉ g) (h : Framing.frame z fs = Framing.frame z gs) : fs = gs :=
  (delimits_terminated z).flatMap_inj (by simp) hf hg h

theorem delimits_utf8EncodeChar : Delimits (fun _ => True) String.utf8EncodeChar := by
  intro c c' _ _ r r' h
  have hdec := ByteArray.utf8DecodeChar?_utf8EncodeChar_append (b := r.toByteArray) (c := c)
  have hdec' := ByteArray.utf8DecodeChar?_utf8EncodeChar_append (b := r'.toByteArray) (c := c')
  rw [← toByteArray_append] at hdec hdec'
  rw [h, hdec'] at hdec
  obtain rfl := Option.some.inj hdec
  exact ⟨rfl, append_cancel_left h⟩

def utf8 (t : List Char) : List UInt8 :=
  t.flatMap String.utf8EncodeChar

theorem utf8_injective : Function.Injective utf8 := by
  intro s t h
  exact delimits_utf8EncodeChar.flatMap_inj (fun _ => String.utf8EncodeChar_ne_nil)
    (fun _ _ => trivial) (fun _ _ => trivial) h

theorem zero_mem_utf8EncodeChar {c : Char} : 0 ∈ String.utf8EncodeChar c ↔ c = '\x00' := by
  constructor
  · intro h
    have hzero : c.val.toNat = 0 := by
      unfold String.utf8EncodeChar at h
      simp only at h
      split_ifs at h <;>
        simp only [mem_cons, not_mem_nil, or_false, ← UInt8.toNat_inj,
          UInt8.toNat_ofNat', UInt8.toNat_zero] at h <;> omega
    exact Char.ext (UInt32.toNat_inj.mp hzero)
  · rintro rfl
    decide

theorem zero_mem_utf8 {t : List Char} : 0 ∈ utf8 t ↔ '\x00' ∈ t := by
  simp [utf8, zero_mem_utf8EncodeChar]

def leBytes (n : ℕ) : List Char :=
  (List.range 8).map fun i => Char.ofNat (n / 256 ^ i % 256)

@[simp] theorem length_leBytes (n : ℕ) : (leBytes n).length = 8 := by
  simp [leBytes]

variable {n : ℕ}

theorem toNat_ofNat_of_lt (h : n < 256) : (Char.ofNat n).toNat = n := by
  have hvalid : n.isValidChar := Or.inl (by omega)
  rw [Char.ofNat, dif_pos hvalid]
  rfl

theorem leBytes_digit {m : ℕ} (h : leBytes n = leBytes m) {i : ℕ} (hi : i < 8) :
    n / 256 ^ i % 256 = m / 256 ^ i % 256 := by
  have hchar := map_inj_left.mp h i (mem_range.mpr hi)
  have hnat := congrArg Char.toNat hchar
  rwa [toNat_ofNat_of_lt (Nat.mod_lt _ (by omega)), toNat_ofNat_of_lt (Nat.mod_lt _ (by omega))]
    at hnat

theorem leBytes_inj {m : ℕ} (hn : n < 2 ^ 64) (hm : m < 2 ^ 64) (h : leBytes n = leBytes m) :
    n = m := by
  have hmod : ∀ k ≤ 8, n % 256 ^ k = m % 256 ^ k := by
    intro k hk
    induction k with
    | zero => simp [Nat.mod_one]
    | succ k ih => rw [Nat.mod_pow_succ, Nat.mod_pow_succ, ih (by omega), leBytes_digit h hk]
  have hall := hmod 8 (Nat.le_refl 8)
  omega

end PrefixCode
