import Mathlib.Data.List.Forall2
import Mathlib.Data.UInt
import Mathlib.Logic.Equiv.Basic
import Mathlib.Tactic.Ring

/-! # Binary formats

A codec writes a value as bytes and takes it off the front of a stream again. What
it reads is what was written, whatever follows, and it reads nothing else. Numbers
of fixed width, pairs, checked values and counted vectors have codecs.
-/

namespace Codecs

open List Option

variable {α β : Type}

structure Codec (α : Type) where
  put : α → List UInt8
  get : List UInt8 → Option (α × List UInt8)
  get_put : ∀ a rest, get (put a ++ rest) = some (a, rest)
  put_of_get : ∀ bytes a rest, get bytes = some (a, rest) → put a ++ rest = bytes

namespace Codec

variable (c : Codec α)

def getAll (bytes : List UInt8) : Option α :=
  match c.get bytes with
  | some (a, []) => some a
  | _ => none

variable {c} {bytes : List UInt8}

theorem get_eq_some_iff {rest : List UInt8} {a : α} :
    c.get bytes = some (a, rest) ↔ c.put a ++ rest = bytes := by
  constructor
  · exact c.put_of_get bytes a rest
  · rintro rfl
    exact c.get_put a rest

theorem get_eq_none_iff : c.get bytes = none ↔ ¬ ∃ a, c.put a <+: bytes := by
  constructor
  · rintro hnone ⟨a, rest, hrest⟩
    rw [get_eq_some_iff.mpr hrest] at hnone
    cases hnone
  · intro h
    cases hget : c.get bytes with
    | none => rfl
    | some r => exact absurd ⟨r.1, r.2, get_eq_some_iff.mp hget⟩ h

theorem getAll_eq_some_iff {a : α} : c.getAll bytes = some a ↔ c.put a = bytes := by
  have hiff : c.get bytes = some (a, []) ↔ c.put a ++ [] = bytes := get_eq_some_iff
  rw [append_nil] at hiff
  rw [← hiff, getAll]
  split
  · next hget => simp [hget]
  · next hother =>
    refine ⟨nofun, fun hget => absurd hget (hother a)⟩

theorem getAll_put (a : α) : c.getAll (c.put a) = some a :=
  getAll_eq_some_iff.mpr rfl

end Codec

section Combinators

variable (c : Codec α) (d : Codec β)

def byte : Codec UInt8 where
  put b := [b]
  get
    | [] => none
    | b :: rest => some (b, rest)
  get_put _ _ := rfl
  put_of_get bytes b rest h := by
    cases bytes with
    | nil => cases h
    | cons b' bytes =>
      cases h
      rfl

def pair : Codec (α × β) where
  put p := c.put p.1 ++ d.put p.2
  get bytes := (c.get bytes).bind fun r => (d.get r.2).map fun r' => ((r.1, r'.1), r'.2)
  get_put p rest := by
    rw [append_assoc, c.get_put, bind_some, d.get_put]
    rfl
  put_of_get bytes p rest h := by
    obtain ⟨r, hr, h⟩ := bind_eq_some_iff.mp h
    obtain ⟨r', hr', heq⟩ := map_eq_some_iff.mp h
    cases heq
    rw [append_assoc, d.put_of_get _ _ _ hr', c.put_of_get _ _ _ hr]

def xmap (e : α ≃ β) : Codec β where
  put b := c.put (e.symm b)
  get bytes := (c.get bytes).map fun r => (e r.1, r.2)
  get_put b rest := by
    rw [c.get_put, map_some, e.apply_symm_apply]
  put_of_get bytes b rest h := by
    obtain ⟨r, hr, heq⟩ := map_eq_some_iff.mp h
    cases heq
    rw [e.symm_apply_apply]
    exact c.put_of_get _ _ _ hr

def checked (p : α → Bool) : Codec { a // p a = true } where
  put a := c.put a.1
  get bytes := (c.get bytes).bind fun r =>
    if h : p r.1 = true then some (⟨r.1, h⟩, r.2) else none
  get_put a rest := by
    rw [c.get_put, bind_some, dif_pos a.2]
  put_of_get bytes a rest h := by
    obtain ⟨r, hr, h⟩ := bind_eq_some_iff.mp h
    split at h
    · cases h
      exact c.put_of_get _ _ _ hr
    · cases h

def getMany : ℕ → List UInt8 → Option (List α × List UInt8)
  | 0, bytes => some ([], bytes)
  | n + 1, bytes =>
    (c.get bytes).bind fun r => (getMany n r.2).map fun rs => (r.1 :: rs.1, rs.2)

variable {c}

theorem getMany_put (l : List α) (rest : List UInt8) :
    getMany c l.length (l.flatMap c.put ++ rest) = some (l, rest) := by
  induction l with
  | nil => rfl
  | cons a l ih =>
    rw [flatMap_cons, append_assoc, length_cons, getMany, c.get_put,
      bind_some, ih]
    rfl

theorem of_getMany {n : ℕ} {bytes rest : List UInt8} {l : List α}
    (h : getMany c n bytes = some (l, rest)) :
    l.length = n ∧ l.flatMap c.put ++ rest = bytes := by
  induction n generalizing bytes l with
  | zero =>
    cases h
    exact ⟨rfl, rfl⟩
  | succ n ih =>
    obtain ⟨r, hr, h⟩ := bind_eq_some_iff.mp h
    obtain ⟨rs, hrs, heq⟩ := map_eq_some_iff.mp h
    cases heq
    obtain ⟨hlen, hput⟩ := ih hrs
    refine ⟨by rw [length_cons, hlen], ?_⟩
    rw [flatMap_cons, append_assoc, hput, c.put_of_get _ _ _ hr]

end Combinators

def leBytes : ℕ → ℕ → List UInt8
  | 0, _ => []
  | width + 1, n => UInt8.ofNat n :: leBytes width (n / 256)

def leValue : List UInt8 → ℕ
  | [] => 0
  | b :: rest => b.toNat + 256 * leValue rest

@[simp] theorem length_leBytes (width n : ℕ) : (leBytes width n).length = width := by
  induction width generalizing n with
  | zero => rfl
  | succ width ih => rw [leBytes, length_cons, ih]

theorem leValue_lt (bytes : List UInt8) : leValue bytes < 256 ^ bytes.length := by
  induction bytes with
  | nil => exact Nat.one_pos
  | cons b bytes ih =>
    have hb := b.toNat_lt
    rw [leValue, length_cons, pow_succ]
    omega

theorem leValue_leBytes {width n : ℕ} (h : n < 256 ^ width) : leValue (leBytes width n) = n := by
  induction width generalizing n with
  | zero =>
    rw [leBytes, leValue]
    omega
  | succ width ih =>
    rw [leBytes, leValue, ih (by omega), UInt8.toNat_ofNat']
    omega

theorem leBytes_leValue (bytes : List UInt8) :
    leBytes bytes.length (leValue bytes) = bytes := by
  induction bytes with
  | nil => rfl
  | cons b bytes ih =>
    have hb := b.toNat_lt
    have hdiv : (b.toNat + 256 * leValue bytes) / 256 = leValue bytes := by omega
    have hfirst : UInt8.ofNat (b.toNat + 256 * leValue bytes) = b := by
      apply UInt8.toNat_inj.mp
      rw [UInt8.toNat_ofNat']
      omega
    rw [length_cons, leValue, leBytes, hdiv, ih, hfirst]

def word (width : ℕ) : Codec (Fin (256 ^ width)) where
  put n := leBytes width n
  get bytes :=
    if h : width ≤ bytes.length then
      some (⟨leValue (bytes.take width), by
        have hlt := leValue_lt (bytes.take width)
        rwa [length_take_of_le h] at hlt⟩, bytes.drop width)
    else none
  get_put n rest := by
    have htake : (leBytes width n ++ rest).take width = leBytes width n :=
      take_left' (length_leBytes width n)
    have hdrop : (leBytes width n ++ rest).drop width = rest :=
      drop_left' (length_leBytes width n)
    have hle : width ≤ (leBytes width n ++ rest).length := by simp
    rw [dif_pos hle]
    simp only [htake, hdrop, leValue_leBytes n.isLt]
  put_of_get bytes n rest h := by
    split at h
    · next hle =>
      cases h
      have hbs := leBytes_leValue (bytes.take width)
      rw [length_take_of_le hle] at hbs
      rw [hbs, take_append_drop]
    · cases h

def u64 : Codec UInt64 :=
  xmap (word 8)
    { toFun := fun n => UInt64.ofNat n
      invFun := fun n => ⟨n.toNat, n.toNat_lt⟩
      left_inv := fun n => Fin.ext (Nat.mod_eq_of_lt n.isLt)
      right_inv := fun _ => UInt64.ofNat_toNat }

def u32 : Codec UInt32 :=
  xmap (word 4)
    { toFun := fun n => UInt32.ofNat n
      invFun := fun n => ⟨n.toNat, n.toNat_lt⟩
      left_inv := fun n => Fin.ext (Nat.mod_eq_of_lt n.isLt)
      right_inv := fun _ => UInt32.ofNat_toNat }

def i32 : Codec Int32 :=
  xmap u32 ⟨UInt32.toInt32, Int32.toUInt32, UInt32.toUInt32_toInt32, Int32.toInt32_toUInt32⟩

@[simp] theorem length_put_u64 (n : UInt64) : (u64.put n).length = 8 :=
  length_leBytes 8 _

/-- A list that is not longer than a machine word can count. -/
structure Vec (α : Type) where
  toList : List α
  fits : toList.length < 2 ^ 64
  deriving DecidableEq

namespace Vec

@[ext] theorem ext {v w : Vec α} (h : v.toList = w.toList) : v = w := by
  obtain ⟨l, _⟩ := v
  cases h
  rfl

def empty : Vec α :=
  ⟨[], Nat.two_pow_pos 64⟩

def map (f : α → β) (v : Vec α) : Vec β :=
  ⟨v.toList.map f, by rw [length_map]; exact v.fits⟩

@[simp] theorem toList_map (f : α → β) (v : Vec α) : (v.map f).toList = v.toList.map f := rfl

def mapIdx (f : ℕ → α → β) (v : Vec α) : Vec β :=
  ⟨v.toList.mapIdx f, by rw [length_mapIdx]; exact v.fits⟩

@[simp] theorem toList_mapIdx (f : ℕ → α → β) (v : Vec α) :
    (v.mapIdx f).toList = v.toList.mapIdx f := rfl

def count (v : Vec α) : UInt64 :=
  UInt64.ofNat v.toList.length

theorem toNat_count (v : Vec α) : v.count.toNat = v.toList.length :=
  Nat.mod_eq_of_lt v.fits

end Vec

variable (c : Codec α)

def vec : Codec (Vec α) where
  put v := u64.put v.count ++ v.toList.flatMap c.put
  get bytes := (u64.get bytes).bind fun n =>
    match h : getMany c n.1.toNat n.2 with
    | none => none
    | some r => some (⟨r.1, (of_getMany h).1 ▸ n.1.toNat_lt⟩, r.2)
  get_put v rest := by
    have hmany : getMany c v.count.toNat (v.toList.flatMap c.put ++ rest) =
        some (v.toList, rest) := by
      rw [v.toNat_count, getMany_put]
    rw [append_assoc, u64.get_put, bind_some]
    split
    · next hnone => simp [hmany] at hnone
    · next r hsome =>
      rw [hmany] at hsome
      cases hsome
      rfl
  put_of_get bytes v rest h := by
    obtain ⟨n, hn, h⟩ := bind_eq_some_iff.mp h
    split at h
    · cases h
    · next r hmany =>
      cases h
      obtain ⟨hlen, hput⟩ := of_getMany hmany
      have hcount : Vec.count ⟨r.1, hlen ▸ n.1.toNat_lt⟩ = n.1 := by
        rw [Vec.count, hlen, UInt64.ofNat_toNat]
      rw [hcount, append_assoc, hput, u64.put_of_get _ _ _ hn]

variable {c} {d : Codec β}

theorem length_put_vec (v : Vec α) :
    ((vec c).put v).length = 8 + (v.toList.map fun a => (c.put a).length).sum := by
  change (u64.put v.count ++ v.toList.flatMap c.put).length = _
  rw [length_append, length_put_u64, length_flatMap]

theorem length_put_vec_lt {v : Vec α} {w : Vec β} (hne : v.toList ≠ [])
    (h : List.Forall₂ (fun a b => (c.put a).length < (d.put b).length) v.toList w.toList) :
    ((vec c).put v).length < ((vec d).put w).length := by
  have hsum : ∀ {l : List α} {l' : List β},
      List.Forall₂ (fun a b => (c.put a).length < (d.put b).length) l l' →
        (l.map fun a => (c.put a).length).sum + l.length ≤
          (l'.map fun b => (d.put b).length).sum := by
    intro l l' h
    induction h with
    | nil => exact le_rfl
    | cons hlt _ ih =>
      simp only [map_cons, sum_cons, length_cons]
      omega
  have hpos := length_pos_iff.mpr hne
  have hle := hsum h
  rw [length_put_vec, length_put_vec]
  omega

/-- If values that read alike take more room in the second format, a vector of that format at the
front of one of the first does not read as it does. -/
theorem map_ne_of_front {γ δ : Type} {write : γ → α} {f : γ → δ} {g : β → δ}
    (hlt : ∀ a b, f a = g b → (c.put (write a)).length < (d.put b).length) {v : Vec γ} {w : Vec β}
    (hne : v.toList ≠ []) (hfront : (vec d).put w <+: (vec c).put (v.map write)) :
    v.toList.map f ≠ w.toList.map g := by
  intro heq
  have hread : List.Forall₂ (fun a b => f a = g b) v.toList w.toList := by
    have hmap : List.Forall₂ Eq (v.toList.map f) (w.toList.map g) := forall₂_eq_eq_eq ▸ heq
    rwa [forall₂_map_left_iff, forall₂_map_right_iff] at hmap
  have hlonger : ((vec c).put (v.map write)).length < ((vec d).put w).length := by
    apply length_put_vec_lt
    · simpa using hne
    · rw [Vec.toList_map, forall₂_map_left_iff]
      exact hread.imp hlt
  have hle := hfront.length_le
  omega

end Codecs
