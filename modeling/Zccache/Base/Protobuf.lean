import Mathlib.Data.List.GetD
import Zccache.Base.Utf8

/-! # Protocol buffers

The wire format: a message is a sequence of numbered fields, and a field holds a number
in groups of seven bits or a counted string of bytes. Fields that hold their default are
left out. A format says how the fields of a message are written and read; formats are
put together from those of single fields, and read back what they write.
-/

namespace Protobuf

open List

variable {M N β : Type}

def varintLoop : ℕ → ℕ → List UInt8
  | 0, _ => []
  | fuel + 1, n =>
    if n < 128 then [UInt8.ofNat n]
    else UInt8.ofNat (n % 128 + 128) :: varintLoop fuel (n / 128)

def varint (n : ℕ) : List UInt8 :=
  varintLoop (n + 1) n

def getVarint : List UInt8 → Option (ℕ × List UInt8)
  | [] => none
  | b :: rest =>
    if b.toNat < 128 then some (b.toNat, rest)
    else (getVarint rest).map fun r => (b.toNat - 128 + 128 * r.1, r.2)

theorem getVarint_varintLoop {fuel n : ℕ} (h : n < fuel) (rest : List UInt8) :
    getVarint (varintLoop fuel n ++ rest) = some (n, rest) := by
  induction fuel generalizing n with
  | zero => omega
  | succ fuel ih =>
    rw [varintLoop]
    split
    · next hsmall =>
      have hn : (UInt8.ofNat n).toNat = n := by
        rw [UInt8.toNat_ofNat']
        omega
      rw [singleton_append, getVarint, hn, if_pos hsmall]
    · next hlarge =>
      have hn : (UInt8.ofNat (n % 128 + 128)).toNat = n % 128 + 128 := by
        rw [UInt8.toNat_ofNat']
        omega
      rw [cons_append, getVarint, hn, if_neg (by omega), ih (by omega), Option.map_some,
        Nat.add_sub_cancel, Nat.mod_add_div]

@[simp] theorem getVarint_varint (n : ℕ) (rest : List UInt8) :
    getVarint (varint n ++ rest) = some (n, rest) :=
  getVarint_varintLoop (Nat.lt_succ_self n) rest

theorem varint_ne_nil (n : ℕ) : varint n ≠ [] := by
  intro h
  have hget := getVarint_varint n []
  rw [h] at hget
  cases hget

inductive Value
  | varint (n : ℕ)
  | bytes (bytes : List UInt8)
  deriving DecidableEq

structure Field where
  number : ℕ
  value : Value
  deriving DecidableEq

def putField : Field → List UInt8
  | ⟨number, .varint n⟩ => varint (number * 8) ++ varint n
  | ⟨number, .bytes bytes⟩ => varint (number * 8 + 2) ++ (varint bytes.length ++ bytes)

def getValue (number wireType : ℕ) (bytes : List UInt8) : Option (Field × List UInt8) :=
  match wireType with
  | 0 => (getVarint bytes).map fun r => (⟨number, .varint r.1⟩, r.2)
  | 2 => (getVarint bytes).bind fun r =>
    if r.1 ≤ r.2.length then some (⟨number, .bytes (r.2.take r.1)⟩, r.2.drop r.1) else none
  | _ => none

def getField (bytes : List UInt8) : Option (Field × List UInt8) :=
  (getVarint bytes).bind fun r => getValue (r.1 / 8) (r.1 % 8) r.2

theorem getField_putField (f : Field) (rest : List UInt8) :
    getField (putField f ++ rest) = some (f, rest) := by
  obtain ⟨number, n | bytes⟩ := f
  · rw [putField, append_assoc, getField, getVarint_varint, Option.bind_some,
      Nat.mul_div_cancel _ (by omega), Nat.mul_mod_left, getValue, getVarint_varint]
    rfl
  · have hnum : (number * 8 + 2) / 8 = number := by omega
    have htype : (number * 8 + 2) % 8 = 2 := by omega
    rw [putField, append_assoc, append_assoc, getField, getVarint_varint,
      Option.bind_some, hnum, htype, getValue, getVarint_varint]
    simp

theorem putField_ne_nil (f : Field) : putField f ≠ [] := by
  obtain ⟨number, n | bytes⟩ := f
  all_goals exact append_ne_nil_of_left_ne_nil (varint_ne_nil _) _

def getAll (get : List UInt8 → Option (β × List UInt8)) : ℕ → List UInt8 → Option (List β)
  | _, [] => some []
  | 0, _ => none
  | fuel + 1, bytes => (get bytes).bind fun r => (getAll get fuel r.2).map fun rest => r.1 :: rest

section GetAll

variable {put : β → List UInt8} {get : List UInt8 → Option (β × List UInt8)}

theorem length_le_length_flatMap (hne : ∀ b, put b ≠ []) (l : List β) :
    l.length ≤ (l.flatMap put).length := by
  induction l with
  | nil => exact Nat.zero_le _
  | cons b l ih =>
    have hpos := length_pos_iff.mpr (hne b)
    rw [flatMap_cons, length_append, length_cons]
    omega

/-- Every value takes a byte at least, so the bytes are fuel enough. -/
theorem getAll_flatMap (hne : ∀ b, put b ≠ [])
    (hget : ∀ b rest, get (put b ++ rest) = some (b, rest)) (l : List β) :
    getAll get (l.flatMap put).length (l.flatMap put) = some l := by
  have hfuel : ∀ {l : List β} {fuel : ℕ}, l.length ≤ fuel →
      getAll get fuel (l.flatMap put) = some l := by
    intro l
    induction l with
    | nil =>
      intro fuel _
      cases fuel <;> rfl
    | cons b l ih =>
      rintro (_ | fuel) h
      · simp at h
      · rw [flatMap_cons, getAll, hget, Option.bind_some, ih (by simpa using h)]
        · rfl
        · exact append_ne_nil_of_left_ne_nil (hne b) _
  exact hfuel (length_le_length_flatMap hne l)

end GetAll

def putFields (fields : List Field) : List UInt8 :=
  fields.flatMap putField

def getFields (bytes : List UInt8) : Option (List Field) :=
  getAll getField bytes.length bytes

@[simp] theorem getFields_putFields (fields : List Field) :
    getFields (putFields fields) = some fields :=
  getAll_flatMap putField_ne_nil getField_putField fields

/-- How the fields of a message are written, and read from a sequence in which fields of
other numbers may stand between them. -/
structure Format (M : Type) where
  numbers : List ℕ
  put : M → List Field
  get : List Field → Option M
  number_mem : ∀ m, ∀ f ∈ put m, f.number ∈ numbers
  get_filter : ∀ fields, get (fields.filter (·.number ∈ numbers)) = get fields
  get_put : ∀ m, get (put m) = some m

namespace Format

variable (format : Format M)

def encode (m : M) : List UInt8 :=
  putFields (format.put m)

def decode (bytes : List UInt8) : Option M :=
  (getFields bytes).bind format.get

@[simp] theorem decode_encode (m : M) :
    format.decode (format.encode m) = some m := by
  rw [decode, encode, getFields_putFields, Option.bind_some, format.get_put]

def ofFields (numbers : List ℕ) (put : M → List Field) (get : List Field → Option M)
    (number_mem : ∀ m, ∀ f ∈ put m, f.number ∈ numbers) (get_put : ∀ m, get (put m) = some m) :
    Format M where
  numbers := numbers
  put := put
  get fields := get (fields.filter (·.number ∈ numbers))
  number_mem := number_mem
  get_filter fields := by
    rw [filter_filter]
    simp only [Bool.and_self]
  get_put m := by
    have hall : (put m).filter (·.number ∈ numbers) = put m := by
      rw [filter_eq_self]
      intro f hf
      exact decide_eq_true (number_mem m f hf)
    rw [hall, get_put]

def slot (number : ℕ) (put : M → List Value) (get : List Value → Option M)
    (get_put : ∀ m, get (put m) = some m) : Format M :=
  ofFields [number] (fun m => (put m).map (Field.mk number))
    (fun fields => get (fields.map (·.value)))
    (by
      intro m f hf
      obtain ⟨v, -, rfl⟩ := mem_map.mp hf
      exact mem_singleton_self number)
    (by
      intro m
      rw [map_map]
      exact (congrArg get (map_id _)).trans (get_put m))

def pair (a : Format M) (b : Format N)
    (disjoint : ∀ n ∈ a.numbers, n ∉ b.numbers := by decide) : Format (M × N) where
  numbers := a.numbers ++ b.numbers
  put m := a.put m.1 ++ b.put m.2
  get fields := (a.get fields).bind fun m => (b.get fields).map fun n => (m, n)
  number_mem m f hf := by
    rcases mem_append.mp hf with hf | hf
    · exact mem_append_left _ (a.number_mem m.1 f hf)
    · exact mem_append_right _ (b.number_mem m.2 f hf)
  get_filter fields := by
    have ha : a.get (fields.filter (·.number ∈ a.numbers ++ b.numbers)) = a.get fields := by
      rw [← a.get_filter, filter_filter, ← a.get_filter fields]
      congr 1
      apply filter_congr
      intro f _
      simp only [mem_append, Bool.decide_or]
      cases decide (f.number ∈ a.numbers) <;> rfl
    have hb : b.get (fields.filter (·.number ∈ a.numbers ++ b.numbers)) = b.get fields := by
      rw [← b.get_filter, filter_filter, ← b.get_filter fields]
      congr 1
      apply filter_congr
      intro f _
      simp only [mem_append, Bool.decide_or]
      cases decide (f.number ∈ b.numbers) <;> simp
    rw [ha, hb]
  get_put m := by
    have ha : a.get (a.put m.1 ++ b.put m.2) = some m.1 := by
      have hnone : (b.put m.2).filter (·.number ∈ a.numbers) = [] := by
        rw [filter_eq_nil_iff]
        intro f hf h
        exact disjoint f.number (of_decide_eq_true h) (b.number_mem m.2 f hf)
      rw [← a.get_filter, filter_append, hnone, append_nil, a.get_filter, a.get_put]
    have hb : b.get (a.put m.1 ++ b.put m.2) = some m.2 := by
      have hnone : (a.put m.1).filter (·.number ∈ b.numbers) = [] := by
        rw [filter_eq_nil_iff]
        intro f hf h
        exact disjoint f.number (a.number_mem m.1 f hf) (of_decide_eq_true h)
      rw [← b.get_filter, filter_append, hnone, nil_append, b.get_filter, b.get_put]
    rw [ha, hb]
    rfl

def empty : Format Unit :=
  ofFields [] (fun _ => []) (fun _ => some ()) (fun _ _ hf => nomatch hf) fun _ => rfl

def via (format : Format N) (write : M → N) (read : N → M) (read_write : ∀ m, read (write m) = m) :
    Format M where
  numbers := format.numbers
  put m := format.put (write m)
  get fields := (format.get fields).map read
  number_mem m := format.number_mem (write m)
  get_filter fields := by rw [format.get_filter]
  get_put m := by rw [format.get_put, Option.map_some, read_write]

end Format

/-- A type of the values of a field. -/
structure Payload (M : Type) where
  put : M → Value
  get : Value → Option M
  get_put : ∀ m, get (put m) = some m

namespace Payload

def bytes : Payload (List UInt8) where
  put := .bytes
  get
    | .bytes b => some b
    | .varint _ => none
  get_put _ := rfl

def string : Payload (List Char) where
  put t := .bytes (PrefixCode.utf8 t)
  get
    | .bytes b =>
      if PrefixCode.utf8 (Utf8.fromUtf8Lossy b) = b then some (Utf8.fromUtf8Lossy b) else none
    | .varint _ => none
  get_put t := by simp

def message (format : Format M) : Payload M where
  put m := .bytes (format.encode m)
  get
    | .bytes b => format.decode b
    | .varint _ => none
  get_put m := format.decode_encode m

def number (write : M → ℕ) (read : ℕ → M) (read_write : ∀ m, read (write m) = m) :
    Payload M where
  put m := .varint (write m)
  get
    | .varint n => some (read n)
    | .bytes _ => none
  get_put m := by simp only [read_write]

def bool : Payload Bool :=
  number Bool.toNat (· ≠ 0) (by decide)

def uint32 : Payload UInt32 :=
  number UInt32.toNat UInt32.ofNat fun _ => UInt32.ofNat_toNat

def uint64 : Payload UInt64 :=
  number UInt64.toNat UInt64.ofNat fun _ => UInt64.ofNat_toNat

/-- A negative number is written with its sign in all 64 bits. -/
def int32 : Payload Int32 :=
  number (fun n => n.toInt64.toUInt64.toNat) (fun n => (UInt64.ofNat n).toInt64.toInt32)
    (by intro n; simp)

def packed (write : M → ℕ) (read : ℕ → M) (read_write : ∀ m, read (write m) = m) :
    Payload (List M) where
  put l := .bytes (l.flatMap fun m => varint (write m))
  get
    | .bytes b => (getAll getVarint b.length b).map (List.map read)
    | .varint _ => none
  get_put l := by
    have hall := getAll_flatMap varint_ne_nil getVarint_varint (l.map write)
    rw [flatMap_map] at hall
    simp only [hall, Option.map_some, map_map]
    exact congrArg some ((map_congr_left fun m _ => read_write m).trans (map_id l))

end Payload

namespace Format

/-- A field that is left out if it holds the default. -/
def implicit [DecidableEq M] (number : ℕ) (payload : Payload M) (default : M) : Format M :=
  slot number (fun m => if m = default then [] else [payload.put m])
    (fun values => match values.getLast? with
      | none => some default
      | some v => payload.get v)
    (by
      intro m
      by_cases h : m = default
      · simp [h]
      · simp [h, payload.get_put])

def optional (number : ℕ) (payload : Payload M) : Format (Option M) :=
  slot number (fun m => (m.map payload.put).toList)
    (fun values => match values.getLast? with
      | none => some none
      | some v => (payload.get v).map some)
    (by
      intro m
      cases m with
      | none => rfl
      | some m => simp [payload.get_put])

def repeated (number : ℕ) (payload : Payload M) : Format (List M) :=
  slot number (fun l => l.map payload.put) (fun values => values.mapM payload.get)
    (by
      intro l
      induction l with
      | nil => rfl
      | cons m l ih =>
        rw [map_cons, mapM_cons, payload.get_put, ih]
        rfl)

/-- One of several fields, each of which is one case of the message. -/
def oneOf (numbers : List ℕ) (put : M → Field) (get : Field → Option M)
    (number_mem : ∀ m, (put m).number ∈ numbers) (get_put : ∀ m, get (put m) = some m) :
    Format (Option M) :=
  ofFields numbers (fun m => (m.map put).toList)
    (fun fields => match fields.getLast? with
      | none => some none
      | some f => (get f).map some)
    (by
      intro m f hf
      cases m with
      | none => cases hf
      | some m =>
        obtain rfl : f = put m := by simpa using hf
        exact number_mem m)
    (by
      intro m
      cases m with
      | none => rfl
      | some m => simp [get_put])

@[simp] theorem put_pair (a : Format M) (b : Format N)
    (disjoint : ∀ n ∈ a.numbers, n ∉ b.numbers) (m : M × N) :
    (pair a b disjoint).put m = a.put m.1 ++ b.put m.2 := rfl

@[simp] theorem put_via (format : Format N) (write : M → N) (read : N → M)
    (read_write : ∀ m, read (write m) = m) (m : M) :
    (via format write read read_write).put m = format.put (write m) := rfl

@[simp] theorem put_implicit_default [DecidableEq M] (number : ℕ) (payload : Payload M)
    (default : M) : (implicit number payload default).put default = [] := by
  simp [implicit, slot, ofFields]

theorem put_implicit [DecidableEq M] (number : ℕ) (payload : Payload M) {default m : M}
    (h : m ≠ default) : (implicit number payload default).put m = [⟨number, payload.put m⟩] := by
  simp [implicit, slot, ofFields, h]

@[simp] theorem put_oneOf_some {numbers : List ℕ} {put : M → Field} {get : Field → Option M}
    (number_mem : ∀ m, (put m).number ∈ numbers) (get_put : ∀ m, get (put m) = some m) (m : M) :
    (oneOf numbers put get number_mem get_put).put (some m) = [put m] := rfl

end Format

end Protobuf
