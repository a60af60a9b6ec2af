import Mathlib.Algebra.Group.Nat.Defs
import Zccache.Base.Map
import Zccache.Base.Reader

/-! # The bitstream of a precompiled header

A precompiled header of clang is a sequence of bits in which blocks are nested. A
block is walked item by item, with the abbreviations that it and the `BLOCKINFO`
blocks before it define, or is skipped by its length. Every reader here is safe: the
end of the bytes can only be reported as truncation.
-/

namespace Zccache.Pch

open List FinMap Incremental Incremental.Reader

/-- What makes a bitstream malformed wherever it ends. -/
inductive Fault
  | fieldWidth
  | vbrWidth
  | vbrOverflow
  | blockLength
  | blobLength
  | abbrevEncoding
  | abbrevWidth
  | aggregateScalar
  | emptyAbbrev
  | arrayElement
  | idWidth
  | blockinfoTarget
  | undefinedAbbrev
  | topLevelItem
  | noInputFiles
  | importKind
  | importLayout
  | importPath
  | importsLayout
  | importsCxxModule
  | importsRelative
  | importsTruncated
  | importsByte
  | fileShort
  | fileName
  | hashShort
  | hashFirst
  deriving DecidableEq, Repr

def Fault.message : Fault → String
  | .fieldWidth => "field wider than 64 bits"
  | .vbrWidth => "VBR width below 2"
  | .vbrOverflow => "VBR value overflows 64 bits"
  | .blockLength => "block length overflows"
  | .blobLength => "blob length overflows"
  | .abbrevEncoding => "unknown abbreviation encoding"
  | .abbrevWidth => "abbreviation width above 64"
  | .aggregateScalar => "aggregate used as a scalar"
  | .emptyAbbrev => "empty abbreviation"
  | .arrayElement => "array without an element type"
  | .idWidth => "abbreviation id width out of range"
  | .blockinfoTarget => "BLOCKINFO abbreviation before SETBID"
  | .undefinedAbbrev => "undefined abbreviation id"
  | .topLevelItem => "top-level item is not a block"
  | .noInputFiles => "CONTROL_BLOCK has no INPUT_FILES_BLOCK"
  | .importKind => "imported AST file is not a PCH"
  | .importLayout => "unsupported IMPORT record layout"
  | .importPath => "IMPORT path length exceeds its blob"
  | .importsLayout => "unsupported IMPORTS record layout"
  | .importsCxxModule => "imported AST file is a C++20 module"
  | .importsRelative => "IMPORTS path is not absolute"
  | .importsTruncated => "IMPORTS record is truncated"
  | .importsByte => "IMPORTS string byte"
  | .fileShort => "INPUT_FILE record is too short"
  | .fileName => "INPUT_FILE record has no name blob"
  | .hashShort => "INPUT_FILE_HASH record is too short"
  | .hashFirst => "INPUT_FILE_HASH before any INPUT_FILE"

inductive ReadError
  | truncated
  | malformed (fault : Fault)
  deriving DecidableEq, Repr

abbrev BitReader := Reader UInt8 ReadError

def malformed {β : Type} (fault : Fault) : BitReader β :=
  fail (.malformed fault)

section BitReader

/-- The next bits of one byte, `limit` at most, and how many they are. -/
def readPart (limit : ℕ) : BitReader (UInt64 × ℕ) := fun data bit =>
  match data[bit / 8]? with
  | none => .error .truncated
  | some byte =>
    let offset := bit % 8
    let take := min (8 - offset) limit
    let bits := (byte.toUInt64 >>> UInt64.ofNat offset) &&& ((1 <<< UInt64.ofNat take) - 1)
    .ok ((bits, take), bit + take)

def readLoop (width : ℕ) : ℕ → UInt64 → ℕ → BitReader UInt64
  | 0, value, _ => pure value
  | fuel + 1, value, got =>
    if width ≤ got then pure value
    else do
      let part ← readPart (width - got)
      readLoop width fuel (value ||| (part.1 <<< UInt64.ofNat got)) (got + part.2)

-- A round takes a bit at least, so `width` rounds are enough.
def read (width : ℕ) : BitReader UInt64 :=
  if 64 < width then malformed .fieldWidth else readLoop width width 0 0

def vbrLoop (width : ℕ) : ℕ → UInt64 → ℕ → BitReader UInt64
  | 0, _, _ => malformed .vbrOverflow
  | fuel + 1, value, shift => do
    let high : UInt64 := 1 <<< UInt64.ofNat (width - 1)
    let chunk ← read width
    if 64 ≤ shift then malformed .vbrOverflow
    else
      let value := value ||| ((chunk &&& (high - 1)) <<< UInt64.ofNat shift)
      if chunk &&& high = 0 then pure value
      else vbrLoop width fuel value (shift + (width - 1))

-- The shift grows in every round, so round 65 is the last.
def readVbr (width : ℕ) : BitReader UInt64 :=
  if width < 2 then malformed .vbrWidth else vbrLoop width 65 0 0

def align32 : BitReader Unit :=
  move fun bit => (bit + 31) / 32 * 32

def skipWords (words : UInt64) : BitReader Unit := fun data bit =>
  let bits := words.toNat * 32
  if 2 ^ 64 ≤ bits ∨ 2 ^ 64 ≤ bit + bits then .error (.malformed .blockLength)
  else if data.length * 8 < bit + bits then .error .truncated
  else .ok ((), bit + bits)

def readBytes (len : UInt64) : BitReader (List UInt8) := fun data bit =>
  let start := bit / 8
  let stop := start + len.toNat
  if 2 ^ 64 ≤ stop then .error (.malformed .blobLength)
  else if data.length < stop then .error .truncated
  else .ok ((data.drop start).take len.toNat, stop * 8)

theorem malformed_safe {β : Type} (fault : Fault) :
    Safe .truncated (malformed fault : BitReader β) :=
  .fail _

theorem readPart_safe (limit : ℕ) : Safe .truncated (readPart limit) where
  stable data more bit := by
    rw [readPart, readPart]
    cases hbyte : data[bit / 8]? with
    | none => exact Or.inl rfl
    | some byte =>
      have hlt := (List.getElem?_eq_some_iff.mp hbyte).choose
      rw [List.getElem?_append_left hlt, hbyte]
      exact Or.inr rfl
  forward h := by
    rw [readPart] at h
    split at h
    · cases h
    · cases h
      exact Nat.le_add_right _ _

variable {data : List UInt8} {bit bit' : ℕ}

theorem readPart_position {limit : ℕ} {part : UInt64 × ℕ}
    (h : readPart limit data bit = .ok (part, bit')) :
    bit' = bit + part.2 ∧ part.2 ≤ limit ∧ (1 ≤ limit → 1 ≤ part.2) := by
  rw [readPart] at h
  split at h
  · cases h
  · cases h
    omega

theorem readLoop_safe (width fuel : ℕ) (value : UInt64) (got : ℕ) :
    Safe .truncated (readLoop width fuel value got) := by
  induction fuel generalizing value got with
  | zero => exact .pure value
  | succ fuel ih =>
    exact .ite (fun _ => .pure value) fun _ => (readPart_safe _).bind fun _ => ih _ _

variable {width : ℕ} {v : UInt64}

theorem readLoop_position {fuel : ℕ} {value : UInt64} {got : ℕ} (hgot : got ≤ width)
    (hfuel : width ≤ got + fuel) (h : readLoop width fuel value got data bit = .ok (v, bit')) :
    bit' = bit + (width - got) := by
  induction fuel generalizing value got bit with
  | zero =>
    cases h
    omega
  | succ fuel ih =>
    obtain ⟨hdone, hv⟩ | ⟨hmore, hnext⟩ := ite_eq_ok.mp h
    · cases hv
      omega
    · obtain ⟨part, mid, hpart, hrest⟩ := bind_eq_ok.mp hnext
      obtain ⟨hmid, hle, hpos⟩ := readPart_position hpart
      have hfrom := ih (by omega) (by omega) hrest
      omega

theorem read_safe (width : ℕ) : Safe .truncated (read width) :=
  .ite (fun _ => malformed_safe _) fun _ => readLoop_safe _ _ _ _

theorem read_position (h : read width data bit = .ok (v, bit')) : bit' = bit + width := by
  obtain ⟨_, hfault⟩ | ⟨_, hloop⟩ := ite_eq_ok.mp h
  · cases hfault
  · exact readLoop_position (Nat.zero_le _) (by omega) hloop

theorem read_past_end (hwidth : 1 ≤ width ∧ width ≤ 64) (hbit : data.length * 8 ≤ bit) :
    read width data bit = .error .truncated := by
  obtain ⟨width, rfl⟩ : ∃ n, width = n + 1 := ⟨width - 1, by omega⟩
  rw [read, if_neg (by omega), readLoop, if_neg (by omega)]
  apply bind_of_error
  rw [readPart, getElem?_eq_none (by omega)]

theorem vbrLoop_safe (width fuel : ℕ) (value : UInt64) (shift : ℕ) :
    Safe .truncated (vbrLoop width fuel value shift) := by
  induction fuel generalizing value shift with
  | zero => exact malformed_safe _
  | succ fuel ih =>
    apply (read_safe width).bind
    intro chunk
    apply Safe.ite
    · intro _
      exact malformed_safe _
    · intro _
      exact .ite (fun _ => .pure _) fun _ => ih _ _

theorem readVbr_safe (width : ℕ) : Safe .truncated (readVbr width) :=
  .ite (fun _ => malformed_safe _) fun _ => vbrLoop_safe _ _ _ _

theorem align32_safe : Safe .truncated align32 :=
  .move fun bit => by omega

theorem skipWords_safe (words : UInt64) : Safe .truncated (skipWords words) where
  stable data more bit := by
    simp only [skipWords, length_append]
    split
    · exact Or.inr rfl
    · split
      · exact Or.inl rfl
      · rw [if_neg (by omega)]
        exact Or.inr rfl
  forward h := by
    simp only [skipWords] at h
    split at h
    · cases h
    · split at h
      · cases h
      · cases h
        exact Nat.le_add_right _ _

theorem readBytes_stable (len : UInt64) (data more : List UInt8) (bit : ℕ) :
    readBytes len data bit = .error .truncated ∨
      readBytes len (data ++ more) bit = readBytes len data bit := by
  simp only [readBytes, length_append]
  split
  · exact Or.inr rfl
  · split
    · exact Or.inl rfl
    · next hstop =>
      have hbs : ((data ++ more).drop (bit / 8)).take len.toNat =
          (data.drop (bit / 8)).take len.toNat := by
        rw [drop_append_of_le_length (by omega), take_append_of_le_length]
        rw [length_drop]
        omega
      rw [if_neg (by omega), hbs]
      exact Or.inr rfl

theorem readBytes_position {len : UInt64} {bytes : List UInt8}
    (h : readBytes len data bit = .ok (bytes, bit')) : bit' = (bit / 8 + len.toNat) * 8 := by
  simp only [readBytes] at h
  split at h
  · cases h
  · split at h
    · cases h
    · cases h
      rfl

end BitReader

inductive AbbrevOp
  | literal (value : UInt64)
  | fixed (width : ℕ)
  | vbr (width : ℕ)
  | array
  | char6
  | blob
  deriving DecidableEq, Repr

abbrev Abbrev := List AbbrevOp

structure Record where
  code : UInt64
  ops : List UInt64
  blob : Option (List UInt8)

def widthOf (value : UInt64) : BitReader ℕ :=
  if value ≤ 64 then pure value.toNat else malformed .abbrevWidth

def readAbbrevOp : BitReader AbbrevOp := do
  let isLiteral ← read 1
  if isLiteral = 1 then do
    let value ← readVbr 8
    pure (.literal value)
  else do
    let encoding ← read 3
    if encoding = 1 then do
      let value ← readVbr 5
      let width ← widthOf value
      pure (.fixed width)
    else if encoding = 2 then do
      let value ← readVbr 5
      let width ← widthOf value
      pure (.vbr width)
    else if encoding = 3 then pure .array
    else if encoding = 4 then pure .char6
    else if encoding = 5 then pure .blob
    else malformed .abbrevEncoding

def readAbbrevDefinition : BitReader Abbrev := do
  let count ← readVbr 5
  times readAbbrevOp count.toNat

def readScalar : AbbrevOp → BitReader UInt64
  | .literal value => pure value
  | .fixed width => read width
  | .vbr width => if width = 0 then pure 0 else readVbr width
  | .char6 => read 6
  | .array => malformed .aggregateScalar
  | .blob => malformed .aggregateScalar

/-- The bytes of a blob begin at a word. -/
def readBlob (len : UInt64) : BitReader (List UInt8) := do
  align32
  readBytes len

def readFields : Abbrev → List UInt64 → Option (List UInt8) →
    BitReader (List UInt64 × Option (List UInt8))
  | [], ops, blob => pure (ops, blob)
  | [.array], _, _ => malformed .arrayElement
  | .array :: element :: rest, ops, blob => do
    let len ← readVbr 6
    let values ← times (readScalar element) len.toNat
    readFields rest (ops ++ values) blob
  | .blob :: rest, ops, _ => do
    let len ← readVbr 6
    let bytes ← readBlob len
    align32
    readFields rest ops (some bytes)
  | scalar :: rest, ops, blob => do
    let value ← readScalar scalar
    readFields rest (ops ++ [value]) blob

def readAbbreviated : Abbrev → BitReader Record
  | [] => malformed .emptyAbbrev
  | first :: rest => do
    let code ← readScalar first
    let fields ← readFields rest [] none
    pure ⟨code, fields.1, fields.2⟩

def readUnabbreviated : BitReader Record := do
  let code ← readVbr 6
  let count ← readVbr 6
  let ops ← times (readVbr 6) count.toNat
  pure ⟨code, ops, none⟩

theorem widthOf_safe (value : UInt64) : Safe .truncated (widthOf value) :=
  .ite (fun _ => .pure _) fun _ => malformed_safe _

theorem readAbbrevOp_safe : Safe .truncated readAbbrevOp := by
  have hsized (op : ℕ → AbbrevOp) :
      Safe .truncated (do
        let value ← readVbr 5
        let width ← widthOf value
        pure (op width)) :=
    (readVbr_safe 5).bind fun value => (widthOf_safe value).bind fun _ => .pure _
  apply (read_safe 1).bind
  intro isLiteral
  apply Safe.ite
  · intro _
    exact (readVbr_safe 8).bind fun _ => .pure _
  · intro _
    apply (read_safe 3).bind
    intro encoding
    exact .ite (fun _ => hsized .fixed) fun _ => .ite (fun _ => hsized .vbr) fun _ =>
      .ite (fun _ => .pure _) fun _ => .ite (fun _ => .pure _) fun _ =>
      .ite (fun _ => .pure _) fun _ => malformed_safe _

theorem readAbbrevDefinition_safe : Safe .truncated readAbbrevDefinition :=
  (readVbr_safe 5).bind fun _ => readAbbrevOp_safe.times _

theorem readScalar_safe (op : AbbrevOp) : Safe .truncated (readScalar op) := by
  cases op with
  | literal value => exact .pure value
  | fixed width => exact read_safe width
  | vbr width => exact .ite (fun _ => .pure _) fun _ => readVbr_safe width
  | char6 => exact read_safe 6
  | array | blob => exact malformed_safe _

-- Alone, `readBytes` could step back inside a byte; behind `align32` it cannot.
theorem readBlob_safe (len : UInt64) : Safe .truncated (readBlob len) where
  stable data more bit := readBytes_stable len data more _
  forward {data bit bytes bit'} h := by
    have hposition : bit' = ((bit + 31) / 32 * 32 / 8 + len.toNat) * 8 := readBytes_position h
    omega

theorem readFields_safe (fields : Abbrev) (ops : List UInt64) (blob : Option (List UInt8)) :
    Safe .truncated (readFields fields ops blob) := by
  fun_induction readFields fields ops blob with
  | case1 ops blob => exact .pure _
  | case2 => exact malformed_safe _
  | case3 element rest ops blob ih =>
    apply (readVbr_safe 6).bind
    intro len
    exact ((readScalar_safe element).times _).bind fun values => ih values
  | case4 rest ops blob ih =>
    apply (readVbr_safe 6).bind
    intro len
    exact (readBlob_safe len).bind fun bytes => align32_safe.bind fun _ => ih bytes
  | case5 scalar rest ops blob _ _ _ ih => exact (readScalar_safe scalar).bind fun value => ih value

theorem readAbbreviated_safe (definition : Abbrev) :
    Safe .truncated (readAbbreviated definition) := by
  cases definition with
  | nil => exact malformed_safe _
  | cons first rest =>
    exact (readScalar_safe first).bind fun _ => (readFields_safe rest [] none).bind fun _ => .pure _

theorem readUnabbreviated_safe : Safe .truncated readUnabbreviated := by
  apply (readVbr_safe 6).bind
  intro code
  apply (readVbr_safe 6).bind
  intro count
  exact ((readVbr_safe 6).times _).bind fun _ => .pure _

structure BlockHeader where
  id : UInt64
  abbrevWidth : ℕ
  words : UInt64
  abbrevWidth_mem : 1 ≤ abbrevWidth ∧ abbrevWidth ≤ 32

def readBlockHeader : BitReader BlockHeader := do
  let id ← readVbr 8
  let width ← readVbr 4
  if h : 1 ≤ width.toNat ∧ width.toNat ≤ 32 then do
    align32
    let words ← read 32
    pure ⟨id, width.toNat, words, h⟩
  else malformed .idWidth

theorem readBlockHeader_safe : Safe .truncated readBlockHeader := by
  apply (readVbr_safe 8).bind
  intro id
  apply (readVbr_safe 4).bind
  intro width
  split
  · exact align32_safe.bind fun _ => (read_safe 32).bind fun _ => .pure _
  · exact malformed_safe _

inductive SubBlock
  | skip
  | enter

/-- What a walk does with the sub-blocks and the records it meets; `false` ends it. -/
structure Visitor (σ : Type) where
  onBlock : UInt64 → σ → σ × SubBlock
  onRecord : UInt64 → Record → σ → σ × Bool

variable {σ : Type}

def Visitor.ignore : Visitor σ where
  onBlock _ seen := (seen, .skip)
  onRecord _ _ seen := (seen, true)

abbrev Blockinfo := Map UInt64 (List Abbrev)

structure Walk (σ : Type) where
  blockinfo : Blockinfo
  seen : σ

def Walk.abbrevs (w : Walk σ) (header : BlockHeader) : List Abbrev :=
  (w.blockinfo.lookup header.id).getD []

def Walk.define (w : Walk σ) (target : UInt64) (definition : Abbrev) : Walk σ :=
  { w with blockinfo :=
      w.blockinfo.insert target ((w.blockinfo.lookup target).getD [] ++ [definition]) }

def blockinfoBlockId : UInt64 := 0

def endBlock : UInt64 := 0

def enterSubblock : UInt64 := 1

def defineAbbrev : UInt64 := 2

def unabbrevRecord : UInt64 := 3

def blockinfoSetbid : UInt64 := 1

/-- `walk_block` from the top of its loop, with the abbreviations of the block and the
block that `BLOCKINFO` abbreviations are for. -/
def walkLoop : ℕ → Visitor σ → BlockHeader → List Abbrev → Option UInt64 → Walk σ →
    BitReader (Bool × Walk σ)
  | 0, _, _, _, _, _ => fail .truncated
  | fuel + 1, visitor, header, abbrevs, target, w => do
    let visit (record : Record) : BitReader (Bool × Walk σ) :=
      let (seen, more) := visitor.onRecord header.id record w.seen
      if more then walkLoop fuel visitor header abbrevs target { w with seen }
      else pure (false, { w with seen })
    let id ← read header.abbrevWidth
    if id = endBlock then do
      align32
      pure (true, w)
    else if id = enterSubblock then do
      let sub ← readBlockHeader
      if sub.id = blockinfoBlockId then do
        let inner ← walkLoop fuel .ignore sub (w.abbrevs sub) none w
        walkLoop fuel visitor header abbrevs target inner.2
      else
        match visitor.onBlock sub.id w.seen with
        | (seen, .skip) => do
          skipWords sub.words
          walkLoop fuel visitor header abbrevs target { w with seen }
        | (seen, .enter) => do
          let inner ← walkLoop fuel visitor sub (w.abbrevs sub) none { w with seen }
          if inner.1 then walkLoop fuel visitor header abbrevs target inner.2
          else pure (false, inner.2)
    else if id = defineAbbrev then do
      let definition ← readAbbrevDefinition
      if header.id = blockinfoBlockId then
        match target with
        | some block => walkLoop fuel visitor header abbrevs target (w.define block definition)
        | none => malformed .blockinfoTarget
      else walkLoop fuel visitor header (abbrevs ++ [definition]) target w
    else if id = unabbrevRecord then do
      let record ← readUnabbreviated
      if header.id = blockinfoBlockId then
        walkLoop fuel visitor header abbrevs
          (if record.code = blockinfoSetbid then record.ops.head? else target) w
      else visit record
    else do
      let definition ← orFail (.malformed .undefinedAbbrev) abbrevs[(id - 4).toNat]?
      let record ← readAbbreviated definition
      if header.id = blockinfoBlockId then walkLoop fuel visitor header abbrevs target w
      else visit record

-- Every round reads a bit at least, and a round past the end of the bytes is the last.
def walkBlock (visitor : Visitor σ) (header : BlockHeader) (w : Walk σ) :
    BitReader (Bool × Walk σ) := fun data bit =>
  walkLoop (data.length * 8 + 1) visitor header (w.abbrevs header) none w data bit

def walkBlockinfo (header : BlockHeader) (w : Walk σ) : BitReader (Walk σ) := do
  let inner ← walkBlock .ignore header w
  pure inner.2

variable {fuel bit : ℕ} {visitor : Visitor σ} {header : BlockHeader} {w : Walk σ}
  {data : List UInt8}

/-- Fuel for the bits that are left is enough: each round starts behind the one
before it, and past the end of the bytes a round can only fail. -/
theorem walkLoop_fuel {abbrevs : List Abbrev} {target : Option UInt64}
    (hfuel : data.length * 8 < bit + fuel) :
    SafeFrom .truncated data bit (walkLoop fuel visitor header abbrevs target w)
      (walkLoop (fuel + 1) visitor header abbrevs target w) := by
  induction fuel generalizing visitor header abbrevs target w bit with
  | zero =>
    have hwidth := header.abbrevWidth_mem
    refine ⟨.fail _, fun pos hpos => (bind_of_error ?_).symm⟩
    exact read_past_end (by omega) (by omega)
  | succ fuel ih =>
    have hfuel : data.length * 8 < bit + 1 + fuel := by omega
    have hvisit (r : Walk σ × Bool) : SafeFrom .truncated data (bit + 1)
        (if r.2 then walkLoop fuel visitor header abbrevs target r.1
          else pure (false, r.1) : BitReader (Bool × Walk σ))
        (if r.2 then walkLoop (fuel + 1) visitor header abbrevs target r.1
          else pure (false, r.1)) :=
      .ite (ih hfuel) (.refl (.pure _))
    refine SafeFrom.bind_later 1 (.refl (read_safe header.abbrevWidth)) ?_ fun id => ?_
    · intro pos id pos' hid
      have hposition := read_position hid
      have hwidth := header.abbrevWidth_mem
      omega
    apply SafeFrom.ite (.refl (align32_safe.bind fun _ => .pure _))
    apply SafeFrom.ite
    · apply SafeFrom.bind (.refl readBlockHeader_safe)
      intro sub
      apply SafeFrom.ite ((ih hfuel).bind fun _ => ih hfuel)
      rcases visitor.onBlock sub.id w.seen with ⟨seen, _ | _⟩
      · exact .bind (.refl (skipWords_safe _)) fun _ => ih hfuel
      · exact (ih hfuel).bind fun _ => .ite (ih hfuel) (.refl (.pure _))
    apply SafeFrom.ite
    · apply SafeFrom.bind (.refl readAbbrevDefinition_safe)
      intro definition
      apply SafeFrom.ite _ (ih hfuel)
      cases target with
      | some block => exact ih hfuel
      | none => exact .refl (malformed_safe _)
    apply SafeFrom.ite
    · apply SafeFrom.bind (.refl readUnabbreviated_safe)
      intro record
      exact .ite (ih hfuel) (hvisit (⟨_, _⟩, _))
    · apply SafeFrom.bind (.refl (.orFail _ _))
      intro definition
      apply SafeFrom.bind (.refl (readAbbreviated_safe definition))
      intro record
      exact .ite (ih hfuel) (hvisit (⟨_, _⟩, _))

theorem walkBlock_eq (hfuel : data.length * 8 < bit + fuel) :
    walkLoop fuel visitor header (w.abbrevs header) none w data bit =
      walkBlock visitor header w data bit := by
  have hall : ∀ n, data.length * 8 < bit + n →
      ∀ k, walkLoop (n + k) visitor header (w.abbrevs header) none w data bit =
        walkLoop n visitor header (w.abbrevs header) none w data bit := by
    intro n hn k
    induction k with
    | zero => rfl
    | succ k ih =>
      have hk : data.length * 8 < bit + (n + k) := by omega
      exact ((walkLoop_fuel hk).agree bit le_rfl).symm.trans ih
  rw [walkBlock, ← hall fuel hfuel (data.length * 8 + 1), Nat.add_comm fuel]
  exact hall _ (by omega) fuel

theorem walkBlock_safe (visitor : Visitor σ) (header : BlockHeader) (w : Walk σ) :
    Safe .truncated (walkBlock visitor header w) := by
  apply Safe.of_fuel fun n =>
    (walkLoop_fuel (show ([] : List UInt8).length * 8 < 0 + (n * 8 + 1) by simp)).safe
  intro data bit n hn
  exact (walkBlock_eq (by omega)).symm

theorem walkBlockinfo_safe (header : BlockHeader) (w : Walk σ) :
    Safe .truncated (walkBlockinfo header w) :=
  (walkBlock_safe .ignore header w).bind fun _ => .pure _

end Zccache.Pch
