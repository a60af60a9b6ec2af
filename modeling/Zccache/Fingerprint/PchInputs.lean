import Zccache.Base.Path
import Zccache.Base.Utf8
import Zccache.Fingerprint.Bitstream

/-! # The inputs that a precompiled header records

The input files of a precompiled header stand in its control block, which is at the
head of the file, so the head is parsed first and the whole file only if the head is
reported as truncated. The parser of the head answers as the parser of the file does,
unless the head ends between two blocks: there the end of the bytes is taken for the
end of the file.
-/

namespace Zccache.Pch

open List FinMap Incremental Incremental.Reader
open Unix (Text sep)

structure PchInput where
  path : Text
  asRequested : Text
  size : UInt64
  mtimeSecs : UInt64
  contentXxh3 : Option UInt64
  overridden : Bool
  transient : Bool
  topLevel : Bool
  importedPch : Bool
  deriving DecidableEq, Repr

section Decoding

def inputFile : UInt64 := 1

def inputFileHash : UInt64 := 2

variable (inputs : List PchInput) (hasCxxFlag : Bool)

def decodeInputRecord (record : Record) :
    Except Fault (List PchInput) :=
  if record.code = inputFile then
    match record.ops[1]?, record.ops[2]? with
    | some size, some mtime =>
      match record.blob with
      | none => .error .fileName
      | some blob =>
        let split := ((record.ops[7]?.map UInt64.toNat).filter (· ≤ blob.length)).getD
          blob.length
        let asRequested := blob.take split
        let resolved := blob.drop split
        .ok (inputs ++ [{
          path := Utf8.fromUtf8Lossy (if resolved = [] then asRequested else resolved)
          asRequested := Utf8.fromUtf8Lossy asRequested
          size := size
          mtimeSecs := mtime
          contentXxh3 := none
          overridden := record.ops[3]?.getD 0 ≠ 0
          transient := record.ops[4]?.getD 0 ≠ 0
          topLevel := record.ops[5]?.getD 0 ≠ 0
          importedPch := false }])
    | _, _ => .error .fileShort
  else if record.code = inputFileHash then
    match record.ops[0]?, record.ops[1]? with
    | some low, some high =>
      let hash := (high <<< 32) ||| (low &&& 0xffffffff)
      match inputs.getLast? with
      | none => .error .hashFirst
      | some last =>
        -- a zero hash means that clang did not hash the input
        let recorded := if hash ≠ 0 then some hash else none
        .ok (inputs.dropLast ++ [{ last with contentXxh3 := recorded }])
    | _, _ => .error .hashShort
  else .ok inputs

abbrev OpCursor := Reader UInt64 Fault

def OpCursor.take (count : ℕ) : OpCursor (List UInt64) := fun ops pos =>
  if pos + count ≤ ops.length then .ok ((ops.drop pos).take count, pos + count)
  else .error .importsTruncated

def OpCursor.one : OpCursor UInt64 := do
  let slice ← OpCursor.take 1
  pure (slice.headD 0)

def byteOf (op : UInt64) : OpCursor UInt8 :=
  if op < 256 then pure op.toUInt8 else fail .importsByte

def bytesOf : List UInt64 → OpCursor (List UInt8)
  | [] => pure []
  | op :: ops => do
    let byte ← byteOf op
    let bytes ← bytesOf ops
    pure (byte :: bytes)

def OpCursor.string : OpCursor Text := do
  let len ← OpCursor.one
  let ops ← OpCursor.take len.toNat
  let bytes ← bytesOf ops
  pure (Utf8.fromUtf8Lossy bytes)

structure Import where
  kind : UInt64
  size : UInt64
  mtime : UInt64
  path : Text

def checkCxxFlag : OpCursor Unit :=
  if hasCxxFlag then do
    let flag ← OpCursor.one
    if flag ≠ 0 then fail .importsCxxModule else pure ()
  else pure ()

def decodeLegacyImport (signatureWords : ℕ) : OpCursor Import := do
  let kind ← OpCursor.one
  checkCxxFlag hasCxxFlag
  let _importLoc ← OpCursor.one
  let size ← OpCursor.one
  let mtime ← OpCursor.one
  let _signature ← OpCursor.take signatureWords
  let _moduleName ← OpCursor.string
  let path ← OpCursor.string
  if path.head? = some sep then pure ⟨kind, size, mtime, path⟩ else fail .importsRelative

def legacyLoop (hasCxxFlag : Bool) (signatureWords : ℕ) (ops : List UInt64) :
    ℕ → ℕ → Except Fault (List Import)
  | 0, _ => .ok []
  | fuel + 1, pos =>
    if ops.length ≤ pos then .ok []
    else
      match decodeLegacyImport hasCxxFlag signatureWords ops pos with
      | .error fault => .error fault
      | .ok (one, pos') =>
        (legacyLoop hasCxxFlag signatureWords ops fuel pos').map (one :: ·)

-- Every import takes an operand at least.
def decodeLegacyImports (ops : List UInt64) (hasCxxFlag : Bool) (signatureWords : ℕ) :
    Except Fault (List Import) :=
  legacyLoop hasCxxFlag signatureWords ops ops.length 0

def moduleKindPch : UInt64 := 2

def pushImport (one : Import) : Except Fault (List PchInput) :=
  if one.kind ≠ moduleKindPch then .error .importKind
  else .ok (inputs ++ [{
    path := one.path
    asRequested := one.path
    size := one.size
    mtimeSecs := one.mtime
    contentXxh3 := none
    overridden := false
    transient := false
    topLevel := false
    importedPch := true }])

/-- With or without the flag of a standard module, and the words of the signature. -/
def legacyLayouts : List (Bool × ℕ) :=
  [(true, 20), (false, 20), (true, 5), (false, 5)]

def decodeImportRecord (record : Record) :
    Except Fault (List PchInput) :=
  match record.blob with
  | some blob =>
    match record.ops with
    | [kind, _, _, _, size, mtime, pathLen] =>
      if pathLen.toNat ≤ blob.length then
        pushImport inputs ⟨kind, size, mtime,
          Utf8.fromUtf8Lossy (blob.drop (blob.length - pathLen.toNat))⟩
      else .error .importPath
    | _ => .error .importLayout
  | none =>
    match legacyLayouts.findSome? fun layout =>
        (decodeLegacyImports record.ops layout.1 layout.2).toOption with
    | some imports => imports.foldlM pushImport inputs
    | none => .error .importsLayout

end Decoding

section Parsing

structure Control where
  inputs : List PchInput := []
  compilerMajor : Option UInt64 := none
  decodeError : Option Fault := none
  sawInputFiles : Bool := false

def controlBlockId : UInt64 := 15

def inputFilesBlockId : UInt64 := 16

def metadataRecord : UInt64 := 1

def importRecord : UInt64 := 2

def decodeRecord (block : UInt64) (record : Record) (control : Control) : Except Fault Control :=
  if block = inputFilesBlockId then
    (decodeInputRecord control.inputs record).map fun inputs => { control with inputs }
  else if block = controlBlockId ∧ record.code = metadataRecord then
    .ok { control with compilerMajor := record.ops[2]? }
  else if block = controlBlockId ∧ record.code = importRecord then
    (decodeImportRecord control.inputs record).map fun inputs => { control with inputs }
  else .ok control

def controlVisitor : Visitor Control where
  onBlock id control :=
    if id = inputFilesBlockId then ({ control with sawInputFiles := true }, .enter)
    else (control, .skip)
  onRecord block record control :=
    match decodeRecord block record control with
    | .ok control => (control, true)
    | .error fault => ({ control with decodeError := some fault }, false)

variable (blockinfo : Blockinfo) (bytes : List UInt8) (control : Control)

/-- What the walk of the control block leaves, if its records could be decoded. -/
def Control.finish : BitReader Control :=
  match control.decodeError with
  | some fault => malformed fault
  | none => if control.sawInputFiles then pure control else malformed .noInputFiles

def enterBlock : BitReader (Blockinfo ⊕ Control) := do
  let header ← readBlockHeader
  if header.id = blockinfoBlockId then do
    let w ← walkBlockinfo header (⟨blockinfo, ()⟩ : Walk Unit)
    pure (.inl w.blockinfo)
  else if header.id = controlBlockId then do
    let r ← walkBlock controlVisitor header ⟨blockinfo, {}⟩
    let control ← r.2.seen.finish
    pure (.inr control)
  else do
    skipWords header.words
    pure (.inl blockinfo)

/-- One round of the loop over the top level: a block is passed, or the control block
is read. -/
def topLevelBlock : BitReader (Blockinfo ⊕ Control) := do
  let tag ← read 2
  if tag ≠ enterSubblock then malformed .topLevelItem else enterBlock blockinfo

inductive PchInputsError
  | truncated
  | malformed (message : String)
  deriving DecidableEq, Repr

def ReadError.report : ReadError → PchInputsError
  | .truncated => .truncated
  | .malformed fault => .malformed fault.message

def noControlBlock : PchInputsError :=
  .malformed "no INPUT_FILES_BLOCK in CONTROL_BLOCK"

def parseLoop (bytes : List UInt8) : ℕ → ℕ → Blockinfo → Except PchInputsError Control
  | 0, _, _ => .error noControlBlock
  | fuel + 1, bit, blockinfo =>
    if bytes.length * 8 ≤ bit then .error noControlBlock
    else
      match topLevelBlock blockinfo bytes bit with
      | .error fault => .error fault.report
      | .ok (.inl blockinfo', bit') => parseLoop bytes fuel bit' blockinfo'
      | .ok (.inr control, _) => .ok control

-- Every round reads a bit at least.
def parseBlocks (bit : ℕ) (blockinfo : Blockinfo) :
    Except PchInputsError Control :=
  parseLoop bytes (bytes.length * 8 + 1) bit blockinfo

/-- Only clang 19 and later record hashes that can be recomputed. -/
def Control.result : List PchInput :=
  if control.compilerMajor.all (· < 19) then
    control.inputs.map fun input => { input with contentXxh3 := none }
  else control.inputs

def clangPchMagic : List UInt8 := [0x43, 0x50, 0x43, 0x48]

def parse : Except PchInputsError (Option (List PchInput)) :=
  if bytes.length < clangPchMagic.length then
    if bytes <+: clangPchMagic then .error .truncated else .ok none
  else if bytes.take 4 ≠ clangPchMagic then .ok none
  else (parseBlocks bytes 32 ∅).map fun control => some control.result

def initialReadBytes : ℕ := 2 ^ 20

def readPchInputs (file : List UInt8) : Except PchInputsError (Option (List PchInput)) :=
  let head := file.take initialReadBytes
  match parse head with
  | .error .truncated => if head.length = initialReadBytes then parse file else .error .truncated
  | other => other

theorem Control.finish_safe : Safe .truncated control.finish := by
  unfold Control.finish
  split
  · exact malformed_safe _
  · exact .ite (fun _ => .pure _) fun _ => malformed_safe _

theorem enterBlock_safe : Safe .truncated (enterBlock blockinfo) := by
  apply readBlockHeader_safe.bind
  intro header
  apply Safe.ite
  · intro _
    exact (walkBlockinfo_safe _ _).bind fun _ => .pure _
  · intro _
    apply Safe.ite
    · intro _
      exact (walkBlock_safe _ _ _).bind fun _ => (Control.finish_safe _).bind fun _ => .pure _
    · intro _
      exact (skipWords_safe _).bind fun _ => .pure _

theorem topLevelBlock_safe : Safe .truncated (topLevelBlock blockinfo) :=
  (read_safe 2).bind fun _ => .ite (fun _ => malformed_safe _) fun _ => enterBlock_safe blockinfo

theorem topLevelBlock_position {blockinfo : Blockinfo} {bytes : List UInt8} {bit bit' : ℕ}
    {r : Blockinfo ⊕ Control} (h : topLevelBlock blockinfo bytes bit = .ok (r, bit')) :
    bit < bit' := by
  obtain ⟨tag, mid, htag, hrest⟩ := bind_eq_ok.mp h
  have hmid := read_position htag
  have hsafe : Safe ReadError.truncated
      (if tag ≠ enterSubblock then malformed .topLevelItem else enterBlock blockinfo) :=
    .ite (fun _ => malformed_safe _) fun _ => enterBlock_safe blockinfo
  have hle := hsafe.forward hrest
  omega

theorem parseLoop_fuel {bytes : List UInt8} {fuel bit : ℕ} {blockinfo : Blockinfo}
    (hfuel : bytes.length * 8 < bit + fuel) :
    parseLoop bytes (fuel + 1) bit blockinfo = parseLoop bytes fuel bit blockinfo := by
  induction fuel generalizing bit blockinfo with
  | zero => exact if_pos (by omega)
  | succ fuel ih =>
    rw [parseLoop, parseLoop]
    split
    · rfl
    · split
      · rfl
      · next hblock =>
        have hpos := topLevelBlock_position hblock
        exact ih (by omega)
      · rfl

theorem parseBlocks_eq (bit : ℕ) (blockinfo : Blockinfo) :
    parseBlocks bytes bit blockinfo =
      if bytes.length * 8 ≤ bit then .error noControlBlock
      else
        match topLevelBlock blockinfo bytes bit with
        | .error fault => .error fault.report
        | .ok (.inl blockinfo', bit') => parseBlocks bytes bit' blockinfo'
        | .ok (.inr control, _) => .ok control := by
  rw [parseBlocks, parseLoop]
  split
  · rfl
  · split
    · rfl
    · next hblock =>
      have hpos := topLevelBlock_position hblock
      exact (parseLoop_fuel (by omega)).symm
    · rfl

end Parsing

/-- Between the blocks of the top level, from `bit` on, the loop comes to `last`. -/
inductive Passes (bytes : List UInt8) : ℕ → Blockinfo → ℕ → Prop
  | here (bit : ℕ) (blockinfo : Blockinfo) : Passes bytes bit blockinfo bit
  | next {bit bit' last : ℕ} {blockinfo blockinfo' : Blockinfo} (hbit : bit < bytes.length * 8)
      (hblock : topLevelBlock blockinfo bytes bit = .ok (.inl blockinfo', bit'))
      (hrest : Passes bytes bit' blockinfo' last) : Passes bytes bit blockinfo last

/-- The bytes hold the magic and blocks before the control block, and end where one of
these ends or in the padding behind it. -/
def EndsBetweenBlocks (bytes : List UInt8) : Prop :=
  clangPchMagic <+: bytes ∧ ∃ last, Passes bytes 32 ∅ last ∧ bytes.length * 8 ≤ last

theorem message_ne (fault : Fault) : fault.message ≠ "no INPUT_FILES_BLOCK in CONTROL_BLOCK" := by
  cases fault <;> decide

theorem report_ne (fault : ReadError) : fault.report ≠ noControlBlock := by
  cases fault with
  | truncated => simp [ReadError.report, noControlBlock]
  | malformed fault =>
    intro h
    exact message_ne fault (PchInputsError.malformed.inj h)

variable {bytes : List UInt8}

/-- The error for a missing control block is the error for an end between blocks. -/
theorem parseBlocks_eq_noControlBlock_iff {bit : ℕ} {blockinfo : Blockinfo} :
    parseBlocks bytes bit blockinfo = .error noControlBlock ↔
      ∃ last, Passes bytes bit blockinfo last ∧ bytes.length * 8 ≤ last := by
  constructor
  · intro h
    -- the loop moves forward, so the bits that are left are what the induction is on
    induction hleft : bytes.length * 8 - bit using Nat.strong_induction_on
      generalizing bit blockinfo with
    | _ left ih =>
      rw [parseBlocks_eq] at h
      split at h
      · next hend => exact ⟨bit, .here bit blockinfo, hend⟩
      · next hbit =>
        split at h
        · exact absurd (Except.error.inj h) (report_ne _)
        · next hblock =>
          have hpos := topLevelBlock_position hblock
          obtain ⟨last, hpasses, hend⟩ := ih _ (by omega) h rfl
          exact ⟨last, .next (by omega) hblock hpasses, hend⟩
        · cases h
  · rintro ⟨last, hpasses, hend⟩
    induction hpasses with
    | here bit blockinfo => rw [parseBlocks_eq, if_pos hend]
    | next hbit hblock hrest ih =>
      rw [parseBlocks_eq, if_neg (by omega), hblock]
      exact ih hend

/-- More bytes change what the loop does only if the bytes end between blocks. -/
theorem parseBlocks_append (bytes more : List UInt8) (bit : ℕ) (blockinfo : Blockinfo) :
    parseBlocks bytes bit blockinfo = .error .truncated ∨
      parseBlocks bytes bit blockinfo = .error noControlBlock ∨
      parseBlocks (bytes ++ more) bit blockinfo = parseBlocks bytes bit blockinfo := by
  induction hleft : bytes.length * 8 - bit using Nat.strong_induction_on
    generalizing bit blockinfo with
  | _ left ih =>
    by_cases hend : bytes.length * 8 ≤ bit
    · rw [parseBlocks_eq bytes, if_pos hend]
      exact Or.inr (Or.inl rfl)
    · have hlonger : ¬ (bytes ++ more).length * 8 ≤ bit := by
        rw [length_append]
        omega
      rw [parseBlocks_eq bytes, parseBlocks_eq (bytes ++ more), if_neg hend, if_neg hlonger]
      rcases (topLevelBlock_safe blockinfo).stable bytes more bit with h | h
      · rw [h]
        exact Or.inl rfl
      · rw [h]
        rcases hblock : topLevelBlock blockinfo bytes bit with fault | ⟨blockinfo' | control, bit'⟩
        · exact Or.inr (Or.inr rfl)
        · have hpos := topLevelBlock_position hblock
          exact ih _ (by omega) bit' blockinfo' rfl
        · exact Or.inr (Or.inr rfl)

theorem parse_of_magic (h : clangPchMagic <+: bytes) :
    parse bytes = (parseBlocks bytes 32 ∅).map fun control => some control.result := by
  have hlen := h.length_le
  obtain ⟨rest, rfl⟩ := h
  rw [parse, if_neg (by omega), if_neg]
  simp [clangPchMagic]

theorem parse_of_not_magic (h : ¬ clangPchMagic <+: bytes) :
    parse bytes = if bytes <+: clangPchMagic then .error .truncated else .ok none := by
  have htake : bytes.take 4 ≠ clangPchMagic := by
    rintro htake
    exact h (htake ▸ take_prefix _ _)
  rw [parse, if_pos htake]
  split
  · rfl
  · next hlen =>
    have hnot : ¬ bytes <+: clangPchMagic := by
      intro hbs
      rw [hbs.eq_of_length_le (by omega)] at h
      exact h (prefix_refl _)
    rw [if_neg hnot]

theorem parse_eq_noControlBlock_iff :
    parse bytes = .error noControlBlock ↔ EndsBetweenBlocks bytes := by
  by_cases hmagic : clangPchMagic <+: bytes
  · rw [parse_of_magic hmagic, EndsBetweenBlocks, ← parseBlocks_eq_noControlBlock_iff]
    rcases parseBlocks bytes 32 ∅ with fault | control
    · simp [Except.map, hmagic]
    · simp [Except.map]
  · rw [parse_of_not_magic hmagic]
    constructor
    · intro h
      split at h <;> cases h
    · rintro ⟨h, -⟩
      exact absurd h hmagic

theorem parse_append (bytes more : List UInt8) :
    parse bytes = .error .truncated ∨ parse bytes = .error noControlBlock ∨
      parse (bytes ++ more) = parse bytes := by
  by_cases hmagic : clangPchMagic <+: bytes
  · rw [parse_of_magic hmagic, parse_of_magic (hmagic.trans (prefix_append _ _))]
    rcases parseBlocks_append bytes more 32 ∅ with h | h | h
    · rw [h]
      exact Or.inl rfl
    · rw [h]
      exact Or.inr (Or.inl rfl)
    · rw [h]
      exact Or.inr (Or.inr rfl)
  · rw [parse_of_not_magic hmagic]
    split
    · exact Or.inl rfl
    · next hbs =>
      have hlonger : ¬ clangPchMagic <+: bytes ++ more := by
        intro h
        rcases prefix_or_prefix_of_prefix h (prefix_append bytes more) with h | h
        · exact hmagic h
        · exact hbs h
      rw [parse_of_not_magic hlonger, if_neg]
      · exact Or.inr (Or.inr rfl)
      · intro h
        exact hbs ((prefix_append bytes more).trans h)

theorem readPchInputs_eq_iff {file : List UInt8} :
    readPchInputs file = parse file ↔
      parse (file.take initialReadBytes) = .error .truncated ∨
        parse (file.take initialReadBytes) = parse file := by
  rw [readPchInputs]
  by_cases htrunc : parse (file.take initialReadBytes) = .error .truncated
  · simp only [htrunc, true_or, iff_true]
    split
    · rfl
    · next hlen =>
      have hwhole : file.take initialReadBytes = file := by
        apply take_of_length_le
        rw [length_take] at hlen
        omega
      exact htrunc.symm.trans (congrArg parse hwhole)
  · rw [or_iff_right htrunc]
    split
    · next h => exact absurd h htrunc
    · rfl

theorem agrees_append_iff (bytes more : List UInt8) :
    parse bytes = .error .truncated ∨ parse bytes = parse (bytes ++ more) ↔
      (EndsBetweenBlocks bytes → EndsBetweenBlocks (bytes ++ more)) := by
  rw [← parse_eq_noControlBlock_iff, ← parse_eq_noControlBlock_iff]
  constructor
  · rintro (h | h) hend
    · rw [h] at hend
      cases hend
    · rw [← h, hend]
  · intro h
    rcases parse_append bytes more with htrunc | hend | hsame
    · exact Or.inl htrunc
    · exact Or.inr (hend.trans (h hend).symm)
    · exact Or.inr hsame.symm

/-- The head of a file is parsed as the file is, or reported as truncated, exactly if
it does not end between blocks where the file goes on; and reading the head first gives
what the whole file gives exactly if its first mebibyte does not end so. -/
theorem headParse_iff (head more file : List UInt8) :
    (parse head = .error .truncated ∨ parse head = parse (head ++ more) ↔
      (EndsBetweenBlocks head → EndsBetweenBlocks (head ++ more))) ∧
    (readPchInputs file = parse file ↔
      (EndsBetweenBlocks (file.take initialReadBytes) → EndsBetweenBlocks file)) := by
  constructor
  · exact agrees_append_iff head more
  · have hagrees := agrees_append_iff (file.take initialReadBytes) (file.drop initialReadBytes)
    rw [take_append_drop] at hagrees
    exact readPchInputs_eq_iff.trans hagrees

def samplePch : List UInt8 :=
  [0x43, 0x50, 0x43, 0x48, 0x3D, 0x0C, 0x00, 0x00, 0x09, 0x00, 0x00, 0x00, 0x0B, 0x08, 0x0F, 0x98,
    0x82, 0x40, 0x10, 0x00, 0x05, 0x00, 0x00, 0x00, 0x52, 0x06, 0x90, 0x21, 0x43, 0x46, 0x29, 0x50,
    0x8E, 0x01, 0x00, 0x00, 0x61, 0x2E, 0x68, 0x00, 0x23, 0x08, 0x05, 0x00, 0x00, 0x00, 0x00, 0x00]

/-- The four bytes of the magic are refused as malformed, although they begin a
precompiled header that is parsed. -/
theorem magic_refused :
    parse (samplePch.take 4) = .error (.malformed "no INPUT_FILES_BLOCK in CONTROL_BLOCK") ∧
      parse samplePch = .ok (some [{
        path := "a.h"
        asRequested := "a.h"
        size := 10
        mtimeSecs := 7
        contentXxh3 := some 5
        overridden := false
        transient := false
        topLevel := false
        importedPch := false }]) := by
  decide +kernel

end Zccache.Pch
