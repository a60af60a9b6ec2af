import Zccache.Artifact.Row

/-! # The index file

The rows of the index are written one after the other, after their number, without
a tag for their shape. A reader takes the bytes for rows of the newest shape, of
which they may be the front only, and then for all of one of the earlier shapes.
Rows of the newest shape come back as they were written; rows of an earlier one do
unless their bytes can be taken for another shape.
-/

namespace Zccache.Store

open List Codecs

def str : Codec Str :=
  xmap (checked (vec byte) fun bytes => isUtf8 bytes.toList)
    ⟨fun s => ⟨s.1, s.2⟩, fun s => ⟨s.bytes, s.utf8⟩, fun _ => rfl, fun _ => rfl⟩

def artifactVerdict : Codec ArtifactVerdict :=
  xmap (pair (vec byte) (pair (vec byte) i32))
    ⟨fun v => ⟨v.1, v.2.1, v.2.2⟩, fun v => (v.stdout, v.stderr, v.exitCode), fun _ => rfl,
      fun _ => rfl⟩

def legacyArtifactIndex : Codec LegacyArtifactIndex :=
  xmap
    (pair (vec str) (pair (vec u64) (pair (vec byte) (pair (vec byte) (pair i32 (pair u64 u64))))))
    ⟨fun r => ⟨r.1, r.2.1, r.2.2.1, r.2.2.2.1, r.2.2.2.2.1, r.2.2.2.2.2.1, r.2.2.2.2.2.2⟩,
      fun r => (r.outputNames, r.outputSizes, r.stdout, r.stderr, r.exitCode, r.totalSize,
        r.storedAtSecs),
      fun _ => rfl, fun _ => rfl⟩

abbrev WireVerdicts := Vec (Str × ArtifactVerdict)

abbrev LegacyRow := Str × LegacyArtifactIndex

abbrev WireVerdictRow := LegacyRow × WireVerdicts

abbrev WireRow := WireVerdictRow × Vec UInt32

def legacyRow : Codec LegacyRow :=
  pair str legacyArtifactIndex

def wireVerdicts : Codec WireVerdicts :=
  vec (pair str artifactVerdict)

def wireVerdictRow : Codec WireVerdictRow :=
  pair legacyRow wireVerdicts

def wireRow : Codec WireRow :=
  pair wireVerdictRow (vec u32)

section Rows

def WireVerdictRow.read (r : WireVerdictRow) : Str × LegacyVerdictArtifactIndex :=
  (r.1.1, { r.1.2 with rustcVerdicts := .ofList r.2 })

variable (r : Str × LegacyVerdictArtifactIndex)

def WireVerdictRow.write : WireVerdictRow :=
  ((r.1, r.2.toLegacyArtifactIndex), r.2.rustcVerdicts.entries)

def WireRow.read (r : WireRow) : Str × ArtifactIndex :=
  ((WireVerdictRow.read r.1).1, { (WireVerdictRow.read r.1).2 with outputModes := r.2 })

def WireRow.write (r : Str × ArtifactIndex) : WireRow :=
  (.write (r.1, r.2.toLegacyVerdictArtifactIndex), r.2.outputModes)

theorem WireVerdictRow.read_write :
    WireVerdictRow.read (.write r) = r := by
  rw [read, write, VerdictMap.ofList_entries]

theorem WireRow.read_write (r : Str × ArtifactIndex) : WireRow.read (.write r) = r := by
  rw [read, write, WireVerdictRow.read_write]

def upgradeVerdictRow : Str × ArtifactIndex :=
  (r.1, r.2.upgrade)

def upgradeRow (r : LegacyRow) : Str × ArtifactIndex :=
  (r.1, r.2.upgrade)

end Rows

/-- The newest shape may be followed by anything, the earlier ones by nothing. -/
def decodeIndexRows (bytes : List UInt8) : Option (Vec (Str × ArtifactIndex)) :=
  match (vec wireRow).get bytes with
  | some rows => some (rows.1.map WireRow.read)
  | none =>
    match (vec wireVerdictRow).getAll bytes with
    | some rows => some (rows.map fun r => upgradeVerdictRow (WireVerdictRow.read r))
    | none => ((vec legacyRow).getAll bytes).map (Vec.map upgradeRow)

def serialize (rows : Vec (Str × ArtifactIndex)) : List UInt8 :=
  (vec wireRow).put (rows.map WireRow.write)

def serializeVerdictRows (rows : Vec (Str × LegacyVerdictArtifactIndex)) : List UInt8 :=
  (vec wireVerdictRow).put (rows.map WireVerdictRow.write)

def serializeLegacyRows (rows : Vec LegacyRow) : List UInt8 :=
  (vec legacyRow).put rows

/-- The bytes begin as a file of rows of the newest shape does. -/
def StartsCurrent (bytes : List UInt8) : Prop :=
  ∃ rows, (vec wireRow).put rows <+: bytes

/-- The bytes are a file of rows with verdicts and without modes. -/
def IsVerdictRows (bytes : List UInt8) : Prop :=
  ∃ rows, (vec wireVerdictRow).put rows = bytes

/-- Of verdicts under one key only one is kept, so that the kept ones take no more room. -/
theorem length_put_ofList_le (verdicts : WireVerdicts) :
    (wireVerdicts.put (VerdictMap.ofList verdicts).entries).length ≤
      (wireVerdicts.put verdicts).length := by
  have hsum := SortedMap.sum_ofList_le (fun e : Str × ArtifactVerdict => e.1.order)
    (fun e => ((pair str artifactVerdict).put e).length) verdicts.toList
  rw [wireVerdicts, length_put_vec, length_put_vec]
  exact Nat.add_le_add_left hsum 8

theorem length_put_verdicts_pos (verdicts : WireVerdicts) :
    0 < (wireVerdicts.put verdicts).length := by
  rw [wireVerdicts, length_put_vec]
  omega

theorem length_put_modes_pos (modes : Vec UInt32) : 0 < ((vec u32).put modes).length := by
  rw [length_put_vec]
  omega

theorem length_put_wireVerdictRow (r : WireVerdictRow) :
    (wireVerdictRow.put r).length = (legacyRow.put r.1).length + (wireVerdicts.put r.2).length :=
  length_append

theorem length_put_wireRow (r : WireRow) :
    (wireRow.put r).length = (wireVerdictRow.put r.1).length + ((vec u32).put r.2).length :=
  length_append

theorem length_put_lt_of_read_eq {r : WireRow} {legacy : Str × LegacyVerdictArtifactIndex}
    (h : upgradeVerdictRow legacy = WireRow.read r) :
    (wireVerdictRow.put (.write legacy)).length < (wireRow.put r).length := by
  have hlegacy : legacy = WireVerdictRow.read r.1 := by
    have hkey := congrArg Prod.fst h
    have hrow := congrArg (fun row => row.2.toLegacyVerdictArtifactIndex) h
    exact Prod.ext hkey hrow
  have hverds := length_put_ofList_le r.1.2
  have hmodes := length_put_modes_pos r.2
  rw [hlegacy, length_put_wireRow, length_put_wireVerdictRow, length_put_wireVerdictRow]
  change (legacyRow.put r.1.1).length +
    (wireVerdicts.put (VerdictMap.ofList r.1.2).entries).length < _
  omega

theorem length_put_lt_of_readVerdicts_eq {r : WireVerdictRow} {legacy : LegacyRow}
    (h : upgradeRow legacy = upgradeVerdictRow (WireVerdictRow.read r)) :
    (legacyRow.put legacy).length < (wireVerdictRow.put r).length := by
  have hlegacy : legacy = r.1 := by
    have hkey := congrArg Prod.fst h
    have hrow := congrArg (fun row => row.2.toLegacyArtifactIndex) h
    exact Prod.ext hkey hrow
  have hverds := length_put_verdicts_pos r.2
  rw [hlegacy, length_put_wireVerdictRow]
  omega

theorem length_put_lt_of_readLegacy_eq {r : WireRow} {legacy : LegacyRow}
    (h : upgradeRow legacy = WireRow.read r) :
    (legacyRow.put legacy).length < (wireRow.put r).length := by
  have hlegacy : legacy = r.1.1 := by
    have hkey := congrArg Prod.fst h
    have hrow := congrArg (fun row => row.2.toLegacyArtifactIndex) h
    exact Prod.ext hkey hrow
  have hverds := length_put_verdicts_pos r.1.2
  rw [hlegacy, length_put_wireRow, length_put_wireVerdictRow]
  omega

variable {bytes : List UInt8}

theorem decodeIndexRows_of_startsCurrent {rows : Vec WireRow}
    (h : (vec wireRow).put rows <+: bytes) :
    decodeIndexRows bytes = some (rows.map WireRow.read) := by
  obtain ⟨rest, hrest⟩ := h
  rw [decodeIndexRows, Codec.get_eq_some_iff.mpr hrest]

theorem decodeIndexRows_of_verdictRows (hcur : ¬ StartsCurrent bytes)
    {rows : Vec WireVerdictRow} (h : (vec wireVerdictRow).put rows = bytes) :
    decodeIndexRows bytes =
      some (rows.map fun r => upgradeVerdictRow (WireVerdictRow.read r)) := by
  rw [decodeIndexRows, Codec.get_eq_none_iff.mpr hcur, Codec.getAll_eq_some_iff.mpr h]

theorem decodeIndexRows_of_legacyRows (hcur : ¬ StartsCurrent bytes)
    (hverds : ¬ IsVerdictRows bytes) {rows : Vec LegacyRow}
    (h : (vec legacyRow).put rows = bytes) :
    decodeIndexRows bytes = some (rows.map upgradeRow) := by
  have hnone : (vec wireVerdictRow).getAll bytes = none := by
    cases hget : (vec wireVerdictRow).getAll bytes with
    | none => rfl
    | some rows => exact absurd ⟨rows, Codec.getAll_eq_some_iff.mp hget⟩ hverds
  rw [decodeIndexRows, Codec.get_eq_none_iff.mpr hcur]
  rw [hnone, Codec.getAll_eq_some_iff.mpr h]
  rfl

theorem decodeIndexRows_of_nil {α : Type} {c : Codec α} {rows : Vec α} (h : rows.toList = []) :
    decodeIndexRows ((vec c).put rows) = some .empty := by
  have hput : (vec wireRow).put .empty = (vec c).put rows := by
    change u64.put _ ++ _ = u64.put _ ++ _
    rw [Vec.count, Vec.count, h]
    rfl
  have hfront : (vec wireRow).put .empty <+: (vec c).put rows := by rw [hput]
  exact decodeIndexRows_of_startsCurrent hfront

theorem decodeIndexRows_serialize (rows : Vec (Str × ArtifactIndex)) :
    decodeIndexRows (serialize rows) = some rows := by
  rw [serialize, decodeIndexRows_of_startsCurrent prefix_rfl]
  congr 1
  exact Vec.ext (Function.LeftInverse.list_map WireRow.read_write rows.toList)

theorem decodeIndexRows_serializeVerdictRows_iff
    (rows : Vec (Str × LegacyVerdictArtifactIndex)) :
    decodeIndexRows (serializeVerdictRows rows) = some (rows.map upgradeVerdictRow) ↔
      rows.toList = [] ∨ ¬ StartsCurrent (serializeVerdictRows rows) := by
  constructor
  · intro hdec
    refine or_iff_not_imp_left.mpr fun hne => ?_
    rintro ⟨misread, hfront⟩
    rw [decodeIndexRows_of_startsCurrent hfront, Option.some.injEq, Vec.ext_iff] at hdec
    exact map_ne_of_front (fun _ _ => length_put_lt_of_read_eq) hne hfront hdec.symm
  · rintro (hnil | hcur)
    · have hempty : rows.map upgradeVerdictRow = .empty := Vec.ext (by simp [hnil, Vec.empty])
      rw [hempty]
      exact decodeIndexRows_of_nil (by rw [Vec.toList_map, hnil, map_nil])
    · rw [decodeIndexRows_of_verdictRows hcur rfl]
      congr 1
      apply Vec.ext
      rw [Vec.toList_map, Vec.toList_map, Vec.toList_map, map_map]
      exact map_congr_left fun r _ => congrArg upgradeVerdictRow (WireVerdictRow.read_write r)

theorem decodeIndexRows_serializeLegacyRows_iff (rows : Vec LegacyRow) :
    decodeIndexRows (serializeLegacyRows rows) = some (rows.map upgradeRow) ↔
      rows.toList = [] ∨
        ¬ StartsCurrent (serializeLegacyRows rows) ∧
          ¬ IsVerdictRows (serializeLegacyRows rows) := by
  have hmap : rows.map id = rows := Vec.ext (map_id _)
  constructor
  · intro hdec
    refine or_iff_not_imp_left.mpr fun hne => ?_
    have hcur : ¬ StartsCurrent (serializeLegacyRows rows) := by
      rintro ⟨misread, hfront⟩
      rw [decodeIndexRows_of_startsCurrent hfront, Option.some.injEq, Vec.ext_iff] at hdec
      rw [serializeLegacyRows, ← hmap] at hfront
      exact map_ne_of_front (fun _ _ => length_put_lt_of_readLegacy_eq) hne hfront hdec.symm
    refine ⟨hcur, ?_⟩
    rintro ⟨misread, hput⟩
    rw [decodeIndexRows_of_verdictRows hcur hput, Option.some.injEq, Vec.ext_iff] at hdec
    have hfront : (vec wireVerdictRow).put misread <+: (vec legacyRow).put (rows.map id) := by
      rw [hput, hmap, serializeLegacyRows]
    exact map_ne_of_front (fun _ _ => length_put_lt_of_readVerdicts_eq) hne hfront hdec.symm
  · rintro (hnil | ⟨hcur, hverds⟩)
    · have hempty : rows.map upgradeRow = .empty := Vec.ext (by simp [hnil, Vec.empty])
      rw [hempty]
      exact decodeIndexRows_of_nil hnil
    · exact decodeIndexRows_of_legacyRows hcur hverds rfl

/-- Rows of the newest shape are read as they are written. Rows of an earlier shape are, with the
missing fields empty, exactly if their bytes do not begin as rows of the newest shape do and are not
all rows of a shape in between, or if there are none. -/
theorem decodeIndexRows_exact_iff (rows : Vec (Str × ArtifactIndex))
    (verdictRows : Vec (Str × LegacyVerdictArtifactIndex)) (legacyRows : Vec LegacyRow) :
    decodeIndexRows (serialize rows) = some rows ∧
      (decodeIndexRows (serializeVerdictRows verdictRows) =
          some (verdictRows.map upgradeVerdictRow) ↔
        verdictRows.toList = [] ∨ ¬ StartsCurrent (serializeVerdictRows verdictRows)) ∧
      (decodeIndexRows (serializeLegacyRows legacyRows) = some (legacyRows.map upgradeRow) ↔
        legacyRows.toList = [] ∨ ¬ StartsCurrent (serializeLegacyRows legacyRows) ∧
          ¬ IsVerdictRows (serializeLegacyRows legacyRows)) :=
  ⟨decodeIndexRows_serialize rows, decodeIndexRows_serializeVerdictRows_iff verdictRows,
    decodeIndexRows_serializeLegacyRows_iff legacyRows⟩

def streamsRow (stdout stderr : Bytes) : LegacyVerdictArtifactIndex :=
  ⟨⟨.empty, .empty, stdout, stderr, 0, 0, 0⟩, .empty⟩

/-- The second row has an empty key, and zeros as its standard error. -/
def misreadRows : Vec (Str × LegacyVerdictArtifactIndex) :=
  ⟨[(sampleKey, streamsRow .empty .empty),
    (⟨.empty, rfl⟩, streamsRow ⟨[0], by decide⟩ ⟨List.replicate 51 0, by decide⟩)], by decide⟩

/-- The rows are taken for rows of the newest shape. -/
theorem decodeIndexRows_misreadRows :
    (decodeIndexRows (serializeVerdictRows misreadRows)).isSome ∧
      decodeIndexRows (serializeVerdictRows misreadRows) ≠
        some (misreadRows.map upgradeVerdictRow) := by
  decide +kernel

end Zccache.Store
