import Zccache.Artifact.Row
import Zccache.Base.Map
import Zccache.Base.Run

/-! # The artifact store

The index in memory and the file that it is written to as a whole. The file is
read when the daemon has started already, once or more often; it fills holes and
replaces no row that the process has.
-/

namespace Zccache.Store

open FinMap

/-- The index file, as far as it can be read. -/
inductive IndexFile where
  | missing
  | corrupt
  | parsed (rows : Map Str ArtifactIndex)

def IndexFile.row (file : IndexFile) (key : Str) : Option ArtifactIndex :=
  match file with
  | missing => none
  | corrupt => none
  | parsed rows => rows.lookup key

structure ArtifactStore where
  entries : Map Str ArtifactIndex
  file : IndexFile
  startedCorrupt : Bool
  dirty : Bool

namespace ArtifactStore

variable (s : ArtifactStore)

def openEmpty (file : IndexFile) : ArtifactStore :=
  ⟨∅, file, false, false⟩

/-- The rows of the file go where there is none. -/
def loadFromDisk : ArtifactStore :=
  match s.file with
  | .missing => s
  | .corrupt => { s with startedCorrupt := true }
  | .parsed rows => { s with entries := s.entries ∪ rows }

def markDirty : ArtifactStore :=
  { s with dirty := true }

def insert (key : Str) (row : ArtifactIndex) : ArtifactStore :=
  { s with entries := s.entries.insert key row }.markDirty

def insertMany (rows : List (Str × ArtifactIndex)) : ArtifactStore :=
  let entries := rows.foldl (fun entries row => entries.insert row.1 row.2) s.entries
  if rows.isEmpty then s else { s with entries := entries }.markDirty

def get (key : Str) : Option ArtifactIndex :=
  s.entries.lookup key

def remove (key : Str) : ArtifactStore × Bool :=
  if (s.get key).isSome then ({ s with entries := s.entries.erase key }.markDirty, true)
  else (s, false)

/-- The rows go one after the other; the rows that were there are counted. -/
def removeBatch (keys : List Str) : ArtifactStore × ℕ :=
  keys.foldl
    (fun r key =>
      let removed := r.1.remove key
      (removed.1, if removed.2 then r.2 + 1 else r.2))
    (s, 0)

def clear : ArtifactStore × ℕ :=
  if s.entries.entries.isEmpty then (s, 0)
  else ({ s with entries := ∅ }.markDirty, s.entries.entries.length)

/-- The file is replaced as a whole; if that fails it is left as it was. -/
def flush (written : Bool) : ArtifactStore :=
  if written then { s with file := .parsed s.entries, dirty := false } else s.markDirty

variable {s}

theorem entries_insertMany (rows : List (Str × ArtifactIndex)) :
    (s.insertMany rows).entries =
      rows.foldl (fun entries row => entries.insert row.1 row.2) s.entries := by
  cases rows with
  | nil | cons => rfl

variable (key : Str)

@[simp] theorem get_insert (row : ArtifactIndex) (key' : Str) :
    (s.insert key row).get key' = if key' = key then some row else s.get key' :=
  lookup_insert_eq_ite _ _ _ _

@[simp] theorem get_remove (key' : Str) :
    (s.remove key).1.get key' = if key' = key then none else s.get key' := by
  unfold remove
  split
  · exact lookup_erase_eq_ite _ _ _
  · next hnone =>
    split
    · next heq =>
      rw [heq]
      exact Option.not_isSome_iff_eq_none.mp hnone
    · rfl

theorem get_removeBatch (keys : List Str) (key : Str) :
    (s.removeBatch keys).1.get key = if key ∈ keys then none else s.get key := by
  have hfold : ∀ (s : ArtifactStore) (n : ℕ), (keys.foldl (fun r key =>
      ((r.1.remove key).1, if (r.1.remove key).2 then r.2 + 1 else r.2)) (s, n)).1.get key =
        if key ∈ keys then none else s.get key := by
    induction keys with
    | nil => simp
    | cons first keys ih =>
      intro s n
      rw [List.foldl_cons, ih, get_remove]
      by_cases hfirst : key = first
      all_goals simp [hfirst]
  exact hfold s 0

@[simp] theorem get_clear : s.clear.1.get key = none := by
  unfold clear
  split
  · next hempty =>
    have hentries : s.entries = ∅ := AList.ext (List.isEmpty_iff.mp hempty)
    change s.entries.lookup key = none
    rw [hentries]
    rfl
  · rfl

@[simp] theorem get_flush (written : Bool) (key : Str) :
    (s.flush written).get key = s.get key := by
  cases written <;> rfl

theorem get_loadFromDisk :
    s.loadFromDisk.get key = (s.get key).or (s.file.row key) := by
  unfold loadFromDisk
  cases hfile : s.file with
  | missing | corrupt => exact Option.or_none.symm
  | parsed rows => exact lookup_union_eq_or s.entries rows key

theorem get_insertMany (rows : Map Str ArtifactIndex) (key : Str) :
    (s.insertMany (rows.entries.map fun e => (e.1, e.2))).get key =
      (rows.lookup key).or (s.get key) := by
  change (s.insertMany _).entries.lookup key = _
  rw [entries_insertMany, List.foldl_map]
  exact lookup_foldl_insert s.entries rows key

end ArtifactStore

end Zccache.Store
