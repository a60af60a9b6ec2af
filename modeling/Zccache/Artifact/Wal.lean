import Zccache.Artifact.Store

/-! # The write-ahead log of the artifact index

Commands are collected in a log in front of the store, and the log is written out
on a timer, when it is long, or when that is asked for. Seen from outside, the log
and the store are one map, and after an acknowledged flush the file is that map.
-/

namespace Zccache.Store

open FinMap Run ArtifactStore

inductive IndexWriterCommand where
  | insert (key : Str) (row : ArtifactIndex)
  | touch (key : Str) (storedAtSecs : UInt64)
  | remove (keys : List Str)
  | clear
  | flush

def ArtifactIndex.touched (row : ArtifactIndex) (storedAtSecs : UInt64) : ArtifactIndex :=
  { row with storedAtSecs := max row.storedAtSecs storedAtSecs }

abbrev Rows := Str → Option ArtifactIndex

def IndexWriterCommand.apply (rows : Rows) : IndexWriterCommand → Rows
  | insert key row => Function.update rows key (some row)
  | touch key storedAtSecs =>
    Function.update rows key ((rows key).map (·.touched storedAtSecs))
  | remove keys => fun key => if key ∈ keys then none else rows key
  | clear => fun _ => none
  | flush => rows

structure IndexWriter where
  wal : Map Str ArtifactIndex
  store : ArtifactStore

namespace IndexWriter

variable (maxPending : ℕ) (w : IndexWriter)

def start (store : ArtifactStore) : IndexWriter :=
  ⟨∅, store⟩

/-- The log goes into the store, and the store to the file. -/
def flushWalToDisk : IndexWriter :=
  if w.wal.entries.isEmpty then w
  else ⟨∅, (w.store.insertMany (w.wal.entries.map fun e => (e.1, e.2))).flush true⟩

def flushIfLong : IndexWriter :=
  if maxPending ≤ w.wal.entries.length then w.flushWalToDisk else w

def processIndexWriterCommand : IndexWriterCommand → IndexWriter
  | .insert key row => flushIfLong maxPending { w with wal := w.wal.insert key row }
  | .touch key storedAtSecs =>
    flushIfLong maxPending
      (match w.wal.lookup key with
      | some row => { w with wal := w.wal.insert key (row.touched storedAtSecs) }
      | none =>
        match w.store.get key with
        | some row => { w with wal := w.wal.insert key (row.touched storedAtSecs) }
        | none => w)
  | .remove keys =>
    ⟨keys.foldl (fun wal key => wal.erase key) w.wal, (w.store.removeBatch keys).1.flush true⟩
  | .clear => ⟨∅, w.store.clear.1.flush true⟩
  | .flush => w.flushWalToDisk

/-- A command arrives, or the timer ticks. -/
inductive Event where
  | command (command : IndexWriterCommand)
  | tick

def step (w : IndexWriter) : Event → IndexWriter
  | .command command => w.processIndexWriterCommand maxPending command
  | .tick => w.flushWalToDisk

def Event.apply (rows : Rows) : Event → Rows
  | .command c => c.apply rows
  | .tick => rows

variable {maxPending w}

/-- The log in front of the store is the map, and the store is what the file holds. -/
structure Refines (w : IndexWriter) (rows : Rows) : Prop where
  rows_eq : ∀ key, (w.wal.lookup key).or (w.store.get key) = rows key
  durable : ∀ key, w.store.file.row key = w.store.get key

variable {rows : Rows}

theorem Refines.flushWalToDisk (h : Refines w rows) : Refines w.flushWalToDisk rows := by
  unfold IndexWriter.flushWalToDisk
  split
  · exact h
  · refine ⟨fun key => ?_, fun key => rfl⟩
    rw [← h.rows_eq key, get_flush, get_insertMany]
    rfl

theorem Refines.flushIfLong (h : Refines w rows) :
    Refines (flushIfLong maxPending w) rows := by
  unfold IndexWriter.flushIfLong
  split
  · exact h.flushWalToDisk
  · exact h

theorem Refines.insert (h : Refines w rows) (key : Str) (row : ArtifactIndex) :
    Refines { w with wal := w.wal.insert key row } (Function.update rows key (some row)) := by
  refine ⟨fun key' => ?_, h.durable⟩
  rw [lookup_insert_eq_ite, Function.update_apply]
  split
  · rfl
  · exact h.rows_eq key'

theorem lookup_foldl_erase (keys : List Str) (wal : Map Str ArtifactIndex) (key : Str) :
    (keys.foldl (fun wal key => wal.erase key) wal).lookup key =
      if key ∈ keys then none else wal.lookup key := by
  induction keys generalizing wal with
  | nil => simp
  | cons first keys ih =>
    rw [List.foldl_cons, ih, lookup_erase_eq_ite]
    by_cases hfirst : key = first
    all_goals simp [hfirst]

theorem Refines.command (h : Refines w rows) (command : IndexWriterCommand) :
    Refines (w.processIndexWriterCommand maxPending command) (command.apply rows) := by
  cases command with
  | insert key row => exact (h.insert key row).flushIfLong
  | touch key storedAtSecs =>
    refine Refines.flushIfLong ?_
    have hrow := h.rows_eq key
    cases hwal : w.wal.lookup key with
    | some row =>
      rw [hwal] at hrow
      have htouch := h.insert key (row.touched storedAtSecs)
      rw [IndexWriterCommand.apply, ← hrow]
      exact htouch
    | none =>
      rw [hwal, Option.none_or] at hrow
      cases hstore : w.store.get key with
      | some row =>
        rw [hstore] at hrow
        have htouch := h.insert key (row.touched storedAtSecs)
        rw [IndexWriterCommand.apply, ← hrow]
        exact htouch
      | none =>
        have hsame : IndexWriterCommand.apply rows (.touch key storedAtSecs) = rows := by
          rw [IndexWriterCommand.apply, ← hrow, hstore, Option.map_none, ← hstore, hrow,
            Function.update_eq_self]
        rw [hsame]
        exact h
  | remove keys =>
    refine ⟨fun key => ?_, fun key => rfl⟩
    change ((keys.foldl (fun wal key => wal.erase key) w.wal).lookup key).or
        ((w.store.removeBatch keys).1.get key) = if key ∈ keys then none else rows key
    rw [lookup_foldl_erase, get_removeBatch]
    split
    · rfl
    · exact h.rows_eq key
  | clear =>
    exact ⟨fun key => get_clear key, fun key => rfl⟩
  | flush => exact h.flushWalToDisk

theorem Refines.step (h : Refines w rows) (event : Event) :
    Refines (w.step maxPending event) (event.apply rows) := by
  cases event with
  | command command => exact h.command command
  | tick => exact h.flushWalToDisk

theorem wal_of_acknowledged {command : IndexWriterCommand}
    (hcommand : command = .flush ∨ command = .clear) :
    (w.processIndexWriterCommand maxPending command).wal = ∅ := by
  rcases hcommand with rfl | rfl
  · change w.flushWalToDisk.wal = ∅
    unfold IndexWriter.flushWalToDisk
    split
    · next hempty => exact AList.ext (List.isEmpty_iff.mp hempty)
    · rfl
  · rfl

/-- When a flush or a clear is acknowledged, the file holds what all commands so far amount to. -/
theorem file_of_acknowledged (maxPending : ℕ) {store : ArtifactStore}
    (hstart : ∀ key, store.file.row key = store.get key) (events : List Event)
    {command : IndexWriterCommand} (hcommand : command = .flush ∨ command = .clear) (key : Str) :
    (run (step maxPending) (start store) (events ++ [.command command])).store.file.row key =
      run Event.apply store.file.row (events ++ [.command command]) key := by
  have hrefines : Refines (start store) store.file.row := ⟨fun key => (hstart key).symm, hstart⟩
  have hrun : Refines (run (step maxPending) (start store) (events ++ [.command command]))
      (run Event.apply store.file.row (events ++ [.command command])) :=
    run_simulation hrefines (fun _ _ event h => h.step event) _
  have hwal : (run (step maxPending) (start store) (events ++ [.command command])).wal = ∅ := by
    rw [run_append]
    exact wal_of_acknowledged hcommand
  rw [hrun.durable, ← hrun.rows_eq key, hwal]
  rfl

theorem file_of_acknowledged_sampleRow :
    (run (step 2) (start (.openEmpty .missing))
      ([.command (.insert sampleKey sampleRow), .command (.touch sampleKey 5), .tick] ++
        [.command .flush])).store.file.row sampleKey = some (sampleRow.touched 5) :=
  (file_of_acknowledged 2 (fun _ => rfl) _ (.inl rfl) sampleKey).trans (by decide +kernel)

end IndexWriter

end Zccache.Store
