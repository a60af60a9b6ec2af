import Zccache.Base.Run
import Zccache.Fscache.Journal

/-! # The journal and its history

The journal answers from the last change of every tracked file and the last
overflow; the log of recent batches is bounded, and files are dropped when
nobody needs them. Its answers are compared with the full history of the
operations and the clocks that they returned.
-/

namespace Zccache

open List FinMap Run ChangeJournal

/-- The journal with the log of the latest batches. The clocks of the log increase, so that a new
batch goes to its end. -/
structure LoggedJournal where
  journal : ChangeJournal
  log : List (Clock × List NormalizedPath)
  maxJournalEntries : ℕ

namespace LoggedJournal

def withCapacity (maxJournalEntries : ℕ) : LoggedJournal :=
  ⟨.new, [], maxJournalEntries⟩

variable (j : LoggedJournal)

def currentClock : Clock :=
  j.journal.currentClock

/-- The oldest batches go while there are more than the log may hold. -/
def advance (changedPaths : List NormalizedPath) : LoggedJournal × Clock :=
  let (journal, clock) := j.journal.advance changedPaths
  let log := j.log ++ [(clock, changedPaths)]
  ({ j with journal := journal, log := log.drop (log.length - j.maxJournalEntries) }, clock)

def changedSince (path : NormalizedPath) (since : Clock) : Bool :=
  j.journal.changedSince path since

def markOverflow : LoggedJournal × Clock :=
  let (journal, clock) := j.journal.markOverflow
  ({ j with journal := journal }, clock)

def clear : LoggedJournal × Clock :=
  let (journal, clock) := j.journal.clear
  ({ j with journal := journal, log := [] }, clock)

def retainPaths (live : List NormalizedPath) : LoggedJournal × ℕ :=
  let (journal, removed) := j.journal.retainPaths live
  ({ j with journal := journal }, removed)

def register (path : NormalizedPath) : LoggedJournal :=
  { j with journal := j.journal.register path }

/-- The operations on the journal. -/
inductive Op where
  | advance (changedPaths : List NormalizedPath)
  | markOverflow
  | clear
  | register (path : NormalizedPath)
  | retainPaths (live : List NormalizedPath)

def step : Op → LoggedJournal
  | .advance changedPaths => (j.advance changedPaths).1
  | .markOverflow => j.markOverflow.1
  | .clear => j.clear.1
  | .register path => j.register path
  | .retainPaths live => (j.retainPaths live).1

/-- The clock that an operation returns. -/
def returned : Op → Option Clock
  | .advance changedPaths => some (j.advance changedPaths).2
  | .markOverflow => some j.markOverflow.2
  | .clear => some j.clear.2
  | .register _ => none
  | .retainPaths _ => none

/-- The operations of a run that return a clock, each with its clock. -/
def history : LoggedJournal → List Op → List (Clock × Op)
  | _, [] => []
  | j, op :: ops => ((j.returned op).map (·, op)).toList ++ history (j.step op) ops

def Op.changedPaths : Op → List NormalizedPath
  | .advance changedPaths => changedPaths
  | _ => []

def Op.overflows : Op → Bool
  | .markOverflow | .clear => true
  | _ => false

/-- The operation is a change of the file, as far as the journal can tell. -/
def Op.Touches (path : NormalizedPath) (op : Op) : Prop :=
  path ∈ op.changedPaths ∨ op.overflows = true

def Tracked (path : NormalizedPath) : Prop :=
  (j.journal.lastChange.lookup path).isSome = true
  deriving Decidable

variable {j}

theorem currentClock_step (op : Op) :
    (j.step op).currentClock = (j.returned op).getD j.currentClock := by
  cases op with
  | register path => exact current_register j.journal path
  | advance | markOverflow | clear | retainPaths => rfl

theorem lt_of_returned {op : Op} {clock : Clock} (h : j.returned op = some clock) :
    j.currentClock < clock := by
  cases op with
  | register | retainPaths => cases h
  | advance _ => cases h; exact Nat.lt_succ_self _
  | markOverflow | clear => cases h; exact Nat.lt_succ_self _

theorem currentClock_le_step (op : Op) : j.currentClock ≤ (j.step op).currentClock := by
  rw [currentClock_step]
  cases h : j.returned op with
  | none => exact le_rfl
  | some clock => exact (lt_of_returned h).le

theorem currentClock_step_le (op : Op) : (j.step op).currentClock ≤ j.currentClock + 1 := by
  rw [currentClock_step]
  cases op with
  | register | retainPaths => exact Nat.le_succ _
  | advance | markOverflow | clear => exact le_rfl

theorem currentClock_run_le (j : LoggedJournal) (ops : List Op) :
    (run step j ops).currentClock ≤ j.currentClock + ops.length := by
  induction ops generalizing j with
  | nil => exact le_rfl
  | cons op ops ih =>
    calc (run step (j.step op) ops).currentClock
      _ ≤ (j.step op).currentClock + ops.length := ih _
      _ ≤ j.currentClock + 1 + ops.length := Nat.add_le_add_right (currentClock_step_le op) _
      _ = j.currentClock + (ops.length + 1) := by rw [Nat.add_assoc, Nat.add_comm 1]

/-- The counter does not leave its 64 bits. -/
theorem currentClock_run_lt (maxJournalEntries : ℕ) {ops : List Op} (h : ops.length < 2 ^ 64) :
    (run step (withCapacity maxJournalEntries) ops).currentClock < 2 ^ 64 := by
  refine (currentClock_run_le _ ops).trans_lt ?_
  rwa [show (withCapacity maxJournalEntries).currentClock = 0 from rfl, Nat.zero_add]

theorem lt_of_mem_history {ops : List Op} {record : Clock × Op} (h : record ∈ history j ops) :
    j.currentClock < record.1 := by
  induction ops generalizing j with
  | nil => cases h
  | cons op ops ih =>
    rcases mem_append.mp h with hhead | htail
    · obtain ⟨clock, hclock, rfl⟩ := Option.map_eq_some_iff.mp (Option.mem_toList.mp hhead)
      exact lt_of_returned hclock
    · exact (currentClock_le_step op).trans_lt (ih htail)

theorem pairwise_history (j : LoggedJournal) (ops : List Op) :
    ((history j ops).map Prod.fst).Pairwise (· < ·) := by
  induction ops generalizing j with
  | nil => exact .nil
  | cons op ops ih =>
    have hstep := currentClock_step (j := j) op
    cases hclock : j.returned op with
    | none =>
      simp only [history, hclock]
      exact ih (j.step op)
    | some clock =>
      simp only [history, hclock]
      rw [hclock] at hstep
      refine pairwise_cons.mpr ⟨fun later hlater => ?_, ih (j.step op)⟩
      obtain ⟨record, hrec, rfl⟩ := mem_map.mp hlater
      calc clock = (j.step op).currentClock := hstep.symm
        _ < record.1 := lt_of_mem_history hrec

theorem history_append (j : LoggedJournal) (ops ops' : List Op) :
    history j (ops ++ ops') = history j ops ++ history (run step j ops) ops' := by
  induction ops generalizing j with
  | nil => rfl
  | cons op ops ih =>
    rw [cons_append, history, history, ih, append_assoc, run_cons]

def Op.toStep : Op → ChangeJournal.Step
  | .advance changedPaths => .advance changedPaths
  | .markOverflow => .markOverflow
  | .clear => .clear
  | .register path => .registerTracked [path]
  | .retainPaths live => .retainPaths live

theorem journal_step (op : Op) : (j.step op).journal = j.journal.apply op.toStep := by
  cases op <;> rfl

section Soundness

variable {path : NormalizedPath} {since : Clock}

theorem noted_of_returned {op : Op} {clock : Clock} (h : j.returned op = some clock)
    (hsince : since < clock) (htouch : op.Touches path) :
    (j.step op).journal.Noted path since := by
  cases op with
  | register | retainPaths => cases h
  | advance changedPaths =>
    cases h
    rcases htouch with hpath | hover
    · exact noted_advance hpath (Nat.le_of_lt_succ hsince)
    · cases hover
  | markOverflow | clear => cases h; exact ⟨hsince, .inl hsince⟩

theorem noted_run (h : j.journal.Noted path since) (ops : List Op) :
    (run step j ops).journal.Noted path since := by
  induction ops generalizing j with
  | nil => exact h
  | cons op ops ih =>
    apply ih
    rw [journal_step]
    exact h.apply op.toStep

theorem changedSince_of_touched {ops : List Op} {record : Clock × Op}
    (h : record ∈ history j ops) (hsince : since < record.1) (htouch : record.2.Touches path) :
    (run step j ops).changedSince path since = true := by
  induction ops generalizing j with
  | nil => cases h
  | cons op ops ih =>
    rcases mem_append.mp h with hhead | htail
    · obtain ⟨clock, hclock, rfl⟩ := Option.map_eq_some_iff.mp (Option.mem_toList.mp hhead)
      exact (noted_run (noted_of_returned hclock hsince htouch) ops).changedSince
    · exact ih htail

theorem tracked_of_changedSince (h : j.changedSince path since = false) : j.Tracked path := by
  unfold Tracked
  cases hlast : j.journal.lastChange.lookup path with
  | some last => rfl
  | none =>
    simp only [changedSince, ChangeJournal.changedSince, hlast] at h
    split at h <;> cases h

end Soundness

section Completeness

variable {path : NormalizedPath} {since : Clock}

/-- No clock of the journal is ahead of the current one. -/
structure WellTimed (j : LoggedJournal) : Prop where
  overflow : j.journal.lastOverflow ≤ j.currentClock
  last : ∀ path, ∀ last ∈ j.journal.lastChange.lookup path, last ≤ j.currentClock

theorem lastOverflow_register (path : NormalizedPath) :
    (j.step (.register path)).journal.lastOverflow = j.journal.lastOverflow :=
  lastOverflow_registerTracked j.journal [path]

theorem WellTimed.step (h : j.WellTimed) (op : Op) : (j.step op).WellTimed := by
  cases op with
  | advance changedPaths =>
    refine ⟨h.overflow.trans (Nat.le_succ _), fun path last hlast => ?_⟩
    rw [LoggedJournal.step, advance, lookup_advance] at hlast
    split at hlast
    · cases hlast
      exact le_rfl
    · exact (h.last path last hlast).trans (Nat.le_succ _)
  | markOverflow =>
    exact ⟨le_rfl, fun path last hlast => (h.last path last hlast).trans (Nat.le_succ _)⟩
  | clear => exact ⟨le_rfl, fun path last hlast => nomatch hlast⟩
  | register path' =>
    have hcur := currentClock_step (j := j) (.register path')
    refine ⟨?_, fun path last hlast => ?_⟩
    · rw [hcur, lastOverflow_register]
      exact h.overflow
    · rw [hcur]
      rw [LoggedJournal.step, register, lookup_register] at hlast
      rcases Option.or_eq_some_iff.mp hlast with hkept | ⟨-, hnew⟩
      · exact h.last path last hkept
      · split at hnew
        · cases hnew
          exact le_rfl
        · cases hnew
  | retainPaths live =>
    refine ⟨h.overflow, fun path last hlast => h.last path last ?_⟩
    simp only [LoggedJournal.step, retainPaths, ChangeJournal.retainPaths, lookup_filter] at hlast
    exact (Option.filter_eq_some_iff.mp hlast).1

/-- The journal holds no evidence against the file. -/
structure Quiet (j : LoggedJournal) (path : NormalizedPath) (since : Clock) : Prop where
  overflow : j.journal.lastOverflow ≤ since
  last : ∃ last ∈ j.journal.lastChange.lookup path, last ≤ since

theorem Quiet.changedSince (h : j.Quiet path since) : j.changedSince path since = false := by
  obtain ⟨last, hlast, hle⟩ := h.last
  have hover : ¬ (0 < j.journal.lastOverflow ∧ since < j.journal.lastOverflow) :=
    fun hlt => absurd hlt.2 h.overflow.not_gt
  rw [LoggedJournal.changedSince, ChangeJournal.changedSince, if_neg hover, hlast]
  exact decide_eq_false hle.not_gt

theorem WellTimed.quiet (h : j.WellTimed) (htrack : j.Tracked path) :
    j.Quiet path j.currentClock := by
  obtain ⟨last, hlast⟩ := Option.isSome_iff_exists.mp htrack
  exact ⟨h.overflow, last, hlast, h.last path last hlast⟩

theorem Quiet.step (h : j.Quiet path since) {op : Op} (htouch : ¬ op.Touches path)
    (htrack : (j.step op).Tracked path) : (j.step op).Quiet path since := by
  obtain ⟨last, hlast, hle⟩ := h.last
  cases op with
  | advance changedPaths =>
    refine ⟨h.overflow, last, ?_, hle⟩
    have hpath : path ∉ changedPaths := fun hpath => htouch (.inl hpath)
    rw [LoggedJournal.step, advance, lookup_advance, if_neg hpath]
    exact hlast
  | markOverflow | clear => exact absurd (.inr rfl) htouch
  | register path' =>
    refine ⟨?_, last, ?_, hle⟩
    · rw [lastOverflow_register]
      exact h.overflow
    · rw [LoggedJournal.step, register, ChangeJournal.lookup_register, hlast]
      rfl
  | retainPaths live =>
    refine ⟨h.overflow, last, ?_, hle⟩
    -- The file is still tracked, so it is one of those that are kept.
    obtain ⟨last', hlast'⟩ := Option.isSome_iff_exists.mp htrack
    have hkept := hlast'
    simp only [LoggedJournal.step, retainPaths, ChangeJournal.retainPaths, lookup_filter] at hkept
    rw [(Option.filter_eq_some_iff.mp hkept).1] at hlast
    cases hlast
    exact hlast'

theorem wellTimed_run (maxJournalEntries : ℕ) (ops : List Op) :
    (run step (withCapacity maxJournalEntries) ops).WellTimed :=
  run_invariant ⟨le_rfl, fun _ _ hlast => nomatch hlast⟩ (fun _ op h => h.step op) ops

theorem Quiet.run (h : j.Quiet path since) {ops : List Op}
    (htrack : ∀ done, done <+: ops → (Run.run LoggedJournal.step j done).Tracked path)
    (htouch : ∀ record ∈ history j ops, ¬ record.2.Touches path) :
    (Run.run LoggedJournal.step j ops).Quiet path since := by
  induction ops generalizing j with
  | nil => exact h
  | cons op ops ih =>
    have hop : ¬ op.Touches path := by
      cases op with
      | register | retainPaths => rintro (hpath | hover) <;> contradiction
      | _ => exact htouch _ (mem_append_left _ mem_cons_self)
    refine ih (h.step hop (htrack [op] ?_)) (fun done hdone => htrack (op :: done) ?_)
      fun record hrec => htouch record (mem_append_right _ hrec)
    · exact prefix_append [op] ops
    · exact prefix_cons_inj op |>.mpr hdone

end Completeness

/-- The journal calls a file unchanged since a clock that was read earlier only if it is tracked
and no later operation touched it. It does call it unchanged if the file was tracked all the time
since. The returned clocks increase, and those returned later are later than the one read. -/
theorem changedSince_sound_complete (maxJournalEntries : ℕ) (before after : List Op)
    (path : NormalizedPath) :
    let start := withCapacity maxJournalEntries
    let since := (run step start before).currentClock
    let j := run step start (before ++ after)
    let Untouched := ∀ record ∈ history start (before ++ after),
      since < record.1 → ¬ record.2.Touches path
    (j.changedSince path since = false → j.Tracked path ∧ Untouched) ∧
    ((∀ between, between <+: after → (run step start (before ++ between)).Tracked path) →
      Untouched → j.changedSince path since = false) ∧
    ((history start (before ++ after)).map Prod.fst).Pairwise (· < ·) ∧
    ∀ record ∈ history (run step start before) after, since < record.1 := by
  intro start since j Untouched
  refine ⟨fun h => ⟨tracked_of_changedSince h, fun record hrec hlater htouch => ?_⟩, ?_,
    pairwise_history start (before ++ after), fun record hrec => lt_of_mem_history hrec⟩
  · have hchg := changedSince_of_touched hrec hlater htouch
    rw [show j.changedSince path since = true from hchg] at h
    cases h
  · intro htrack huntouched
    simp only [run_append] at htrack
    have hquiet : (run step start before).Quiet path since :=
      (wellTimed_run maxJournalEntries before).quiet (htrack [] nil_prefix)
    have hafter := hquiet.run htrack fun record hrec =>
      huntouched record (by rw [history_append]; exact mem_append_right _ hrec)
        (lt_of_mem_history hrec)
    rw [← run_append] at hafter
    exact hafter.changedSince

/-- A file stays unchanged while another one changes and a third one is dropped. -/
theorem changedSince_sound_complete_otherFile :
    (run step (withCapacity 1) ([.register (.new "/w/a.h")] ++
      [.advance [.new "/w/b.h"], .retainPaths [.new "/w/a.h"]])).changedSince
        (.new "/w/a.h") 0 = false := by
  refine (changedSince_sound_complete 1 [.register (.new "/w/a.h")]
    [.advance [.new "/w/b.h"], .retainPaths [.new "/w/a.h"]]
    (.new "/w/a.h")).2.1 (fun between hbetween => ?_) ?_
  · rw [← mem_inits] at hbetween
    simp only [List.inits, List.map, mem_cons, not_mem_nil, or_false] at hbetween
    rcases hbetween with rfl | rfl | rfl <;> decide +kernel
  · rintro record hrec -
    cases mem_singleton.mp hrec
    rintro (hpath | hover)
    · exact absurd hpath (by decide +kernel)
    · cases hover

end LoggedJournal

end Zccache
