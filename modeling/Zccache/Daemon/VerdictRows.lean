import Zccache.Artifact.Row
import Zccache.Base.Map
import Zccache.Base.Run

/-! # Rows of rustc verdicts

A row of the artifact index holds the outputs of a successful run and a verdict
for every verdict key. A commit merges its row with the durable row and with the
live one, and the index writer copies rows to the durable store some time later.
The durable row is merged first: what it holds of an older commit hides what the
live row holds of a newer one.
-/

namespace Zccache.VerdictRows

open FinMap Run Option
open Zccache.Store (Str ArtifactVerdict)

structure ArtifactIndex where
  outputNames : List Str
  outputSizes : List UInt64
  stdout : List UInt8
  stderr : List UInt8
  exitCode : Int32
  totalSize : UInt64
  storedAtSecs : UInt64
  rustcVerdicts : Map Str ArtifactVerdict
  outputModes : List UInt32
  parallel : outputSizes.length = outputNames.length

def ArtifactIndex.new (outputs : List (Str × UInt64)) (now : UInt64) : ArtifactIndex where
  outputNames := outputs.map Prod.fst
  outputSizes := outputs.map Prod.snd
  stdout := []
  stderr := []
  exitCode := 0
  totalSize := (outputs.map Prod.snd).sum
  storedAtSecs := now
  rustcVerdicts := ∅
  outputModes := []
  parallel := by rw [List.length_map, List.length_map]

/-- The verdicts of `preferred` win. One without outputs takes the other fields of `fallback`. -/
def mergeRustcIndex (preferred fallback : ArtifactIndex) : ArtifactIndex :=
  let verdicts := preferred.rustcVerdicts ∪ fallback.rustcVerdicts
  let storedAtSecs := max preferred.storedAtSecs fallback.storedAtSecs
  if preferred.outputNames.isEmpty && !fallback.outputNames.isEmpty then
    { fallback with rustcVerdicts := verdicts, storedAtSecs := storedAtSecs }
  else { preferred with rustcVerdicts := verdicts, storedAtSecs := storedAtSecs }

/-- What the daemon holds for one artifact key. The file of the store is loaded before its first
row is read, so the row of the file is durable from the start. -/
structure State where
  live : Option ArtifactIndex
  /-- Rows sent to the index writer. -/
  queue : List ArtifactIndex
  wal : Option ArtifactIndex
  durable : Option ArtifactIndex
  writerGone : Bool

def State.opened (stored : Option ArtifactIndex) : State :=
  ⟨none, [], none, stored, false⟩

namespace State

variable (s : State)

variable (row : ArtifactIndex)

/-- A row that the writer cannot take is dropped. -/
def enqueueIndexInsert : State :=
  if s.writerGone then s else { s with queue := s.queue ++ [row] }

def sendStagedIndexInsert : Option State :=
  if s.writerGone then none else some { s with queue := s.queue ++ [row] }

/-- The durable row is merged first, then the live one. -/
def mergeStored (incoming : ArtifactIndex) : ArtifactIndex :=
  let incoming := s.durable.elim incoming (mergeRustcIndex incoming)
  s.live.elim incoming (mergeRustcIndex incoming)

def commitRustcVerdict (verdictKey : Str) (verdict : ArtifactVerdict) (now : UInt64) : State :=
  let incoming :=
    { ArtifactIndex.new [] now with rustcVerdicts := AList.singleton verdictKey verdict }
  let row := s.mergeStored incoming
  { s.enqueueIndexInsert row with live := some row }

def commitRustcArtifactIndex (staged : Bool) : Option State :=
  let row := s.mergeStored row
  let sent := if staged then s.sendStagedIndexInsert row else some (s.enqueueIndexInsert row)
  sent.map fun s => { s with live := some row }

end State

inductive Commit where
  | success (outputs : List (Str × UInt64)) (staged : Bool) (verdictKey : Str)
      (verdict : ArtifactVerdict) (now : UInt64)
  | error (verdictKey : Str) (verdict : ArtifactVerdict) (now : UInt64)

def State.commit (s : State) : Commit → Option State
  | .success outputs staged verdictKey verdict now =>
    s.commitRustcArtifactIndex
      { ArtifactIndex.new outputs now with
        rustcVerdicts := AList.singleton verdictKey verdict } staged
  | .error verdictKey verdict now => some (s.commitRustcVerdict verdictKey verdict now)

/-- The writer takes a row into its log, writes its log out, or is gone for good. -/
inductive Event where
  | commit (c : Commit)
  | receive
  | flush
  | stop

def State.step (s : State) : Event → State
  | .commit c => (s.commit c).getD s
  | .receive =>
    match s.queue with
    | [] => s
    | row :: rest => { s with queue := rest, wal := some row }
  | .flush => { s with wal := none, durable := s.wal.or s.durable }
  | .stop => { s with queue := [], wal := none, writerGone := true }

namespace Commit

def verdictKey : Commit → Str
  | success _ _ key _ _ => key
  | error key _ _ => key

def verdict : Commit → ArtifactVerdict
  | success _ _ _ verdict _ => verdict
  | error _ verdict _ => verdict

def outputs : Commit → Option (List (Str × UInt64))
  | success outputs _ _ _ _ => some outputs
  | error _ _ _ => none

def staged : Commit → Bool
  | success _ staged _ _ _ => staged
  | error _ _ _ => false

end Commit

/-- The verdict that was committed last for each key, and the outputs of the last success. -/
@[ext] structure Newest where
  verdict : Str → Option ArtifactVerdict
  outputs : List Str × List UInt64

def ArtifactIndex.newest (row : ArtifactIndex) : Newest :=
  ⟨fun key => row.rustcVerdicts.lookup key, (row.outputNames, row.outputSizes)⟩

def Newest.empty : Newest :=
  ⟨fun _ => none, ([], [])⟩

def Newest.record (n : Newest) (c : Commit) : Newest where
  verdict := Function.update n.verdict c.verdictKey (some c.verdict)
  outputs :=
    match c.outputs with
    | some outputs => (outputs.map Prod.fst, outputs.map Prod.snd)
    | none => n.outputs

/-- What was committed last, now and as of each row that was sent to the writer. -/
structure Ledger where
  newest : Newest
  queue : List Newest
  wal : Option Newest
  durable : Option Newest
  writerGone : Bool

namespace Ledger

def opened (stored : Option ArtifactIndex) : Ledger where
  newest := (stored.map ArtifactIndex.newest).getD .empty
  queue := []
  wal := none
  durable := stored.map ArtifactIndex.newest
  writerGone := false

/-- Without the writer, a staged success is refused. -/
def Accepts (l : Ledger) (c : Commit) : Prop :=
  ¬ (c.staged = true ∧ l.writerGone = true)
  deriving Decidable

def record (l : Ledger) (c : Commit) : Ledger :=
  let newest := l.newest.record c
  { l with
    newest := newest
    queue := if l.writerGone then l.queue else l.queue ++ [newest] }

def step (l : Ledger) : Event → Ledger
  | .commit c => if l.Accepts c then l.record c else l
  | .receive =>
    match l.queue with
    | [] => l
    | n :: rest => { l with queue := rest, wal := some n }
  | .flush => { l with wal := none, durable := l.wal.or l.durable }
  | .stop => { l with queue := [], wal := none, writerGone := true }

end Ledger

/-- The live row after each commit of the history is what was committed last. -/
def KeepsNewest (stored : Option ArtifactIndex) (events : List Event) : Prop :=
  Along (fun (p : State × Ledger) e => (p.1.step e, p.2.step e))
    (fun p e => ∀ c, e = .commit c → ∀ s, p.1.commit c = some s →
      s.live.map ArtifactIndex.newest = some (p.2.newest.record c))
    (State.opened stored, Ledger.opened stored) events

/-- The durable row holds nothing that was replaced since it was sent, as far as the commit leaves
it in place. -/
structure Ledger.Current (l : Ledger) (c : Commit) : Prop where
  verdicts : ∀ old, l.durable = some old → ∀ key ≠ c.verdictKey, ∀ v,
    old.verdict key = some v → l.newest.verdict key = some v
  outputs : c.outputs.getD [] = [] → ∀ old, l.durable = some old →
    old.outputs.1 = [] ∨ old.outputs = l.newest.outputs
  /-- A success without outputs follows no success with outputs. -/
  empty : c.outputs = some [] → l.newest.outputs.1 = []

section Merge

variable (preferred fallback : ArtifactIndex)

@[simp] theorem newest_mergeRustcIndex_verdict (key : Str) :
    (mergeRustcIndex preferred fallback).newest.verdict key =
      (preferred.newest.verdict key).or (fallback.newest.verdict key) := by
  unfold mergeRustcIndex
  split <;> exact lookup_union_eq_or _ _ key

theorem ArtifactIndex.outputs_eq_nil {row : ArtifactIndex} (h : row.outputNames = []) :
    row.newest.outputs = ([], []) := by
  have hsizes : row.outputSizes = [] := by
    rw [← List.length_eq_zero_iff, row.parallel, h]
    rfl
  rw [newest, h, hsizes]

@[simp] theorem newest_mergeRustcIndex_outputs :
    (mergeRustcIndex preferred fallback).newest.outputs =
      if preferred.newest.outputs.1 = [] then fallback.newest.outputs
      else preferred.newest.outputs := by
  unfold mergeRustcIndex
  by_cases hp : preferred.outputNames = []
  · have hpnewest : preferred.newest.outputs.1 = [] := hp
    rw [if_pos hpnewest]
    by_cases hf : fallback.outputNames = []
    · rw [if_neg (by simp [hf]), ArtifactIndex.outputs_eq_nil hf]
      exact preferred.outputs_eq_nil hp
    · rw [if_pos (by simp [hp, hf])]
      rfl
  · have hpnewest : preferred.newest.outputs.1 ≠ [] := hp
    rw [if_neg hpnewest, if_neg (by simp [hp])]
    rfl

end Merge

def Commit.incoming : Commit → ArtifactIndex
  | .success outputs _ verdictKey verdict now =>
    { ArtifactIndex.new outputs now with
      rustcVerdicts := AList.singleton verdictKey verdict }
  | .error verdictKey verdict now =>
    { ArtifactIndex.new [] now with rustcVerdicts := AList.singleton verdictKey verdict }

theorem Commit.incoming_verdict (c : Commit) (key : Str) :
    c.incoming.newest.verdict key = if key = c.verdictKey then some c.verdict else none := by
  cases c <;> exact FinMap.lookup_singleton _ _ _

theorem Commit.incoming_outputs (c : Commit) :
    c.incoming.newest.outputs =
      ((c.outputs.getD []).map Prod.fst, (c.outputs.getD []).map Prod.snd) := by
  cases c <;> rfl

section Enqueue

variable (s : State) (row : ArtifactIndex)

@[simp] theorem State.enqueue_queue :
    (s.enqueueIndexInsert row).queue = if s.writerGone then s.queue else s.queue ++ [row] := by
  unfold enqueueIndexInsert
  split <;> rfl

@[simp] theorem State.enqueue_wal : (s.enqueueIndexInsert row).wal = s.wal := by
  unfold enqueueIndexInsert
  split <;> rfl

@[simp] theorem State.enqueue_durable : (s.enqueueIndexInsert row).durable = s.durable := by
  unfold enqueueIndexInsert
  split <;> rfl

@[simp] theorem State.enqueue_writerGone :
    (s.enqueueIndexInsert row).writerGone = s.writerGone := by
  unfold enqueueIndexInsert
  split <;> rfl

end Enqueue

def State.publish (s : State) (row : ArtifactIndex) : State :=
  { s.enqueueIndexInsert row with live := some row }

theorem State.commit_eq (s : State) (c : Commit) :
    s.commit c =
      if c.staged = true ∧ s.writerGone = true then none
      else some (s.publish (s.mergeStored c.incoming)) := by
  cases c with
  | success outputs staged key verdict now =>
    cases staged <;> cases h : s.writerGone <;>
      simp [commit, commitRustcArtifactIndex, sendStagedIndexInsert, publish, Commit.staged,
        Commit.incoming, enqueueIndexInsert, h]
  | error key verdict now => rfl

/-- The rows of the daemon are those of the ledger. -/
structure Agrees (s : State) (l : Ledger) : Prop where
  live : ∀ row, s.live = some row → row.newest = l.newest
  unread : s.live = none → l.queue = [] ∧ l.wal = none ∧ l.newest = l.durable.getD .empty
  queue : s.queue.map ArtifactIndex.newest = l.queue
  wal : s.wal.map ArtifactIndex.newest = l.wal
  durable : s.durable.map ArtifactIndex.newest = l.durable
  writerGone : s.writerGone = l.writerGone

namespace Agrees

variable {s : State} {l : Ledger} {c : Commit}

theorem opened (stored : Option ArtifactIndex) :
    Agrees (State.opened stored) (Ledger.opened stored) where
  live _ h := nomatch h
  unread _ := ⟨rfl, rfl, rfl⟩
  queue := rfl
  wal := rfl
  durable := rfl
  writerGone := rfl

theorem commit_eq (h : Agrees s l) (c : Commit) :
    s.commit c = if l.Accepts c then some (s.publish (s.mergeStored c.incoming)) else none := by
  rw [State.commit_eq, h.writerGone]
  exact (ite_not _ _ _).symm

theorem receive (h : Agrees s l) : Agrees (s.step .receive) (l.step .receive) := by
  obtain ⟨hlive, hunread, hqueue, hwal, hdur, hgone⟩ := h
  cases hq : s.queue with
  | nil =>
    rw [hq] at hqueue
    have hlq : l.queue = [] := hqueue.symm
    simp only [State.step, Ledger.step, hq, hlq]
    exact ⟨hlive, hunread, by rw [hq]; exact hqueue, hwal, hdur, hgone⟩
  | cons row rest =>
    rw [hq] at hqueue
    have hlq : l.queue = row.newest :: rest.map ArtifactIndex.newest := hqueue.symm
    simp only [State.step, Ledger.step, hq, hlq]
    refine ⟨hlive, fun hnone => ?_, rfl, rfl, hdur, hgone⟩
    have hempty := (hunread hnone).1
    rw [hlq] at hempty
    cases hempty

theorem flush (h : Agrees s l) : Agrees (s.step .flush) (l.step .flush) := by
  obtain ⟨hlive, hunread, hqueue, hwal, hdur, hgone⟩ := h
  refine ⟨hlive, fun hnone => ?_, hqueue, rfl, ?_, hgone⟩
  · obtain ⟨hq, hw, hnewest⟩ := hunread hnone
    refine ⟨hq, rfl, ?_⟩
    simpa [Ledger.step, hw] using hnewest
  · simp only [State.step, Ledger.step, map_or, hwal, hdur]

theorem stop (h : Agrees s l) : Agrees (s.step .stop) (l.step .stop) where
  live := h.live
  unread hnone := ⟨rfl, rfl, (h.unread hnone).2.2⟩
  queue := rfl
  wal := rfl
  durable := h.durable
  writerGone := rfl

theorem publish (h : Agrees s l) {row : ArtifactIndex} (hrow : row.newest = l.newest.record c) :
    Agrees (s.publish row) (l.record c) where
  live := by
    rintro _ ⟨⟩
    exact hrow
  unread := nofun
  queue := by
    simp only [State.publish, State.enqueue_queue, h.writerGone, Ledger.record]
    split <;> simp [h.queue, hrow]
  wal := by simpa [State.publish, Ledger.record] using h.wal
  durable := by simpa [State.publish, Ledger.record] using h.durable
  writerGone := by simpa [State.publish, Ledger.record] using h.writerGone

theorem mergeStored_verdict (h : Agrees s l) (row : ArtifactIndex) (key : Str) :
    (s.mergeStored row).newest.verdict key =
      (row.newest.verdict key).or
        ((l.durable.bind fun old => old.verdict key).or (l.newest.verdict key)) := by
  rw [← h.durable]
  cases hlive : s.live with
  | some live =>
    rw [← h.live live hlive]
    cases hdur : s.durable <;> simp [State.mergeStored, hlive, hdur, Option.or_assoc]
  | none =>
    rw [(h.unread hlive).2.2, ← h.durable]
    cases hdur : s.durable <;> simp [State.mergeStored, hlive, hdur, Newest.empty]

theorem mergeStored_outputs (h : Agrees s l) (row : ArtifactIndex) :
    (s.mergeStored row).newest.outputs =
      if row.newest.outputs.1 ≠ [] then row.newest.outputs
      else l.durable.elim l.newest.outputs fun old =>
        if old.outputs.1 = [] then l.newest.outputs else old.outputs := by
  rw [← h.durable]
  by_cases hrow : row.newest.outputs.1 = []
  · rw [if_neg (not_not.mpr hrow)]
    cases hlive : s.live with
    | some live =>
      rw [← h.live live hlive]
      cases hdur : s.durable <;> simp [State.mergeStored, hlive, hdur, hrow]
    | none =>
      rw [(h.unread hlive).2.2, ← h.durable]
      cases hdur : s.durable with
      | some old => simp [State.mergeStored, hlive, hdur, hrow]
      | none =>
        simpa [State.mergeStored, hlive, hdur, Newest.empty] using row.outputs_eq_nil hrow
  · cases hlive : s.live <;> cases hdur : s.durable <;>
      simp [State.mergeStored, hlive, hdur, hrow]

theorem verdicts_iff (h : Agrees s l) (c : Commit) :
    (s.mergeStored c.incoming).newest.verdict = (l.newest.record c).verdict ↔
      ∀ old, l.durable = some old → ∀ key ≠ c.verdictKey, ∀ v,
        old.verdict key = some v → l.newest.verdict key = some v := by
  constructor
  · intro heq old hold key hkey v hv
    have hmerged := congrFun heq key
    rw [h.mergeStored_verdict, c.incoming_verdict, if_neg hkey, hold] at hmerged
    simpa [hv, Newest.record, hkey] using hmerged.symm
  · intro hcur
    funext key
    rw [h.mergeStored_verdict, c.incoming_verdict]
    by_cases hkey : key = c.verdictKey
    · simp [Newest.record, hkey]
    · have hkept : (l.newest.record c).verdict key = l.newest.verdict key :=
        Function.update_of_ne hkey _ _
      rw [if_neg hkey, hkept, none_or]
      cases hheld : l.durable.bind fun old => old.verdict key with
      | none => exact none_or
      | some v =>
        obtain ⟨old, hold, hv⟩ := bind_eq_some_iff.mp hheld
        exact (hcur old hold key hkey v hv).symm

theorem newest_outputs_eq_nil_iff (h : Agrees s l) :
    l.newest.outputs = ([], []) ↔ l.newest.outputs.1 = [] := by
  constructor
  · intro hnil
    rw [hnil]
  · intro hnames
    cases hlive : s.live with
    | some live =>
      rw [← h.live live hlive] at hnames ⊢
      exact live.outputs_eq_nil hnames
    | none =>
      rw [(h.unread hlive).2.2, ← h.durable] at hnames ⊢
      cases hdur : s.durable with
      | none => rfl
      | some old =>
        rw [hdur] at hnames
        exact old.outputs_eq_nil hnames

theorem outputs_iff (h : Agrees s l) (c : Commit) :
    (s.mergeStored c.incoming).newest.outputs = (l.newest.record c).outputs ↔
      (c.outputs.getD [] = [] → ∀ old, l.durable = some old →
        old.outputs.1 = [] ∨ old.outputs = l.newest.outputs) ∧
      (c.outputs = some [] → l.newest.outputs.1 = []) := by
  rw [h.mergeStored_outputs, c.incoming_outputs]
  cases hout : c.outputs with
  | none =>
    simp only [Newest.record, hout]
    cases hold : l.durable with
    | none => simp
    | some old => by_cases hnames : old.outputs.1 = [] <;> simp [hnames]
  | some outputs =>
    simp only [Newest.record, hout]
    cases outputs with
    | nil =>
      have hnil := h.newest_outputs_eq_nil_iff
      cases hold : l.durable with
      | none => simpa using hnil
      | some old =>
        by_cases hnames : old.outputs.1 = []
        · simpa [hnames] using hnil
        · have hne : old.outputs ≠ ([], []) := by
            intro hempty
            exact hnames (congrArg Prod.fst hempty)
          have himp : old.outputs = l.newest.outputs → l.newest.outputs.1 ≠ [] := by
            intro hsame
            rwa [← hsame]
          simpa [hnames, hne] using himp
    | cons => simp

/-- The merged row is what was committed last exactly when the durable row is current. -/
theorem mergeStored_iff (h : Agrees s l) (c : Commit) :
    (s.mergeStored c.incoming).newest = l.newest.record c ↔ l.Current c := by
  rw [Newest.ext_iff, h.verdicts_iff, h.outputs_iff]
  constructor
  all_goals
    rintro ⟨hverds, houts, hempty⟩
    exact ⟨hverds, houts, hempty⟩

theorem step_iff (h : Agrees s l) (e : Event) :
    (∀ c, e = .commit c → ∀ s', s.commit c = some s' →
      s'.live.map ArtifactIndex.newest = some (l.newest.record c)) ↔
      ∀ c, e = .commit c → l.Accepts c → l.Current c := by
  constructor
  · rintro hright c rfl haccepts
    have hlive := hright c rfl _ ((h.commit_eq c).trans (if_pos haccepts))
    exact (h.mergeStored_iff c).mp (some.inj hlive)
  · rintro hcur c rfl s' hcommit
    rw [h.commit_eq, ite_none_right_eq_some] at hcommit
    obtain ⟨haccepts, hs'⟩ := hcommit
    obtain rfl := some.inj hs'
    exact congrArg some ((h.mergeStored_iff c).mpr (hcur c rfl haccepts))

theorem step (h : Agrees s l) (e : Event)
    (hcur : ∀ c, e = .commit c → l.Accepts c → l.Current c) :
    Agrees (s.step e) (l.step e) := by
  cases e with
  | commit c =>
    rw [State.step, Ledger.step, h.commit_eq]
    split
    · next haccepts => exact h.publish ((h.mergeStored_iff c).mpr (hcur c rfl haccepts))
    · exact h
  | receive => exact h.receive
  | flush => exact h.flush
  | stop => exact h.stop

theorem along_iff (h : Agrees s l) (events : List Event) :
    Along (fun (p : State × Ledger) e => (p.1.step e, p.2.step e))
        (fun p e => ∀ c, e = .commit c → ∀ s, p.1.commit c = some s →
          s.live.map ArtifactIndex.newest = some (p.2.newest.record c)) (s, l) events ↔
      Along Ledger.step (fun l e => ∀ c, e = .commit c → l.Accepts c → l.Current c) l events := by
  induction events generalizing s l with
  | nil => exact Iff.rfl
  | cons e events ih =>
    -- A wrong row ends the agreement, but then neither side holds.
    simp only [Along, h.step_iff e]
    constructor
    · rintro ⟨hcur, hrest⟩
      exact ⟨hcur, (ih (h.step e hcur)).mp hrest⟩
    · rintro ⟨hcur, hrest⟩
      exact ⟨hcur, (ih (h.step e hcur)).mpr hrest⟩

end Agrees

/-- The live row keeps what was committed last through a history exactly when the durable row is
current at every commit of it. -/
theorem keepsNewest_iff (stored : Option ArtifactIndex) (events : List Event) :
    KeepsNewest stored events ↔
      Along Ledger.step (fun l e => ∀ c, e = .commit c → l.Accepts c → l.Current c)
        (Ledger.opened stored) events :=
  (Agrees.opened stored).along_iff events

def dylintKey : Str :=
  ⟨⟨[0x6C], by decide⟩, rfl⟩

def finished (exitCode : Int32) (warned : Bool) : ArtifactVerdict :=
  ⟨.empty, if warned then ⟨[0x77], by decide⟩ else .empty, exitCode⟩

/-- One row is flushed and replaced by the next success, and then dylint fails. -/
def laggingHistory : List Event :=
  [.commit (.success [(Store.sampleKey, 1)] false Store.sampleKey (finished 0 false) 0),
    .receive, .flush,
    .commit (.success [(Store.sampleKey, 2)] false Store.sampleKey (finished 0 true) 0),
    .commit (.error dylintKey (finished 101 false) 0)]

/-- The verdict and the size of the first success are back in the live row. -/
theorem replaced_row_returns :
    (run State.step (.opened none) laggingHistory).live.map
        (fun row => (row.newest.verdict Store.sampleKey, row.newest.outputs.2)) =
      some (some (finished 0 false), [1]) ∧
    (run Ledger.step (.opened none) laggingHistory).newest.verdict Store.sampleKey =
      some (finished 0 true) ∧
    (run Ledger.step (.opened none) laggingHistory).newest.outputs.2 = [2] ∧
    ¬ KeepsNewest none laggingHistory := by
  refine ⟨by decide, by decide, by decide, ?_⟩
  rintro ⟨-, -, -, -, hlast, -⟩
  have hlive := hlast _ rfl _ rfl
  have hsizes := congrArg (Option.map fun n : Newest => n.outputs.2) hlive
  revert hsizes
  decide

end Zccache.VerdictRows
