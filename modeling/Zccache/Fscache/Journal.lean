import Zccache.Base.Map
import Zccache.Core.NormalizedPath

/-! # The change journal

A clock that every settled batch of file changes advances, and the clock of the
last change of every tracked file. A change that was noted stays noted.
-/

namespace Zccache

open FinMap

/-- Clocks are ticks; the epoch is `0`. The source counts in 64 bits, which is the same for fewer
than `2 ^ 64` operations (`LoggedJournal.currentClock_run_lt`). -/
abbrev Clock := ℕ

structure ChangeJournal where
  current : Clock
  lastChange : Map NormalizedPath Clock
  lastOverflow : Clock

namespace ChangeJournal

def new : ChangeJournal where
  current := 0
  lastChange := ∅
  lastOverflow := 0

variable (j : ChangeJournal) (changedPaths : List NormalizedPath) (p : NormalizedPath)
variable (paths : List NormalizedPath) (path : NormalizedPath)

def currentClock : Clock :=
  j.current

def advance : ChangeJournal × Clock :=
  let clock := j.current + 1
  ({ j with
      current := clock
      lastChange := changedPaths.foldl (fun m p => m.insert p clock) j.lastChange }, clock)

/-- A file that the journal does not track counts as changed. -/
def changedSince (since : Clock) : Bool :=
  if 0 < j.lastOverflow ∧ since < j.lastOverflow then true
  else
    match j.lastChange.lookup path with
    | some last => since < last
    | none => true

def markOverflow : ChangeJournal × Clock :=
  let clock := j.current + 1
  ({ j with current := clock, lastOverflow := clock }, clock)

def clear : ChangeJournal × Clock :=
  { j with lastChange := ∅ }.markOverflow

def retainPaths (live : List NormalizedPath) : ChangeJournal × ℕ :=
  let kept := filter (fun p _ => p ∈ live) j.lastChange
  ({ j with lastChange := kept }, j.lastChange.entries.length - kept.entries.length)

/-- Tracks a file at the current clock unless it is tracked already. -/
def register : ChangeJournal :=
  match j.lastChange.lookup path with
  | some _ => j
  | none => { j with lastChange := j.lastChange.insert path j.current }

def registerTracked : ChangeJournal :=
  paths.foldl register j

theorem lookup_advance : (j.advance changedPaths).1.lastChange.lookup p =
      if p ∈ changedPaths then some (j.current + 1) else j.lastChange.lookup p := by
  simp only [advance]
  generalize j.lastChange = m
  induction changedPaths generalizing m with
  | nil => rfl
  | cons q rest ih =>
    rw [List.foldl_cons, ih, lookup_insert_eq_ite]
    by_cases hrest : p ∈ rest <;> by_cases hq : p = q <;> simp [hrest, hq]

@[simp] theorem current_register :
    (j.register p).current = j.current := by
  unfold register
  split <;> rfl

theorem lookup_register (q p : NormalizedPath) :
    (j.register q).lastChange.lookup p =
      (j.lastChange.lookup p).or (if p = q then some j.current else none) := by
  unfold register
  split
  · next t ht =>
    cases hp : j.lastChange.lookup p with
    | none =>
      have hne : p ≠ q := by
        rintro rfl
        rw [ht] at hp
        cases hp
      rw [if_neg hne]
      rfl
    | some _ => rfl
  · next hnone =>
    rw [lookup_insert_eq_ite]
    by_cases hp : p = q
    · rw [if_pos hp, if_pos hp, hp, hnone]
      rfl
    · rw [if_neg hp, if_neg hp, Option.or_none]

theorem lookup_registerTracked
    (p : NormalizedPath) : (j.registerTracked paths).lastChange.lookup p =
      (j.lastChange.lookup p).or (if p ∈ paths then some j.current else none) := by
  unfold registerTracked
  induction paths generalizing j with
  | nil => simp
  | cons q rest ih =>
    rw [List.foldl_cons, ih, lookup_register, current_register, Option.or_assoc]
    by_cases hq : p = q <;> by_cases hrest : p ∈ rest <;> simp [hq, hrest]

/-- What can happen to the journal. -/
inductive Step where
  | advance (changedPaths : List NormalizedPath)
  | markOverflow
  | clear
  | retainPaths (live : List NormalizedPath)
  | registerTracked (paths : List NormalizedPath)

def apply : Step → ChangeJournal
  | .advance changedPaths => (j.advance changedPaths).1
  | .markOverflow => j.markOverflow.1
  | .clear => j.clear.1
  | .retainPaths live => (j.retainPaths live).1
  | .registerTracked paths => j.registerTracked paths

/-- The journal holds evidence against `p` for anyone who looked at clock `since`, and will
go on holding it: an overflow, a later change, or no record at all under a later clock. -/
def Noted (since : Clock) : Prop :=
  since < j.current ∧ (since < j.lastOverflow ∨ ∀ t ∈ j.lastChange.lookup p, since < t)

variable {j : ChangeJournal} {p : NormalizedPath} {since : Clock}

theorem Noted.changedSince (h : j.Noted p since) : j.changedSince p since = true := by
  unfold ChangeJournal.changedSince
  split
  · rfl
  · next hoverflow =>
    rcases h.2 with hover | hlater
    · exact absurd ⟨Nat.zero_lt_of_lt hover, hover⟩ hoverflow
    · split
      · next last hlast => exact decide_eq_true (hlater last hlast)
      · rfl

theorem noted_advance {changedPaths : List NormalizedPath} (hp : p ∈ changedPaths)
    (hsince : since ≤ j.current) : (j.advance changedPaths).1.Noted p since := by
  refine ⟨Nat.lt_succ_of_le hsince, .inr fun t ht => ?_⟩
  rw [lookup_advance, if_pos hp] at ht
  cases ht
  exact Nat.lt_succ_of_le hsince

theorem current_registerTracked (j : ChangeJournal) (paths : List NormalizedPath) :
    (j.registerTracked paths).current = j.current := by
  unfold registerTracked
  induction paths generalizing j with
  | nil => rfl
  | cons p rest ih => rw [List.foldl_cons, ih, current_register]

theorem lastOverflow_registerTracked (j : ChangeJournal) (paths : List NormalizedPath) :
    (j.registerTracked paths).lastOverflow = j.lastOverflow := by
  unfold registerTracked
  induction paths generalizing j with
  | nil => rfl
  | cons p rest ih =>
    rw [List.foldl_cons, ih]
    unfold register
    split <;> rfl

theorem Noted.register (h : j.Noted p since) (q : NormalizedPath) :
    (j.register q).Noted p since := by
  refine ⟨by rw [current_register]; exact h.1, ?_⟩
  unfold ChangeJournal.register
  split
  · exact h.2
  · rcases h.2 with hover | hlater
    · exact .inl hover
    · refine .inr fun t ht => ?_
      obtain ⟨-, rfl⟩ | ⟨-, hold⟩ := lookup_insert_eq_some.mp ht
      · exact h.1
      · exact hlater t hold

theorem Noted.apply (h : j.Noted p since) (step : Step) : (j.apply step).Noted p since := by
  cases step with
  | advance changedPaths =>
    by_cases hp : p ∈ changedPaths
    · exact noted_advance hp h.1.le
    · refine ⟨Nat.lt_succ_of_lt h.1, h.2.imp_right fun hlater t ht => hlater t ?_⟩
      rwa [ChangeJournal.apply, lookup_advance, if_neg hp] at ht
  | markOverflow | clear => exact ⟨Nat.lt_succ_of_lt h.1, .inl (Nat.lt_succ_of_lt h.1)⟩
  | retainPaths live =>
    refine ⟨h.1, h.2.imp_right fun hlater t ht => hlater t ?_⟩
    simp only [ChangeJournal.apply, ChangeJournal.retainPaths, lookup_filter] at ht
    exact (Option.filter_eq_some_iff.mp ht).1
  | registerTracked paths =>
    induction paths generalizing j with
    | nil => exact h
    | cons q rest ih => exact ih (h.register q)

theorem current_le_apply (j : ChangeJournal) (step : Step) :
    j.current ≤ (j.apply step).current := by
  cases step with
  | advance | markOverflow | clear => exact Nat.le_succ _
  | retainPaths live => exact le_rfl
  | registerTracked paths => exact (current_registerTracked j paths).ge

end ChangeJournal

end Zccache
