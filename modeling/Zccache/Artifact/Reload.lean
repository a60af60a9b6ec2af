import Zccache.Artifact.Store

/-! # Reading the index file again

What the process said last about a row should hold, whenever the file is read
again. It does for rows that were inserted; a removed row comes back if it is
still in the file.
-/

namespace Zccache.Store

open FinMap Run Option

namespace ArtifactStore

inductive Event where
  | insert (key : Str) (row : ArtifactIndex)
  | remove (key : Str)
  | removeBatch (keys : List Str)
  | clear
  | flush (written : Bool)
  | loadFromDisk

variable (s : ArtifactStore) (events : List Event)

def step : Event → ArtifactStore
  | .insert key row => s.insert key row
  | .remove key => (s.remove key).1
  | .removeBatch keys => (s.removeBatch keys).1
  | .clear => s.clear.1
  | .flush written => s.flush written
  | .loadFromDisk => s.loadFromDisk

/-- What the process said last about a row: nothing yet, that it is gone, or what it is. -/
def saidNext (said : Option (Option ArtifactIndex)) (key : Str) :
    Event → Option (Option ArtifactIndex)
  | .insert key' row => if key = key' then some (some row) else said
  | .remove key' => if key = key' then some none else said
  | .removeBatch keys => if key ∈ keys then some none else said
  | .clear => some none
  | .flush _ => said
  | .loadFromDisk => said

def said (events : List Event) (key : Str) : Option (Option ArtifactIndex) :=
  events.foldl (fun said event => saidNext said key event) none

theorem said_concat (event : Event) (key : Str) :
    said (events ++ [event]) key = saidNext (said events key) key event := by
  rw [said, List.foldl_append]
  rfl

/-- Rows are what the process inserted last, and after the file was read none is there that the
process has removed. -/
def KeepsWord : Prop :=
  (∀ pre, pre <+: events → ∀ key row, said pre key = some (some row) →
      (run step s pre).get key = some row) ∧
    ∀ pre, pre ++ [.loadFromDisk] <+: events → ∀ key,
      said (pre ++ [.loadFromDisk]) key = some none →
        (run step s (pre ++ [.loadFromDisk])).get key = none

/-- Whenever the file is read, it has no row that the process has removed. -/
def RemovalsFlushed : Prop :=
  ∀ pre, pre ++ [.loadFromDisk] <+: events → ∀ key, said pre key = some none →
    (run step s pre).file.row key = none

variable {s : ArtifactStore} {r : Option ArtifactIndex} {key : Str}

theorem get_step {said : Option (Option ArtifactIndex)} {event : Event}
    (hget : said = some r → s.get key = r)
    (hread : event = .loadFromDisk → said = some none → s.file.row key = none)
    (h : saidNext said key event = some r) : (step s event).get key = r := by
  cases event with
  | insert key' row =>
    simp only [saidNext] at h
    rw [step, get_insert]
    split at h
    · next hkey =>
      rw [if_pos hkey]
      exact some.inj h
    · next hkey => rw [if_neg hkey, hget h]
  | remove key' =>
    simp only [saidNext] at h
    rw [step, get_remove]
    split at h
    · next hkey =>
      rw [if_pos hkey]
      exact some.inj h
    · next hkey => rw [if_neg hkey, hget h]
  | removeBatch keys =>
    simp only [saidNext] at h
    rw [step, get_removeBatch]
    split at h
    · next hkey =>
      rw [if_pos hkey]
      exact some.inj h
    · next hkey => rw [if_neg hkey, hget h]
  | clear => exact (get_clear key).trans (some.inj h)
  | flush written => rw [step, get_flush, hget h]
  | loadFromDisk =>
    rw [step, get_loadFromDisk, hget h]
    cases r with
    | none => rw [hread rfl h, none_or]
    | some row => rfl

theorem get_of_said {events : List Event} (hflushed : r = none → RemovalsFlushed s events)
    (h : said events key = some r) : (run step s events).get key = r := by
  induction events using List.reverseRecOn with
  | nil => cases h
  | append_singleton events event ih =>
    rw [said_concat] at h
    rw [run_append]
    refine get_step (ih fun hr pre hpre => ?_) ?_ h
    · exact hflushed hr pre (hpre.trans (List.prefix_append _ _))
    · rintro rfl hsaid
      exact hflushed (some.inj (h.symm.trans hsaid)) events List.prefix_rfl key hsaid

/-- The store keeps to what the process said exactly if removals reach the file before it is read
again. -/
theorem keepsWord_iff (s : ArtifactStore) (events : List Event) :
    s.KeepsWord events ↔ s.RemovalsFlushed events := by
  constructor
  · rintro ⟨-, h⟩ pre hpre key hsaid
    have hnone := h pre hpre key (by rw [said_concat]; exact hsaid)
    rw [run_append] at hnone
    change (loadFromDisk _).get key = none at hnone
    rw [get_loadFromDisk, or_eq_none_iff] at hnone
    exact hnone.2
  · intro h
    refine ⟨fun pre _ key row => get_of_said nofun, fun pre hpre key => get_of_said ?_⟩
    exact fun _ pre' hpre' => h pre' (hpre'.trans hpre)

/-- A row of the file that is removed and read again is there. -/
theorem removed_row_returns :
    ¬ (openEmpty (.parsed (AList.singleton sampleKey sampleRow))).KeepsWord
      [.loadFromDisk, .remove sampleKey, .loadFromDisk] := by
  rintro ⟨-, h⟩
  have hnone := h [.loadFromDisk, .remove sampleKey] List.prefix_rfl sampleKey rfl
  revert hnone
  decide +kernel

end ArtifactStore

end Zccache.Store
