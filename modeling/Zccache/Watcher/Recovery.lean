import Zccache.Base.Run

/-! # Recovery after an overflow

The end of a rescan clears the flag, also for an overflow that was signalled while the rescan ran.
That rescan is still made, after the delay, but builds do not see that it is owed.
-/

namespace Zccache

open Run List

inductive RecoveryPhase where
  | blocked
  | scheduled
  | rescanning
  deriving DecidableEq

/-- Two notifications with one permit each, the flag, and where the loop stands. After an overflow
a rescan is owed until one starts. -/
structure OverflowRecovery where
  overflow : Bool := false
  buildTrigger : Bool := false
  pending : Bool := false
  phase : RecoveryPhase := .blocked
  overflows : ℕ := 0
  rescans : ℕ := 0
  owed : Bool := false

inductive RecoveryEvent where
  | onOverflow
  | onBuildEvent
  | overflowNotified
  | delayElapsed
  | buildNotified
  | rescanned
  deriving DecidableEq

namespace OverflowRecovery

variable (s : OverflowRecovery)

def startRescan : OverflowRecovery :=
  { s with phase := .rescanning, rescans := s.rescans + 1, owed := false }

def step : RecoveryEvent → OverflowRecovery
  | .onOverflow =>
    { s with pending := true, overflow := true, overflows := s.overflows + 1, owed := true }
  | .onBuildEvent => if s.pending then { s with buildTrigger := true } else s
  | .overflowNotified =>
    if s.phase = .blocked ∧ s.overflow then { s with overflow := false, phase := .scheduled } else s
  | .delayElapsed => if s.phase = .scheduled then s.startRescan else s
  | .buildNotified =>
    if s.phase = .scheduled ∧ s.buildTrigger then { s.startRescan with buildTrigger := false }
    else s
  | .rescanned =>
    if s.phase = .rescanning then { s with pending := false, phase := .blocked } else s

def Visible : Prop :=
  s.owed = true → s.pending = true

/-- No overflow is signalled while a rescan runs. -/
def EndsInTime : RecoveryEvent → Prop
  | .rescanned => s.phase = .rescanning → s.owed = false
  | _ => True

/-- A rescan is owed only with a permit or a schedule, and every rescan had an overflow. -/
structure Accounted : Prop where
  owed : s.owed = true → s.overflow = true ∨ s.phase = .scheduled
  count : s.rescans + s.overflow.toNat + (if s.phase = .scheduled then 1 else 0) ≤ s.overflows

variable {s}

theorem visible_step_iff (h : s.Visible) (event : RecoveryEvent) :
    (s.step event).Visible ↔ s.EndsInTime event := by
  cases event with
  | onOverflow => simp [step, Visible, EndsInTime]
  | rescanned =>
    simp only [step, EndsInTime]
    split_ifs with hphase <;> simp_all [Visible]
  | _ =>
    simp only [step, EndsInTime, iff_true]
    split_ifs <;> simp_all [Visible, startRescan]

theorem accounted_step (s : OverflowRecovery) (event : RecoveryEvent) (h : s.Accounted) :
    (s.step event).Accounted := by
  obtain ⟨howed, hcount⟩ := h
  cases event with
  | onOverflow =>
    refine ⟨fun _ => .inl rfl, ?_⟩
    have hpermit : s.overflow.toNat ≤ 1 := s.overflow.toNat_le
    change s.rescans + 1 + (if s.phase = .scheduled then 1 else 0) ≤ s.overflows + 1
    omega
  | _ =>
    simp only [step]
    split_ifs <;> constructor <;> simp_all [startRescan] <;> omega

theorem accounted_run (events : List RecoveryEvent) : (run step {} events).Accounted :=
  run_invariant ⟨by simp, by simp⟩ accounted_step events

/-- A rescan that is on its way starts if these events happen, among others. Instead of the delay,
a build that the loop is told of wakes it. -/
def Coming (s : OverflowRecovery) (wake : RecoveryEvent) (events : List RecoveryEvent) : Prop :=
  (wake = .delayElapsed ∨ wake = .buildNotified ∧ s.buildTrigger = true) ∧
    match s.phase with
    | .rescanning => s.overflow = true ∧ [.rescanned, .overflowNotified, wake] <+ events
    | .blocked => s.overflow = true ∧ [.overflowNotified, wake] <+ events
    | .scheduled => [wake] <+ events

theorem coming_step (s : OverflowRecovery) (wake event : RecoveryEvent)
    (more : List RecoveryEvent) :
    s.rescans ≤ (s.step event).rescans ∧ (s.Coming wake (event :: more) →
      s.rescans < (s.step event).rescans ∨ (s.step event).Coming wake more) := by
  obtain ⟨overflow, trigger, _, phase, _⟩ := s
  cases event <;> cases phase <;> cases overflow <;> cases trigger <;>
    simp [Coming, step, startRescan] <;> grind

theorem coming_run (s : OverflowRecovery) (wake : RecoveryEvent) (events : List RecoveryEvent) :
    s.rescans ≤ (run step s events).rescans ∧
      (s.Coming wake events → s.rescans < (run step s events).rescans) := by
  induction events generalizing s with
  | nil => cases hphase : s.phase <;> simp [Coming, hphase]
  | cons event more ih =>
    have hstep := coming_step s wake event more
    have hrest := ih (s.step event)
    grind [run_cons]

/-- An owed rescan is visible at every moment exactly of those runs in which no overflow is
signalled while a rescan runs. A build event that sees it has the loop rescan without the delay,
whatever else happens, and there are never more rescans than overflows. -/
theorem pending_rescan_visible (events : List RecoveryEvent) :
    (Along step (fun s event => (s.step event).Visible) {} events ↔
      Along step EndsInTime {} events) ∧
    ((run step {} events).owed = true → (run step {} events).pending = true →
      (run step ((run step {} events).step .onBuildEvent)
        [.rescanned, .overflowNotified, .buildNotified]).rescans =
          (run step {} events).rescans + 1 ∧
      ∀ more, [.rescanned, .overflowNotified, .buildNotified] <+ more →
        (run step {} events).rescans <
          (run step ((run step {} events).step .onBuildEvent) more).rescans) ∧
    (run step {} events).rescans ≤ (run step {} events).overflows := by
  obtain ⟨howed, hcount⟩ := accounted_run events
  generalize run step {} events = s at howed hcount
  have hinit : Visible {} := nofun
  refine ⟨⟨?_, ?_⟩, fun h hpending => ?_, by omega⟩
  · exact along_mono hinit (fun _ _ _ h => h) fun _ event h => (visible_step_iff h event).mp
  · exact along_mono hinit (fun _ event h => (visible_step_iff h event).mpr)
      fun _ event h => (visible_step_iff h event).mpr
  · refine ⟨?_, fun more hmore => ?_⟩
    · rcases hphase : s.phase with _ | _ | _ <;> simp_all [step, startRescan]
    · have htold : s.step .onBuildEvent = { s with buildTrigger := true } := if_pos hpending
      rw [htold]
      refine (coming_run { s with buildTrigger := true } .buildNotified more).2
        ⟨.inr ⟨rfl, rfl⟩, ?_⟩
      cases hphase : s.phase <;> grind

/-- An overflow during a rescan: when the rescan ends, the flag is cleared, and a build event
starts nothing. -/
theorem overflow_forgotten :
    let s := run step {}
      [.onOverflow, .overflowNotified, .delayElapsed, .onOverflow, .rescanned]
    s.owed = true ∧ s.pending = false ∧ (run step (s.step .onBuildEvent)
      [.overflowNotified, .buildNotified]).rescans = s.rescans := by
  decide

/-- No overflow is lost: the loop does not wait for a permit while a rescan is owed, and whatever
else happens, it starts one after it has ended the present one and waited for the delay. -/
theorem owed_rescan_starts (events more : List RecoveryEvent) :
    let s := run step {} events
    (s.phase = .blocked → s.overflow = false → s.owed = false) ∧
      (s.owed = true → [.rescanned, .overflowNotified, .delayElapsed] <+ more →
        s.rescans < (run step s more).rescans) := by
  intro s
  have howed : s.owed = true → s.overflow = true ∨ s.phase = .scheduled :=
    (accounted_run events).owed
  refine ⟨by grind, fun h hmore => (coming_run s .delayElapsed more).2 ⟨.inl rfl, ?_⟩⟩
  cases hphase : s.phase <;> grind

theorem owed_rescan_starts_secondOverflow :
    let s := run step {} [.onOverflow, .overflowNotified, .delayElapsed, .onOverflow]
    s.rescans < (run step s
      [.rescanned, .onBuildEvent, .overflowNotified, .onOverflow, .delayElapsed]).rescans :=
  (owed_rescan_starts _ _).2 rfl (by decide)

end OverflowRecovery

end Zccache
