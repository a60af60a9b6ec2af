import Zccache.Daemon.Steps

/-! # Edits around a fast hit

An edit that lands after an input was hashed and is reported before the clock of
the entry is read is masked by that clock. Without such an edit, an entry that is
served while nothing is unreported stands for the files as they are, in its own
worktree and in another one.
-/

namespace Zccache

open Unix FinMap Option

variable {D : Type}

namespace World

/-- The file has the hashed content, or its edit is still to be reported. -/
def Fresh (w : World D) (x : NormalizedPath × D) : Prop :=
  w.disk x.1 = some x.2 ∨ x.1 ∈ w.unreported

instance [DecidableEq D] (w : World D) (x : NormalizedPath × D) : Decidable (w.Fresh x) :=
  inferInstanceAs (Decidable (_ ∨ _))

/-- The file has the hashed content, or nobody who asks since `clock` will believe so. -/
def Settled (w : World D) (clock : Clock) (x : NormalizedPath × D) : Prop :=
  w.Fresh x ∨ w.journal.Noted x.1 clock

/-- What the hashes of an open request vouch for. -/
structure RequestSound (w : World D) (r : Request D) : Prop where
  clock_le : ∀ c ∈ r.entryClock, c ≤ w.journal.current
  fresh : r.entryClock = none ∨ r.site = .crossRoot → ∀ x, Looked r x → w.Fresh x
  settled : ∀ c ∈ r.entryClock, ∀ x, Looked r x → w.Settled c x
  answered : Hashed r r.answer

/-- What a fast-hit entry vouches for. -/
structure EntrySound (w : World D) (e : FastHitEntry D) : Prop where
  clock_le : e.clock ≤ w.journal.current
  settled : ∀ x ∈ e.answer.files, w.Settled e.clock x

section Keep

variable {w w' : World D} {x : NormalizedPath × D} {clock : Clock}

variable (h : SameFiles w w')

include h

theorem SameFiles.settled : w'.Settled clock x ↔ w.Settled clock x := by
  rw [Settled, Fresh, Settled, Fresh, h.disk, h.unreported, h.journal]

theorem SameFiles.requestSound {r : Request D} (hr : w.RequestSound r) : w'.RequestSound r := by
  refine ⟨fun c hc => by rw [h.journal]; exact hr.clock_le c hc, fun hnone x hx => ?_,
    fun c hc x hx => h.settled.mpr (hr.settled c hc x hx), hr.answered⟩
  rw [Fresh, h.disk, h.unreported]
  exact hr.fresh hnone x hx

theorem SameFiles.entrySound {e : FastHitEntry D} (he : w.EntrySound e) : w'.EntrySound e :=
  ⟨by rw [h.journal]; exact he.clock_le, fun x hx => h.settled.mpr (he.settled x hx)⟩

end Keep

section Requests

variable {w : World D} {r r' : Request D}

theorem RequestSound.begin (w : World D) (site : Site) (key : ContextKey D) :
    w.RequestSound (.begin w site key) := by
  refine ⟨fun _ hc => (nomatch hc), fun _ x hx => ?_, fun _ hc => (nomatch hc),
    fun _ ha => (nomatch ha)⟩
  obtain ⟨p, h, hlook, -⟩ := hx
  simp [Request.begin] at hlook

variable (hr : w.RequestSound r)

include hr

theorem RequestSound.readClock (h : r.readClock w = some r') : w.RequestSound r' := by
  unfold Request.readClock at h
  obtain ⟨hguard, ⟨⟩⟩ := ite_none_right_eq_some.mp h
  have hnone : r.entryClock = none := by
    rw [Request.mayReadClock, Bool.and_eq_true, isNone_iff_eq_none] at hguard
    exact hguard.1
  refine ⟨fun c hc => ?_, fun _ => hr.fresh (.inl hnone),
    fun c _ x hx => .inl (hr.fresh (.inl hnone) x hx), hr.answered⟩
  cases hc
  exact le_rfl

theorem RequestSound.hashFile {path : NormalizedPath} {hash : DependencyHash D}
    (hfresh : ∀ x ∈ hash.files path, w.Fresh x) (h : r.hashFile path (some hash) = some r') :
    w.RequestSound r' := by
  unfold Request.hashFile at h
  obtain ⟨hguard, ⟨⟩⟩ := ite_none_left_eq_some.mp h
  have hans : r.answer = none := by
    simp only [Bool.or_eq_true, not_or, not_isSome_iff_eq_none] at hguard
    exact hguard.1.1
  have hlook : ∀ x, Looked { r with hashes := r.hashes.insert path hash } x →
      w.Fresh x ∨ Looked r x := by
    rintro x ⟨p, h, hp, hx⟩
    obtain ⟨rfl, rfl⟩ | ⟨-, hold⟩ := lookup_insert_eq_some.mp hp
    · exact .inl (hfresh x hx)
    · exact .inr ⟨p, h, hold, hx⟩
  refine ⟨hr.clock_le, fun hopen x hx => (hlook x hx).elim id (hr.fresh hopen x),
    fun c hc x hx => (hlook x hx).elim .inl (hr.settled c hc x), fun a ha => ?_⟩
  rw [hans] at ha
  cases ha

theorem RequestSound.compilerRead {path : NormalizedPath} (h : r.compilerRead w path = some r') :
    w.RequestSound r' := by
  unfold Request.compilerRead at h
  split at h
  · obtain ⟨d, -, rfl⟩ := map_eq_some_iff.mp h
    exact ⟨hr.clock_le, hr.fresh, hr.settled, hr.answered⟩
  · cases h

theorem RequestSound.compilerDone (h : r.compilerDone = some r') : w.RequestSound r' := by
  unfold Request.compilerDone at h
  split at h
  · cases h
    exact ⟨hr.clock_le, hr.fresh, hr.settled, hr.answered⟩
  · cases h

theorem RequestSound.moves {taken : Taken D} (h : w.Moves taken r r')
    (hfresh : ∀ path hash, taken path hash → ∀ x ∈ hash.files path, w.Fresh x) :
    w.RequestSound r' := by
  cases h with
  | stays => exact hr
  | readClock h => exact hr.readClock h
  | hashFile htaken h => exact hr.hashFile (hfresh _ _ htaken) h
  | compilerRead path h => exact hr.compilerRead h
  | compilerDone h => exact hr.compilerDone h
  | answered _ hhash _ => exact ⟨hr.clock_le, hr.fresh, hr.settled, hhash⟩

end Requests

variable [DecidableEq D] {H : Host D}

/-- A batch reports no edit that landed after an open request hashed the file, unless that
request has read its clock and will not be answered by the match of its inputs. A digest is that
of the content or of one whose edit is still to be reported. -/
def ReportsInTime (w : World D) : Event D → Prop
  | .journal (.advance changedPaths) =>
    ∀ s ∈ w.requests.entries, s.2.entryClock = none ∨ s.2.site = .crossRoot →
      ∀ l ∈ s.2.hashes.entries, ∀ x ∈ l.2.files l.1, x.1 ∈ changedPaths → w.disk x.1 = some x.2
  | .hashFile _ path header =>
    ∀ hash ∈ w.hashDependency path header, ∀ x ∈ hash.files path, w.Fresh x
  | _ => True

instance (w : World D) : (e : Event D) → Decidable (w.ReportsInTime e)
  | .journal (.advance _) => inferInstanceAs (Decidable (∀ s ∈ w.requests.entries, _))
  | .hashFile _ path header =>
    inferInstanceAs (Decidable (∀ hash ∈ w.hashDependency path header, _))
  | .journal .markOverflow | .journal .clear | .journal (.retainPaths _)
  | .journal (.registerTracked _) | .edit .. | .remember .. | .graph _ | .evictFastHit _ | .start ..
  | .readClock _ | .compilerRead .. | .compilerDone _ | .check .. | .update .. | .matchInputs ..
  | .publish _ => isTrue trivial

structure Sound (w : World D) : Prop where
  requests : ∀ id r, w.requests.lookup id = some r → w.RequestSound r
  entries : ∀ key e, w.fastHits.lookup key = some e → w.EntrySound e
  validations : ∀ key e, w.validations.lookup key = some e → w.EntrySound e

section Steps

variable {w w' : World D}

omit [DecidableEq D] in
theorem RequestSound.entry {r : Request D} {e : FastHitEntry D} (hr : w.RequestSound r)
    (hhash : Hashed r (some e.answer)) (hclock : r.entryClock = some e.clock) : w.EntrySound e :=
  ⟨hr.clock_le e.clock hclock, fun x hx => hr.settled e.clock hclock x (hhash.looked hx)⟩

theorem Sound.handled (hw : w.Sound) {event : Event D} (h : Handled w event w')
    (hintime : w.ReportsInTime event) : w'.Sound := by
  refine ⟨fun id r' hr' => h.requestSound ?_, fun key e he => h.entrySound ?_,
    fun key e he => h.entrySound ?_⟩
  · rcases h.requests hr' with ⟨site, key, rfl⟩ | ⟨r, hr, hmoves⟩
    · exact .begin w site key
    · refine (hw.requests id r hr).moves hmoves ?_
      rintro path hash ⟨header, rfl, hhash⟩
      exact hintime hash hhash
  · rcases h.fastHits he with he | ⟨id, r, hr, hans, hclock⟩
    · exact hw.entries key e he
    · have hsound := hw.requests id r hr
      exact hsound.entry (hans ▸ hsound.answered) hclock
  · rcases h.validations he with he | ⟨id, r, hr, hhash, hclock⟩
    · exact hw.validations key e he
    · exact (hw.requests id r hr).entry hhash hclock

variable {x : NormalizedPath × D}

theorem disk_edit {path p : NormalizedPath} {content : Option D} {sameStat : Bool}
    (hp : p ≠ path) {d : D} (h : w.disk p = some d) :
    (w.step H (.edit path content sameStat)).disk p = some d :=
  (Function.update_of_ne hp _ _).trans h

theorem Fresh.edit (h : w.Fresh x) (path : NormalizedPath) (content : Option D)
    (sameStat : Bool) : (w.step H (.edit path content sameStat)).Fresh x := by
  by_cases hpath : x.1 = path
  · exact .inr (hpath ▸ List.mem_cons_self)
  · exact h.imp (disk_edit hpath) (List.mem_cons_of_mem _)

theorem Fresh.advance {changedPaths : List NormalizedPath} (h : w.Fresh x)
    (hintime : x.1 ∈ changedPaths → w.disk x.1 = some x.2) :
    (w.step H (.journal (.advance changedPaths))).Fresh x := by
  by_cases hrep : x.1 ∈ changedPaths
  · exact .inl (hintime hrep)
  · exact h.imp_right fun hmem => List.mem_diff_of_mem hmem hrep

theorem Settled.journal {clock : Clock} (h : w.Settled clock x) (hclock : clock ≤ w.journal.current)
    (step : ChangeJournal.Step) : (w.step H (.journal step)).Settled clock x := by
  rcases h with (hdisk | hmem) | hnoted
  · cases step <;> exact .inl (.inl hdisk)
  · cases step with
    | advance changedPaths =>
      by_cases hrep : x.1 ∈ changedPaths
      · exact .inr (ChangeJournal.noted_advance hrep hclock)
      · exact .inl (.inr (List.mem_diff_of_mem hmem hrep))
    | _ => exact .inl (.inr hmem)
  · have hlater := hnoted.apply step
    cases step <;> exact .inr hlater

omit [DecidableEq D] in
/-- A file that the journal proves fresh in a quiet moment has the hashed content. -/
theorem Settled.disk_eq {clock : Clock} (h : w.Settled clock x) (hquiet : w.Quiescent)
    (hfresh : journalProvesFresh w.journal x.1 clock = true) : w.disk x.1 = some x.2 := by
  obtain ⟨hwatch, hsame⟩ := journalProvesFresh_iff.mp hfresh
  rcases h with (hdisk | hmem) | hnoted
  · exact hdisk
  · rw [hquiet _ hmem] at hwatch
    cases hwatch
  · rw [hnoted.changedSince] at hsame
    cases hsame

theorem EntrySound.edit {e : FastHitEntry D} (he : w.EntrySound e) (path : NormalizedPath)
    (content : Option D) (sameStat : Bool) :
    (w.step H (.edit path content sameStat)).EntrySound e :=
  ⟨he.clock_le, fun x hx => (he.settled x hx).imp_left fun h => h.edit path content sameStat⟩

theorem Sound.edit (hw : w.Sound) (path : NormalizedPath) (content : Option D)
    (sameStat : Bool) : (w.step H (.edit path content sameStat)).Sound := by
  refine ⟨fun id r hr => ?_, fun key e he => (hw.entries key e he).edit path content sameStat,
    fun key e he => (hw.validations key e he).edit path content sameStat⟩
  have hsound := hw.requests id r hr
  exact ⟨hsound.clock_le, fun hopen x hx => (hsound.fresh hopen x hx).edit path content sameStat,
    fun c hc x hx => (hsound.settled c hc x hx).imp_left fun h => h.edit path content sameStat,
    hsound.answered⟩

theorem journal_frame (w : World D) (step : ChangeJournal.Step) :
    (w.step H (.journal step)).requests = w.requests ∧
      (w.step H (.journal step)).fastHits = w.fastHits ∧
      (w.step H (.journal step)).validations = w.validations ∧
      w.journal.current ≤ (w.step H (.journal step)).journal.current := by
  have hclock := ChangeJournal.current_le_apply w.journal step
  cases step <;> exact ⟨rfl, rfl, rfl, hclock⟩

theorem EntrySound.journal {e : FastHitEntry D} (he : w.EntrySound e)
    (step : ChangeJournal.Step) : (w.step H (.journal step)).EntrySound e :=
  ⟨he.clock_le.trans (journal_frame w step).2.2.2,
    fun x hx => (he.settled x hx).journal he.clock_le step⟩

theorem Sound.journal (hw : w.Sound) (step : ChangeJournal.Step)
    (hintime : w.ReportsInTime (.journal step)) : (w.step H (.journal step)).Sound := by
  obtain ⟨hreqs, hhits, hvals, hclock⟩ := journal_frame (H := H) w step
  refine ⟨fun id r hr => ?_, fun key e he => (hw.entries key e (hhits ▸ he)).journal step,
    fun key e he => (hw.validations key e (hvals ▸ he)).journal step⟩
  rw [hreqs] at hr
  have hsound := hw.requests id r hr
  refine ⟨fun c hc => (hsound.clock_le c hc).trans hclock, fun hopen x hx => ?_,
    fun c hc x hx => (hsound.settled c hc x hx).journal (hsound.clock_le c hc) step,
    hsound.answered⟩
  have hfresh := hsound.fresh hopen x hx
  cases step with
  | advance changedPaths =>
    obtain ⟨p, h, hlook, hmem⟩ := hx
    exact hfresh.advance fun hp => hintime _ (AList.mem_lookup_iff.mp hr) hopen
      ⟨p, h⟩ (AList.mem_lookup_iff.mp hlook) x hmem hp
  | _ => exact hfresh

theorem sound_step (w : World D) (event : Event D) (hw : w.Sound)
    (hintime : w.ReportsInTime event) : (w.step H event).Sound := by
  rcases step_cases w event with ⟨path, content, sameStat, rfl⟩ | ⟨step, rfl⟩ | h
  · exact hw.edit path content sameStat
  · exact hw.journal step hintime
  · exact hw.handled h hintime

end Steps

theorem sound_new (disk : NormalizedPath → Option D) : (new disk).Sound :=
  ⟨fun _ _ h => absurd h (by simp [new]), fun _ _ h => absurd h (by simp [new]),
    fun _ _ h => absurd h (by simp [new])⟩

/-- The journal is asked about every file of the answer, or the watcher sees it. -/
def Covers (w : World D) (a : Answer D) : Route D → Prop
  | .sameRoot key source => ∀ x ∈ a.files, x.1 ∈ source :: w.graph.listedInputs key
  | .validated entry _ root =>
    ∀ paths ∈ requestCacheResolvedInputs entry root, ∀ x ∈ a.files, x.1 ∈ paths
  | .matched _ => ∀ x ∈ a.files, watchIgnored x.1 = false

instance (w : World D) (a : Answer D) : (route : Route D) → Decidable (w.Covers a route)
  | .sameRoot _ _ => inferInstanceAs (Decidable (∀ x ∈ a.files, _))
  | .validated entry _ root =>
    inferInstanceAs (Decidable (∀ paths ∈ requestCacheResolvedInputs entry root, _))
  | .matched _ => inferInstanceAs (Decidable (∀ x ∈ a.files, _))

theorem Sound.disk_of_served {w : World D} (hw : w.Sound) (hquiet : w.Quiescent)
    {route : Route D} {a : Answer D} (hcovers : w.Covers a route)
    (hserved : w.served route = some a) {x : NormalizedPath × D} (hx : x ∈ a.files) :
    w.disk x.1 = some x.2 := by
  cases route with
  | sameRoot key source =>
    obtain ⟨e, he, hfresh⟩ := bind_eq_some_iff.mp hserved
    obtain ⟨hctx, ⟨⟩⟩ := ite_none_right_eq_some.mp hfresh
    exact ((hw.entries key e he).settled x hx).disk_eq hquiet
      (contextFilesFresh_iff.mp hctx x.1 (hcovers x hx))
  | validated entry requestFp root =>
    simp only [served, bind_eq_bind, bind_eq_some_iff] at hserved
    obtain ⟨expected, -, paths, hpaths, e, he, hfresh⟩ := hserved
    obtain ⟨⟨-, hall⟩, ⟨⟩⟩ := ite_none_right_eq_some.mp hfresh
    exact ((hw.validations _ e he).settled x hx).disk_eq hquiet
      (List.all_eq_true.mp hall x.1 (hcovers paths hpaths x hx))
  | matched id =>
    obtain ⟨r, hr, hans⟩ := bind_eq_some_iff.mp hserved
    obtain ⟨hsite, hans⟩ := ite_none_right_eq_some.mp hans
    have hsound := hw.requests id r hr
    have hhash : Hashed r (some a) := hans ▸ hsound.answered
    rcases hsound.fresh (.inr hsite) x (hhash.looked hx) with hdisk | hmem
    · exact hdisk
    · cases (hcovers x hx).symm.trans (hquiet _ hmem)

/-- In every run whose batches report in time, an answer of a fast-hit entry that is served while
every watched edit is reported stands for its files as they are, if these files are asked for. -/
theorem fastHit_inputs_current {disk : NormalizedPath → Option D} {events : List (Event D)}
    (hintime : Run.Along (step H) ReportsInTime (new disk) events) {route : Route D} {a : Answer D}
    (hquiet : (after H disk events).Quiescent) (hcovers : (after H disk events).Covers a route)
    (hserved : (after H disk events).served route = some a) :
    ∀ x ∈ a.files, (after H disk events).disk x.1 = some x.2 :=
  fun _ => (Run.run_invariant_along (sound_new disk) sound_step hintime).disk_of_served hquiet
    hcovers hserved

/-- A single source that was compiled once, and a request that hashes it. The given events stand
before the request, and between its hash and its clock. -/
def hitWith (before between : List (Event Text)) : List (Event Text) :=
  [.graph (registerAt "/a"),
    .graph (.updateWithEnv ⟨"key"⟩ ⟨[], [], false⟩ (fun _ => some "1") []
      (fun _ => none) 1),
    .journal (.registerTracked [.new "/a/m.c"])] ++ before ++
  [.start 0 .hit ⟨"key"⟩, .hashFile 0 (.new "/a/m.c") none] ++ between ++
  [.check 0 (fun _ => none) 2, .readClock 0, .publish 0]

def sampleRequestEntry : RequestCacheEntry Text :=
  requestCacheEntry ⟨"key"⟩ (.new "/a/m.c") (.new "/a/m.o") none [.new "/a/m.c"] (some (.new "/a"))
    false

/-- The same request in the worktree `/b`. -/
def matchInB : List (Event Text) :=
  [.journal (.registerTracked [.new "/b/m.c"]), .start 1 .crossRoot ⟨"key"⟩, .readClock 1,
    .hashFile 1 (.new "/b/m.c") none, .matchInputs 1 sampleRequestEntry "fp" (.new "/b")]

theorem fastHit_inputs_current_hitWith :
    let w := after Host.transparent sampleDisk (hitWith []
      [.edit (.new "/a/n.c") (some "2") false, .journal (.advance [.new "/a/n.c"])] ++ matchInB)
    ∀ route ∈ [.sameRoot ⟨"key"⟩ (.new "/a/m.c"),
        .validated sampleRequestEntry "fp" (.new "/b"), .matched 1],
      ∃ a, w.served route = some a ∧ ∀ x ∈ a.files, w.disk x.1 = some x.2 := by
  intro w route hroute
  have hserved : ∀ route ∈ [.sameRoot ⟨"key"⟩ (.new "/a/m.c"),
      .validated sampleRequestEntry "fp" (.new "/b"), .matched 1],
      ∃ a ∈ w.served route, w.Covers a route := by
    decide +kernel
  obtain ⟨a, ha, hcovers⟩ := hserved route hroute
  exact ⟨a, ha, fastHit_inputs_current (by decide +kernel) (by decide +kernel) hcovers ha⟩

/-- The source is edited after it was hashed, or before that with its time and size kept, and the
edit is reported before the clock is read: the entry goes on being served although nothing is
unreported. -/
theorem edit_masked_by_clock :
    let source := NormalizedPath.new "/a/m.c".toList
    let stale before between :=
      let w := after Host.transparent sampleDisk (hitWith before between)
      w.unreported = [] ∧
        (w.served (.sameRoot ⟨"key"⟩ source)).map Answer.files = some [(source, "1".toList)] ∧
        w.disk source = some "2".toList
    stale [] [.edit source (some "2".toList) false, .journal (.advance [source])] ∧
      stale [.remember source (some "1".toList), .edit source (some "2".toList) true]
        [.journal (.advance [source])] := by
  decide +kernel

end World

end Zccache
