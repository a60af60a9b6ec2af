import Zccache.Graph.Persistence

/-! # The graph over several runs of the daemon

Each run loads a graph, works on it, saves it now and then, and once more when it
ends if the graph was changed. Two binaries of different versions take turns on one
directory. What a run gets is what its version saved last, unless the primary file
is missing, as it is after a run that moved it aside and saved nothing.
-/

namespace Zccache

open Unix FinMap Run

variable {D : Type} [DecidableEq D]

inductive DaemonEvent (D : Type) where
  | apply (op : GraphOp D)
  | setRustcEnvDeps (key : ContextKey D) (deps : List (Name × Option D))
  | storeFileIncludes (path : NormalizedPath) (includes : List IncludeDirective)
  | save (now : ℕ)

structure DaemonRun (D : Type) where
  version : ℕ
  startedAt : ℕ
  events : List (DaemonEvent D)
  stoppedAt : ℕ

/-- A running daemon. The history keeps what it saved last. -/
structure DaemonProcess (D : Type) where
  dir : DepGraphDir D
  graph : DepGraph D
  saved : Option (DepGraph D)

/-- The directory between runs. The history keeps for each version the graph that its latest run
ended with and the graph that it saved last, and the version whose file should be in place. -/
structure Restarts (D : Type) where
  dir : DepGraphDir D
  ended : ℕ → Option (DepGraph D)
  saved : ℕ → Option (DepGraph D)
  holder : Option ℕ

section Model

variable (H : Host D) (codec : SnapshotCodec D) (zeroHash : D)

namespace DaemonProcess

variable (version now : ℕ) (p : DaemonProcess D)

def start (dir : DepGraphDir D) : DaemonProcess D :=
  let load := dir.loadForStartup zeroHash version now
  ⟨load.1, load.2.getD .new, none⟩

def save : DaemonProcess D :=
  let result := saveToFile codec version now p.graph
  ⟨{ p.dir with primary := some result.2 }, result.1, some result.1⟩

def step (version : ℕ) (p : DaemonProcess D) : DaemonEvent D → DaemonProcess D
  | .apply op => { p with graph := p.graph.step H op }
  | .setRustcEnvDeps key deps => { p with graph := p.graph.setRustcEnvDeps key deps }
  | .storeFileIncludes path includes => { p with graph := p.graph.storeFileIncludes path includes }
  | .save now => p.save codec version now

/-- At the end a graph is saved only if it is dirty. -/
def shutdown : DaemonProcess D :=
  if p.graph.dirty then
    { p with graph := { p.graph with dirty := false } }.save codec version now
  else p

end DaemonProcess

def DaemonRun.work (r : DaemonRun D) (dir : DepGraphDir D) : DaemonProcess D :=
  run (DaemonProcess.step H codec r.version) (.start zeroHash r.version r.startedAt dir) r.events

def DaemonRun.perform (r : DaemonRun D) (dir : DepGraphDir D) : DaemonProcess D :=
  (r.work H codec zeroHash dir).shutdown codec r.version r.stoppedAt

namespace Restarts

def empty : Restarts D :=
  ⟨.empty, fun _ => none, fun _ => none, none⟩

variable (s : Restarts D) (r : DaemonRun D)

def step : Restarts D :=
  let p := r.perform H codec zeroHash s.dir
  { dir := p.dir
    ended := Function.update s.ended r.version (some p.graph)
    saved := if p.saved.isSome then Function.update s.saved r.version p.saved else s.saved
    holder :=
      if p.saved.isSome then some r.version
      else if s.holder = some r.version then s.holder else none }

/-- The graph that the latest run of a version ended with; at first it is empty. -/
def expected (version : ℕ) : DepGraph D :=
  (s.ended version).getD .new

/-- The run starts with the graph that the latest run of its version ended with. -/
def Survives : Prop :=
  (DaemonProcess.start zeroHash r.version r.startedAt s.dir).graph.SavedAlike (s.expected r.version)

/-- What the latest run of the version ended with is what the version saved last; and if no file is
in place, because the last run to find one moved it aside and nothing was saved since, it is
empty. -/
def Kept : Prop :=
  (if s.holder = none then DepGraph.new else (s.saved r.version).getD .new).SavedAlike
    (s.expected r.version)

/-- The run is of one of two versions, and no context in the files that it may read has expired. -/
def Regular (a b : ℕ) (s : Restarts D) (r : DaemonRun D) : Prop :=
  (r.version = a ∨ r.version = b) ∧
    (∀ file ∈ s.dir.primary, file.fresh r.startedAt = true) ∧
    ∀ file ∈ s.dir.sidecars.lookup r.version, file.fresh r.startedAt = true
  deriving Decidable

end Restarts

end Model

variable {H : Host D} {codec : SnapshotCodec D} {zeroHash : D}

namespace DaemonProcess

/-- What a run does to the directory it has started with: nothing but putting its file in place. -/
structure Leaves (version : ℕ) (dir : DepGraphDir D) (p : DaemonProcess D) : Prop where
  sidecars : p.dir.sidecars = dir.sidecars
  primary : (p.saved = none ∧ p.dir.primary = dir.primary) ∨
    ∃ g file, p.saved = some g ∧ p.dir.primary = some file ∧ file.Holds version g

variable {version : ℕ} {dir : DepGraphDir D} {p : DaemonProcess D}

variable (h : p.Leaves version dir)

include h

theorem Leaves.save (now : ℕ) : (p.save codec version now).Leaves version dir :=
  ⟨h.sidecars, .inr ⟨_, _, rfl, rfl, holds_saveToFile codec version now p.graph⟩⟩

theorem Leaves.step (event : DaemonEvent D) :
    (p.step H codec version event).Leaves version dir := by
  cases event with
  | apply | setRustcEnvDeps | storeFileIncludes => exact ⟨h.sidecars, h.primary⟩
  | save now => exact h.save now

theorem Leaves.shutdown (now : ℕ) : (p.shutdown codec version now).Leaves version dir := by
  unfold DaemonProcess.shutdown
  split
  · have hcleared : Leaves version dir { p with graph := { p.graph with dirty := false } } :=
      ⟨h.sidecars, h.primary⟩
    exact hcleared.save now
  · exact h

end DaemonProcess

theorem DaemonRun.leaves (H : Host D) (codec : SnapshotCodec D) (zeroHash : D)
    (r : DaemonRun D) (dir : DepGraphDir D) :
    (r.perform H codec zeroHash dir).Leaves r.version
      (dir.loadForStartup zeroHash r.version r.startedAt).1 := by
  apply DaemonProcess.Leaves.shutdown
  refine run_invariant ?_ (fun p event h => h.step event) r.events
  exact ⟨rfl, .inl ⟨rfl, rfl⟩⟩

namespace Restarts

variable {a b : ℕ} {s : Restarts D} {r : DaemonRun D}

/-- A version that has saved has its file in the primary place or, after the other version took
that, in its sidecar; a version that has not saved has no file. -/
structure Inv (a b : ℕ) (s : Restarts D) : Prop where
  primary : (s.holder = none ∧ s.dir.primary = none) ∨
    ∃ v g file, s.holder = some v ∧ s.saved v = some g ∧ s.dir.primary = some file ∧
      file.Holds v g
  sidecar : ∀ v, s.holder ≠ some v →
    (s.saved v = none ∧ s.dir.sidecars.lookup v = none) ∨
      ∃ g file, s.saved v = some g ∧ s.dir.sidecars.lookup v = some file ∧ file.Holds v g
  versions : ∀ v, s.holder = some v ∨ v ∈ s.dir.sidecars → v = a ∨ v = b

theorem inv_empty : Inv a b (empty : Restarts D) where
  primary := .inl ⟨rfl, rfl⟩
  sidecar _ _ := .inl ⟨rfl, rfl⟩
  versions v h := by
    rcases h with h | h
    · cases h
    · exact absurd h (AList.notMem_empty v)

/-- The history as it is once a run of the version has started: a file of the other version has
been moved aside. -/
def started (zeroHash : D) (s : Restarts D) (r : DaemonRun D) : Restarts D :=
  { s with
    dir := (s.dir.loadForStartup zeroHash r.version r.startedAt).1
    holder := if s.holder = some r.version then s.holder else none }

/-- What a start finds: nothing, the file of its version in place, or a file of the other version
in place and its own in the sidecar. -/
theorem Inv.start (zeroHash : D) (h : Inv a b s) (hr : Regular a b s r) :
    Inv a b (s.started zeroHash r) ∧
      (DaemonProcess.start zeroHash r.version r.startedAt s.dir).graph.SavedAlike
        (if s.holder = none then .new else (s.saved r.version).getD .new) := by
  obtain ⟨-, hprim, hside⟩ := hr
  unfold started DaemonProcess.start
  rcases h.primary with ⟨hholder, hnone⟩ | ⟨v, g, file, hholder, hsaved, hfile, hholds⟩
  · have hload : s.dir.loadForStartup zeroHash r.version r.startedAt = (s.dir, none) := by
      rw [DepGraphDir.loadForStartup, hnone]
      rfl
    rw [hload, hholder, if_neg (by simp), if_pos rfl]
    refine ⟨⟨.inl ⟨rfl, hnone⟩, fun w _ => h.sidecar w (by simp [hholder]), fun w hw => ?_⟩,
      .refl _⟩
    exact h.versions w (hw.imp_left nofun)
  · have hsome : s.holder ≠ none := by simp [hholder]
    by_cases hv : v = r.version
    · subst hv
      obtain ⟨restored, hloaded, halike⟩ := classifyLoad_of_holds zeroHash hholds
        (hprim file (by rw [hfile]; rfl))
      have hload : s.dir.loadForStartup zeroHash r.version r.startedAt =
          (s.dir, some restored) := by
        rw [DepGraphDir.loadForStartup, hfile, hloaded]
      rw [hload, if_pos hholder, if_neg hsome, hsaved]
      exact ⟨⟨h.primary, h.sidecar, h.versions⟩, halike⟩
    · have hmismatch := classifyLoad_of_other zeroHash r.startedAt hholds hv
      have hversions : ∀ w ∈ s.dir.sidecars.insert v file, w = a ∨ w = b := by
        intro w hw
        rcases (AList.mem_insert _).mp hw with rfl | hmem
        · exact h.versions w (.inl hholder)
        · exact h.versions w (.inr hmem)
      have hload : s.dir.loadForStartup zeroHash r.version r.startedAt =
          (⟨none, s.dir.sidecars.insert v file, s.dir.corruptSidecar⟩,
            (classifyLoad zeroHash r.version r.startedAt
              (s.dir.sidecars.lookup r.version)).intoGraph) := by
        rw [DepGraphDir.loadForStartup, hfile, hmismatch]
        dsimp only
        rw [DepGraphDir.quarantine, hfile]
        rw [DepGraphDir.prune_of_two hversions, DepGraphDir.recover,
          AList.lookup_insert_ne (Ne.symm hv)]
      have hother : s.holder ≠ some r.version := by simp [hholder, hv]
      rw [hload, if_neg hother, if_neg hsome]
      refine ⟨⟨.inl ⟨rfl, rfl⟩, fun w _ => ?_, fun w hw => ?_⟩, ?_⟩
      · by_cases hw : w = v
        · subst hw
          exact .inr ⟨g, file, hsaved, AList.lookup_insert _, hholds⟩
        · rw [AList.lookup_insert_ne hw]
          exact h.sidecar w (by simp [hholder, Ne.symm hw])
      · exact hversions w (hw.resolve_left nofun)
      · rcases h.sidecar r.version hother with
          ⟨hunsaved, hlook⟩ | ⟨g', file', hsaved', hlook, hholds'⟩
        · rw [hlook, hunsaved]
          exact .refl _
        · obtain ⟨restored, hloaded, halike⟩ := classifyLoad_of_holds zeroHash hholds'
            (hside file' (by rw [hlook]; rfl))
          rw [hlook, hloaded, hsaved']
          exact halike

theorem Inv.step (h : Inv a b s) (hr : Regular a b s r) :
    Inv a b (s.step H codec zeroHash r) := by
  obtain ⟨hstarted, -⟩ := h.start zeroHash hr
  have hleaves := r.leaves H codec zeroHash s.dir
  unfold Restarts.step
  generalize r.perform H codec zeroHash s.dir = p at hleaves
  obtain ⟨hprim, hside, hversions⟩ := hstarted
  dsimp only
  have hlook : ∀ v, p.dir.sidecars.lookup v = (s.started zeroHash r).dir.sidecars.lookup v := by
    intro v
    rw [hleaves.sidecars]
    rfl
  rcases hleaves.primary with ⟨hsaved, hsame⟩ | ⟨g, file, hsaved, hfile, hholds⟩
  · rw [hsaved]
    refine ⟨?_, fun v hv => ?_, fun v hv => ?_⟩
    · rw [hsame]
      exact hprim
    · rw [hlook]
      exact hside v hv
    · refine hversions v (hv.imp_right fun hmem => ?_)
      rw [hleaves.sidecars] at hmem
      exact hmem
  · rw [hsaved]
    refine ⟨.inr ⟨r.version, g, file, rfl, Function.update_self .., hfile, hholds⟩,
      fun v hv => ?_, fun v hv => ?_⟩
    · have hne : v ≠ r.version := fun heq => hv (by rw [heq]; rfl)
      have hfree : (s.started zeroHash r).holder ≠ some v := by
        unfold started
        split
        · next hholder => simp [hholder, Ne.symm hne]
        · simp
      dsimp only
      rw [hlook, if_pos Option.isSome_some, Function.update_of_ne hne]
      exact hside v hfree
    · rcases hv with hholder | hmem
      · cases hholder
        exact hr.1
      · rw [hleaves.sidecars] at hmem
        exact hversions v (.inr hmem)

/-- Over any sequence of runs, every run starts with the graph that the latest run of its version
ended with exactly if each time that graph was saved last by the version and is not lost with a
missing file. -/
theorem survives_iff (H : Host D) (codec : SnapshotCodec D) (zeroHash : D) {a b : ℕ}
    {runs : List (DaemonRun D)}
    (hregular : Along (step H codec zeroHash) (Regular a b) empty runs) :
    Along (step H codec zeroHash) (Survives zeroHash) empty runs ↔
      Along (step H codec zeroHash) Kept empty runs := by
  refine along_congr (inv_empty (a := a) (b := b)) (fun s r h hr => h.step hr)
    (fun s r h hr => ?_) hregular
  have halike := (h.start zeroHash hr).2
  constructor
  · intro hsurvives
    exact halike.symm.trans hsurvives
  · intro hkept
    exact halike.trans hkept

/-- The run has work to save when it ends. -/
def EndsDirty (H : Host D) (codec : SnapshotCodec D) (zeroHash : D) (s : Restarts D)
    (r : DaemonRun D) : Prop :=
  (r.work H codec zeroHash s.dir).graph.dirty = true

instance (H : Host D) (codec : SnapshotCodec D) (zeroHash : D) (s : Restarts D)
    (r : DaemonRun D) : Decidable (EndsDirty H codec zeroHash s r) :=
  inferInstanceAs (Decidable (_ = _))

theorem saved_perform_of_endsDirty (h : EndsDirty H codec zeroHash s r) :
    (r.perform H codec zeroHash s.dir).saved = some (r.perform H codec zeroHash s.dir).graph := by
  have hdirty : (r.work H codec zeroHash s.dir).graph.dirty = true := h
  rw [DaemonRun.perform, DaemonProcess.shutdown, if_pos hdirty]
  rfl

/-- Each version has saved what its latest run ended with. -/
def UpToDate (s : Restarts D) : Prop :=
  s.saved = s.ended ∧ (s.holder = none → s.ended = fun _ => none)

/-- If no run is idle, each version has saved what its latest run ended with. -/
theorem kept_of_endsDirty {runs : List (DaemonRun D)}
    (h : Along (step H codec zeroHash) (EndsDirty H codec zeroHash) empty runs) :
    Along (step H codec zeroHash) Kept empty runs := by
  have hinit : UpToDate (empty : Restarts D) := ⟨rfl, fun _ => rfl⟩
  refine along_mono hinit (fun s r hs hdirty => ?_) (fun s r hs _ => ?_) h
  · have hsaved := saved_perform_of_endsDirty hdirty
    unfold UpToDate Restarts.step
    dsimp only
    rw [hsaved, hs.1]
    exact ⟨rfl, nofun⟩
  · unfold Kept expected
    split
    · next hholder =>
      rw [hs.2 hholder]
      exact .refl _
    · rw [hs.1]
      exact .refl _

end Restarts

namespace DaemonRun

def samplePath : NormalizedPath :=
  .new "/w/a.c"

def active (version now : ℕ) : DaemonRun Text where
  version := version
  startedAt := now
  events := [.apply (.registerWithKey ⟨"key"⟩ (.plain samplePath "cc") none now)]
  stoppedAt := now

def idle (version now : ℕ) : DaemonRun Text where
  version := version
  startedAt := now
  events := []
  stoppedAt := now

def sampleCodec : SnapshotCodec Text :=
  ⟨fun _ => 0, fun _ => 0⟩

def sampleInstance : ContextKey Text :=
  (ContextInstanceKey.new Host.transparent.toHasher ⟨"key"⟩ samplePath none).mapKey

end DaemonRun

namespace Restarts

open DaemonRun

theorem survives_active : Along (step Host.transparent sampleCodec []) (Survives []) empty
    [active 8 1, active 9 2, active 8 3, active 9 4] :=
  (survives_iff (a := 8) (b := 9) Host.transparent sampleCodec [] (by decide +kernel)).mpr
    (kept_of_endsDirty (by decide +kernel))

/-- A run that gets its graph back from the sidecar and does nothing leaves no primary file, and the
next run starts cold, whichever its version is. -/
theorem cold_after_idle_recovery : [8, 9].Forall fun next =>
    Along (step Host.transparent sampleCodec []) (Regular 8 9) empty
        [active 8 1, active 9 2, idle 8 3, idle next 4] ∧
      ¬ Along (step Host.transparent sampleCodec []) (Survives []) empty
        [active 8 1, active 9 2, idle 8 3, idle next 4] := by
  rw [List.forall_iff_forall_mem]
  intro next hnext
  have hlost : ∀ next ∈ [8, 9],
      let s := run (step Host.transparent sampleCodec []) empty
        [active 8 1, active 9 2, idle 8 3]
      ((DaemonProcess.start [] next 4 s.dir).graph.contexts.lookup sampleInstance).isSome = false ∧
        ((s.expected next).contexts.lookup sampleInstance).isSome = true := by decide +kernel
  refine ⟨?_, fun ⟨_, _, _, hsurvives, _⟩ => ?_⟩
  · revert next
    decide +kernel
  · obtain ⟨hnone, hsome⟩ := hlost next hnext
    have halike := congrArg Option.isSome (hsurvives.contexts sampleInstance)
    rw [Option.isSome_map, Option.isSome_map] at halike
    exact Bool.false_ne_true (hnone.symm.trans (halike.trans hsome))

end Restarts

end Zccache
