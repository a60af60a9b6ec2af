import Zccache.Daemon.Steps

/-! # Edits against a compilation

The single-source path hashes some files before the compiler runs and the others
after it. What it stores was compiled from the hashed contents if no file is
edited between the first and the last look at it and the digests are those of
the contents. A precompiled header goes into the key under another digest.
-/

namespace Zccache

open Unix FinMap

variable {D : Type}

namespace World

/-- The compiler read what was hashed, as far as the request has come. -/
structure Consistent (w : World D) (r : Request D) : Prop where
  agree : ∀ {p h c}, r.hashes.lookup p = some h → (p, c) ∈ r.reads → c = h.own
  hashed : r.compiled = false → ∀ {p h}, r.hashes.lookup p = some h → w.disk p = some h.own
  read : r.answer = none → ∀ {p c}, (p, c) ∈ r.reads → r.hashes.lookup p = none →
    w.disk p = some c
  done : r.answer ≠ none → r.compiled = true
  answered : Hashed r r.answer

section Requests

variable {w w' : World D} {r r' : Request D}

theorem Consistent.of_disk (hr : w.Consistent r) (h : w'.disk = w.disk) : w'.Consistent r := by
  refine ⟨hr.agree, ?_, ?_, hr.done, hr.answered⟩ <;> rw [h]
  · exact hr.hashed
  · exact hr.read

theorem Consistent.begin (w : World D) (site : Site) (key : ContextKey D) :
    w.Consistent (.begin w site key) := by
  refine ⟨fun _ hread => (nomatch hread), fun _ _ _ hlook => ?_,
    fun _ _ _ hread => (nomatch hread),
    fun hans => absurd rfl hans, fun _ ha => (nomatch ha)⟩
  simp [Request.begin] at hlook

theorem Consistent.readClock (hr : w.Consistent r) (h : r.readClock w = some r') :
    w.Consistent r' := by
  unfold Request.readClock at h
  split at h
  · cases h
    exact ⟨hr.agree, hr.hashed, hr.read, hr.done, hr.answered⟩
  · cases h

variable {path : NormalizedPath}

variable (hr : w.Consistent r)

include hr

theorem Consistent.disk_of_read (hans : r.answer = none)
    (hguard : r.compiled = true → r.hashes.lookup path = none) {c : D}
    (hread : (path, c) ∈ r.reads) : w.disk path = some c := by
  cases hlook : r.hashes.lookup path with
  | none => exact hr.read hans hread hlook
  | some h =>
    have hrun : r.compiled = false := by
      rw [← Bool.not_eq_true]
      intro hcompiled
      rw [hguard hcompiled] at hlook
      cases hlook
    rw [hr.agree hlook hread]
    exact hr.hashed hrun hlook

theorem Consistent.hashFile {hash : DependencyHash D} (hdisk : w.disk path = some hash.own)
    (h : r.hashFile path (some hash) = some r') : w.Consistent r' := by
  unfold Request.hashFile at h
  obtain ⟨hguard, ⟨⟩⟩ := Option.ite_none_left_eq_some.mp h
  simp only [Bool.or_eq_true, Bool.and_eq_true, not_or, not_and,
    Option.not_isSome_iff_eq_none] at hguard
  obtain ⟨⟨hans, -⟩, hlate⟩ := hguard
  refine ⟨fun {p h c} hlook hread => ?_, fun hrun p h hlook => ?_,
    fun _ p c hread hlook => ?_, hr.done, fun a ha => ?_⟩
  · obtain ⟨rfl, rfl⟩ | ⟨-, hold⟩ := lookup_insert_eq_some.mp hlook
    · exact Option.some.inj ((hr.disk_of_read hans hlate hread).symm.trans hdisk)
    · exact hr.agree hold hread
  · obtain ⟨rfl, rfl⟩ | ⟨-, hold⟩ := lookup_insert_eq_some.mp hlook
    · exact hdisk
    · exact hr.hashed hrun hold
  · rw [lookup_insert_eq_ite] at hlook
    split at hlook
    · cases hlook
    · exact hr.read hans hread hlook
  · rw [hans] at ha
    cases ha

theorem Consistent.compilerRead (h : r.compilerRead w path = some r') : w.Consistent r' := by
  unfold Request.compilerRead at h
  obtain ⟨hguard, h⟩ := Option.ite_none_right_eq_some.mp h
  obtain ⟨d, hd, rfl⟩ := Option.map_eq_some_iff.mp h
  rw [Bool.and_eq_true, Bool.not_eq_true'] at hguard
  refine ⟨fun {p h c} hlook hread => ?_, hr.hashed, fun hans p c hread hlook => ?_,
    hr.done, hr.answered⟩
  · rcases List.mem_cons.mp hread with heq | hread
    · cases heq
      exact Option.some.inj (hd.symm.trans (hr.hashed hguard.2 hlook))
    · exact hr.agree hlook hread
  · rcases List.mem_cons.mp hread with heq | hread
    · cases heq
      exact hd
    · exact hr.read hans hread hlook

theorem Consistent.compilerDone (h : r.compilerDone = some r') : w.Consistent r' := by
  unfold Request.compilerDone at h
  split at h
  · cases h
    exact ⟨hr.agree, fun hrun => (nomatch hrun), hr.read, fun _ => rfl, hr.answered⟩
  · cases h

theorem Consistent.moves (hsite : r.site.compiles = true) {taken : Taken D}
    (h : w.Moves taken r r') (hdisk : ∀ p h, taken p h → w.disk p = some h.own) :
    w.Consistent r' := by
  cases h with
  | stays => exact hr
  | readClock h => exact hr.readClock h
  | hashFile htaken h => exact hr.hashFile (hdisk _ _ htaken) h
  | compilerRead path h => exact hr.compilerRead h
  | compilerDone h => exact hr.compilerDone h
  | answered hopen hhash hdone =>
    exact ⟨hr.agree, hr.hashed, fun _ => hr.read hopen, fun _ => hdone hsite, hhash⟩

end Requests

variable [DecidableEq D] {H : Host D}

def Watches (r : Request D) (path : NormalizedPath) : Prop :=
  r.site = .miss ∧ r.answer = none ∧
    if (r.hashes.lookup path).isSome then r.compiled = false else path ∈ r.reads.map Prod.fst
  deriving Decidable

/-- No file is edited between the first and the last look of an open request at it, and the
metadata cache gives it no digest of another content. -/
def EditsInTime (w : World D) : Event D → Prop
  | .edit path _ _ => ∀ s ∈ w.requests.entries, ¬ Watches s.2 path
  | .hashFile id path _ => ∀ r ∈ w.requests.lookup id, r.site = .miss →
      w.known.Truthful path (w.disk path)
  | _ => True

instance (w : World D) : (e : Event D) → Decidable (w.EditsInTime e)
  | .edit .. => inferInstanceAs (Decidable (∀ s ∈ w.requests.entries, _))
  | .hashFile id _ _ => inferInstanceAs (Decidable (∀ r ∈ w.requests.lookup id, _))
  | .remember .. | .journal _ | .graph _ | .evictFastHit _ | .start .. | .readClock _
  | .compilerRead .. | .compilerDone _ | .check .. | .update .. | .matchInputs .. | .publish _ =>
    isTrue trivial

/-- What was hashed of the files that went into the key is what the compiler read. -/
def BuiltFromInputs (s : StoredArtifact D) : Prop :=
  ∀ x ∈ s.answer.inputs, ∀ y ∈ s.reads, x.1 = y.1 → x.2.own = y.2

structure Built (w : World D) : Prop where
  requests : ∀ id r, w.requests.lookup id = some r → r.site = .miss → w.Consistent r
  stored : ∀ s ∈ w.stored, BuiltFromInputs s

section Steps

variable {w w' : World D}

omit [DecidableEq D] in
theorem own_of_hashDependency {path : NormalizedPath} {header : Option NormalizedPath}
    {hash : DependencyHash D} (h : w.hashDependency path header = some hash) :
    w.hashFile path = some hash.own := by
  unfold hashDependency at h
  cases header with
  | none =>
    obtain ⟨own, hown, rfl⟩ := Option.map_eq_some_iff.mp h
    exact hown
  | some header =>
    simp only [Option.bind_eq_bind, Option.bind_eq_some_iff] at h
    obtain ⟨headerHash, -, binaryHash, hbinary, ⟨⟩⟩ := h
    exact hbinary

theorem Built.handled (hw : w.Built) {event : Event D} (h : Handled w event w')
    (hintime : w.EditsInTime event) : w'.Built := by
  refine ⟨fun id r' hr' hsite => .of_disk ?_ h.disk, fun s hs => ?_⟩
  · rcases h.requests hr' with ⟨site, key, rfl⟩ | ⟨r, hr, hmoves⟩
    · exact .begin w site key
    · have hsite' : r.site = .miss := hmoves.frame.1.symm.trans hsite
      refine (hw.requests id r hr hsite').moves (by rw [hsite']; rfl) hmoves ?_
      rintro path hash ⟨header, rfl, hhash⟩
      rw [← own_of_hashDependency hhash]
      exact (hintime r hr hsite').hashFile_eq.symm
  · rcases h.stored hs with hs | ⟨id, r, hr, hsite, hans, hreads⟩
    · exact hw.stored s hs
    · have hconsistent := hw.requests id r hr hsite
      rintro x hx ⟨p, c⟩ hy rfl
      rw [← hreads] at hy
      exact (hconsistent.agree (hconsistent.answered s.answer hans x hx) hy).symm

theorem Consistent.edit {r : Request D} (hr : w.Consistent r) (hsite : r.site = .miss)
    {path : NormalizedPath} (content : Option D) (sameStat : Bool) (h : ¬ Watches r path) :
    (w.step H (.edit path content sameStat)).Consistent r := by
  have hdisk : ∀ {p c}, p ≠ path → w.disk p = some c →
      (w.step H (.edit path content sameStat)).disk p = some c :=
    fun hp hdisk => (Function.update_of_ne hp _ _).trans hdisk
  refine ⟨hr.agree, fun hrun p d hlook => hdisk ?_ (hr.hashed hrun hlook),
    fun hans p c hread hlook => hdisk ?_ (hr.read hans hread hlook),
    hr.done, hr.answered⟩
  · rintro rfl
    have hans : r.answer = none := by
      by_contra hsome
      rw [hr.done hsome] at hrun
      cases hrun
    exact h ⟨hsite, hans, by rw [hlook]; exact hrun⟩
  · rintro rfl
    refine h ⟨hsite, hans, ?_⟩
    rw [hlook]
    exact List.mem_map_of_mem hread

theorem built_step (w : World D) (event : Event D) (hw : w.Built)
    (hintime : w.EditsInTime event) : (w.step H event).Built := by
  rcases step_cases w event with ⟨path, content, sameStat, rfl⟩ | ⟨step, rfl⟩ | h
  · refine ⟨fun id r hr hsite => ?_, hw.stored⟩
    exact (hw.requests id r hr hsite).edit hsite content sameStat
      (hintime _ (AList.mem_lookup_iff.mp hr))
  · have hsame : (w.step H (.journal step)).requests = w.requests ∧
        (w.step H (.journal step)).stored = w.stored ∧
        (w.step H (.journal step)).disk = w.disk := by
      cases step <;> exact ⟨rfl, rfl, rfl⟩
    obtain ⟨hreqs, hstored, hdisk⟩ := hsame
    refine ⟨fun id r hr hsite => ?_, hstored ▸ hw.stored⟩
    exact (hw.requests id r (hreqs ▸ hr) hsite).of_disk hdisk
  · exact hw.handled h hintime

end Steps

omit [DecidableEq D] in
theorem built_new (disk : NormalizedPath → Option D) : (new disk).Built :=
  ⟨fun _ _ h => absurd h (by simp [new]), fun _ h => (nomatch h)⟩

/-- In every run without edits between the looks of a request at a file and with digests of the
contents, whatever is stored was compiled from the contents whose hashes went into its key, as far
as they are no precompiled headers. -/
theorem stored_built_from_inputs {disk : NormalizedPath → Option D} {events : List (Event D)}
    (hintime : Run.Along (step H) EditsInTime (new disk) events) :
    ∀ s ∈ (after H disk events).stored, ∀ x ∈ s.answer.inputs, x.2.header = none →
      ∀ y ∈ s.reads, x.1 = y.1 → x.2.hash H.toHasher = y.2 := by
  intro s hs x hx hheader y hy hpath
  have hbuilt := (Run.run_invariant_along (built_new disk) built_step hintime).stored s hs
  rw [DependencyHash.hash, hheader]
  exact hbuilt x hx y hy hpath

/-- A single source that is compiled and stored, with the given events before the store. -/
def missWith (looks : List (Event Text)) (includes : List NormalizedPath) : List (Event Text) :=
  [.graph (registerAt "/a"), .start 0 .miss ⟨"key"⟩] ++ looks ++
    [.update 0 ⟨includes, [], false⟩ [] (fun _ => none) 1, .publish 0]

/-- Edits before the first look and after the last one do no harm. -/
theorem stored_built_from_inputs_missWith :
    let source := NormalizedPath.new "/a/m.c"
    let w := after Host.transparent sampleDisk (missWith
      [.edit source (some "2") false, .hashFile 0 source none, .compilerRead 0 source,
        .compilerDone 0, .edit source (some "3") false] [])
    w.stored.map StoredArtifact.reads = [[(source, "2".toList)]] ∧
      ∀ s ∈ w.stored, ∀ x ∈ s.answer.inputs, x.2.header = none → ∀ y ∈ s.reads, x.1 = y.1 →
        x.2.hash Host.transparent.toHasher = y.2 :=
  ⟨by decide +kernel, stored_built_from_inputs (by decide +kernel)⟩

/-- The hashes and the reads of what a single source is stored with. -/
def storedWith (looks : List (Event Text)) (includes : List NormalizedPath) :
    List (List (NormalizedPath × Text) × List (NormalizedPath × Text)) :=
  (after Host.transparent sampleDisk (missWith looks includes)).stored.map fun s =>
    (s.answer.inputs.map fun x => (x.1, x.2.hash Host.transparent.toHasher), s.reads)

/-- An edit between the hash and the compiler's look, in either order, is stored under the key of
the other content, and so is one before both that keeps time and size. The hash of a precompiled
header is not that of what the compiler read. -/
theorem edited_while_compiling :
    let source := NormalizedPath.new "/a/m.c".toList
    let header := NormalizedPath.new "/a/m.h".toList
    let gch := NormalizedPath.new "/a/m.h.gch".toList
    storedWith [.hashFile 0 source none, .edit source (some "2".toList) false,
        .compilerRead 0 source, .compilerDone 0] [] =
      [([(source, "1".toList)], [(source, "2".toList)])] ∧
    storedWith [.compilerRead 0 source, .compilerDone 0, .edit source (some "2".toList) false,
        .hashFile 0 source none] [] =
      [([(source, "2".toList)], [(source, "1".toList)])] ∧
    storedWith [.remember source (some "1".toList), .edit source (some "2".toList) true,
        .hashFile 0 source none, .compilerRead 0 source, .compilerDone 0] [] =
      [([(source, "1".toList)], [(source, "2".toList)])] ∧
    ∃ s ∈ storedWith [.edit header (some "1".toList) false, .edit gch (some "2".toList) false,
        .hashFile 0 source none, .hashFile 0 gch (some header), .compilerRead 0 gch,
        .compilerDone 0] [gch],
      (gch, "2".toList) ∈ s.2 ∧ gch ∈ s.1.map Prod.fst ∧ (gch, "2".toList) ∉ s.1 := by
  refine ⟨?_, ?_, ?_, ?_⟩
  all_goals decide +kernel

end World

end Zccache
