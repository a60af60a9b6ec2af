import Zccache.Fingerprint.Cache

/-! # Skipped work

A check that skips should find the contents of the last successful run. Along a
whole history, every snapshot that a cache holds stays the record of the files
that its check scanned. What a check can miss is an edit after which the number
of the files and their latest modification time are as before.
-/

namespace Zccache.Fingerprint

open Unix StableSort FinMap Framing Run AList

variable {F : Type} {contentOf : Text → FileStat → Text}

section Statements

variable (contentOf)

def SameContents (disk disk' : Disk) : Prop :=
  ∀ path, contentAt contentOf disk path = contentAt contentOf disk' path

/-- A check skips only if the contents are those of the last successful snapshot, and no failure
or invalidation came after it. -/
def SkipsUnchanged (K : Kind F) (s : State F) (now : ℕ) : Prop :=
  (K.check s now).1 = .skip →
    s.undisturbed = true ∧ ∃ disk, s.committed = some disk ∧ SameContents contentOf s.disk disk

/-- The contents changed after the last successful snapshot, but there are as many files as then,
the latest modification time is the same, and the cache file is newer. -/
def HiddenEdit (s : State F) : Prop :=
  s.undisturbed = true ∧ ∃ disk, s.committed = some disk ∧ ¬ SameContents contentOf s.disk disk ∧
    s.disk.entries.length = disk.entries.length ∧ maxMtimeNs s.disk = maxMtimeNs disk ∧
    ∃ cacheFile ∈ s.cacheFile, maxMtimeNs s.disk < cacheFile.2

/-- The checks scan files that `Ok` admits, and a failure is marked only after a check. -/
def Regular (Ok : Disk → Prop) (s : State F) : Event → Prop
  | .check _ => Ok s.disk
  | .markFailure _ _ => s.claimed.isSome = true
  | _ => True

instance (Ok : Disk → Prop) [DecidablePred Ok] (s : State F) :
    (event : Event) → Decidable (Regular Ok s event)
  | .check _ => inferInstanceAs (Decidable (Ok s.disk))
  | .markFailure _ _ => inferInstanceAs (Decidable (s.claimed.isSome = true))
  | .write _ _ => isTrue trivial
  | .rename _ _ => isTrue trivial
  | .remove _ => isTrue trivial
  | .markSuccess _ _ => isTrue trivial
  | .invalidate => isTrue trivial

/-- What a snapshot keeps is a function of the files, and on the files that `Ok` admits it tells
the contents apart. -/
structure Kind.Separates (K : Kind F) (Ok : Disk → Prop) (keep : Disk → F) : Prop where
  compare_none : ∀ disk, (K.compare none disk).1 = keep disk
  compare_some : ∀ disk cached, Ok disk → Ok cached →
    (K.compare (some (keep cached)) disk).1 = keep disk
  unchanged : ∀ disk cached, Ok disk → Ok cached →
    (K.compare (some (keep cached)) disk).2 = false → SameContents contentOf disk cached
  fileCount : ∀ disk, K.fileCount (keep disk) = disk.entries.length
  maxMtime : ∀ disk, K.maxMtime (keep disk) disk = maxMtimeNs disk

end Statements

section Check

variable {K : Kind F} {s : State F} {cached : Snapshot F} {now : ℕ}

theorem Kind.tryMtimeFastPath_eq_some : K.tryMtimeFastPath s = some cached ↔
    ∃ t, s.cacheFile = some (cached, t) ∧ maxMtimeNs s.disk < t ∧
      cached.data.status = .success ∧ K.fileCount cached.data.files = s.disk.entries.length ∧
      cached.data.maxSourceMtimeNs = maxMtimeNs s.disk := by
  unfold tryMtimeFastPath
  cases hfile : s.cacheFile with
  | none => simp
  | some file =>
    obtain ⟨snapshot, t⟩ := file
    by_cases ht : t ≤ maxMtimeNs s.disk
    · simp only [ht, if_true, reduceCtorEq, Option.some.injEq, Prod.mk.injEq, false_iff]
      rintro ⟨t', ⟨-, rfl⟩, hlt, -⟩
      omega
    · simp only [ht, if_false, Option.ite_none_right_eq_some, Option.some.injEq, Prod.mk.injEq]
      constructor
      · rintro ⟨h, rfl⟩
        exact ⟨t, ⟨rfl, rfl⟩, by omega, h⟩
      · rintro ⟨t', ⟨rfl, rfl⟩, -, h⟩
        exact ⟨h, rfl⟩

def Compared (s : State F) (previous : Option F) : Prop :=
  previous = none ∨ ∃ cached t, s.cacheFile = some (cached, t) ∧
    cached.data.status ≠ .failure ∧ previous = some cached.data.files

/-- A check takes the fast path, or compares the files and stages a new snapshot. -/
theorem Kind.check_cases (K : Kind F) (s : State F) (now : ℕ) :
    (∃ cached, K.tryMtimeFastPath s = some cached ∧
      K.check s now = (.skip, { s with staged := some cached })) ∨
    ∃ previous, Compared s previous ∧
      (K.check s now).2 = s.stage (K.pendingSnapshot (K.compare previous s.disk).1 s.disk now) ∧
      ((K.check s now).1 = .skip →
        previous.isSome = true ∧ (K.compare previous s.disk).2 = false) := by
  unfold check
  cases hfast : K.tryMtimeFastPath s with
  | some cached => exact Or.inl ⟨cached, rfl, rfl⟩
  | none =>
    right
    cases hfile : s.cacheFile with
    | none => exact ⟨none, Or.inl rfl, rfl, fun h => nomatch h⟩
    | some file =>
      obtain ⟨cached, t⟩ := file
      by_cases hstat : cached.data.status = .failure
      · refine ⟨none, Or.inl rfl, ?_, ?_⟩
        · simp only [hstat, if_true]
        · simp only [hstat, if_true, reduceCtorEq, false_implies]
      · refine ⟨some cached.data.files, Or.inr ⟨cached, t, hfile, hstat, rfl⟩, ?_, ?_⟩
        · simp only [hstat, if_false]
        · simp only [hstat, if_false, ite_eq_right_iff, reduceCtorEq, imp_false,
            Bool.not_eq_true, Option.isSome_some, true_and, imp_self]

end Check

section Invariant

variable {K : Kind F} {Ok : Disk → Prop} {keep : Disk → F} {s : State F}

/-- The snapshot is the record of the files that its check scanned. -/
structure Snapshot.Faithful (Ok : Disk → Prop) (keep : Disk → F) (snapshot : Snapshot F) :
    Prop where
  ok : Ok snapshot.disk
  files : snapshot.data.files = keep snapshot.disk
  maxSourceMtimeNs : snapshot.data.maxSourceMtimeNs = maxMtimeNs snapshot.disk

/-- The cache file is the last successful commit, or it was disturbed since. -/
def State.Committed (s : State F) (snapshot : Snapshot F) : Prop :=
  snapshot.data.status = .failure ∧ s.undisturbed = false ∨
    snapshot.data.status = .success ∧ s.undisturbed = true ∧ s.committed = some snapshot.disk

structure State.Inv (Ok : Disk → Prop) (keep : Disk → F) (s : State F) : Prop where
  cacheFile : ∀ file ∈ s.cacheFile, file.1.Faithful Ok keep ∧ s.Committed file.1
  pending : ∀ snapshot ∈ s.pending, snapshot.Faithful Ok keep
  staged : ∀ snapshot ∈ s.staged, snapshot.Faithful Ok keep

theorem State.inv_of_none (hfile : s.cacheFile = none) (hpending : s.pending = none)
    (hstaged : s.staged = none) : s.Inv Ok keep := by
  refine ⟨?_, ?_, ?_⟩
  · simp [hfile]
  · simp [hpending]
  · simp [hstaged]

theorem State.Inv.claimed (h : s.Inv Ok keep) {snapshot : Snapshot F}
    (hclaim : s.claimed = some snapshot) : snapshot.Faithful Ok keep := by
  rcases Option.or_eq_some_iff.mp hclaim with hstaged | ⟨-, hpending⟩
  · exact h.staged snapshot hstaged
  · exact h.pending snapshot hpending

theorem State.Inv.compare (hK : K.Separates contentOf Ok keep) (h : s.Inv Ok keep)
    (hok : Ok s.disk) {previous : Option F} (hprev : Compared s previous) :
    (K.compare previous s.disk).1 = keep s.disk := by
  rcases hprev with rfl | ⟨cached, t, hfile, -, rfl⟩
  · exact hK.compare_none s.disk
  · obtain ⟨hcached, -⟩ := h.cacheFile _ hfile
    rw [hcached.files]
    exact hK.compare_some s.disk cached.disk hok hcached.ok

theorem State.Inv.check (hK : K.Separates contentOf Ok keep) (h : s.Inv Ok keep)
    (hok : Ok s.disk) (now : ℕ) : (K.check s now).2.Inv Ok keep := by
  rcases K.check_cases s now with ⟨cached, hfast, hcheck⟩ | ⟨previous, hprev, hcheck, -⟩
  · obtain ⟨t, hfile, -⟩ := Kind.tryMtimeFastPath_eq_some.mp hfast
    rw [hcheck]
    refine ⟨h.cacheFile, h.pending, ?_⟩
    rintro _ ⟨⟩
    exact (h.cacheFile _ hfile).1
  · rw [hcheck, h.compare hK hok hprev]
    have hnew : (K.pendingSnapshot (keep s.disk) s.disk now).Faithful Ok keep :=
      ⟨hok, rfl, hK.maxMtime s.disk⟩
    refine ⟨h.cacheFile, ?_, ?_⟩
    all_goals
      rintro _ ⟨⟩
      exact hnew

variable [DecidableEq F]

section

variable (h : s.Inv Ok keep)

include h

theorem State.Inv.commitPending {s' : State F} {claimed : Snapshot F} {status : Status}
    {now written : ℕ} (hclaim : claimed.Faithful Ok keep)
    (hcomm : ∀ snapshot : Snapshot F, snapshot.data.status = status →
      snapshot.disk = claimed.disk → s'.Committed snapshot)
    (hfile : s'.cacheFile = (s.commitPending claimed status now written).cacheFile)
    (hpending : s'.pending = (s.commitPending claimed status now written).pending)
    (hstaged : s'.staged = none) : s'.Inv Ok keep := by
  refine ⟨?_, ?_, ?_⟩
  · rw [hfile]
    rintro _ ⟨⟩
    exact ⟨⟨hclaim.ok, hclaim.files, hclaim.maxSourceMtimeNs⟩, hcomm _ rfl rfl⟩
  · rw [hpending]
    intro snapshot hmem
    refine h.pending snapshot ?_
    simp only [State.commitPending] at hmem
    split at hmem
    · cases hmem
    · exact hmem
  · rw [hstaged]
    exact fun _ h => nomatch h

theorem State.Inv.markSuccess (now written : ℕ) : (s.markSuccess now written).Inv Ok keep := by
  unfold State.markSuccess
  cases hclaim : s.claimed with
  | none => exact h
  | some claimed =>
    refine h.commitPending (h.claimed hclaim) (fun snapshot hstat hdisk => ?_) rfl rfl rfl
    exact Or.inr ⟨hstat, rfl, hdisk ▸ rfl⟩

theorem State.Inv.markFailure (hclaim : s.claimed.isSome = true) (now written : ℕ) :
    (s.markFailure now written).Inv Ok keep := by
  obtain ⟨claimed, hclaim⟩ := Option.isSome_iff_exists.mp hclaim
  unfold State.markFailure
  rw [hclaim]
  refine h.commitPending (h.claimed hclaim) (fun snapshot hstat _ => ?_) rfl rfl rfl
  exact Or.inl ⟨hstat, rfl⟩

theorem State.Inv.step (hK : K.Separates contentOf Ok keep) (event : Event)
    (hreg : Regular Ok s event) :
    (K.step s event).Inv Ok keep := by
  cases event with
  | write | rename | remove => exact ⟨h.cacheFile, h.pending, h.staged⟩
  | check now => exact h.check hK hreg now
  | markSuccess now written => exact h.markSuccess now written
  | markFailure now written => exact h.markFailure hreg now written
  | invalidate => exact State.inv_of_none rfl rfl rfl

end

theorem inv_run (hK : K.Separates contentOf Ok keep) {disk : Disk} {events : List Event}
    (hreg : Along K.step (Regular Ok) (.start disk) events) :
    (run K.step (.start disk) events).Inv Ok keep :=
  run_invariant_along (State.inv_of_none rfl rfl rfl)
    (fun _ event h hevent => h.step hK event hevent)
    hreg

end Invariant

section Skip

variable {K : Kind F} {Ok : Disk → Prop} {keep : Disk → F} {s : State F}

variable (hK : K.Separates contentOf Ok keep) (h : s.Inv Ok keep)

include hK h

theorem State.Inv.sameContents_of_unchanged (hok : Ok s.disk) {previous : Option F}
    (hprev : Compared s previous) (hsome : previous.isSome = true)
    (hsame : (K.compare previous s.disk).2 = false) :
    s.undisturbed = true ∧ ∃ disk, s.committed = some disk ∧
      SameContents contentOf s.disk disk := by
  rcases hprev with rfl | ⟨cached, t, hfile, hstat, rfl⟩
  · cases hsome
  · obtain ⟨hcached, hcomm⟩ := h.cacheFile _ hfile
    rw [hcached.files] at hsame
    have hconts := hK.unchanged s.disk cached.disk hok hcached.ok hsame
    rcases hcomm with ⟨hfailed, -⟩ | ⟨-, hcalm, hcomm⟩
    · exact absurd hfailed hstat
    · exact ⟨hcalm, cached.disk, hcomm, hconts⟩

/-- The fast path is taken exactly if its aggregates are those of the last success. -/
theorem State.Inv.tryMtimeFastPath {cached : Snapshot F} : K.tryMtimeFastPath s = some cached ↔
      s.undisturbed = true ∧ s.committed = some cached.disk ∧
      s.disk.entries.length = cached.disk.entries.length ∧
      maxMtimeNs s.disk = maxMtimeNs cached.disk ∧
      ∃ t, s.cacheFile = some (cached, t) ∧ maxMtimeNs s.disk < t := by
  rw [Kind.tryMtimeFastPath_eq_some]
  constructor
  · rintro ⟨t, hfile, hlt, hstat, hcount, hmax⟩
    obtain ⟨hcached, hcomm⟩ := h.cacheFile _ hfile
    rw [hcached.files, hK.fileCount] at hcount
    rw [hcached.maxSourceMtimeNs] at hmax
    rcases hcomm with ⟨hfailed, -⟩ | ⟨-, hcalm, hcomm⟩
    · rw [hstat] at hfailed
      cases hfailed
    · exact ⟨hcalm, hcomm, hcount.symm, hmax.symm, t, hfile, hlt⟩
  · rintro ⟨hcalm, -, hcount, hmax, t, hfile, hlt⟩
    obtain ⟨hcached, hcomm⟩ := h.cacheFile _ hfile
    rcases hcomm with ⟨-, hdisturbed⟩ | ⟨hstat, -⟩
    · rw [hcalm] at hdisturbed
      cases hdisturbed
    · refine ⟨t, hfile, hlt, hstat, ?_, ?_⟩
      · rw [hcached.files, hK.fileCount, hcount]
      · rw [hcached.maxSourceMtimeNs, hmax]

theorem State.Inv.skipsUnchanged_iff (hok : Ok s.disk) (now : ℕ) :
    SkipsUnchanged contentOf K s now ↔ ¬ HiddenEdit contentOf s := by
  constructor
  · rintro hskips ⟨hcalm, disk, hcomm, hchg, hcount, hmax, ⟨cached, t⟩, hfile, hlt⟩
    have hcached : cached.disk = disk := by
      rcases (h.cacheFile _ hfile).2 with ⟨-, hdisturbed⟩ | ⟨-, -, hc⟩
      · rw [hcalm] at hdisturbed
        cases hdisturbed
      · rw [hcomm] at hc
        exact (Option.some.inj hc).symm
    subst hcached
    have hfast := (h.tryMtimeFastPath hK).mpr ⟨hcalm, hcomm, hcount, hmax, t, hfile,
        hlt⟩
    have hskip : (K.check s now).1 = .skip := by simp only [Kind.check, hfast]
    obtain ⟨-, disk, hdisk, hsame⟩ := hskips hskip
    rw [hcomm] at hdisk
    cases hdisk
    exact hchg hsame
  · intro hhidden hskip
    rcases K.check_cases s now with ⟨cached, hfast, -⟩ | ⟨previous, hprev, -, hslow⟩
    · obtain ⟨hcalm, hcomm, hcount, hmax, t, hfile, hlt⟩ :=
        (h.tryMtimeFastPath hK).mp hfast
      refine ⟨hcalm, cached.disk, hcomm, ?_⟩
      by_contra hchg
      exact hhidden ⟨hcalm, cached.disk, hcomm, hchg, hcount, hmax, _, hfile, hlt⟩
    · obtain ⟨hsome, hsame⟩ := hslow hskip
      exact h.sameContents_of_unchanged hK hok hprev hsome hsame

end Skip

section TwoLayer

variable {D : Type} {H : Hasher D}

def InRange (disk : Disk) : Prop :=
  ∀ file ∈ disk.entries, 0 ≤ file.2.mtime ∧ file.2.mtime < 2 ^ 64
  deriving Decidable

variable {file : FileStat}

theorem mtimeNs_injOn {file' : FileStat} (h : 0 ≤ file.mtime ∧ file.mtime < 2 ^ 64)
    (h' : 0 ≤ file'.mtime ∧ file'.mtime < 2 ^ 64) (hns : mtimeNs file = mtimeNs file')
    (hsize : file.size = file'.size) : file = file' := by
  simp only [mtimeNs] at h h' hns hsize
  rw [FileStat.mk.injEq]
  omega

variable {path : Text}

theorem InRange.of_lookup {disk : Disk} (h : InRange disk) (hfile : disk.lookup path = some file) :
    0 ≤ file.mtime ∧ file.mtime < 2 ^ 64 :=
  h ⟨path, file⟩ (mem_lookup_iff.mp hfile)

theorem checkFile_fst {cached : FileStat} (h : 0 ≤ file.mtime ∧ file.mtime < 2 ^ 64)
    (h' : 0 ≤ cached.mtime ∧ cached.mtime < 2 ^ 64) :
    (checkFile H contentOf (some (fileEntry H contentOf path cached)) path file).1 =
      fileEntry H contentOf path file := by
  unfold checkFile
  by_cases hmeta : (fileEntry H contentOf path cached).mtimeNs = mtimeNs file ∧
      (fileEntry H contentOf path cached).size = file.size
  · simp only [hmeta, and_self, if_true]
    rw [mtimeNs_injOn h' h hmeta.1 hmeta.2]
  · simp only [hmeta, if_false]

theorem content_eq_of_checkFile (hdigest : Function.Injective H.digest)
    (hhex : Function.Injective H.toHex) {cached : FileStat}
    (h : 0 ≤ file.mtime ∧ file.mtime < 2 ^ 64) (h' : 0 ≤ cached.mtime ∧ cached.mtime < 2 ^ 64)
    (hsame : (checkFile H contentOf (some (fileEntry H contentOf path cached)) path file).2 =
      false) : contentOf path file = contentOf path cached := by
  unfold checkFile at hsame
  by_cases hmeta : (fileEntry H contentOf path cached).mtimeNs = mtimeNs file ∧
      (fileEntry H contentOf path cached).size = file.size
  · rw [mtimeNs_injOn h' h hmeta.1 hmeta.2]
  · simp only [hmeta, if_false, decide_eq_false_iff_not, ne_eq, not_not] at hsame
    exact text_injective (hdigest (hhex hsame))

theorem maxMtimeNs_computeAll (disk : Disk) :
    ((computeAll H contentOf disk).entries.map fun file => file.2.mtimeNs).foldl max 0 =
      maxMtimeNs disk := by
  rw [computeAll, entries_map, List.map_map, List.foldl_map]
  congr 1
  funext m file
  change max m (mtimeNs file.2) = _
  split_ifs <;> omega

variable {disk cached : Disk}

theorem twoLayerCache_separates (hdigest : Function.Injective H.digest)
    (hhex : Function.Injective H.toHex) :
    (twoLayerCache H contentOf).Separates contentOf InRange (computeAll H contentOf) where
  compare_none _ := rfl
  compare_some disk cached hdisk hcached := by
    change FinMap.map (fun _ => Prod.fst) (FinMap.map _ disk) = _
    rw [map_map]
    apply map_congr_lookup
    intro path file hfile
    rw [computeAll, lookup_map]
    cases hentry : cached.lookup path with
    | none => rfl
    | some entry => exact checkFile_fst (hdisk.of_lookup hfile) (hcached.of_lookup hentry)
  unchanged disk cached hdisk hcached hsame := by
    obtain ⟨hfiles, hkeys⟩ := Bool.or_eq_false_iff.mp hsame
    rw [entries_map, List.any_map, List.any_eq_false] at hfiles
    rw [keys_map, computeAll, keys_map, List.any_eq_false] at hkeys
    intro path
    rw [contentAt, contentAt]
    cases hfile : disk.lookup path with
    | none =>
      cases hentry : cached.lookup path with
      | none => rfl
      | some entry =>
        -- A file of the snapshot is gone.
        have hmem : path ∈ cached.keys :=
          mem_keys.mp (lookup_isSome.mp (Option.isSome_of_eq_some hentry))
        have hgone : path ∉ disk.keys := mem_keys.not.mp (lookup_eq_none.mp hfile)
        exact absurd (decide_eq_true hgone) (hkeys path hmem)
    | some file =>
      have hsame := hfiles ⟨path, file⟩ (mem_lookup_iff.mp hfile)
      simp only [Function.comp_apply, computeAll, lookup_map, Bool.not_eq_true] at hsame
      cases hentry : cached.lookup path with
      | none =>
        rw [hentry] at hsame
        cases hsame
      | some entry =>
        rw [hentry] at hsame
        exact congrArg some (content_eq_of_checkFile hdigest hhex (hdisk.of_lookup hfile)
          (hcached.of_lookup hentry) hsame)
  fileCount disk := by
    change (computeAll H contentOf disk).entries.length = _
    rw [computeAll, entries_map, List.length_map]
  maxMtime disk := maxMtimeNs_computeAll disk

end TwoLayer

section Hash

variable {D : Type} {H : Hasher D}

def TextFiles (contentOf : Text → FileStat → Text) (disk : Disk) : Prop :=
  ∀ file ∈ disk.entries, Delimited '\n' nul (file.1, contentOf file.1 file.2)
  deriving Decidable

variable {disk : Disk}

theorem mem_listing {path content : Text} :
    (path, content) ∈ listing contentOf disk ↔ contentAt contentOf disk path = some content := by
  simp only [listing, mem_sortBy, List.mem_map, Prod.mk.injEq, contentAt, Option.map_eq_some_iff]
  constructor
  · rintro ⟨⟨path, file⟩, hmem, rfl, rfl⟩
    exact ⟨file, mem_lookup_iff.mpr hmem, rfl⟩
  · rintro ⟨file, hfile, rfl⟩
    exact ⟨⟨path, file⟩, mem_lookup_iff.mp hfile, rfl, rfl⟩

theorem TextFiles.delimited (h : TextFiles contentOf disk) :
    ∀ r ∈ listing contentOf disk, Delimited '\n' nul r := by
  intro r hr
  simp only [listing, mem_sortBy, List.mem_map] at hr
  obtain ⟨file, hmem, rfl⟩ := hr
  exact h file hmem

/-- The marker and the counter at the end of the stream have a fixed length. -/
theorem records_eq_of_aggregateStream {files files' : List (Text × Text)}
    (h : aggregateStream files = aggregateStream files') :
    records nul files = records nul files' := by
  obtain ⟨hrest, -⟩ := List.append_inj' h (by simp)
  exact List.append_cancel_left hrest

theorem sameContents_of_computeAggregateHash (hdigest : Function.Injective H.digest)
    (hhex : Function.Injective H.toHex) {cached : Disk} (hdisk : TextFiles contentOf disk)
    (hcached : TextFiles contentOf cached)
    (h : computeAggregateHash H contentOf cached = computeAggregateHash H contentOf disk) :
    SameContents contentOf disk cached := by
  have hstream := records_eq_of_aggregateStream (text_injective (hdigest (hhex h)))
  have hlisting := records_injective hcached.delimited hdisk.delimited hstream
  intro path
  ext content
  rw [← mem_listing, ← mem_listing, hlisting]

theorem hashCache_separates (hdigest : Function.Injective H.digest)
    (hhex : Function.Injective H.toHex) :
    (hashCache H contentOf).Separates contentOf (TextFiles contentOf)
      (fun disk => ⟨computeAggregateHash H contentOf disk, disk.entries.length⟩) where
  compare_none _ := rfl
  compare_some _ _ _ _ := rfl
  unchanged disk cached hdisk hcached hsame := by
    have hhash := not_not.mp (of_decide_eq_false hsame)
    exact sameContents_of_computeAggregateHash hdigest hhex hdisk hcached hhash
  fileCount _ := rfl
  maxMtime _ := rfl

end Hash

/-- Along every history of files with times that 64 bits hold, a check of the two-layer cache that
skips finds the contents of the last successful snapshot, with no failure or invalidation since,
unless an edit is hidden. So does a check of the hash cache along every history of text files. -/
theorem skips_unchanged_iff_no_hidden_edit {D : Type} (H : Hasher D)
    (hdigest : Function.Injective H.digest) (hhex : Function.Injective H.toHex)
    (contentOf : Text → FileStat → Text) (disk : Disk) (events : List Event) (now : ℕ) :
    (Along (twoLayerCache H contentOf).step (Regular InRange) (.start disk) events →
      InRange (run (twoLayerCache H contentOf).step (.start disk) events).disk →
      (SkipsUnchanged contentOf (twoLayerCache H contentOf)
          (run (twoLayerCache H contentOf).step (.start disk) events) now ↔
        ¬ HiddenEdit contentOf (run (twoLayerCache H contentOf).step (.start disk) events))) ∧
    (Along (hashCache H contentOf).step (Regular (TextFiles contentOf)) (.start disk) events →
      TextFiles contentOf (run (hashCache H contentOf).step (.start disk) events).disk →
      (SkipsUnchanged contentOf (hashCache H contentOf)
          (run (hashCache H contentOf).step (.start disk) events) now ↔
        ¬ HiddenEdit contentOf (run (hashCache H contentOf).step (.start disk) events))) := by
  constructor
  · intro hreg hok
    have hK : (twoLayerCache H contentOf).Separates contentOf InRange (computeAll H contentOf) :=
      twoLayerCache_separates hdigest hhex
    exact (inv_run hK hreg).skipsUnchanged_iff hK hok now
  · intro hreg hok
    have hK : (hashCache H contentOf).Separates contentOf (TextFiles contentOf) _ :=
      hashCache_separates hdigest hhex
    exact (inv_run hK hreg).skipsUnchanged_iff hK hok now

/-- Two contents of two characters, told apart by the time of the file. -/
def sampleContent (_ : Text) (file : FileStat) : Text :=
  if file.mtime = 3 ∨ file.mtime = -2 then "x\n" else "y\n"

def sampleCycle (a b : FileStat) : List Event :=
  [.write "a" a, .write "b" b, .check 8, .markSuccess 9 10]

/-- An edit with a later time is noticed. -/
theorem skips_unchanged_of_later_edit :
    let twoLayer := twoLayerCache Hasher.transparent sampleContent
    let hash := hashCache Hasher.transparent sampleContent
    let events := sampleCycle ⟨5, 2⟩ ⟨3, 2⟩ ++ [.write "b" ⟨12, 2⟩]
    Along twoLayer.step (Regular InRange) (.start ∅) events ∧
      Along hash.step (Regular (TextFiles sampleContent)) (.start ∅) events ∧
      (SkipsUnchanged sampleContent twoLayer (run twoLayer.step (.start ∅) events) 13 ↔
        ¬ HiddenEdit sampleContent (run twoLayer.step (.start ∅) events)) ∧
      (SkipsUnchanged sampleContent hash (run hash.step (.start ∅) events) 13 ↔
        ¬ HiddenEdit sampleContent (run hash.step (.start ∅) events)) := by
  intro twoLayer hash events
  have h := skips_unchanged_iff_no_hidden_edit Hasher.transparent transparent_injective
    Function.injective_id sampleContent ∅ events 13
  have htwo : Along twoLayer.step (Regular InRange) (.start ∅) events := by decide +kernel
  have hhash : Along hash.step (Regular (TextFiles sampleContent)) (.start ∅) events := by
    decide +kernel
  exact ⟨htwo, hhash, h.1 htwo (by decide +kernel), h.2 hhash (by decide +kernel)⟩

def unendedContent (path : Text) (file : FileStat) : Text :=
  if path = "a" then if file.size = 2 then "1b" else "1" else "2"

theorem not_skipsUnchanged {K : Kind F} {s : State F} {now : ℕ} (path : Text)
    (hskip : (K.check s now).1 = .skip)
    (hchg : s.committed.all (fun disk =>
      contentAt contentOf s.disk path ≠ contentAt contentOf disk path) = true) :
    ¬ SkipsUnchanged contentOf K s now := by
  intro h
  obtain ⟨-, disk, hdisk, hsame⟩ := h hskip
  rw [hdisk] at hchg
  exact of_decide_eq_true hchg (hsame path)

/-- Both caches skip after an edit with an earlier time and after a renaming. The two-layer cache
also skips after an edit before the epoch, and the hash cache after an edit that moves a character
from a name to the content before it. -/
theorem skips_changed_work :
    let twoLayer := twoLayerCache Hasher.transparent sampleContent
    let hash := hashCache Hasher.transparent sampleContent
    let unended := hashCache Hasher.transparent unendedContent
    let edited := sampleCycle ⟨5, 2⟩ ⟨3, 2⟩ ++ [.write "b" ⟨4, 2⟩]
    let renamed := sampleCycle ⟨5, 2⟩ ⟨3, 2⟩ ++ [.rename "b" "c"]
    let early := sampleCycle ⟨-2, 2⟩ ⟨5, 2⟩ ++
      [.write "a" ⟨-1, 2⟩, .write "b" ⟨20, 2⟩]
    let moved : List Event :=
      [.write "a" ⟨5, 1⟩, .write "bc" ⟨3, 1⟩, .check 8, .markSuccess 9 10,
        .write "a" ⟨21, 2⟩, .rename "bc" "c"]
    (¬ SkipsUnchanged sampleContent twoLayer (run twoLayer.step (.start ∅) edited) 13 ∧
      ¬ SkipsUnchanged sampleContent twoLayer (run twoLayer.step (.start ∅) renamed) 13 ∧
      ¬ SkipsUnchanged sampleContent twoLayer (run twoLayer.step (.start ∅) early) 25) ∧
    ¬ SkipsUnchanged sampleContent hash (run hash.step (.start ∅) edited) 13 ∧
      ¬ SkipsUnchanged sampleContent hash (run hash.step (.start ∅) renamed) 13 ∧
      ¬ SkipsUnchanged unendedContent unended (run unended.step (.start ∅) moved) 25 := by
  refine ⟨⟨?_, ?_, ?_⟩, ?_, ?_, ?_⟩
  · exact not_skipsUnchanged "b" (by decide +kernel) (by decide +kernel)
  · exact not_skipsUnchanged "b" (by decide +kernel) (by decide +kernel)
  · exact not_skipsUnchanged "a" (by decide +kernel) (by decide +kernel)
  · exact not_skipsUnchanged "b" (by decide +kernel) (by decide +kernel)
  · exact not_skipsUnchanged "b" (by decide +kernel) (by decide +kernel)
  · exact not_skipsUnchanged "a" (by decide +kernel) (by decide +kernel)

end Zccache.Fingerprint
