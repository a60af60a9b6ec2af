import Zccache.Persist.Deliver

/-! # What a delivery leaves

A delivery should leave every blob as it was, and an output with the bytes of
the blob and the time of the newest artifact beside it. It does, except that a
new hardlink that can be neither protected or registered nor removed again is
still there when the output is copied, and the copy then empties the blob. A
newer artifact beside the output counts only if it is seen.
-/

namespace Zccache

open List Unix FinMap Files Actions Actions.Action Option AList FileSystem

variable {D : Type}

section Newest

theorem newest_le_iff {base x : ℤ} {times : List ℤ} :
    newest base times ≤ x ↔ base ≤ x ∧ ∀ t ∈ times, t ≤ x := by
  unfold newest
  induction times generalizing base with
  | nil => simp
  | cons t times ih =>
    rw [foldl_cons, ih, max_le_iff, forall_mem_cons, and_assoc]

theorem le_newest (base : ℤ) (times : List ℤ) : base ≤ newest base times :=
  (newest_le_iff.mp le_rfl).1

theorem newest_mono {base : ℤ} {times times' : List ℤ} (h : ∀ t ∈ times, t ∈ times') :
    newest base times ≤ newest base times' :=
  newest_le_iff.mpr ⟨le_newest base times', fun t ht => (newest_le_iff.mp le_rfl).2 t (h t ht)⟩

variable {outPath : NormalizedPath}

theorem mem_siblingMtimes {disk : Disk} {visible : NormalizedPath → Bool} {t : ℤ} :
    t ∈ siblingMtimes disk outPath visible ↔
      ∃ path inode, isSiblingArtifact outPath path = true ∧ visible path = true ∧
        disk.read path = some inode ∧ inode.mtime = t := by
  unfold siblingMtimes
  simp only [mem_filterMap, mem_filter, Bool.and_eq_true, map_eq_some_iff]
  constructor
  · rintro ⟨path, ⟨-, hsib, hvisible⟩, inode, hread, htime⟩
    exact ⟨path, inode, hsib, hvisible, hread, htime⟩
  · rintro ⟨path, inode, hsib, hvisible, hread, htime⟩
    refine ⟨path, ⟨?_, hsib, hvisible⟩, inode, hread, htime⟩
    obtain ⟨id, hid, -⟩ := map_eq_some_iff.mp hread
    have hmem : path ∈ disk.names := by
      rw [← lookup_isSome]
      exact isSome_iff_exists.mpr ⟨id, hid⟩
    exact hmem

theorem ne_of_isSiblingArtifact {path : NormalizedPath}
    (h : isSiblingArtifact outPath path = true) : path ≠ outPath := by
  unfold isSiblingArtifact at h
  simp only [Bool.and_eq_true, decide_eq_true_eq] at h
  exact h.1.1

theorem newest_siblings_congr {disk disk' : Disk} (h : FileSystem.Preserves outPath disk disk')
    (visible : NormalizedPath → Bool) (base : ℤ) :
    newest base (siblingMtimes disk' outPath visible) =
      newest base (siblingMtimes disk outPath visible) := by
  have hmem : ∀ t, t ∈ siblingMtimes disk' outPath visible ↔
      t ∈ siblingMtimes disk outPath visible := by
    intro t
    simp only [mem_siblingMtimes]
    refine exists_congr fun path => exists_congr fun inode => and_congr_right fun hsib => ?_
    rw [h.read (ne_of_isSiblingArtifact hsib)]
  exact le_antisymm (newest_mono fun t => (hmem t).mp) (newest_mono fun t => (hmem t).mpr)

end Newest

namespace Job

section Conditions

variable (job : Job) (disk : Disk) (blob : Inode)

def expectedMtime : ℤ :=
  newest blob.mtime (siblingMtimes disk job.outPath fun _ => true)

/-- No sibling that is newer than the blob is overlooked, unless another one is as new. -/
def FloorSeen : Prop :=
  ∀ t ∈ siblingMtimes disk job.outPath (fun _ => true), t ≤ blob.mtime ∨
    (job.floorDisabled = false ∧ job.fails .listing = false ∧
      ∃ t' ∈ siblingMtimes disk job.outPath (fun path => !job.entryFails path), t ≤ t')
  deriving Decidable

/-- What is at the output can be removed. -/
def Clears : Prop :=
  job.fails .oldStat = false ∧ ((disk.identity job.outPath).isSome = true →
    job.fails .oldWritable = false ∧ job.fails .oldRemove = false)
  deriving Decidable

def reflinks : Bool :=
  (planTiers job.mode job.hardlinkEligible job.caps 0).reflink

def Clones : Prop :=
  job.reflinks = true ∧ job.fails .reflink = false
  deriving Decidable

/-- A failed clone leaves nothing. -/
def Free : Prop :=
  job.reflinks = true → job.leftover = none
  deriving Decidable

/-- The hardlink is made, protected and registered. -/
def LinkMade : Prop :=
  job.Free ∧ job.fails .prepareLink = false ∧ job.fails .hardLink = false ∧
    ¬ (job.fails .sealLinked = true ∨ job.fails .commitLink = true)
  deriving Decidable

/-- The hardlink is made and can be neither protected or registered nor removed. -/
def LinkLeft : Prop :=
  job.Free ∧ job.fails .prepareLink = false ∧ job.fails .hardLink = false ∧
    (job.fails .sealLinked = true ∨ job.fails .commitLink = true) ∧
    (job.fails .cleanupWritable = true ∨ job.fails .cleanupRemove = true)
  deriving Decidable

/-- The copy tier finds a hardlink to the blob at the output. -/
def CopiesOverLink : Prop :=
  job.isSameFile disk = false ∧ job.Clears disk ∧ job.fails .mtimeStat = false ∧ ¬ job.Clones ∧
    job.linkCandidate (disk.unlink job.outPath) (job.hit disk blob) = true ∧ job.LinkLeft
  deriving Decidable

def Copied : Prop :=
  job.fails .copyOpen = false ∧ job.fails .copyWrite = false

/-- The copy succeeds once it is opened. -/
def CopyEnds : Prop :=
  job.fails .copyWrite = false ∧ job.fails .copyWritable = false ∧ job.fails .copyStamp = false
  deriving Decidable

/-- The copy over the hardlink is opened, and either the blob is not what an empty copy is or
the copy is a success. -/
def Overwrites : Prop :=
  job.CopiesOverLink disk blob ∧ job.fails .copyOpen = false ∧
    (blob ≠ ⟨[], job.now⟩ ∨ job.CopyEnds)
  deriving Decidable

def CopyMade : Prop :=
  job.fails .copyOpen = false ∧ job.CopyEnds
  deriving Decidable

def DetachMade : Prop :=
  job.fails .detachWritable = false ∧ job.fails .detachRemove = false ∧ job.CopyMade ∧
    job.fails .sealDetached = false
  deriving Decidable

/-- An output that is the blob is kept or replaced. -/
def Kept : Prop :=
  job.fails .mtimeStat = false ∧
    if job.permitted then job.fails .sealShared = false ∧
      if (job.hit disk blob).raised then job.fails .blobLength = false ∧ job.DetachMade
      else job.fails .prepareLink = false ∧ job.fails .commitLink = false
    else job.fails .blobLength = false ∧ job.DetachMade
  deriving Decidable

def TierMade : Prop :=
  if job.Clones then job.fails .reflinkWritable = false ∧ job.fails .reflinkStamp = false
  else
    (job.linkCandidate (disk.unlink job.outPath) (job.hit disk blob) = true ∧ job.LinkMade) ∨
      job.CopyMade
  deriving Decidable

def Completes : Prop :=
  if job.isSameFile disk then job.Kept disk blob
  else job.Clears disk ∧ job.fails .mtimeStat = false ∧ job.TierMade disk blob
  deriving Decidable

variable {job disk blob}

theorem hit_mtime : (job.hit disk blob).mtime =
    if job.floorDisabled || job.fails .listing then blob.mtime
    else newest blob.mtime (siblingMtimes disk job.outPath fun path => !job.entryFails path) := by
  unfold hit siblingFloorAbove
  by_cases hoff : (job.floorDisabled || job.fails .listing) = true
  · rw [if_pos hoff, if_pos hoff]
  · rw [if_neg hoff, if_neg hoff]
    dsimp only
    split
    · next floor hfloor =>
      split at hfloor
      · cases hfloor
        rfl
      · cases hfloor
    · next hfloor =>
      split at hfloor
      · cases hfloor
      · next hle => exact le_antisymm (le_newest _ _) (not_lt.mp hle)

/-- The output gets the right time exactly if no newer sibling is overlooked. -/
theorem hit_mtime_eq_iff : (job.hit disk blob).mtime = job.expectedMtime disk blob ↔
    job.FloorSeen disk blob := by
  rw [hit_mtime]
  by_cases hoff : (job.floorDisabled || job.fails .listing) = true
  · rw [if_pos hoff]
    have hno : ¬ (job.floorDisabled = false ∧ job.fails .listing = false) := by
      rintro ⟨h, h'⟩
      rw [h, h'] at hoff
      cases hoff
    constructor
    · intro heq t ht
      exact .inl ((newest_le_iff.mp heq.ge).2 t ht)
    · intro h
      refine le_antisymm (le_newest _ _) (newest_le_iff.mpr ⟨le_rfl, fun t ht => ?_⟩)
      exact (h t ht).elim (fun hle => hle) fun hseen => absurd ⟨hseen.1, hseen.2.1⟩ hno
  · rw [if_neg hoff]
    have hon : job.floorDisabled = false ∧ job.fails .listing = false := by
      rwa [Bool.or_eq_true, not_or, Bool.not_eq_true, Bool.not_eq_true] at hoff
    have hsub : ∀ t ∈ siblingMtimes disk job.outPath (fun path => !job.entryFails path),
        t ∈ siblingMtimes disk job.outPath (fun _ => true) := by
      intro t ht
      obtain ⟨path, inode, hsib, -, hread, htime⟩ := mem_siblingMtimes.mp ht
      exact mem_siblingMtimes.mpr ⟨path, inode, hsib, rfl, hread, htime⟩
    constructor
    · intro heq t ht
      by_cases hle : t ≤ blob.mtime
      · exact .inl hle
      · refine .inr ⟨hon.1, hon.2, ?_⟩
        by_contra hnone
        push Not at hnone
        -- Then everything that is seen is older than this sibling.
        have hlt : newest blob.mtime
            (siblingMtimes disk job.outPath fun path => !job.entryFails path) ≤ t - 1 :=
          newest_le_iff.mpr ⟨by omega, fun t' ht' => by have := hnone t' ht'; omega⟩
        have hge := (newest_le_iff.mp heq.ge).2 t ht
        omega
    · intro h
      refine le_antisymm (newest_mono hsub) (newest_le_iff.mpr ⟨le_newest _ _, fun t ht => ?_⟩)
      rcases h t ht with hle | ⟨-, -, t', ht', hle⟩
      · exact hle.trans (le_newest _ _)
      · exact hle.trans ((newest_le_iff.mp le_rfl).2 t' ht')

end Conditions

section States

variable (job : Job) (disk : Disk) (blob : Inode)

variable (s : Delivery D)

/-- So far every file but the output was left alone. -/
def Safe : Prop :=
  (∀ d ∈ s.log, FileSystem.Preserves job.outPath disk d) ∧
    FileSystem.Preserves job.outPath disk s.disk

/-- The output is missing, or a file of its own. -/
def Own : Prop :=
  job.Safe disk s ∧ FileSystem.Sole job.outPath s.disk

def Filled : Prop :=
  job.Own disk s ∧ ∃ mtime, s.disk.read job.outPath = some ⟨blob.bytes, mtime⟩

def Stamped (mtime : ℤ) (s : Delivery D) : Prop :=
  job.Own disk s ∧ s.disk.read job.outPath = some ⟨blob.bytes, mtime⟩

def Linked : Prop :=
  (s.disk.identity job.outPath).isSome = true ∧
    s.disk.identity job.outPath = s.disk.identity job.cacheFile

def Recorded : Prop :=
  ∃ id ∈ s.disk.identity job.cacheFile, ∃ record ∈ s.registry.records.lookup id,
    job.outPath ∈ record.outputs ∧ s.registry.outputIds.lookup job.outPath = some id

variable {job disk blob} {s : Delivery D}

theorem Safe.start {registry : Registry D} :
    job.Safe disk (⟨disk, registry, []⟩ : Delivery D) :=
  ⟨fun _ hd => (nomatch hd), FileSystem.Preserves.refl _ _⟩

theorem linked_of_isSameFile {registry : Registry D} (h : job.isSameFile disk = true) :
    job.Linked (⟨disk, registry, []⟩ : Delivery D) := by
  unfold isSameFile at h
  simp only [Bool.and_eq_true, decide_eq_true_eq] at h
  exact ⟨h.1.2, h.2⟩

theorem Safe.setDisk (h : job.Safe disk s) {d : Disk}
    (hd : FileSystem.Preserves job.outPath disk d) :
    job.Safe disk { s with disk := d, log := d :: s.log } := by
  refine ⟨fun d' hd' => ?_, hd⟩
  rcases mem_cons.mp hd' with rfl | hold
  · exact hd
  · exact h.1 d' hold

theorem Safe.setRegistry (h : job.Safe disk s) (r : Registry D) :
    job.Safe disk { s with registry := r } := h

theorem Own.modify (h : job.Own disk s) (f : Inode → Inode) :
    job.Own disk { s with
      disk := s.disk.modify job.outPath f, log := s.disk.modify job.outPath f :: s.log } :=
  ⟨h.1.setDisk (h.1.2.modify h.2 f), h.2.modify f⟩

theorem Linked.read_eq (h : job.Linked s) :
    s.disk.read job.outPath = s.disk.read job.cacheFile := by
  rw [FileSystem.read, FileSystem.read, h.2]

theorem Linked.modify (h : job.Linked s) (f : Inode → Inode) (log : List Disk) :
    job.Linked { s with disk := s.disk.modify job.outPath f, log := log } := by
  unfold Linked
  rw [FileSystem.identity_modify, FileSystem.identity_modify]
  exact h

end States

/-- The blob has a record, and the output is noted for it. -/
def Prepared (job : Job) (id : FileIdentity) (s : Delivery D) : Prop :=
  s.disk.identity job.cacheFile = some id ∧ (s.registry.records.lookup id).isSome = true ∧
    s.registry.outputIds.lookup job.outPath = some id

theorem prepared_of_prepare (r : Registry D) (blobPath outputPath : NormalizedPath)
    (id : FileIdentity) (signature : Option StatSignature) {hash : Option D}
    (hhash : hash.isSome = true) :
    let r' := (r.prepareHardlinkRegistration blobPath outputPath id signature hash).1
    (r'.records.lookup id).isSome = true ∧ r'.outputIds.lookup outputPath = some id := by
  obtain ⟨expectedHash, rfl⟩ := isSome_iff_exists.mp hhash
  unfold Registry.prepareHardlinkRegistration
  cases hid : r.records.lookup id with
  | none => exact ⟨by rw [lookup_insert]; rfl, lookup_insert _⟩
  | some record =>
    dsimp only
    split
    · exact ⟨by rw [hid]; rfl, lookup_insert _⟩
    · exact ⟨by rw [lookup_insert]; rfl, lookup_insert _⟩

theorem lookup_cancel {r : Registry D} {id : FileIdentity} {outputPath : NormalizedPath}
    (h : ∀ id', r.outputIds.lookup outputPath = some id' → id' = id) :
    (r.cancelHardlinkRegistration id outputPath).outputIds.lookup outputPath = none := by
  unfold Registry.cancelHardlinkRegistration
  split
  · exact lookup_erase _ _
  · next hne =>
    cases hid : r.outputIds.lookup outputPath with
    | none => rfl
    | some id' =>
      rw [h id' hid] at hid
      exact absurd hid hne

section Specs

variable {job : Job} {disk : Disk} {blob : Inode} {s : Delivery D} {id : FileIdentity} {α : Type}
  {Q : α → Delivery D → Prop} {E : Delivery D → Prop}

theorem check_ends {call : FileCall} {f : Unit → Act D α} (hfail : job.fails call = true → E s)
    (hok : job.fails call = false → Ends (f ()) s Q E) : Ends (job.check call >>= f) s Q E := by
  unfold check
  cases hcall : job.fails call with
  | false => exact hok hcall
  | true => exact hfail hcall

theorem removeFile_ends (hsafe : job.Safe disk s) (call : FileCall) :
    Ends (job.removeFile call job.outPath) s
      (fun _ s' => job.Safe disk s' ∧ s'.disk.identity job.outPath = none ∧
        job.fails call = false)
      (fun s' => s' = s ∧
        ((s.disk.identity job.outPath).isSome = true → job.fails call = true)) := by
  refine check_ends (fun hfails => ⟨rfl, fun _ => hfails⟩) fun hok => .get_bind ?_
  refine .ite (fun _ => .modify ⟨hsafe.setDisk hsafe.2.unlink, ?_, hok⟩) fun hnone => ?_
  · rw [identity_unlink, if_pos rfl]
  · exact .fail ⟨rfl, fun hsome => absurd hsome hnone⟩

theorem commitDetach_ends (registration : Option (FileIdentity × NormalizedPath)) :
    Ends (job.commitDetach registration) s (fun _ s' => ∃ r, s' = { s with registry := r }) E := by
  unfold commitDetach
  split
  · exact .pure ⟨_, rfl⟩
  · exact .modify ⟨_, rfl⟩

variable (hblob : disk.read job.cacheFile = some blob) (hne : job.cacheFile ≠ job.outPath)

include hblob hne

theorem Safe.read_blob (h : job.Safe disk s) : s.disk.read job.cacheFile = some blob :=
  (h.2.read hne).trans hblob

theorem blobLength_bind (hsafe : job.Safe disk s) {f : ℕ → Act D α}
    (h : Ends (f blob.bytes.length) s Q E) : Ends (job.blobLength >>= f) s Q E := by
  have hlen : Ends job.blobLength s
      (fun length s' => length = blob.bytes.length ∧ s' = s) E := by
    refine .get_bind ?_
    rw [hsafe.read_blob hblob hne]
    exact .pure ⟨rfl, rfl⟩
  refine hlen.bind ?_ fun _ h => h
  rintro _ _ ⟨rfl, rfl⟩
  exact h

section

variable (h : job.Own disk s)

include h

theorem writeBlob_ends (hsome : (s.disk.identity job.outPath).isSome = true) :
    Ends (job.writeBlob blob.bytes.length) s (fun _ => job.Filled disk blob) E := by
  refine .modify ⟨h.modify _, job.now, ?_⟩
  obtain ⟨id, hid⟩ := Option.isSome_iff_exists.mp hsome
  rw [FileSystem.read_modify, h.1.read_blob hblob hne, FileSystem.read, hid]
  simp

omit hblob hne in
theorem Own.opened (d : Disk) (hd : d = match s.disk.identity job.outPath with
      | some _ => s.disk.modify job.outPath fun _ => ⟨[], job.now⟩
      | none => s.disk.create job.outPath ⟨[], job.now⟩) :
    job.Own disk { s with disk := d, log := d :: s.log } ∧
      (d.identity job.outPath).isSome = true := by
  cases hid : s.disk.identity job.outPath with
  | some id =>
    rw [hid] at hd
    subst hd
    exact ⟨h.modify _, by rw [identity_modify, hid]; rfl⟩
  | none =>
    rw [hid] at hd
    subst hd
    exact ⟨⟨h.1.setDisk (h.1.2.create hid _), sole_create hid _⟩,
      by rw [identity_create hid, if_pos rfl]; rfl⟩

theorem stdCopy_own :
    Ends (job.stdCopy : Act D Unit) s (fun _ s' => job.Filled disk blob s' ∧ job.Copied)
      (fun s' => job.Safe disk s' ∧ ¬ job.Copied) := by
  refine blobLength_bind hblob hne h.1 (check_ends (fun hopen => ?_) fun hopen => ?_)
  · exact ⟨h.1, fun hcopied => by simp [hcopied.1] at hopen⟩
  obtain ⟨hown, hsome⟩ := h.opened _ rfl
  refine .modify_bind (.ite (fun hwrite => .modify_bind (.fail ⟨(hown.modify _).1, ?_⟩))
    fun hwrite => ?_)
  · exact fun hcopied => by simp [hcopied.2] at hwrite
  · exact (writeBlob_ends hblob hne hown hsome).imp
      (fun _ _ hfill => ⟨hfill, hopen, Bool.eq_false_of_not_eq_true hwrite⟩) fun _ h => h

theorem byteCopy_own (hnone : s.disk.identity job.outPath = none) :
    Ends (job.byteCopy : Act D Unit) s (fun _ s' => job.Filled disk blob s' ∧ job.Copied)
      (fun s' => job.Safe disk s' ∧ ¬ job.Copied) := by
  refine blobLength_bind hblob hne h.1 (check_ends (fun hopen => ?_) fun hopen => .get_bind ?_)
  · exact ⟨h.1, fun hcopied => by simp [hcopied.1] at hopen⟩
  obtain ⟨hown, hsome⟩ := h.opened (s.disk.create job.outPath ⟨[], job.now⟩) (by rw [hnone])
  refine .ite (fun hsome => by simp [hnone] at hsome) fun _ => .modify_bind (.ite (fun hwrite => ?_)
    fun hwrite => ?_)
  · have hno : ¬ job.Copied := fun hcopied => by simp [hcopied.2] at hwrite
    refine .modify_bind (.attempt_bind ((removeFile_ends (hown.modify _).1 .copyRemove).imp
      (fun _ _ h => ?_) fun _ h => ?_))
    · exact .fail ⟨h.1, hno⟩
    · exact .fail ⟨h.1 ▸ (hown.modify _).1, hno⟩
  · exact (writeBlob_ends hblob hne hown hsome).imp
      (fun _ _ hfill => ⟨hfill, hopen, Bool.eq_false_of_not_eq_true hwrite⟩) fun _ h => h

/-- A file of its own is filled; the copy of the mode `COPY` needs the name to be free. -/
theorem copyFile_own (hmode : job.mode = .copy → s.disk.identity job.outPath = none) :
    Ends (job.copyFile : Act D Unit) s (fun _ s' => job.Filled disk blob s' ∧ job.Copied)
      (fun s' => job.Safe disk s' ∧ ¬ job.Copied) :=
  .ite (fun hcopy => byteCopy_own hblob hne h (hmode hcopy)) fun _ => stdCopy_own hblob hne h

end

omit hblob hne in
theorem stampMtime_own (h : job.Filled disk blob s) (call : FileCall) (mtime : ℤ) :
    Ends (job.stampMtime call mtime : Act D Unit) s
      (fun _ s' => job.Stamped disk blob mtime s' ∧ job.fails call = false)
      (fun s' => job.Safe disk s' ∧ job.fails call = true) := by
  obtain ⟨hown, mtime', hread⟩ := h
  refine check_ends (fun hfails => ⟨hown.1, hfails⟩) fun hok => .modify ⟨⟨hown.modify _, ?_⟩, hok⟩
  rw [read_modify, hread]
  rfl

theorem copyTier_own (h : job.Own disk s)
    (hmode : job.mode = .copy → s.disk.identity job.outPath = none) (mtime : ℤ) :
    Ends (job.copyTier mtime : Act D Unit) s
      (fun _ s' => job.Stamped disk blob mtime s' ∧ job.CopyMade)
      (fun s' => job.Safe disk s' ∧ ¬ job.CopyMade) := by
  refine (copyFile_own hblob hne h hmode).bind (fun _ s' hcopy => ?_) fun s' hfail => ?_
  · obtain ⟨hfill, hcopied⟩ := hcopy
    refine check_ends (fun hfails => ⟨hfill.1.1, ?_⟩) fun hwr => ?_
    · exact fun hmade => by simp [hmade.2.2.1] at hfails
    refine (stampMtime_own hfill .copyStamp mtime).imp (fun _ _ h => ?_) fun _ h => ?_
    · exact ⟨h.1, hcopied.1, hcopied.2, hwr, h.2⟩
    · exact ⟨h.1, fun hmade => by simp [hmade.2.2.2] at h⟩
  · exact ⟨hfail.1, fun hmade => hfail.2 ⟨hmade.1, hmade.2.1⟩⟩

theorem resolveHitMtime_bind (hsafe : job.Safe disk s) {f : HitMtime → Act D α}
    (hfail : job.fails .mtimeStat = true → E s)
    (hok : job.fails .mtimeStat = false → Ends (f (job.hit disk blob)) s Q E) :
    Ends (job.resolveHitMtime >>= f) s Q E := by
  have hhit : job.hit s.disk blob = job.hit disk blob := by
    unfold Job.hit siblingFloorAbove
    rw [newest_siblings_congr hsafe.2]
  have hres : Ends (job.resolveHitMtime : Act D HitMtime) s
      (fun hit s' => (hit = job.hit disk blob ∧ s' = s) ∧ job.fails .mtimeStat = false)
      (fun s' => s' = s ∧ job.fails .mtimeStat = true) := by
    refine check_ends (fun hfails => ⟨rfl, hfails⟩) fun hstat => .get_bind ?_
    rw [hsafe.read_blob hblob hne]
    exact .pure ⟨⟨hhit, rfl⟩, hstat⟩
  refine hres.bind ?_ ?_
  · rintro _ _ ⟨⟨rfl, rfl⟩, hstat⟩
    exact hok hstat
  · rintro _ ⟨rfl, hfails⟩
    exact hfail hfails

theorem detachWithFlooredMtime_ends (hsafe : job.Safe disk s)
    (hsome : (s.disk.identity job.outPath).isSome = true) (floor : ℤ) :
    Ends (job.detachWithFlooredMtime floor : Act D Unit) s
      (fun _ s' => job.Stamped disk blob floor s' ∧ job.DetachMade)
      (fun s' => job.Safe disk s' ∧ ¬ job.DetachMade) := by
  refine .get_bind (check_ends (fun hfails => ⟨hsafe, ?_⟩) fun hwr => ?_)
  · exact fun hmade => by simp [hmade.1] at hfails
  refine (removeFile_ends hsafe .detachRemove).bind (fun _ s₁ h => ?_) fun s₁ h => ?_
  · obtain ⟨hsafe₁, hnone, hrem⟩ := h
    have hown : job.Own disk s₁ := ⟨hsafe₁, sole_of_none hnone⟩
    refine (copyFile_own hblob hne hown fun _ => hnone).bind (fun _ s₂ h => ?_) fun s₂ h => ?_
    · obtain ⟨hfill, hopen, hwrite⟩ := h
      refine check_ends (fun hfails => ⟨hfill.1.1, ?_⟩) fun hcopyWritable => ?_
      · exact fun hmade => by simp [hmade.2.2.1.2.2.1] at hfails
      have hstamp := stampMtime_own hfill .copyStamp floor
      refine .attempt_bind (hstamp.imp (fun _ s₃ h => ?_) fun s₃ h => ?_)
      · refine check_ends (fun hfails => ⟨h.1.1.1, ?_⟩) fun hseal => ?_
        · exact fun hmade => by simp [hmade.2.2.2] at hfails
        refine (commitDetach_ends (E := fun _ => False) _).bind ?_ fun _ h => h.elim
        rintro _ _ ⟨r, rfl⟩
        exact .pure ⟨h.1, hwr, hrem, ⟨hopen, hwrite, hcopyWritable, h.2⟩, hseal⟩
      · -- Whether the stamp was set is looked at only in the end.
        have hno : ¬ job.DetachMade := fun hmade => by simp [hmade.2.2.1.2.2.2] at h
        refine check_ends (fun _ => ⟨h.1, hno⟩) fun _ => ?_
        refine (commitDetach_ends (E := fun _ => False) _).bind ?_ fun _ h => h.elim
        rintro _ _ ⟨r, rfl⟩
        exact .fail ⟨h.1, hno⟩
    · exact ⟨h.1, fun hmade => h.2 ⟨hmade.2.2.1.1, hmade.2.2.1.2.1⟩⟩
  · exact ⟨h.1 ▸ hsafe, fun hmade => by simp [hmade.2.1] at h; exact absurd hsome (by simp [h.2])⟩

omit hblob hne in
theorem removeMaterializedOutput_ends (hsafe : job.Safe disk s)
    (hid : s.disk.identity job.outPath = disk.identity job.outPath) :
    Ends (job.removeMaterializedOutput : Act D Unit) s
      (fun _ s' => job.Safe disk s' ∧ s'.disk.identity job.outPath = none ∧ job.Clears disk)
      (fun s' => job.Safe disk s' ∧ ¬ job.Clears disk) := by
  unfold removeMaterializedOutput
  refine check_ends (fun hfails => ⟨hsafe, ?_⟩) fun hstat => .get_bind ?_
  · exact fun hclears => by simp [hclears.1] at hfails
  refine .ite (fun hsome => check_ends (fun hfails => ⟨hsafe, ?_⟩) fun hwr => ?_)
    fun hnone => ?_
  · exact fun hclears => by simp [(hclears.2 (hid ▸ hsome)).1] at hfails
  · refine (removeFile_ends hsafe .oldRemove).bind (fun _ s₁ h => ?_) fun s₁ h => ⟨h.1 ▸ hsafe, ?_⟩
    · refine (commitDetach_ends (E := fun _ => False) _).imp ?_ fun _ h => h.elim
      rintro _ _ ⟨r, rfl⟩
      exact ⟨h.1, h.2.1, hstat, fun _ => ⟨hwr, h.2.2⟩⟩
    · exact fun hclears => by simp [(hclears.2 (hid ▸ hsome)).2, hsome] at h
  · rw [not_isSome_iff_eq_none] at hnone
    exact .pure ⟨hsafe, hnone, hstat, fun hsome => by simp [← hid, hnone] at hsome⟩

theorem tryReflink_ends (hsafe : job.Safe disk s) (hnone : s.disk.identity job.outPath = none) :
    Ends (job.tryReflink : Act D Bool) s
      (fun cloned s' => (cloned = true ∧ job.Clones ∧ job.Filled disk blob s') ∨
        (cloned = false ∧ ¬ job.Clones ∧ job.Own disk s' ∧
          (s'.disk.identity job.outPath = none ↔ job.Free))) E := by
  have hsole := sole_of_none hnone
  refine .ite (fun hrefs => .attempt_bind ?_) fun hrefs => .pure (.inr ?_)
  · refine .ite (fun hfails => ?_) fun hfails => .modify (.pure (.inl ?_))
    · have hno : ¬ job.Clones := fun hclones => by simp [hclones.2] at hfails
      cases hleft : job.leftover with
      | none =>
        exact .fail (.pure (.inr ⟨rfl, hno, ⟨hsafe, hsole⟩, fun _ _ => hleft, fun _ => hnone⟩))
      | some inode =>
        refine .modify_bind (.fail (.pure (.inr ⟨rfl, hno, ?_, fun h => ?_, fun hfree => ?_⟩)))
        · exact ⟨hsafe.setDisk (hsafe.2.create hnone inode), sole_create hnone inode⟩
        · simp [identity_create hnone] at h
        · simp [hfree hrefs] at hleft
    · refine ⟨rfl, ⟨hrefs, Bool.eq_false_of_not_eq_true hfails⟩,
        ⟨hsafe.setDisk (hsafe.2.create hnone _), sole_create hnone _⟩, job.now, ?_⟩
      rw [read_create hnone, hsafe.read_blob hblob hne]
      rfl
  · exact ⟨rfl, fun hclones => hrefs hclones.1, ⟨hsafe, hsole⟩,
      fun _ htrue => absurd htrue hrefs, fun _ => hnone⟩

theorem prepareRegistration_ends (H : Hasher D) (hsafe : job.Safe disk s) :
    Ends (job.prepareRegistration H) s
      (fun id s' => (∃ r, s' = { s with registry := r }) ∧ job.Prepared id s' ∧
        job.fails .prepareLink = false)
      (fun s' => s' = s ∧ job.fails .prepareLink = true) := by
  have hread := hsafe.read_blob hblob hne
  obtain ⟨id, hid, -⟩ := map_eq_some_iff.mp hread
  have hhash : (hashFile H s.disk job.cacheFile).isSome = true := by
    rw [hashFile, hread]
    rfl
  refine check_ends (fun hfails => ⟨rfl, hfails⟩) fun hprepare => .get_bind ?_
  rw [hid]
  exact .modify_bind (.pure ⟨⟨_, rfl⟩, ⟨hid, prepared_of_prepare _ _ _ _ _ hhash⟩, hprepare⟩)

omit hblob hne in
theorem commitRegistration_ends (hprep : job.Prepared id s) (hlinked : job.Linked s) :
    Ends (job.commitRegistration id) s
      (fun _ s' => (∃ r, s' = { s with registry := r }) ∧ job.Recorded s' ∧
        job.fails .commitLink = false)
      (fun s' => (∃ r, s' = { s with registry := r }) ∧
        s'.registry.outputIds.lookup job.outPath = none ∧ job.fails .commitLink = true) := by
  obtain ⟨hid, hrec, hnoted⟩ := hprep
  obtain ⟨record, hrec⟩ := isSome_iff_exists.mp hrec
  unfold commitRegistration
  refine .get_bind ?_
  cases hfails : job.fails .commitLink with
  | true =>
    have hcommit : s.registry.commitHardlinkRegistration id job.outPath none =
        (s.registry.cancelHardlinkRegistration id job.outPath, false) := by
      rw [Registry.commitHardlinkRegistration, hrec]
    simp only [if_true, hcommit]
    refine .modify_bind (.fail ⟨⟨_, rfl⟩, lookup_cancel fun id' hid' => ?_, trivial⟩)
    exact some.inj (hid'.symm.trans hnoted)
  | false =>
    have hcommit : s.registry.commitHardlinkRegistration id job.outPath
        (s.disk.identity job.outPath) = (s.registry.setRecord id fun record =>
          { record with outputs := insert job.outPath record.outputs }, true) := by
      rw [hlinked.2.trans hid, Registry.commitHardlinkRegistration, hrec]
      exact if_pos rfl
    simp only [Bool.false_eq_true, if_false, hcommit]
    refine .modify_bind (.pure ⟨⟨_, rfl⟩, ⟨id, hid, { record with
      outputs := insert job.outPath record.outputs }, ?_, Finset.mem_insert_self _ _, ?_⟩,
      trivial⟩)
    · rw [Registry.setRecord, hrec]
      exact lookup_insert _
    · rw [Registry.setRecord, hrec]
      exact hnoted

omit hblob in
theorem hardLink_ends (hown : job.Own disk s) (hprep : job.Prepared id s) :
    Ends (job.hardLink : Act D Unit) s
      (fun _ s' => job.Safe disk s' ∧ job.Prepared id s' ∧ job.Linked s' ∧
        s.disk.identity job.outPath = none ∧ job.fails .hardLink = false)
      (fun s' => s' = s ∧
        ¬ (s.disk.identity job.outPath = none ∧ job.fails .hardLink = false)) := by
  unfold hardLink
  refine check_ends (fun hfails => ⟨rfl, by simp [hfails]⟩) fun hok => .get_bind ?_
  refine .ite (fun hsome => .fail ⟨rfl, fun h => by simp [h.1] at hsome⟩) fun hnone => .modify ?_
  rw [not_isSome_iff_eq_none] at hnone
  have hcache : (s.disk.link job.cacheFile job.outPath).identity job.cacheFile = some id := by
    rw [identity_link, if_neg fun h => hne h.1, hprep.1]
  have hnew : (s.disk.link job.cacheFile job.outPath).identity job.outPath = some id := by
    rw [identity_link, if_pos ⟨rfl, hnone⟩, hprep.1]
  exact ⟨hown.1.setDisk (hown.1.2.link _), ⟨hcache, hprep.2⟩,
    ⟨isSome_iff_exists.mpr ⟨id, hnew⟩, hnew.trans hcache.symm⟩, hnone, hok⟩

omit hblob hne in
theorem cleanupFailedHardlink_ends (hsafe : job.Safe disk s) (hlinked : job.Linked s)
    (hnoted : ∀ id', s.registry.outputIds.lookup job.outPath = some id' → id' = id) :
    Ends (job.cleanupFailedHardlink id : Act D Unit) s
      (fun _ s' => job.Own disk s' ∧
        ¬ (job.fails .cleanupWritable = true ∨ job.fails .cleanupRemove = true))
      (fun s' => job.Safe disk s' ∧ job.Linked s' ∧
        s'.registry.outputIds.lookup job.outPath = none ∧
        (job.fails .cleanupWritable = true ∨ job.fails .cleanupRemove = true)) := by
  unfold cleanupFailedHardlink
  have hnone := lookup_cancel hnoted
  refine .modify_bind (check_ends (fun hfails => ⟨hsafe, hlinked, hnone, .inl hfails⟩)
    fun hwr => (removeFile_ends (hsafe.setRegistry _) .cleanupRemove).bind
      (fun _ s' h => ?_) ?_)
  · exact .modify ⟨⟨h.1, sole_of_none h.2.1⟩, by simp [hwr, h.2.2]⟩
  · rintro _ ⟨rfl, hrem⟩
    exact ⟨hsafe, hlinked, hnone, .inr (hrem hlinked.1)⟩

omit hblob hne in
theorem protectAndCommit_ends (hprep : job.Prepared id s) (hlinked : job.Linked s) :
    Ends (job.protectAndCommit id) s
      (fun _ s' => (∃ r, s' = { s with registry := r }) ∧ job.Recorded s' ∧
        ¬ (job.fails .sealLinked = true ∨ job.fails .commitLink = true))
      (fun s' => (∃ r, s' = { s with registry := r }) ∧
        (job.fails .sealLinked = true ∨ job.fails .commitLink = true) ∧
        ∀ id', s'.registry.outputIds.lookup job.outPath = some id' → id' = id) := by
  unfold protectAndCommit
  refine check_ends (fun hfails => ⟨⟨_, rfl⟩, .inl hfails, fun id' hid' => ?_⟩) fun hseal => ?_
  · exact some.inj (hid'.symm.trans hprep.2.2)
  refine (commitRegistration_ends hprep hlinked).imp (fun _ s' h => ?_) fun s' h => ?_
  · exact ⟨h.1, h.2.1, by simp [hseal, h.2.2]⟩
  · exact ⟨h.1, .inr h.2.2, fun id' hid' => by simp [h.2.1] at hid'⟩

theorem tryHardlink_ends (H : Hasher D) (hown : job.Own disk s)
    (hfree : s.disk.identity job.outPath = none ↔ job.Free) :
    Ends (job.tryHardlink H) s
      (fun linked s' => (linked = true ∧ job.LinkMade ∧ job.Safe disk s' ∧ job.Linked s' ∧
          job.Recorded s') ∨
        (linked = false ∧ ¬ job.LinkMade ∧ ((job.Own disk s' ∧ ¬ job.LinkLeft) ∨
          (job.Safe disk s' ∧ job.Linked s' ∧ s'.registry.outputIds.lookup job.outPath = none ∧
            job.LinkLeft)))) E := by
  refine .attempt_bind ((prepareRegistration_ends hblob hne H hown.1).imp ?_ ?_)
  · rintro id _ ⟨⟨r, rfl⟩, hprep, hprepare⟩
    have hown' : job.Own disk { s with registry := r } := hown
    refine .attempt_bind ((hardLink_ends hne hown' hprep).imp ?_ ?_)
    · rintro _ s₁ ⟨hsafe, hprep₁, hlinked, hnone, hlink⟩
      have hmade := hfree.mp hnone
      refine .attempt_bind ((protectAndCommit_ends hprep₁ hlinked).imp ?_ ?_)
      · rintro _ _ ⟨⟨r', rfl⟩, hrecd, hno⟩
        exact .pure (.inl ⟨rfl, ⟨hmade, hprepare, hlink, hno⟩, hsafe, hlinked, hrecd⟩)
      · rintro _ ⟨⟨r', rfl⟩, hfails, hnoted⟩
        have hno : ¬ job.LinkMade := fun hmade => hmade.2.2.2 hfails
        refine .attempt_bind ((cleanupFailedHardlink_ends (hsafe.setRegistry r') hlinked
          hnoted).imp ?_ ?_)
        · rintro _ s₂ ⟨hown₂, hclean⟩
          exact .pure (.inr ⟨rfl, hno, .inl ⟨hown₂, fun hleft => hclean hleft.2.2.2.2⟩⟩)
        · rintro s₂ ⟨hsafe₂, hlink₂, hunl, hclean⟩
          exact .pure (.inr ⟨rfl, hno, .inr ⟨hsafe₂, hlink₂, hunl, hmade, hprepare, hlink,
            hfails, hclean⟩⟩)
    · rintro _ ⟨rfl, hno⟩
      refine .modify_bind (.modify_bind (.pure (.inr ⟨rfl, fun hmade => ?_, .inl ⟨hown,
        fun hleft => ?_⟩⟩)))
      · exact hno ⟨hfree.mpr hmade.1, hmade.2.2.1⟩
      · exact hno ⟨hfree.mpr hleft.1, hleft.2.2.1⟩
  · rintro _ ⟨rfl, hfails⟩
    refine .pure (.inr ⟨rfl, fun hmade => ?_, .inl ⟨hown, fun hleft => ?_⟩⟩)
    · simp [hmade.2.1] at hfails
    · simp [hleft.2.1] at hfails

theorem registerHardlink_ends (H : Hasher D) (hsafe : job.Safe disk s) (hlinked : job.Linked s) :
    Ends (job.registerHardlink H) s
      (fun _ s' => job.Safe disk s' ∧ job.Linked s' ∧ job.Recorded s' ∧
        job.fails .prepareLink = false ∧ job.fails .commitLink = false)
      (fun s' => job.Safe disk s' ∧
        ¬ (job.fails .prepareLink = false ∧ job.fails .commitLink = false)) := by
  refine (prepareRegistration_ends hblob hne H hsafe).bind ?_ ?_
  · rintro id _ ⟨⟨r, rfl⟩, hprep, hprepare⟩
    refine (commitRegistration_ends hprep hlinked).imp ?_ ?_
    · rintro _ _ ⟨⟨r', rfl⟩, hrecd, hcommit⟩
      exact ⟨hsafe, hlinked, hrecd, hprepare, hcommit⟩
    · rintro _ ⟨⟨r', rfl⟩, -, hcommit⟩
      exact ⟨hsafe, by simp [hcommit]⟩
  · rintro _ ⟨rfl, hfails⟩
    exact ⟨hsafe, by simp [hfails]⟩

/-- The output is a name of the blob that the registry does not know, and the blob was emptied,
or was what an empty copy is. -/
structure Overwritten (job : Job) (disk : Disk) (blob : Inode) (s : Delivery D) : Prop where
  linked : job.Linked s
  unlisted : s.registry.outputIds.lookup job.outPath = none
  emptied : blob ≠ ⟨[], job.now⟩ →
    ∃ d ∈ s.log, d.read job.cacheFile ≠ disk.read job.cacheFile
  safe : blob = ⟨[], job.now⟩ → job.Safe disk s

theorem Overwritten.modify (h : Overwritten job disk blob s)
    {f : Inode → Inode} (hf : blob = ⟨[], job.now⟩ → f blob = blob) :
    Overwritten job disk blob { s with
      disk := s.disk.modify job.outPath f, log := s.disk.modify job.outPath f :: s.log } := by
  refine ⟨h.linked.modify f _, h.unlisted, fun hblob' => ?_, fun hblob' => ?_⟩
  · obtain ⟨d, hd, hread⟩ := h.emptied hblob'
    exact ⟨d, mem_cons_of_mem _ hd, hread⟩
  · have hsafe := h.safe hblob'
    refine hsafe.setDisk (hsafe.2.modify_fixed fun inode hinode => ?_)
    rw [h.linked.read_eq, hsafe.read_blob hblob hne] at hinode
    cases hinode
    exact hf hblob'

/-- Opening the output empties the blob. -/
theorem Overwritten.opened (hsafe : job.Safe disk s) (hlinked : job.Linked s)
    (hunl : s.registry.outputIds.lookup job.outPath = none) :
    let d := s.disk.modify job.outPath fun _ => ⟨[], job.now⟩
    Overwritten job disk blob { s with disk := d, log := d :: s.log } := by
  have hread := hsafe.read_blob hblob hne
  refine ⟨hlinked.modify _ _, hunl, fun hblob' => ⟨_, mem_cons_self, ?_⟩,
    fun hblob' => ?_⟩
  · have hemptied : (s.disk.modify job.outPath fun _ => ⟨[], job.now⟩).read job.cacheFile =
        some ⟨[], job.now⟩ := by
      rw [← (hlinked.modify (fun _ => ⟨[], job.now⟩) []).read_eq, read_modify,
        hlinked.read_eq, hread]
      rfl
    rw [hemptied, hblob]
    exact fun heq => hblob' (some.inj heq).symm
  · refine hsafe.setDisk (hsafe.2.modify_fixed fun inode hinode => ?_)
    rw [hlinked.read_eq, hread] at hinode
    cases hinode
    exact hblob'.symm

theorem Overwritten.writeBlob (h : Overwritten job disk blob s) (limit : ℕ) :
    Ends (job.writeBlob limit) s (fun _ => Overwritten job disk blob) E := by
  refine .modify (h.modify hblob hne fun hblob' => ?_)
  rw [(h.safe hblob').read_blob hblob hne, hblob']
  simp

theorem copyTier_linked (hsafe : job.Safe disk s) (hlinked : job.Linked s)
    (hunl : s.registry.outputIds.lookup job.outPath = none) (hmode : job.mode ≠ .copy) :
    Ends (job.copyTier blob.mtime : Act D Unit) s
      (fun _ s' => Overwritten job disk blob s' ∧ job.fails .copyOpen = false ∧ job.CopyEnds)
      (fun s' => (job.Safe disk s' ∧ job.fails .copyOpen = true) ∨
        (Overwritten job disk blob s' ∧ job.fails .copyOpen = false ∧ ¬ job.CopyEnds)) := by
  have hwritten := fun limit => (Overwritten.opened hblob hne hsafe hlinked hunl).writeBlob
    (E := fun _ => False) hblob hne limit
  obtain ⟨id, hid⟩ := isSome_iff_exists.mp hlinked.1
  have hcopy : Ends (job.stdCopy : Act D Unit) s
      (fun _ s' => Overwritten job disk blob s' ∧ job.fails .copyOpen = false ∧
        job.fails .copyWrite = false)
      (fun s' => (job.Safe disk s' ∧ job.fails .copyOpen = true) ∨
        (Overwritten job disk blob s' ∧ job.fails .copyOpen = false ∧ ¬ job.CopyEnds)) := by
    refine blobLength_bind hblob hne hsafe (check_ends (fun h => .inl ⟨hsafe, h⟩) fun hopen => ?_)
    refine .modify_bind ?_
    simp only [hid]
    refine .ite (fun hfails => (hwritten _).bind (fun _ s' h => ?_) fun _ h => h.elim)
      fun hwrite => (hwritten _).imp (fun _ s' h => ?_) fun _ h => h.elim
    · exact .fail (.inr ⟨h, hopen, fun hends => by simp [hends.1] at hfails⟩)
    · exact ⟨h, hopen, Bool.eq_false_of_not_eq_true hwrite⟩
  unfold copyTier copyFile
  rw [if_neg hmode]
  refine hcopy.bind (fun _ s' h => ?_) fun _ h => h
  obtain ⟨hover, hopen, hwrite⟩ := h
  refine check_ends (fun hfails => .inr ⟨hover, hopen, ?_⟩) fun hwr => ?_
  · exact fun hends => by simp [hends.2.1] at hfails
  refine check_ends (fun hfails => .inr ⟨hover, hopen, ?_⟩) fun hstamp => .modify ?_
  · exact fun hends => by simp [hends.2.2] at hfails
  · exact ⟨hover.modify hblob hne fun _ => rfl, hopen, hwrite, hwr, hstamp⟩

/-- The output has the bytes of the blob and the time of the hit, and shares its inode only if it
may. -/
def Delivered (job : Job) (disk : Disk) (blob : Inode) (s : Delivery D) : Prop :=
  s.disk.read job.outPath = some ⟨blob.bytes, (job.hit disk blob).mtime⟩ ∧
    (s.disk.identity job.outPath = s.disk.identity job.cacheFile →
      job.permitted = true ∧ (job.hit disk blob).raised = false ∧ job.Recorded s)

/-- The end of a delivery; `overlaid` if it copies onto a hardlink to the blob. -/
def EndsWell (job : Job) (disk : Disk) (blob : Inode) (overlaid : Prop) (s : Delivery D) : Prop :=
  (¬ overlaid ∧ job.Safe disk s ∧ Delivered job disk blob s) ∨
    (overlaid ∧ Overwritten job disk blob s ∧ job.fails .copyOpen = false ∧ job.CopyEnds)

def EndsBadly (job : Job) (disk : Disk) (blob : Inode) (overlaid : Prop) (s : Delivery D) :
    Prop :=
  (job.Safe disk s ∧ ¬ (overlaid ∧ job.fails .copyOpen = false)) ∨
    (overlaid ∧ Overwritten job disk blob s ∧ job.fails .copyOpen = false ∧ ¬ job.CopyEnds)

omit hblob in
theorem Stamped.delivered (h : job.Stamped disk blob (job.hit disk blob).mtime s) :
    Delivered job disk blob s := by
  refine ⟨h.2, fun hsame => ?_⟩
  obtain ⟨id, hid, -⟩ := map_eq_some_iff.mp h.2
  exact absurd (hsame.symm.trans hid) (h.1.2 job.cacheFile hne id hid)

omit hne hblob in
theorem mtime_of_not_raised (h : (job.hit disk blob).raised = false) :
    (job.hit disk blob).mtime = blob.mtime := by
  unfold Job.hit at h ⊢
  split at h
  · cases h
  · rfl

omit hblob hne in
theorem Safe.endsBadly {overlaid : Prop} (h : job.Safe disk s) (hover : ¬ overlaid) :
    EndsBadly job disk blob overlaid s :=
  .inl ⟨h, fun hboth => hover hboth.1⟩

theorem Linked.delivered (hsafe : job.Safe disk s) (h : job.Linked s)
    (hperm : job.permitted = true) (hraised : (job.hit disk blob).raised = false)
    (hrecd : job.Recorded s) : Delivered job disk blob s := by
  refine ⟨?_, fun _ => ⟨hperm, hraised, hrecd⟩⟩
  rw [h.read_eq, hsafe.read_blob hblob hne, mtime_of_not_raised hraised]

theorem Own.linkCandidate_eq (h : job.Own disk s) (hit : HitMtime) :
    job.linkCandidate s.disk hit = job.linkCandidate (disk.unlink job.outPath) hit := by
  have hcount : hardLinkCount s.disk job.cacheFile =
      hardLinkCount (disk.unlink job.outPath) job.cacheFile := by
    obtain ⟨id, hid, -⟩ := map_eq_some_iff.mp hblob
    have hcache : s.disk.identity job.cacheFile = some id := (h.1.2.identity _ hne).trans hid
    have hcache' : (disk.unlink job.outPath).identity job.cacheFile = some id := by
      rw [identity_unlink, if_neg hne, hid]
    rw [hardLinkCount, hardLinkCount, hcache, hcache']
    simp only [map_some, getD_some, linkCount]
    congr 1
    ext path
    rw [mem_aliases, mem_aliases, identity_unlink]
    by_cases hpath : path = job.outPath
    · rw [if_pos hpath, hpath]
      exact ⟨fun hout => absurd hcache (h.2 job.cacheFile hne id hout), fun h => (nomatch h)⟩
    · rw [if_neg hpath, h.1.2.identity path hpath]
  unfold linkCandidate
  rw [hcount]

omit hne hblob in
theorem of_linkCandidate {d : Disk} {hit : HitMtime} (h : job.linkCandidate d hit = true) :
    job.permitted = true ∧ hit.raised = false := by
  unfold linkCandidate planTiers at h
  simp only [Bool.and_eq_true, Bool.not_eq_true'] at h
  exact ⟨h.1.1, h.2⟩

omit hne hblob in
theorem ne_copy_of_permitted (h : job.permitted = true) : job.mode ≠ .copy := by
  intro hmode
  unfold permitted hardlinkPermitted at h
  rw [hmode] at h
  simp at h

omit hblob hne in
theorem free_of_copy (hmode : job.mode = .copy) : job.Free := by
  intro hrefs
  unfold reflinks caps at hrefs
  rw [if_pos hmode] at hrefs
  cases hrefs

theorem tiers_ends (H : Hasher D) (hsafe : job.Safe disk s)
    (hnone : s.disk.identity job.outPath = none) :
    let overlaid := ¬ job.Clones ∧
      job.linkCandidate (disk.unlink job.outPath) (job.hit disk blob) = true ∧ job.LinkLeft
    Ends (job.tiers H (job.hit disk blob)) s
      (fun _ s' => job.TierMade disk blob ∧ EndsWell job disk blob overlaid s')
      (fun s' => ¬ job.TierMade disk blob ∧ EndsBadly job disk blob overlaid s') := by
  intro overlaid
  refine (tryReflink_ends (E := fun _ => False) hblob hne hsafe hnone).bind ?_ fun _ h => h.elim
  rintro _ s₁ (⟨rfl, hclones, hfill⟩ | ⟨rfl, hclones, hown, hfree⟩)
  · have hover : ¬ overlaid := fun hover => hover.1 hclones
    have hmade : job.TierMade disk blob ↔
        job.fails .reflinkWritable = false ∧ job.fails .reflinkStamp = false := by
      rw [TierMade, if_pos hclones]
    rw [hmade]
    refine check_ends (fun hfails => ⟨by simp [hfails], hfill.1.1.endsBadly hover⟩) fun hok => ?_
    refine (stampMtime_own hfill .reflinkStamp _).imp (fun _ s' h => ?_) fun s' h => ?_
    · exact ⟨⟨hok, h.2⟩, .inl ⟨hover, h.1.1.1, h.1.delivered hne⟩⟩
    · exact ⟨by simp [h.2], h.1.endsBadly hover⟩
  · have hmade : job.TierMade disk blob ↔
        (job.linkCandidate (disk.unlink job.outPath) (job.hit disk blob) = true ∧ job.LinkMade) ∨
          job.CopyMade := by
      rw [TierMade, if_neg hclones]
    -- The copy is made over a file of its own.
    have hcopy : ∀ {s₂ : Delivery D}, job.Own disk s₂ →
        (job.mode = .copy → s₂.disk.identity job.outPath = none) → ¬ overlaid →
        ¬ (job.linkCandidate (disk.unlink job.outPath) (job.hit disk blob) = true ∧
          job.LinkMade) → Ends (job.copyTier (job.hit disk blob).mtime : Act D Unit) s₂
        (fun _ s' => job.TierMade disk blob ∧ EndsWell job disk blob overlaid s')
        (fun s' => ¬ job.TierMade disk blob ∧ EndsBadly job disk blob overlaid s') := by
      intro s₂ hown₂ hmode hover hlink
      refine (copyTier_own hblob hne hown₂ hmode _).imp (fun _ s' h => ?_) fun s' h => ?_
      · exact ⟨hmade.mpr (.inr h.2), .inl ⟨hover, h.1.1.1, h.1.delivered hne⟩⟩
      · exact ⟨fun hmade' => (hmade.mp hmade').elim hlink h.2, h.1.endsBadly hover⟩
    refine .get_bind ?_
    rw [hown.linkCandidate_eq hblob hne]
    refine .ite (fun hcand => ?_) fun hcand => ?_
    · obtain ⟨hperm, hraised⟩ := of_linkCandidate hcand
      have hmode := ne_copy_of_permitted hperm
      refine (tryHardlink_ends (E := fun _ => False) hblob hne H hown hfree).bind ?_
        fun _ h => h.elim
      rintro _ s₂ (⟨rfl, hlink, hsafe₂, hlinked, hrecd⟩ | ⟨rfl, hlink, hleft⟩)
      · refine .pure ⟨hmade.mpr (.inl ⟨hcand, hlink⟩), .inl ⟨fun hover => ?_, hsafe₂, ?_⟩⟩
        · exact hlink.2.2.2 hover.2.2.2.2.2.1
        · exact hlinked.delivered hblob hne hsafe₂ hperm hraised hrecd
      · rcases hleft with ⟨hown₂, hno⟩ | ⟨hsafe₂, hlinked, hunl, hleft⟩
        · exact hcopy hown₂ (fun h => absurd h hmode) (fun hover => hno hover.2.2)
            fun h => hlink h.2
        · have hover : overlaid := ⟨hclones, hcand, hleft⟩
          rw [mtime_of_not_raised hraised]
          refine (copyTier_linked hblob hne hsafe₂ hlinked hunl hmode).imp
            (fun _ s' h => ⟨hmade.mpr (.inr h.2), .inr ⟨hover, h⟩⟩) ?_
          rintro s' (⟨hsafe', hopen⟩ | ⟨hover', hopen, hends⟩)
          · refine ⟨fun hmade' => ?_, .inl ⟨hsafe', fun hboth => by simp [hboth.2] at hopen⟩⟩
            rcases hmade.mp hmade' with hlink' | hcopy'
            · exact hlink hlink'.2
            · simp [hcopy'.1] at hopen
          · refine ⟨fun hmade' => ?_, .inr ⟨hover, hover', hopen, hends⟩⟩
            exact (hmade.mp hmade').elim (fun h => hlink h.2) fun h => hends h.2
    · exact hcopy hown (fun hmode => hfree.mpr (free_of_copy hmode))
        (fun hover => hcand hover.2.1) fun h => hcand h.1

theorem keepOrDetach_ends (H : Hasher D) (hsafe : job.Safe disk s) (hlinked : job.Linked s) :
    Ends (job.keepOrDetach H) s
      (fun _ s' => job.Kept disk blob ∧ job.Safe disk s' ∧ Delivered job disk blob s')
      (fun s' => ¬ job.Kept disk blob ∧ job.Safe disk s') := by
  have hdet : Ends (job.detachWithFlooredMtime (job.hit disk blob).mtime) s
      (fun _ s' => job.DetachMade ∧ job.Safe disk s' ∧ Delivered job disk blob s')
      fun s' => ¬ job.DetachMade ∧ job.Safe disk s' :=
    (detachWithFlooredMtime_ends hblob hne hsafe hlinked.1 _).imp
      (fun _ s' h => ⟨h.2, h.1.1.1, h.1.delivered hne⟩) fun s' h => ⟨h.2, h.1⟩
  unfold keepOrDetach Kept
  refine .ite (fun hperm => ?_) fun hperm => ?_
  · rw [if_pos hperm]
    refine check_ends (fun hfails => ⟨by simp [hfails], hsafe⟩) fun hseal => ?_
    refine resolveHitMtime_bind hblob hne hsafe (fun hfails => ⟨by simp [hfails], hsafe⟩)
      fun hstat => ?_
    refine .ite (fun hraised => ?_) fun hraised => ?_
    · rw [if_pos hraised]
      refine check_ends (fun hfails => ⟨by simp [hfails], hsafe⟩) fun hlen => ?_
      exact hdet.imp (fun _ s' h => ⟨⟨hstat, hseal, hlen, h.1⟩, h.2⟩)
        fun s' h => ⟨fun hkept => h.1 hkept.2.2.2, h.2⟩
    · rw [if_neg hraised]
      refine (registerHardlink_ends hblob hne H hsafe hlinked).imp (fun _ s' h => ?_)
        fun s' h => ⟨fun hkept => h.2 hkept.2.2, h.1⟩
      exact ⟨⟨hstat, hseal, h.2.2.2⟩, h.1, h.2.1.delivered hblob hne h.1 hperm
        (Bool.eq_false_of_not_eq_true hraised) h.2.2.1⟩
  · rw [if_neg hperm]
    refine check_ends (fun hfails => ⟨by simp [hfails], hsafe⟩) fun hlen => ?_
    refine resolveHitMtime_bind hblob hne hsafe (fun hfails => ⟨by simp [hfails], hsafe⟩)
      fun hstat => ?_
    exact hdet.imp (fun _ s' h => ⟨⟨hstat, hlen, h.1⟩, h.2⟩)
      fun s' h => ⟨fun hkept => h.1 hkept.2.2, h.2⟩

/-- What a delivery ends with, and which calls it depends on. -/
theorem materialize_ends (H : Hasher D) (registry : Registry D) :
    Ends (job.materializeVerifiedCachedFileTiers H) ⟨disk, registry, []⟩
      (fun _ s' => job.Completes disk blob ∧
        EndsWell job disk blob (job.CopiesOverLink disk blob) s')
      (fun s' => ¬ job.Completes disk blob ∧
        EndsBadly job disk blob (job.CopiesOverLink disk blob) s') := by
  have hsafe : job.Safe disk (⟨disk, registry, []⟩ : Delivery D) := Safe.start
  unfold materializeVerifiedCachedFileTiers Completes
  refine .get_bind (.ite (fun hsame => ?_) fun hsame => ?_)
  · have hover : ¬ job.CopiesOverLink disk blob := fun hover => by simp [hover.1] at hsame
    rw [if_pos hsame]
    exact (keepOrDetach_ends hblob hne H hsafe (linked_of_isSameFile hsame)).imp
      (fun _ s' h => ⟨h.1, .inl ⟨hover, h.2⟩⟩)
      fun s' h => ⟨h.1, h.2.endsBadly hover⟩
  · rw [if_neg hsame]
    refine (removeMaterializedOutput_ends hsafe rfl).bind (fun _ s₁ h => ?_) fun s₁ h => ?_
    · obtain ⟨hsafe₁, hnone, hclears⟩ := h
      refine resolveHitMtime_bind hblob hne hsafe₁ (fun hfails => ⟨by simp [hfails], .inl
        ⟨hsafe₁, fun hboth => by simp [hboth.1.2.2.1] at hfails⟩⟩) fun hstat => ?_
      have hover : (¬ job.Clones ∧
          job.linkCandidate (disk.unlink job.outPath) (job.hit disk blob) = true ∧
            job.LinkLeft) ↔ job.CopiesOverLink disk blob :=
        ⟨fun h => ⟨Bool.eq_false_of_not_eq_true hsame, hclears, hstat, h⟩, fun h => h.2.2.2⟩
      have htiers := tiers_ends hblob hne H hsafe₁ hnone
      simp only [hover] at htiers
      exact htiers.imp (fun _ s' h => ⟨⟨hclears, hstat, h.1⟩, h.2⟩)
        fun s' h => ⟨fun hcompletes => h.1 hcompletes.2.2, h.2⟩
    · exact ⟨fun hcompletes => h.2 hcompletes.1, .inl ⟨h.1, fun hboth => h.2 hboth.1.2.1⟩⟩

end Specs

end Job

end Zccache
