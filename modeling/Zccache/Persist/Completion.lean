import Zccache.Persist.Delivered

/-! # When a delivery is sound

Exactly when a delivery leaves the blobs alone and the output as it should be.
-/

namespace Zccache

open Unix FinMap Files Actions Actions.Action

variable {D : Type}

namespace Job

/-- What is asked of a delivery: no blob changes at any step, and a success leaves the bytes of
the blob at the output, with the time of the newest artifact there, in a file of its own unless
the blob may be shared, nothing is newer, and the link is in the registry. -/
def Sound (job : Job) (blobs : List NormalizedPath) (disk : Disk) (blob : Inode)
    (r : Option Unit × Delivery D) : Prop :=
  (∀ d ∈ r.2.log, ∀ path ∈ blobs, d.read path = disk.read path) ∧
    (r.1.isSome = true →
      r.2.disk.read job.outPath = some ⟨blob.bytes, job.expectedMtime disk blob⟩ ∧
        (r.2.disk.identity job.outPath = r.2.disk.identity job.cacheFile →
          job.permitted = true ∧ job.expectedMtime disk blob = blob.mtime ∧ job.Recorded r.2))

instance (job : Job) (s : Delivery D) : Decidable (job.Recorded s) :=
  inferInstanceAs (Decidable (∃ id ∈ _, ∃ record ∈ _, _))

instance (job : Job) (blobs : List NormalizedPath) (disk : Disk) (blob : Inode)
    (r : Option Unit × Delivery D) : Decidable (job.Sound blobs disk blob r) :=
  inferInstanceAs (Decidable (_ ∧ _))

variable {job : Job} {disk : Disk} {blob : Inode} {blobs : List NormalizedPath} {s : Delivery D}

theorem Safe.blobs_kept (h : job.Safe disk s) (hout : job.outPath ∉ blobs) :
    ∀ d ∈ s.log, ∀ path ∈ blobs, d.read path = disk.read path :=
  fun d hd _ hpath => (h.1 d hd).read (ne_of_mem_of_not_mem hpath hout)

theorem Overwritten.blobs_kept_iff (h : job.Overwritten disk blob s)
    (hcache : job.cacheFile ∈ blobs) (hout : job.outPath ∉ blobs) :
    (∀ d ∈ s.log, ∀ path ∈ blobs, d.read path = disk.read path) ↔ blob = ⟨[], job.now⟩ := by
  refine ⟨fun hlog => ?_, fun hblob' => (h.safe hblob').blobs_kept hout⟩
  by_contra hblob'
  obtain ⟨d, hd, hread⟩ := h.emptied hblob'
  exact hread (hlog d hd _ hcache)

theorem sound_none_iff : job.Sound blobs disk blob (none, s) ↔
    ∀ d ∈ s.log, ∀ path ∈ blobs, d.read path = disk.read path :=
  ⟨fun h => h.1, fun h => ⟨h, fun h' => (nomatch h')⟩⟩

/-- A delivery does what is asked of it exactly if no copy goes over a hardlink to the blob and a
success overlooks no newer artifact. -/
theorem materialize_sound_iff (H : Hasher D) (registry : Registry D)
    (hblob : disk.read job.cacheFile = some blob) (hcache : job.cacheFile ∈ blobs)
    (hout : job.outPath ∉ blobs) :
    job.Sound blobs disk blob (job.materializeVerifiedCachedFileTiers H ⟨disk, registry, []⟩) ↔
      ¬ job.Overwrites disk blob ∧ (job.Completes disk blob → job.FloorSeen disk blob) := by
  have hne : job.cacheFile ≠ job.outPath := ne_of_mem_of_not_mem hcache hout
  have hends := materialize_ends hblob hne H registry
  unfold Ends at hends
  rcases hr : job.materializeVerifiedCachedFileTiers H ⟨disk, registry, []⟩ with ⟨result, s⟩
  rw [hr] at hends
  cases result with
  | none =>
    obtain ⟨hcompletes, hend⟩ := hends
    rw [sound_none_iff, and_iff_left fun h => absurd h hcompletes]
    rcases hend with ⟨hsafe, hno⟩ | ⟨hcopies, hover, hopen, hends⟩
    · exact iff_of_true (hsafe.blobs_kept hout) fun h => hno ⟨h.1, h.2.1⟩
    · rw [hover.blobs_kept_iff hcache hout]
      refine ⟨fun hblob' h => ?_, fun h => ?_⟩
      · exact h.2.2.elim (fun hne' => hne' hblob') hends
      · by_contra hblob'
        exact h ⟨hcopies, hopen, .inl hblob'⟩
  | some u =>
    obtain ⟨hcompletes, hend⟩ := hends
    rw [forall_prop_of_true hcompletes, ← hit_mtime_eq_iff]
    rcases hend with ⟨hno, hsafe, hread, hshared⟩ | ⟨hcopies, hover, hopen, hends⟩
    · rw [and_iff_right fun h : job.Overwrites disk blob => hno h.1]
      refine ⟨fun h => ?_, fun h => ⟨hsafe.blobs_kept hout, fun _ => ?_⟩⟩
      · have heq := hread.symm.trans (h.2 rfl).1
        simp only [Option.some.injEq, Inode.mk.injEq, true_and] at heq
        exact heq
      · refine ⟨h ▸ hread, fun hsame => ?_⟩
        obtain ⟨hperm, hraised, hrecd⟩ := hshared hsame
        exact ⟨hperm, h ▸ mtime_of_not_raised hraised, hrecd⟩
    · -- The link is not in the registry, whatever became of the blob.
      refine iff_of_false (fun h => ?_) fun h => h.1 ⟨hcopies, hopen, .inr hends⟩
      obtain ⟨id, -, record, -, -, hlist⟩ := ((h.2 rfl).2 hover.linked.2).2.2
      rw [hover.unlisted] at hlist
      cases hlist

def sampleBlob : Inode :=
  ⟨"code", 10⟩

def sampleDisk : Disk :=
  ((FileSystem.empty ⟨[], 0⟩).create (.new "/cache/blob") sampleBlob).create
    (.new "/out/liba.rlib") ⟨[], 20⟩

def sampleJob (fails : List FileCall) : Job where
  outPath := .new "/build/libb.rlib"
  cacheFile := .new "/cache/blob"
  mode := .link
  hardlinkEligible := true
  probedCaps := ⟨false, true, 100⟩
  floorDisabled := false
  fails := (· ∈ fails)
  entryFails := fun _ => false
  leftover := none
  written := 0
  now := 30

/-- If a hardlink can be neither registered nor removed, the copy leaves the blob empty. If the
directory cannot be listed, the output is older than the library beside it. -/
theorem materialize_unsound :
    let blobs := [NormalizedPath.new "/cache/blob"]
    let job := sampleJob [.commitLink, .cleanupRemove]
    let beside := { sampleJob [.listing] with outPath := .new "/out/libb.rlib" }
    let r := job.materializeVerifiedCachedFileTiers Hasher.transparent ⟨sampleDisk, .empty, []⟩
    let r' := beside.materializeVerifiedCachedFileTiers Hasher.transparent ⟨sampleDisk, .empty, []⟩
    (sampleDisk.read job.cacheFile = some sampleBlob ∧ r.1.isSome = true ∧
      r.2.disk.read job.cacheFile = some ⟨[], 10⟩ ∧ ¬ job.Sound blobs sampleDisk sampleBlob r) ∧
    (r'.1.isSome = true ∧ r'.2.disk.read beside.outPath = some ⟨"code", 10⟩ ∧
      ¬ beside.Sound blobs sampleDisk sampleBlob r') := by
  decide +kernel

theorem materialize_sound_sampleJob :
    let job := sampleJob [.commitLink]
    job.Sound [.new "/cache/blob"] sampleDisk sampleBlob
      (job.materializeVerifiedCachedFileTiers Hasher.transparent ⟨sampleDisk, .empty, []⟩) :=
  (materialize_sound_iff Hasher.transparent .empty (by decide +kernel) (by decide +kernel)
    (by decide +kernel)).mpr (by decide +kernel)

end Job

end Zccache
