import Zccache.Fscache.Trust

/-! # Remembered digests

Who wants the digest of a file asks the metadata cache. It answers from a trusted
entry that fits the file's time and size, and else reads the file. A caller sees
of it the digests that are remembered for the files as they are: an edit that
changes time or size makes the cache forget, and so does a report of the watcher.
-/

namespace Zccache

open Unix FinMap Option

variable {D : Type}

/-- The digests of the trusted entries that fit the files. -/
abbrev Remembered (D : Type) := Map NormalizedPath D

namespace Remembered

variable (k : Remembered D) (path : NormalizedPath)

/-- The digest that is answered for a file, given that of its content. -/
def hashFile (content : Option D) : Option D :=
  content.map (k.lookup path).getD

/-- An edit may leave the time and the size of the file as they were. -/
def edited (sameStat : Bool) : Remembered D :=
  if sameStat then k else k.erase path

def reported (changed : List NormalizedPath) : Remembered D :=
  FinMap.filter (fun p _ => p ∉ changed) k

/-- Another lookup leaves an entry, an entry is loaded, or it goes. -/
def updated (digest : Option D) : Remembered D :=
  digest.elim (k.erase path) (k.insert path)

/-- Nothing is remembered for a file that is there, or the digest of its content. -/
def Truthful (content : Option D) : Prop :=
  ∀ d ∈ content, ∀ d' ∈ k.lookup path, d' = d

instance [DecidableEq D] (content : Option D) : Decidable (k.Truthful path content) :=
  inferInstanceAs (Decidable (∀ d ∈ content, _))

variable {k path} {content : Option D}

theorem Truthful.hashFile_eq (h : k.Truthful path content) : k.hashFile path content = content := by
  cases content with
  | none => rfl
  | some d =>
    unfold hashFile
    cases hk : k.lookup path with
    | none => rfl
    | some d' => exact congrArg some (h d rfl d' hk)

theorem Truthful.mono {k' : Remembered D} (h : k.Truthful path content)
    (hk : ∀ d, k'.lookup path = some d → k.lookup path = some d) : k'.Truthful path content :=
  fun d hd d' hd' => h d hd d' (hk d' hd')

theorem lookup_of_edited {p : NormalizedPath} {sameStat : Bool} {d : D}
    (h : (k.edited p sameStat).lookup path = some d) : k.lookup path = some d := by
  unfold edited at h
  split at h
  · exact h
  · exact lookup_of_erase h

theorem lookup_updated {p : NormalizedPath} {digest : Option D} (hne : path ≠ p) :
    (k.updated p digest).lookup path = k.lookup path := by
  cases digest with
  | none => exact (lookup_erase_eq_ite ..).trans (if_neg hne)
  | some d => exact (lookup_insert_eq_ite ..).trans (if_neg hne)

/-- A change of one file and of what is remembered for it leaves the others as they were. -/
theorem truthful_of_frame {k' : Remembered D} {contents contents' : NormalizedPath → Option D}
    (h : ∀ p, k.Truthful p (contents p)) (path : NormalizedPath)
    (hself : k'.Truthful path (contents' path))
    (hother : ∀ p ≠ path, contents' p = contents p ∧
      ∀ d, k'.lookup p = some d → k.lookup p = some d) (p : NormalizedPath) :
    k'.Truthful p (contents' p) := by
  by_cases hp : p = path
  · exact hp ▸ hself
  · obtain ⟨hcontent, hlookup⟩ := hother p hp
    exact hcontent ▸ (h p).mono hlookup

end Remembered

/-- What a lookup observes of a file that stays as it is. -/
def Observations.steady (stat : FileStat) (content : Text) : Observations where
  stat := .found stat
  first := some ⟨stat, content, stat⟩
  retries _ := none
  last := some stat

namespace CacheSystem

variable (toleranceNs : ℕ) (c : CacheSystem D) (path : NormalizedPath) (stat : FileStat)

/-- The digest of a trusted entry that fits the file. -/
def remembered : Option D :=
  (c.metadata.lookup path).bind fun entry =>
    if entry.confidence ≠ .low ∧ mtimesMatch toleranceNs entry.stat.mtime stat.mtime ∧
        entry.stat.size = stat.size then entry.contentHash
    else none

variable {toleranceNs c path stat} {H : Hasher D} {content : Text} {now : ℕ}

theorem hashAndInsert_steady (hsize : content.length = stat.size) :
    (c.hashAndInsert H path now (.steady stat content)).2 = some (H.hashText content) := by
  have hhash : Attempt.hash H ⟨stat, content, stat⟩ = H.hashText content := by
    unfold Attempt.hash
    split
    · next hzero => rw [List.length_eq_zero_iff.mp (hsize.trans hzero)]
    · rfl
  simp [hashAndInsert, hashedEntry, Observations.steady, Attempt.stable, Attempt.entry, hhash]

/-- A lookup answers with the digest of the content, or with a remembered one. -/
theorem lookup_steady (hsize : content.length = stat.size) :
    ∃ d, (c.lookup H path now (.steady stat content)).2 = some d ∧
      (d = H.hashText content ∨ c.remembered toleranceNs path stat = some d) := by
  have hread := @hashAndInsert_steady D c path stat H content now hsize
  unfold lookup get
  cases hentry : c.metadata.lookup path with
  | none => exact ⟨_, hread, .inl rfl⟩
  | some entry =>
    simp only [map_some, Observations.steady]
    cases hhash : (entry.decayed now).contentHash with
    | none => exact ⟨_, hread, .inl rfl⟩
    | some d =>
      dsimp only
      split
      · next hfits =>
        have hstat : entry.stat = stat := hfits.1
        refine ⟨d, rfl, .inr ?_⟩
        have hmtime : mtimesMatch toleranceNs entry.stat.mtime stat.mtime = true := by
          simp [mtimesMatch, hstat]
        rw [remembered, hentry, bind_some,
          if_pos ⟨confidence_ne_low_of_decayed hfits.2, hmtime, by rw [hstat]⟩]
        exact hhash
      · exact ⟨_, hread, .inl rfl⟩

theorem lookupSince_steady {since : Clock} (hsize : content.length = stat.size) :
    ∃ d, (c.lookupSince H toleranceNs path since now (.found stat) (.steady stat content)).2 =
        some d ∧
      (d = H.hashText content ∨ c.remembered toleranceNs path stat = some d) := by
  unfold lookupSince
  dsimp only
  split
  · next d hfast =>
    refine ⟨d, rfl, .inr ?_⟩
    split at hfast
    · cases hfast
    · unfold getCachedHashIfStatValid at hfast
      unfold remembered
      split at hfast
      · next entry stat' hentry hstat =>
        cases hstat
        rw [hentry, bind_some]
        exact hfast
      · cases hfast
  · exact lookup_steady hsize

def Untrusted (path : NormalizedPath) (c : CacheSystem D) : Prop :=
  ∀ entry ∈ c.metadata.lookup path, entry.confidence = .low

theorem Untrusted.remove (h : Untrusted path c) (p : NormalizedPath) :
    Untrusted path (c.remove p) :=
  fun entry hentry => h entry (lookup_of_erase hentry)

theorem untrusted_downgrade {p : NormalizedPath} (h : p ≠ path → Untrusted path c) :
    Untrusted path (c.downgrade p) := by
  unfold downgrade
  intro entry hentry
  cases hold : c.metadata.lookup p with
  | none =>
    rw [hold] at hentry
    refine h ?_ entry hentry
    rintro rfl
    rw [hold] at hentry
    cases hentry
  | some old =>
    rw [hold] at hentry
    obtain ⟨rfl, rfl⟩ | ⟨hne, hkept⟩ := lookup_insert_eq_some.mp hentry
    · rfl
    · exact h (Ne.symm hne) entry hkept

/-- After a report nothing is remembered for the file. -/
theorem remembered_applyChanges {changed removed : List NormalizedPath}
    (h : path ∈ changed ++ removed) :
    (c.applyChangesWithRemovals changed removed).remembered toleranceNs path stat = none := by
  have hchanged : path ∈ changed → Untrusted path (Run.run downgrade c changed) := by
    intro hmem
    obtain ⟨pre, post, rfl⟩ := List.append_of_mem hmem
    rw [Run.run_append, Run.run_cons]
    exact Run.run_invariant (untrusted_downgrade fun hne => absurd rfl hne)
      (fun _ _ hlow => untrusted_downgrade fun _ => hlow) post
  have huntrusted : Untrusted path (Run.run remove (Run.run downgrade c changed) removed) := by
    rcases List.mem_append.mp h with hmem | hmem
    · exact Run.run_invariant (hchanged hmem)
        (fun _ p hlow => hlow.remove p) removed
    · obtain ⟨pre, post, rfl⟩ := List.append_of_mem hmem
      rw [Run.run_append, Run.run_cons]
      refine Run.run_invariant (fun entry hentry => ?_)
        (fun _ p hlow => hlow.remove p) post
      rw [remove, lookup_erase_eq_ite, if_pos rfl] at hentry
      cases hentry
  unfold remembered
  change (((Run.run remove (Run.run downgrade c changed) removed).metadata.lookup path).bind _) = _
  cases hentry : (Run.run remove (Run.run downgrade c changed) removed).metadata.lookup path with
  | none => rfl
  | some entry =>
    rw [bind_some, if_neg]
    exact fun hfits => hfits.1 (huntrusted entry hentry)

/-- Trusted entries for files whose content goes with their metadata are remembered truthfully. -/
theorem Trustworthy.remembered_eq {contentOf : NormalizedPath → FileStat → Text}
    (h : c.Trustworthy H contentOf) {d : D} (hd : c.remembered 0 path stat = some d) :
    d = H.hashText (contentOf path stat) := by
  unfold remembered at hd
  obtain ⟨entry, hentry, hd⟩ := bind_eq_some_iff.mp hd
  split at hd
  · next hfits =>
    have hstat : entry.stat = stat := by
      obtain ⟨-, hmtime, hsize⟩ := hfits
      cases hst : entry.stat with
      | mk mtime size =>
        rw [hst] at hmtime hsize
        cases stat
        simp_all [mtimesMatch]
    rw [← hstat]
    exact h path entry hentry hfits.1 d hd
  · cases hd

end CacheSystem

end Zccache
