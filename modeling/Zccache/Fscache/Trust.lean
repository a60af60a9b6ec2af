import Zccache.Base.Run
import Zccache.Fscache.Metadata

/-! # Trusted digests

An entry of medium or high trust should hold the digest of the content that the
file has with the recorded metadata. Entries whose digest was taken between two
equal stats do, if the file was not changed and changed back in between. The
entry that is left when the stats never agree does not, and neither a rescan
nor a saved snapshot tells it apart.
-/

namespace Zccache

open List Unix FinMap Run Option CacheSystem

variable {D : Type}

namespace CacheSystem

/-- The trusted entries hold the digests of the contents that belong to their metadata. -/
def Trustworthy (H : Hasher D) (contentOf : NormalizedPath → FileStat → Text)
    (c : CacheSystem D) : Prop :=
  ∀ path entry, c.metadata.lookup path = some entry → entry.confidence ≠ .low →
    ∀ hash ∈ entry.contentHash, hash = H.hashText (contentOf path entry.stat)

section Conditions

variable (contentOf : NormalizedPath → FileStat → Text)

/-- If the stats before and after agree, the bytes that were read are those of that state. -/
def Untouched (path : NormalizedPath) (o : Observations) : Prop :=
  ∀ attempt ∈ o.first :: List.ofFn o.retries, ∀ a ∈ attempt, a.pre = a.post →
    a.read = contentOf path a.pre
  deriving Decidable

/-- No file is changed and changed back while it is hashed, and no entry for which the stats never
agreed is promoted by a rescan or comes back from a snapshot. -/
def Regular (c : CacheSystem D) : Event → Prop
  | .lookup path _ o => Untouched contentOf path o
  | .lookupSince _ path _ _ _ o => Untouched contentOf path o
  | .rescanAll stats _ => ∀ e ∈ c.metadata.entries,
      e.2.confidence = .low → stats e.1 = some e.2.stat → e.2.settled = true
  | .mergeFromDisk _ => ∀ saved ∈ c.snapshot, ∀ e ∈ saved.entries, e.2.settled = true
  | .restart _ => ∀ saved ∈ c.snapshot, ∀ e ∈ saved.entries, e.2.settled = true
  | _ => True

instance (c : CacheSystem D) : (event : Event) → Decidable (Regular contentOf c event)
  | .lookup path _ o => inferInstanceAs (Decidable (Untouched contentOf path o))
  | .lookupSince _ path _ _ _ o => inferInstanceAs (Decidable (Untouched contentOf path o))
  | .rescanAll _ _ => inferInstanceAs (Decidable (∀ e ∈ c.metadata.entries, _))
  | .mergeFromDisk _ => inferInstanceAs (Decidable (∀ saved ∈ c.snapshot, _))
  | .restart _ => inferInstanceAs (Decidable (∀ saved ∈ c.snapshot, _))
  | .register _ | .downgrade _ | .applyChanges _ _ | .applyOverflow | .trim _ _
  | .evictCandidates _ | .remove _ | .clear | .save => isTrue trivial

end Conditions

section Invariant

variable {H : Hasher D} {contentOf : NormalizedPath → FileStat → Text}

/-- A settled digest is right, and a trusted entry is settled. -/
structure Sound (H : Hasher D) (contentOf : NormalizedPath → FileStat → Text)
    (path : NormalizedPath) (entry : FileMetadata D) : Prop where
  settled : entry.confidence ≠ .low → entry.settled = true
  hash : entry.settled = true → ∀ hash ∈ entry.contentHash,
    hash = H.hashText (contentOf path entry.stat)

structure Inv (H : Hasher D) (contentOf : NormalizedPath → FileStat → Text)
    (c : CacheSystem D) : Prop where
  metadata : ∀ path entry, c.metadata.lookup path = some entry → Sound H contentOf path entry
  snapshot : ∀ saved ∈ c.snapshot, ∀ path entry, saved.lookup path = some entry →
    entry.settled = true → entry.contentHash = H.hashText (contentOf path entry.stat)

theorem Inv.trustworthy {c : CacheSystem D} (h : c.Inv H contentOf) :
    c.Trustworthy H contentOf := by
  intro path entry hentry htrust
  have hsound := h.metadata path entry hentry
  exact hsound.hash (hsound.settled htrust)

variable {path : NormalizedPath} {entry : FileMetadata D} {now : ℕ}

theorem Sound.downgraded (h : Sound H contentOf path entry) :
    Sound H contentOf path entry.downgraded :=
  ⟨fun hlow => absurd rfl hlow, h.hash⟩

theorem Sound.promoted (h : Sound H contentOf path entry) (hset : entry.settled = true) :
    Sound H contentOf path { entry with confidence := .high, lastVerified := now } :=
  ⟨fun _ => hset, h.hash⟩

theorem confidence_ne_low_of_decayed (h : (entry.decayed now).confidence ≠ .low) :
    entry.confidence ≠ .low := by
  intro hlow
  apply h
  rw [FileMetadata.decayed, hlow]

section

variable (hsize : ∀ p stat, (contentOf p stat).length = stat.size)

include hsize

theorem hash_of_stable {a : Attempt} (hstable : a.stable = true)
    (hread : a.pre = a.post → a.read = contentOf path a.pre) :
    a.hash H = H.hashText (contentOf path a.post) := by
  have heq : a.pre = a.post := of_decide_eq_true hstable
  unfold Attempt.hash
  split
  · next hzero =>
    have hempty : contentOf path a.post = [] :=
      eq_nil_of_length_eq_zero (by rw [hsize, ← heq, hzero])
    rw [hempty]
  · rw [hread heq, heq]

theorem Sound.of_stable {a : Attempt} (hstable : a.stable = true)
    (hread : a.pre = a.post → a.read = contentOf path a.pre) :
    Sound H contentOf path (a.entry H now) := by
  refine ⟨fun _ => rfl, ?_⟩
  rintro - hash ⟨⟩
  exact hash_of_stable hsize hstable hread

theorem Sound.retryEntry {first : Attempt} {last : Option FileStat}
    {retries : List (Option Attempt)}
    (hread : ∀ attempt ∈ retries, ∀ a ∈ attempt, a.pre = a.post → a.read = contentOf path a.pre)
    (h : retryEntry H now first last retries = some entry) : Sound H contentOf path entry := by
  induction retries with
  | nil =>
    obtain ⟨stat, -, rfl⟩ := map_eq_some_iff.mp h
    exact ⟨fun hlow => absurd rfl hlow, fun hset => nomatch hset⟩
  | cons attempt rest ih =>
    cases attempt with
    | none => cases h
    | some a =>
      rw [Zccache.retryEntry] at h
      split at h
      · next hstable =>
        cases h
        exact .of_stable hsize hstable (hread (some a) mem_cons_self a rfl)
      · exact ih (fun attempt hmem => hread attempt (mem_cons_of_mem _ hmem)) h

end

variable {o : Observations}

theorem Sound.hashedEntry (hsize : ∀ p stat, (contentOf p stat).length = stat.size)
    (hread : Untouched contentOf path o) (h : hashedEntry H now o = some entry) :
    Sound H contentOf path entry := by
  obtain ⟨first, hfirst, h⟩ := bind_eq_some_iff.mp h
  split at h
  · next hstable =>
    cases h
    exact .of_stable hsize hstable (hread o.first mem_cons_self first hfirst)
  · refine .retryEntry hsize (fun attempt hmem => hread attempt (mem_cons_of_mem _ ?_)) h
    exact hmem

variable {c : CacheSystem D}

variable (h : c.Inv H contentOf)

include h

theorem Inv.insert (hentry : Sound H contentOf path entry) :
    (c.insert path entry).Inv H contentOf := by
  refine ⟨?_, h.snapshot⟩
  intro path' entry' hlook
  obtain ⟨rfl, rfl⟩ | ⟨-, hold⟩ := lookup_insert_eq_some.mp hlook
  · assumption
  · exact h.metadata path' entry' hold

theorem Inv.of_lookup {c' : CacheSystem D}
    (hmeta : ∀ path entry, c'.metadata.lookup path = some entry →
      c.metadata.lookup path = some entry) (hsnap : c'.snapshot = c.snapshot) :
    c'.Inv H contentOf := by
  refine ⟨fun path entry hentry => h.metadata path entry (hmeta path entry hentry), ?_⟩
  rw [hsnap]
  exact h.snapshot

theorem Inv.remove (path : NormalizedPath) : (c.remove path).Inv H contentOf :=
  h.of_lookup (fun _ _ hentry => lookup_of_erase hentry) rfl

theorem Inv.filter (p : NormalizedPath → FileMetadata D → Bool) :
    { c with metadata := FinMap.filter p c.metadata }.Inv H contentOf := by
  refine h.of_lookup (fun path entry hentry => ?_) rfl
  rw [lookup_filter] at hentry
  exact (filter_eq_some_iff.mp hentry).1

theorem Inv.downgrade (path : NormalizedPath) : (c.downgrade path).Inv H contentOf := by
  unfold CacheSystem.downgrade
  cases hentry : c.metadata.lookup path with
  | none => exact h
  | some entry => exact h.insert (h.metadata path entry hentry).downgraded

theorem Inv.map {f : NormalizedPath → FileMetadata D → FileMetadata D}
    (hf : ∀ path entry, c.metadata.lookup path = some entry →
      Sound H contentOf path (f path entry)) :
    { c with metadata := FinMap.map f c.metadata }.Inv H contentOf := by
  refine ⟨fun path entry hentry => ?_, h.snapshot⟩
  rw [lookup_map] at hentry
  obtain ⟨entry', hentry', rfl⟩ := map_eq_some_iff.mp hentry
  exact hf path entry' hentry'

section

variable (hsize : ∀ p stat, (contentOf p stat).length = stat.size)
  (hread : Untouched contentOf path o)

include hsize hread

theorem Inv.hashAndInsert : (c.hashAndInsert H path now o).1.Inv H contentOf := by
  unfold CacheSystem.hashAndInsert
  cases hentry : Zccache.hashedEntry H now o with
  | none => exact h
  | some entry => exact h.insert (.hashedEntry hsize hread hentry)

theorem Inv.lookup : (c.lookup H path now o).1.Inv H contentOf := by
  have hhash : (c.hashAndInsert H path now o).1.Inv H contentOf := h.hashAndInsert hsize hread
  unfold CacheSystem.lookup
  cases hget : c.get path now with
  | none => exact hhash
  | some entry =>
    cases hstat : o.stat with
    | notFound => exact h.remove path
    | failed => exact h
    | found stat =>
      cases hash : entry.contentHash with
      | none =>
        simp only [hash]
        exact hhash
      | some hash' =>
        simp only [hash]
        split
        · next htrust =>
          obtain ⟨stored, hstored, rfl⟩ := map_eq_some_iff.mp hget
          have hsound := h.metadata path stored hstored
          have hset := hsound.settled (confidence_ne_low_of_decayed htrust.2)
          refine h.insert ⟨fun _ => hset, ?_⟩
          rintro - hash'' hmem
          exact hsound.hash hset hash'' (hash.trans hmem)
        · exact hhash

theorem Inv.lookupSince {toleranceNs : ℕ} {since : Clock} {fastStat : StatResult} :
    (c.lookupSince H toleranceNs path since now fastStat o).1.Inv H contentOf := by
  unfold CacheSystem.lookupSince
  generalize (if c.journal.changedSince path since then none
    else c.getCachedHashIfStatValid toleranceNs path fastStat) = fast
  cases fast with
  | none => exact h.lookup hsize hread
  | some hash => exact h

end

theorem Inv.applyChangesWithRemovals (changed removed : List NormalizedPath) :
    (c.applyChangesWithRemovals changed removed).Inv H contentOf := by
  have hdowngraded : (run CacheSystem.downgrade c changed).Inv H contentOf :=
    run_invariant h (fun _ path hc => hc.downgrade path) changed
  have hrem : (run CacheSystem.remove (run CacheSystem.downgrade c changed) removed).Inv
      H contentOf :=
    run_invariant hdowngraded (fun _ path hc => hc.remove path) removed
  exact ⟨hrem.metadata, hrem.snapshot⟩

theorem Inv.saveToDisk : c.saveToDisk.Inv H contentOf := by
  unfold CacheSystem.saveToDisk
  dsimp only
  split
  · exact h
  · refine ⟨h.metadata, ?_⟩
    rintro saved ⟨⟩ path entry hentry
    rw [lookup_filterMap] at hentry
    obtain ⟨stored, hstored, hmap⟩ := bind_eq_some_iff.mp hentry
    obtain ⟨hash, hhash, rfl⟩ := map_eq_some_iff.mp hmap
    exact fun hset => (h.metadata path stored hstored).hash hset hash hhash

theorem Inv.loadFromDisk (hset : ∀ saved ∈ c.snapshot, ∀ e ∈ saved.entries, e.2.settled = true)
    (hentry : (c.loadFromDisk now).lookup path = some entry) : Sound H contentOf path entry := by
  rw [CacheSystem.loadFromDisk, lookup_map] at hentry
  obtain ⟨persisted, hpersisted, rfl⟩ := map_eq_some_iff.mp hentry
  cases hsaved : c.snapshot with
  | none =>
    rw [hsaved] at hpersisted
    cases hpersisted
  | some saved =>
    rw [hsaved] at hpersisted
    have hsettle := hset saved hsaved ⟨path, persisted⟩ (AList.mem_lookup_iff.mp hpersisted)
    refine ⟨fun _ => hsettle, ?_⟩
    rintro - hash ⟨⟩
    exact h.snapshot saved hsaved path persisted hpersisted hsettle

theorem Inv.step (hsize : ∀ p stat, (contentOf p stat).length = stat.size) (event : Event)
    (hregular : Regular contentOf c event) :
    (c.step H event).Inv H contentOf := by
  cases event with
  | lookup path now o => exact h.lookup hsize hregular
  | lookupSince toleranceNs path since now fastStat o => exact h.lookupSince hsize hregular
  | register path => exact ⟨h.metadata, h.snapshot⟩
  | downgrade path => exact h.downgrade path
  | applyChanges changed removed => exact h.applyChangesWithRemovals changed removed
  | applyOverflow =>
    have hall := h.map fun path entry hentry => (h.metadata path entry hentry).downgraded
    exact ⟨hall.metadata, hall.snapshot⟩
  | rescanAll stats now =>
    refine h.map fun path entry hentry => ?_
    have hsound := h.metadata path entry hentry
    unfold rescanned
    split
    · next hmatch =>
      exact hsound.promoted
        (hregular ⟨path, entry⟩ (AList.mem_lookup_iff.mp hentry) hmatch.1 hmatch.2)
    · exact hsound
  | trim maxAge now =>
    have hkept := h.filter fun _ entry => now - entry.lastVerified ≤ maxAge
    exact ⟨hkept.metadata, hkept.snapshot⟩
  | evictCandidates candidates =>
    have hkept := h.filter fun path entry => (path, entry.lastVerified) ∉ candidates
    exact ⟨hkept.metadata, hkept.snapshot⟩
  | remove path => exact h.remove path
  | clear => exact ⟨fun path entry hentry => (nomatch hentry), h.snapshot⟩
  | save => exact h.saveToDisk
  | mergeFromDisk now =>
    refine ⟨fun path entry hentry => ?_, h.snapshot⟩
    rcases AList.mem_lookup_union.mp hentry with hloaded | ⟨-, hkept⟩
    · exact h.loadFromDisk hregular hloaded
    · exact h.metadata path entry hkept
  | restart now => exact ⟨fun path entry hentry => h.loadFromDisk hregular hentry, h.snapshot⟩

end Invariant

/-- Along every sequence of operations, with files that change between them and during them, the
trusted entries hold the right digests, unless a file is changed and changed back while it is
hashed, or an entry for which the stats never agreed is promoted or loaded. -/
theorem trustworthy_run (H : Hasher D) (contentOf : NormalizedPath → FileStat → Text)
    (hsize : ∀ path stat, (contentOf path stat).length = stat.size) (events : List Event)
    (hregular : Along (step H) (Regular contentOf) .new events) :
    (run (step H) .new events).Trustworthy H contentOf := by
  have hnew : (.new : CacheSystem D).Inv H contentOf :=
    ⟨fun path entry hentry => (nomatch hentry), fun saved hsaved => (nomatch hsaved)⟩
  exact (run_invariant_along hnew (fun _ event h hevent => h.step hsize event hevent)
    hregular).trustworthy

private def header : NormalizedPath :=
  .new "/w/a.h"

/-- The first version of a file is different from the later ones, all of one size. -/
private def versions (_ : NormalizedPath) (stat : FileStat) : Text :=
  List.replicate stat.size (if stat.mtime = 1 then 'a' else 'b')

private theorem length_versions (path : NormalizedPath) (stat : FileStat) :
    (versions path stat).length = stat.size :=
  length_replicate

/-- An attempt during which the file goes from one version to the next. -/
private def touched (mtime : ℤ) : Attempt where
  pre := ⟨mtime, 1⟩
  read := versions header ⟨mtime, 1⟩
  post := ⟨mtime + 1, 1⟩

private def gaveUp : Observations where
  stat := .notFound
  first := some (touched 1)
  retries i := some (touched (i.val + 2))
  last := some ⟨5, 1⟩

private def settledLater : Observations where
  stat := .notFound
  first := some (touched 1)
  retries _ := some ⟨⟨2, 1⟩, versions header ⟨2, 1⟩, ⟨2, 1⟩⟩
  last := none

/-- Another version stands in the file's place while it is read. -/
private def swapped : Observations where
  stat := .notFound
  first := some ⟨⟨1, 1⟩, versions header ⟨2, 1⟩, ⟨1, 1⟩⟩
  retries _ := none
  last := none

private theorem not_trustworthy {H : Hasher D} {contentOf : NormalizedPath → FileStat → Text}
    {c : CacheSystem D} (path : NormalizedPath)
    (h : ∃ entry ∈ c.metadata.lookup path, entry.confidence ≠ .low ∧
      ∃ hash ∈ entry.contentHash, hash ≠ H.hashText (contentOf path entry.stat)) :
    ¬ c.Trustworthy H contentOf := by
  obtain ⟨entry, hentry, htrust, hash, hhash, hne⟩ := h
  exact fun htrustworthy => hne (htrustworthy path entry hentry htrust hash hhash)

/-- The digest of the first version is recorded with the metadata of the last one, and a rescan, a
restart and a merge each make that entry a trusted one. So is the digest of a version that stood
in the file's place while it was read. -/
theorem untrustworthy_runs :
    (∀ path stat, (versions path stat).length = stat.size) ∧
    (¬ (run (step Hasher.transparent) .new
      [.lookup header 0 gaveUp, .rescanAll (fun _ => some ⟨5, 1⟩) 1]).Trustworthy
        Hasher.transparent versions) ∧
    (¬ (run (step Hasher.transparent) .new
      [.lookup header 0 gaveUp, .save, .restart 1]).Trustworthy Hasher.transparent versions) ∧
    (¬ (run (step Hasher.transparent) .new
      [.lookup header 0 gaveUp, .save, .mergeFromDisk 1]).Trustworthy
        Hasher.transparent versions) ∧
    ¬ (run (step Hasher.transparent) .new [.lookup header 0 swapped]).Trustworthy
      Hasher.transparent versions := by
  refine ⟨length_versions, ?_, ?_, ?_, ?_⟩ <;>
    exact not_trustworthy header (by decide +kernel)

/-- A run of every kind of operation, with a file that changes while it is hashed. -/
private def sampleEvents : List Event :=
  [.lookup header 0 settledLater, .applyChanges [header] [], .rescanAll (fun _ => some ⟨2, 1⟩) 1,
    .save, .applyOverflow, .lookupSince 0 header 0 2 .notFound settledLater, .mergeFromDisk 3,
    .downgrade header, .evictCandidates [(header, 0)], .restart 4]

theorem trustworthy_run_sampleEvents :
    (run (step Hasher.transparent) .new sampleEvents).Trustworthy Hasher.transparent versions :=
  trustworthy_run Hasher.transparent versions length_versions sampleEvents (by decide +kernel)

end CacheSystem

end Zccache
