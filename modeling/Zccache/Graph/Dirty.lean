import Zccache.Graph.Persistence

/-! # The dirty flag

A save is skipped while the flag is clear. Two operations change what a save would
write without setting it: an update that finds no hash for one of its files, and
an eviction that removes no context but drops files no context refers to.
-/

namespace Zccache

open Unix FinMap Traverse Option

variable {D : Type} [DecidableEq D]

/-- The same records, in whatever order the maps were walked. -/
def DepGraphSnapshot.SameRecords (s s' : DepGraphSnapshot D) : Prop :=
  s.files.Perm s'.files ∧ s.contexts.Perm s'.contexts

instance (s s' : DepGraphSnapshot D) : Decidable (s.SameRecords s') :=
  inferInstanceAs (Decidable (_ ∧ _))

namespace ContextEntry

variable {H : Host D} {getHash : NormalizedPath → Option D} {envValue : Name → Option Text}

def MissesHash (getHash : NormalizedPath → Option D) (e : ContextEntry D)
    (externs : Option Externs) : Prop :=
  ∃ p ∈ e.inputFiles ++ (externs.getD []).map Prod.snd, getHash p = none

omit [DecidableEq D] in
theorem hashFiles_eq_none_iff {paths : List NormalizedPath} :
    hashFiles getHash paths = none ↔ ∃ p ∈ paths, getHash p = none := by
  rw [hashFiles, mapM_eq_none_iff]
  simp only [map_eq_none_iff]

omit [DecidableEq D] in
theorem collectRustcExternHashes_eq_none_iff {externs : Externs} :
    collectRustcExternHashes getHash externs = none ↔
      ∃ p ∈ externs.map Prod.snd, getHash p = none := by
  rw [collectRustcExternHashes, mapM_eq_none_iff]
  constructor
  · rintro ⟨e, he, hnone⟩
    exact ⟨e.2, List.mem_map_of_mem he, map_eq_none_iff.mp hnone⟩
  · rintro ⟨p, hp, hnone⟩
    obtain ⟨e, he, rfl⟩ := List.mem_map.mp hp
    exact ⟨e, he, map_eq_none_iff.mpr hnone⟩

omit [DecidableEq D] in
theorem update_snd_eq_none_iff (e : ContextEntry D) (externs : Option Externs) (scan : ScanResult)
    (names : List Name) (now : ℕ) :
    (e.update H getHash envValue externs scan names now).2 = none ↔
      (e.recordScan scan now).MissesHash getHash externs := by
  simp only [update, MissesHash, List.mem_append, or_and_right, exists_or]
  cases hfiles : hashFiles getHash (e.recordScan scan now).inputFiles with
  | none => simpa using .inl (hashFiles_eq_none_iff.mp hfiles)
  | some fileHashes =>
    have hnone : ¬ ∃ p ∈ (e.recordScan scan now).inputFiles, getHash p = none := by
      rw [← hashFiles_eq_none_iff, hfiles]
      simp
    simp only [hnone, false_or]
    cases externs with
    | none => simp [writeKey]
    | some externs =>
      rw [getD_some, ← collectRustcExternHashes_eq_none_iff]
      simp only [writeKey]
      cases collectRustcExternHashes getHash externs <;> simp

omit [DecidableEq D] in
theorem update_fst_of_none {e : ContextEntry D} {externs : Option Externs} {scan : ScanResult}
    {names : List Name} {now : ℕ}
    (h : (e.update H getHash envValue externs scan names now).2 = none) :
    (e.update H getHash envValue externs scan names now).1 = e.recordScan scan now := by
  rcases update_cases H getHash envValue e externs scan names now with
    hfail | ⟨_, _, _, _, _, hok⟩
  · rw [hfail]
  · rw [hok] at h
    cases h

omit [DecidableEq D] in
theorem toSnapshot_recordScan (key : ContextKey D) (e : ContextEntry D) (externs : Externs)
    (scan : ScanResult) (now : ℕ) :
    (e.recordScan scan now).toSnapshot key externs = e.toSnapshot key externs ↔
      e.recordScan scan now = e := by
  constructor
  · intro h
    obtain ⟨logicalKey, context, keyRoot, resolved, unresolved, computed, artifactKey, hashes,
      envDeps, accessed, state⟩ := e
    simp only [toSnapshot, recordScan, ContextEntrySnapshot.mk.injEq] at h
    have hresolved : pathsToStrings scan.resolved = pathsToStrings resolved := by tauto
    have hpaths := congrArg stringsToPaths hresolved
    rw [stringsToPaths_pathsToStrings, stringsToPaths_pathsToStrings] at hpaths
    simp only [recordScan, ContextEntry.mk.injEq]
    tauto
  · intro h
    rw [h]

end ContextEntry

namespace DepGraph

variable {H : Host D} {g g' : DepGraph D}

/-- Snapshots hold the same records exactly when the graphs would be saved alike. -/
theorem sameRecords_iff (g g' : DepGraph D) (now : ℕ) :
    (g.toSnapshotAt now).SameRecords (g'.toSnapshotAt now) ↔ SavedAlike g g' := by
  let fileRecord (path : NormalizedPath) (includes : List IncludeDirective) : FileEntrySnapshot :=
    ⟨toText path.path, includes.map IncludeDirective.toSnapshot⟩
  have hkey : ∀ path includes, NormalizedPath.new (fileRecord path includes).path = path :=
    fun path _ => NormalizedPath.new_toText path
  have hfiles : (g.toSnapshotAt now).files.Perm (g'.toSnapshotAt now).files ↔
      ∀ path, (g.files.lookup path).map (fileRecord path) =
        (g'.files.lookup path).map (fileRecord path) :=
    perm_map_entries_iff (fun s => .new s.path) fileRecord fileRecord hkey hkey
  let contextRecord (g : DepGraph D) (key : ContextKey D) (e : ContextEntry D) :=
    e.toSnapshot key ((g.getRustcExterns key).getD [])
  have hctxs : (g.toSnapshotAt now).contexts.Perm (g'.toSnapshotAt now).contexts ↔
      ∀ key, (g.contexts.lookup key).map (contextRecord g key) =
        (g'.contexts.lookup key).map (contextRecord g' key) :=
    perm_map_entries_iff ContextEntrySnapshot.key (contextRecord g) (contextRecord g')
      (fun _ _ => rfl) (fun _ _ => rfl)
  have hrec : ∀ path (l l' : Option (List IncludeDirective)),
      l.map (fileRecord path) = l'.map (fileRecord path) ↔
        l.map (List.map IncludeDirective.toSnapshot) =
          l'.map (List.map IncludeDirective.toSnapshot) := by
    intro path l l'
    cases l <;> cases l' <;> simp [fileRecord]
  constructor
  · rintro ⟨hf, hc⟩
    exact ⟨fun path => (hrec path _ _).mp (hfiles.mp hf path), hctxs.mp hc⟩
  · rintro ⟨hf, hc⟩
    exact ⟨hfiles.mpr fun path => (hrec path _ _).mpr (hf path), hctxs.mpr hc⟩

theorem SavedAlike.of_lookup (hfiles : ∀ path, g'.files.lookup path = g.files.lookup path)
    (hctxs : ∀ k, g'.contexts.lookup k = g.contexts.lookup k)
    (hexts : ∀ k, (g.contexts.lookup k).isSome →
      g'.rustcExterns.lookup k = g.rustcExterns.lookup k) : SavedAlike g g' := by
  constructor
  · intro path
    rw [hfiles]
  · intro key
    cases he : g.contexts.lookup key with
    | none => rw [hctxs, he, map_none, map_none]
    | some e =>
      have he' := (hctxs key).trans he
      rw [he', getRustcExterns_of_lookup he, getRustcExterns_of_lookup he',
        hexts key (by rw [he]; rfl)]

def HasUnreferencedFile (g : DepGraph D) : Prop :=
  ∃ path, (g.files.lookup path).isSome ∧ path ∉ g.referencedFiles

end DepGraph

/-- The operations that change what a save would write without setting the flag. -/
def PublicOp.ChangesUnmarked (g : DepGraph D) : PublicOp D → Prop
  | .graph (.updateWithEnv key scan getHash _ _ now) =>
    ∃ inst e, g.resolveInstanceKey key = some inst ∧ g.contexts.lookup inst = some e ∧
      (e.recordScan scan now).MissesHash getHash (g.rustcExterns.lookup inst) ∧
      e.recordScan scan now ≠ e
  | .graph (.evictContexts keys) =>
    (∀ k ∈ keys, g.contexts.lookup k = none) ∧ g.HasUnreferencedFile
  | .graph (.trimAt maxAge nowMs) =>
    (∀ s ∈ g.contexts.entries, maxAge ≠ 0 ∧
      nowMs - s.2.lastAccessedUnixMs ≤ min (maxAge / 1000000) (2 ^ 64 - 1)) ∧
      g.HasUnreferencedFile
  | _ => False

/-- The operations that set the flag whenever they may have changed something. -/
def PublicOp.marks : PublicOp D → Bool
  | .graph (.updateWithEnv ..) => false
  | .graph (.evictContexts ..) => false
  | .graph (.trimAt ..) => false
  | _ => true

namespace DepGraph

variable {H : Host D} {g g' : DepGraph D}

variable {getHash : NormalizedPath → Option D} {envValue : Name → Option Text}
variable {key inst : ContextKey D} {scan : ScanResult} {names : List Name} {now : ℕ}
variable {e : ContextEntry D}

theorem savedAlike_insert_iff {e' : ContextEntry D} (he : g.contexts.lookup inst = some e)
    (hfiles : g'.files = g.files) (hctxs : g'.contexts = g.contexts.insert inst e')
    (hexts : g'.rustcExterns = g.rustcExterns) :
    SavedAlike g g' ↔ e'.toSnapshot inst ((g.rustcExterns.lookup inst).getD []) =
      e.toSnapshot inst ((g.rustcExterns.lookup inst).getD []) := by
  have hinst : g'.contexts.lookup inst = some e' := by
    rw [hctxs, AList.lookup_insert]
  have hother : ∀ k, k ≠ inst → g'.contexts.lookup k = g.contexts.lookup k := by
    intro k hk
    rw [hctxs, AList.lookup_insert_ne hk]
  constructor
  · intro h
    have hrec := h.contexts inst
    rw [he, hinst, map_some, map_some, getRustcExterns_of_lookup he,
      getRustcExterns_of_lookup hinst, hexts] at hrec
    exact (some.inj hrec).symm
  · intro hrec
    constructor
    · intro path
      rw [hfiles]
    · intro k
      by_cases hk : k = inst
      · rw [hk, he, hinst, map_some, map_some, getRustcExterns_of_lookup he,
          getRustcExterns_of_lookup hinst, hexts, hrec]
      · cases hold : g.contexts.lookup k with
        | none => rw [hother k hk, hold, map_none, map_none]
        | some old =>
          have hnew := (hother k hk).trans hold
          rw [hnew, getRustcExterns_of_lookup hold, getRustcExterns_of_lookup hnew, hexts]

theorem updateWithEnv_marks_iff :
    (¬ SavedAlike g (g.updateWithEnv H getHash envValue key scan names now).1 →
        (g.updateWithEnv H getHash envValue key scan names now).1.dirty = true) ↔
      (g.dirty = true ∨ ¬ PublicOp.ChangesUnmarked g
        (.graph (.updateWithEnv key scan getHash names envValue now))) := by
  cases hentry : (g.resolveInstanceKey key).bind fun inst => (g.contexts.lookup inst).map fun e =>
      (inst, e) with
  | none =>
    have hsame : (g.updateWithEnv H getHash envValue key scan names now).1 = g := by
      unfold updateWithEnv
      split
      · rfl
      · next inst hres =>
        rw [hres, bind_some, map_eq_none_iff] at hentry
        rw [hentry]
    have hunchanged : ¬ PublicOp.ChangesUnmarked g
        (.graph (.updateWithEnv key scan getHash names envValue now)) := by
      rintro ⟨inst, e, hres, he, -, -⟩
      rw [hres, bind_some, he] at hentry
      cases hentry
    simp [hsame, hunchanged, SavedAlike.refl]
  | some found =>
    obtain ⟨inst, hres, hfound⟩ := bind_eq_some_iff.mp hentry
    obtain ⟨e, he, rfl⟩ := map_eq_some_iff.mp hfound
    have hunmarked : PublicOp.ChangesUnmarked g
        (.graph (.updateWithEnv key scan getHash names envValue now)) ↔
        (e.update H getHash envValue (g.rustcExterns.lookup inst) scan names now).2 = none ∧
          e.recordScan scan now ≠ e := by
      rw [ContextEntry.update_snd_eq_none_iff]
      constructor
      · rintro ⟨inst', e', hres', he', hmiss, hne⟩
        obtain rfl := some.inj (hres.symm.trans hres')
        obtain rfl := some.inj (he.symm.trans he')
        exact ⟨hmiss, hne⟩
      · rintro ⟨hmiss, hne⟩
        exact ⟨inst, e, hres, he, hmiss, hne⟩
    rw [hunmarked, updateWithEnv, hres]
    dsimp only
    rw [he]
    dsimp only
    generalize hresult : e.update H getHash envValue (g.rustcExterns.lookup inst) scan names now =
      result
    have halike : SavedAlike g { g with
        contexts := g.contexts.insert inst result.1
        dirty := g.dirty || result.2.isSome } ↔ _ := savedAlike_insert_iff he rfl rfl rfl
    rw [halike]
    cases hkey : result.2 with
    | some k => simp
    | none =>
      have hfst : result.1 = e.recordScan scan now := by
        rw [← hresult] at hkey ⊢
        exact ContextEntry.update_fst_of_none hkey
      rw [hfst, ContextEntry.toSnapshot_recordScan]
      by_cases hsame : e.recordScan scan now = e
      all_goals simp [hsame]

theorem registerContextEntry_dirty (g : DepGraph D) (key : ContextKey D) (ctx : CompileContext D)
    (keyRoot : Option NormalizedPath) (now : ℕ) :
    (g.registerContextEntry H key ctx keyRoot now).1.dirty = true := by
  simp only [registerContextEntry]
  split
  · rfl
  · simp only [indexInstance]
    split
    · split <;> rfl
    · rfl

theorem checkDiagnosticWithEnv_marks (g : DepGraph D) (key : ContextKey D)
    (isFresh : NormalizedPath → Bool) (getHash : NormalizedPath → Option D)
    (envValue : Name → Option Text) (now : ℕ) :
    SavedAlike g (g.checkDiagnosticWithEnv H isFresh getHash envValue key now).1 ∨
      (g.checkDiagnosticWithEnv H isFresh getHash envValue key now).1.dirty = true := by
  simp only [checkDiagnosticWithEnv]
  split
  · exact .inl (.of_lookup (fun _ => rfl) (fun _ => rfl) fun _ _ => rfl)
  · split
    · exact .inl (.of_lookup (fun _ => rfl) (fun _ => rfl) fun _ _ => rfl)
    · exact .inr rfl

theorem invalidateArtifactKeys_marks (g : DepGraph D) (evictedHex : List Text) :
    SavedAlike g (g.invalidateArtifactKeys H.toHasher evictedHex).1 ∨
      (g.invalidateArtifactKeys H.toHasher evictedHex).1.dirty = true := by
  by_cases hnone : ∀ s ∈ g.contexts.entries, s.2.namesEvicted H.toHasher evictedHex = false
  · left
    apply SavedAlike.of_lookup
    · intro path
      unfold invalidateArtifactKeys
      split <;> rfl
    · intro k
      rw [lookup_invalidateArtifactKeys]
      cases he : g.contexts.lookup k with
      | none => rfl
      | some e =>
        have hkept := hnone ⟨k, e⟩ (AList.mem_lookup_iff.mp he)
        simp [clearIfEvicted_eq, hkept]
    · intro k _
      rw [(invalidateArtifactKeys_frame H.toHasher g evictedHex).externs]
  · right
    push Not at hnone
    obtain ⟨s, hs, hnames⟩ := hnone
    have hcleared : 0 < g.contexts.entries.countP
        fun s => s.2.namesEvicted H.toHasher evictedHex := by
      apply List.countP_pos_iff.mpr
      exact ⟨s, hs, by simpa using hnames⟩
    have hevict : evictedHex.isEmpty = false := by
      cases evictedHex with
      | nil => exact absurd (namesEvicted_nil _ _) hnames
      | cons hex rest => rfl
    simp [invalidateArtifactKeys, hevict, hcleared]

theorem evictContexts_marks_iff (keys : List (ContextKey D)) :
    (¬ SavedAlike g (g.evictContexts keys).1 → (g.evictContexts keys).1.dirty = true) ↔
      (g.dirty = true ∨ ¬ PublicOp.ChangesUnmarked g (.graph (.evictContexts keys))) := by
  by_cases hnone : ∀ k ∈ keys, g.contexts.lookup k = none
  · have hkept : filter (fun k _ => k ∉ keys) g.contexts = g.contexts := by
      apply filter_eq_self
      intro k e he
      by_contra hk
      have hmem : k ∈ keys := by simpa using hk
      rw [hnone k hmem] at he
      cases he
    have hrem : g.contexts.entries.countP (fun s => s.1 ∈ keys) = 0 := by
      apply List.countP_eq_zero.mpr
      intro s hs hkey
      have hlook := hnone s.1 (by simpa using hkey)
      rw [AList.mem_lookup_iff.mpr hs] at hlook
      cases hlook
    have hdirty : (g.evictContexts keys).1.dirty = g.dirty := by
      simp [evictContexts, hrem]
    have hfiles : ∀ path, (g.evictContexts keys).1.files.lookup path =
        (g.files.lookup path).filter fun _ => path ∈ g.referencedFiles := by
      intro path
      simp only [evictContexts, hkept, lookup_filter]
    have halike : SavedAlike g (g.evictContexts keys).1 ↔ ¬ g.HasUnreferencedFile := by
      constructor
      · rintro h ⟨path, hfile, hout⟩
        obtain ⟨includes, hincl⟩ := isSome_iff_exists.mp hfile
        have hpath := h.files path
        rw [hfiles, hincl] at hpath
        simp [hout] at hpath
      · intro h
        apply SavedAlike.of_lookup
        · intro path
          rw [hfiles]
          cases hfile : g.files.lookup path with
          | none => rfl
          | some includes =>
            have hin : path ∈ g.referencedFiles := by
              by_contra hout
              exact h ⟨path, by rw [hfile]; rfl, hout⟩
            simp [hin]
        · intro k
          simp only [evictContexts, hkept]
        · intro k hk
          simp only [evictContexts, hkept, lookup_filter]
          rw [show (fun _ => isLive g k) = fun _ : Externs => true from funext fun _ => hk]
          cases g.rustcExterns.lookup k <;> rfl
    rw [hdirty, halike]
    have hunmarked : PublicOp.ChangesUnmarked g (.graph (.evictContexts keys)) ↔
        g.HasUnreferencedFile := and_iff_right hnone
    tauto
  · have hrem : 0 < g.contexts.entries.countP (fun s => s.1 ∈ keys) := by
      push Not at hnone
      obtain ⟨k, hk, hlive⟩ := hnone
      obtain ⟨e, he⟩ := ne_none_iff_exists'.mp hlive
      apply List.countP_pos_iff.mpr
      exact ⟨⟨k, e⟩, AList.mem_lookup_iff.mp he, by simpa using hk⟩
    simp [evictContexts, hrem, PublicOp.ChangesUnmarked, hnone]

theorem trimAt_marks_iff (maxAge nowMs : ℕ) :
    (¬ SavedAlike g (g.trimAt maxAge nowMs).1 → (g.trimAt maxAge nowMs).1.dirty = true) ↔
      (g.dirty = true ∨ ¬ PublicOp.ChangesUnmarked g (.graph (.trimAt maxAge nowMs))) := by
  rw [trimAt, evictContexts_marks_iff]
  have hnone : ∀ p : (Sigma fun _ : ContextKey D => ContextEntry D) → Bool,
      (∀ k ∈ (g.contexts.entries.filter p).map Sigma.fst, g.contexts.lookup k = none) ↔
        ∀ s ∈ g.contexts.entries, p s = false := by
    intro p
    constructor
    · intro h s hs
      by_contra hp
      have hlook := h s.1 (List.mem_map_of_mem (List.mem_filter.mpr ⟨hs, by simpa using hp⟩))
      rw [AList.mem_lookup_iff.mpr hs] at hlook
      cases hlook
    · intro h k hk
      obtain ⟨s, hs, rfl⟩ := List.mem_map.mp hk
      obtain ⟨hmem, hp⟩ := List.mem_filter.mp hs
      rw [h s hmem] at hp
      cases hp
  simp only [PublicOp.ChangesUnmarked, hnone, decide_eq_false_iff_not, not_or, not_lt]

theorem alike_or_dirty (g : DepGraph D) {op : PublicOp D} (hop : op.marks = true) :
    SavedAlike g (g.perform H op) ∨ (g.perform H op).dirty = true := by
  cases op with
  | graph op =>
    cases op with
    | register | registerWithKey => exact .inr (registerContextEntry_dirty ..)
    | registerRustc key ctx keyRoot externs compat now =>
      right
      cases compat <;> exact registerContextEntry_dirty ..
    | checkWithEnv key isFresh getHash envValue now =>
      rw [perform, step, apply_checkWithEnv]
      exact checkDiagnosticWithEnv_marks ..
    | checkDiagnosticWithEnv key isFresh getHash envValue now =>
      exact checkDiagnosticWithEnv_marks ..
    | tryFastHitWithEnv key getHash envValue =>
      obtain ⟨hits, hsame⟩ := tryFastHitWithEnv_fst (H := H) g key
      rw [perform, step, apply, hsame]
      exact .inl (.of_lookup (fun _ => rfl) (fun _ => rfl) fun _ _ => rfl)
    | markStale key =>
      rw [perform, step, apply]
      rcases markStale_cases g key with hsame | ⟨inst, entry, -, hmarked⟩
      · rw [hsame]
        exact .inl (.refl g)
      · rw [hmarked]
        exact .inr rfl
    | invalidateArtifactKeys evictedHex => exact invalidateArtifactKeys_marks ..
    | clear => exact .inr rfl
    | _ => cases hop
  | checkRustcMetadataCompat compatKey currentExterns isFresh getHash envValue =>
    obtain ⟨hits, hsame⟩ := checkRustcMetadataCompat_fst (H := H) g compatKey currentExterns
      isFresh getHash envValue
    rw [perform, hsame]
    exact .inl (.of_lookup (fun _ => rfl) (fun _ => rfl) fun _ _ => rfl)
  | setRustcEnvDeps key deps =>
    rw [perform]
    rcases setRustcEnvDeps_cases g key deps with hsame | ⟨inst, entry, -, hset⟩
    · rw [hsame]
      exact .inl (.refl g)
    · rw [hset]
      exact .inr rfl
  | storeFileIncludes path includes => exact .inr rfl
  | takeDirty => exact .inl (.of_lookup (fun _ => rfl) (fun _ => rfl) fun _ _ => rfl)

/-- An operation that changes what a save would write sets the flag, unless it is one of the
two that do not and the flag was clear. -/
theorem dirty_complete_iff (H : Host D) (g : DepGraph D) (op : PublicOp D) (now : ℕ) :
    (¬ (g.toSnapshotAt now).SameRecords ((g.perform H op).toSnapshotAt now) →
        (g.perform H op).dirty = true) ↔
      (g.dirty = true ∨ ¬ op.ChangesUnmarked g) := by
  rw [sameRecords_iff]
  cases hop : op.marks with
  | true =>
    have hunmarked : ¬ op.ChangesUnmarked g := by
      cases op with
      | graph op => cases op <;> first | exact id | cases hop
      | _ => exact id
    simp only [hunmarked, not_false_eq_true, or_true, iff_true]
    exact (alike_or_dirty g hop).resolve_left
  | false =>
    cases op with
    | graph op =>
      cases op with
      | updateWithEnv key scan getHash names envValue now => exact updateWithEnv_marks_iff
      | evictContexts keys => exact evictContexts_marks_iff keys
      | trimAt maxAge nowMs => exact trimAt_marks_iff maxAge nowMs
      | _ => cases hop
    | _ => cases hop

/-- A source registered with the graph, which was then saved. -/
def savedSource : List (PublicOp Text) :=
  [.graph (.registerWithKey ⟨"unit"⟩ (.plain (.new "/w/a.c") "cc") none 1),
    .takeDirty]

def updateWithoutHash : PublicOp Text :=
  .graph (.updateWithEnv ⟨"unit"⟩ ⟨[.new "/w/a.h"], [], false⟩
    (fun p => if p = .new "/w/a.c" then some "1" else none) [] (fun _ => none) 2)

/-- The include list of a file that no context refers to, saved. -/
def savedFile : List (PublicOp Text) :=
  [.storeFileIncludes (.new "/w/a.h") [], .takeDirty]

/-- Both operations change what a save would write and leave the flag clear. -/
theorem changes_without_mark :
    [(savedSource, updateWithoutHash),
        (savedFile, .graph (.trimAt 86400000000000 5))].Forall fun run =>
      let g := Run.run (perform Host.transparent) .new run.1
      let g' := g.perform Host.transparent run.2
      ¬ (g.toSnapshotAt 9).SameRecords (g'.toSnapshotAt 9) ∧ g'.dirty = false := by
  decide +kernel

end DepGraph

end Zccache
