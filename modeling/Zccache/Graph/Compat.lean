import Zccache.Graph.History

/-! # The metadata compatibility alias

A rustc request for metadata alone may use the artifact of another context. That
context's key is served as it is stored, after a look at the files and at the
contents of the externs.
-/

namespace Zccache

open Unix FinMap Option

variable {D : Type} [DecidableEq D] (H : Host D)
variable (isFresh : NormalizedPath → Bool) (getHash : NormalizedPath → Option D)
variable (envValue : Name → Option Text)

def compatReason (text : String) : Text :=
  "rustc metadata compatibility " ++ text.toList

namespace ContextEntry

def checkCompat (e : ContextEntry D) (candidateExterns currentExterns : Externs) :
    CacheVerdict D × Text :=
  let changed p := !e.freshOrHashMatch isFresh getHash p
  if e.state = .cold then (.cold, compatReason "candidate is cold")
  else if e.hasComputedIncludes then
    (.needsPreprocessor, compatReason "candidate needs preprocessor")
  else
    match e.artifactKey with
    | none => (.cold, compatReason "candidate has no artifact key")
    | some artifactKey =>
      if changed e.context.sourceFile then
        (.headersChanged [e.context.sourceFile], compatReason "source changed")
      else
        match e.resolvedIncludes.find? changed, e.context.forceIncludes.find? changed with
        | some header, _ =>
          (.headersChanged [header], compatReason "header changed: " ++ toText header.path)
        | none, some fi =>
          (.headersChanged [fi], compatReason "force-include changed: " ++ toText fi.path)
        | none, none =>
          match collectRustcExternHashes getHash currentExterns,
            collectRustcExternHashes getHash candidateExterns with
          | none, _ => (.cold, compatReason "current extern hash missing")
          | some _, none => (.cold, compatReason "candidate extern hash missing")
          | some currentHashes, some candidateHashes =>
            if sortByName currentHashes ≠ sortByName candidateHashes then
              (.cold, compatReason "extern content differs")
            else if !e.rustcEnvDeps.isEmpty &&
                collectRustcEnvHashes envValue H.toHasher e.rustcEnvDeps ≠
                  e.rustcEnvDeps then
              (.cold, compatReason "env-dep values changed")
            else (.hit artifactKey, compatReason "hit")

end ContextEntry

namespace DepGraph

def checkRustcMetadataCompatDiagnosticWithEnv (g : DepGraph D) (compatKey : ContextKey D)
    (currentExterns : Externs) :
    DepGraph D × CacheVerdict D × Text × Option (ContextKey D) :=
  match g.rustcCheckMetadataCompat.lookup compatKey with
  | none => (g, .cold, compatReason "alias not registered", none)
  | some actualKey =>
    match g.rustcExterns.lookup actualKey, g.contexts.lookup actualKey with
    | none, _ => (g, .cold, compatReason "candidate has no extern inputs", some actualKey)
    | some _, none =>
      (g, .cold, compatReason "candidate context missing", some actualKey)
    | some candidateExterns, some entry =>
      let result :=
        entry.checkCompat H isFresh getHash envValue candidateExterns currentExterns
      ({ g with hits := if result.1.isHit then g.hits + 1 else g.hits }, result.1, result.2,
        some actualKey)

end DepGraph

namespace ContextEntry

variable {H isFresh getHash envValue}
variable {e : ContextEntry D} {externs currentExterns : Externs} {k : ArtifactKey D}

/-- What a hit says about the entry. -/
structure CompatHit (H : Host D) (isFresh : NormalizedPath → Bool)
    (getHash : NormalizedPath → Option D) (envValue : Name → Option Text) (e : ContextEntry D)
    (k : ArtifactKey D) : Prop where
  notCold : e.state ≠ .cold
  noComputed : e.hasComputedIncludes = false
  stored : e.artifactKey = some k
  inputs : ∀ p ∈ e.inputFiles, e.freshOrHashMatch isFresh getHash p = true
  env : collectRustcEnvHashes envValue H.toHasher e.rustcEnvDeps = e.rustcEnvDeps

theorem checkCompat_eq_hit
    (h : (e.checkCompat H isFresh getHash envValue externs currentExterns).1 = .hit k) :
    CompatHit H isFresh getHash envValue e k := by
  simp only [checkCompat] at h
  split at h
  · cases h
  · next hcold =>
    split at h
    · cases h
    · next hcomp =>
      split at h
      · cases h
      · next artifactKey hstored =>
        split at h
        · cases h
        · next hsrc =>
          split at h
          · cases h
          · cases h
          · next hheaders hforced =>
            split at h
            · cases h
            · cases h
            · split at h
              · cases h
              · split at h
                · cases h
                · next henv =>
                  cases h
                  refine ⟨hcold, by simpa using hcomp, hstored, fun p hp => ?_, ?_⟩
                  · rcases List.mem_cons.mp hp with rfl | hp
                    · simpa using hsrc
                    · rcases List.mem_append.mp hp with hp | hp
                      · simpa using List.find?_eq_none.mp hheaders p hp
                      · simpa using List.find?_eq_none.mp hforced p hp
                  · cases hdeps : e.rustcEnvDeps with
                    | nil => rfl
                    | cons dep deps => simpa [hdeps] using henv

/-- The key of the recorded hashes and environment and of the externs as they are. -/
def recordedKey (H : Host D) (getHash : NormalizedPath → Option D) (e : ContextEntry D)
    (externs : Externs) : Option (ArtifactKey D) :=
  (collectRustcExternHashes getHash externs).map fun externHashes =>
    (foldRustcEnvDepsIntoArtifactKey H.toHasher
      (computeRustcArtifactKeyWithRootWith H.toHasher e.logicalKey e.lastFileHashes externHashes
        e.keyRootPath normalizeKeyPath) e.rustcEnvDeps).1

theorem CompatHit.tryFastHit_eq (h : CompatHit H isFresh getHash envValue e k)
    {current : NormalizedPath → Option D}
    (hfiles : hashFiles current e.inputFiles = some e.lastFileHashes)
    (hkey : e.recordedKey H current externs = some k) :
    e.tryFastHit H current envValue (some externs) = some k := by
  obtain ⟨externHashes, hexts, hfold⟩ := map_eq_some_iff.mp hkey
  have hread : e.readKey H current envValue (some externs) e.lastFileHashes = some ⟨k, none⟩ := by
    simp only [readKey, hexts, map_some, h.env, ne_eq, not_true_eq_false, if_false, hfold]
  have hguard : ¬(e.state = .cold ∨ e.hasComputedIncludes = true) := by
    rintro (hcold | hcomp)
    · exact h.notCold hcold
    · rw [h.noComputed] at hcomp
      cases hcomp
  simp [tryFastHit, hguard, h.stored, hfiles, hread]

omit [DecidableEq D] in
theorem update_eq_some {externs : Option Externs} {scan : ScanResult} {names : List Name}
    {now : ℕ} (h : (e.update H getHash envValue externs scan names now).2 = some k) :
    let e' := (e.update H getHash envValue externs scan names now).1
    hashFiles getHash e'.inputFiles = some e'.lastFileHashes ∧ e'.artifactKey = some k ∧
      ∀ list, externs = some list → e'.recordedKey H getHash list = some k := by
  intro e'
  rcases update_cases H getHash envValue e externs scan names now with
    hnone | ⟨fileHashes, key, env, hfiles, hkey, hr⟩
  · rw [hnone] at h
    cases h
  · have he' : e' = _ := congrArg Prod.fst hr
    rw [hr] at h
    cases h
    rw [he']
    refine ⟨hfiles, rfl, ?_⟩
    rintro list rfl
    obtain ⟨externHashes, hexts, hfold⟩ := map_eq_some_iff.mp hkey
    rw [recordedKey, hexts, map_some]
    have hidem := foldRustcEnvDeps_idem H.toHasher
      (computeRustcArtifactKeyWithRootWith H.toHasher (e.recordScan scan now).logicalKey
        fileHashes externHashes (e.recordScan scan now).keyRootPath normalizeKeyPath)
      (names.map fun name => (name, hashEnvDepValue H.toHasher (envValue name)))
    rw [hfold] at hidem
    exact congrArg (fun folded => some folded.1) hidem

theorem recordedKey_of_readKey {read : ReadKey D} (now : ℕ)
    (h : e.readKey H getHash envValue (some externs) e.lastFileHashes = some read) :
    { e with
      artifactKey := some read.artifactKey
      lastAccessedUnixMs := now
      rustcEnvDeps := read.envSnapshot.getD e.rustcEnvDeps }.recordedKey H getHash externs =
      some read.artifactKey := by
  obtain ⟨externHashes, hexts, rfl⟩ := map_eq_some_iff.mp h
  rw [recordedKey, hexts, map_some]
  dsimp only
  split
  · have hidem := foldRustcEnvDeps_idem H.toHasher
      (computeRustcArtifactKeyWithRootWith H.toHasher e.logicalKey e.lastFileHashes externHashes
        e.keyRootPath normalizeKeyPath)
      (collectRustcEnvHashes envValue H.toHasher e.rustcEnvDeps)
    exact congrArg (fun folded => some folded.1) hidem
  · next hsame =>
    rw [not_not.mp hsame]
    rfl

omit [DecidableEq D] in
theorem recordedKey_mono {current : NormalizedPath → Option D}
    (h : e.recordedKey H getHash externs = some k)
    (hcur : ∀ p ∈ externs.map Prod.snd, ∀ d, getHash p = some d → current p = some d) :
    e.recordedKey H current externs = some k := by
  obtain ⟨externHashes, hexts, hkey⟩ := map_eq_some_iff.mp h
  rw [recordedKey, collectRustcExternHashes_mono hexts hcur, map_some, hkey]

end ContextEntry

theorem DepGraph.checkRustcMetadataCompat_eq_hit {H : Host D} {isFresh : NormalizedPath → Bool}
    {getHash : NormalizedPath → Option D} {envValue : Name → Option Text} {g : DepGraph D}
    {compatKey c : ContextKey D} {currentExterns : Externs} {k : ArtifactKey D} {reason : Text}
    (h : (g.checkRustcMetadataCompatDiagnosticWithEnv H isFresh getHash envValue compatKey
      currentExterns).2 = (.hit k, reason, some c)) :
    ∃ externs e, g.rustcExterns.lookup c = some externs ∧ g.contexts.lookup c = some e ∧
      e.CompatHit H isFresh getHash envValue k := by
  simp only [checkRustcMetadataCompatDiagnosticWithEnv] at h
  split at h
  · cases h
  · split at h
    · cases h
    · cases h
    · next externs e hexts he =>
      simp only [Prod.mk.injEq, some.injEq] at h
      obtain ⟨hverd, -, rfl⟩ := h
      exact ⟨externs, e, hexts, he, ContextEntry.checkCompat_eq_hit hverd⟩

end Zccache
