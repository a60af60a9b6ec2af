import Zccache.Graph.Check
import Zccache.Graph.Register
import Zccache.Graph.Update

/-! # The write side and the read side agree

A key recorded by an update is the key that the check and the fast hit compute
from the same contents.
-/

namespace Zccache

open List Unix FinMap

variable {D : Type} [DecidableEq D] {H : Host D}
variable {isFresh : NormalizedPath → Bool} {getHash : NormalizedPath → Option D}
variable {envValue : Name → Option Text}

omit [DecidableEq D] in
theorem collectRustcEnvHashes_of_current {deps : List (Name × Option D)}
    (h : ∀ e ∈ deps, e.2 = hashEnvDepValue H.toHasher (envValue e.1)) :
    collectRustcEnvHashes envValue H.toHasher deps = deps := by
  have hid : ∀ e ∈ deps, (e.1, hashEnvDepValue H.toHasher (envValue e.1)) = id e := by
    intro e he
    rw [← h e he]
    rfl
  rw [collectRustcEnvHashes, map_congr_left hid, map_id]

namespace ContextEntry

variable {e e' : ContextEntry D} {externs : Option Externs} {scan : ScanResult}
variable {names : List Name} {now : ℕ} {k : ArtifactKey D} {fileHashes : List (NormalizedPath × D)}
  {envHashes : List (Name × Option D)}

omit [DecidableEq D] in
theorem writeKey_env_perm {sorted : List (Name × Option D)}
    (h : e.writeKey H getHash externs fileHashes envHashes = some (k, sorted)) :
    sorted.Perm envHashes := by
  cases externs with
  | none =>
    obtain ⟨-, rfl⟩ := Prod.mk.inj (Option.some.inj h)
    exact .refl _
  | some externs =>
    obtain ⟨externHashes, -, hfold⟩ := Option.map_eq_some_iff.mp h
    have hperm := foldRustcEnvDeps_snd_perm H.toHasher (computeRustcArtifactKeyWithRootWith
      H.toHasher e.logicalKey fileHashes externHashes e.keyRootPath normalizeKeyPath) envHashes
    rwa [hfold] at hperm

theorem readKey_of_writeKey (h : e.writeKey H getHash externs fileHashes
      (names.map fun name => (name, hashEnvDepValue H.toHasher (envValue name))) =
        some (k, envHashes)) (hroot : e'.keyRoot = e.keyRoot)
    (hlog : e'.logicalKey = e.logicalKey) (henv : e'.rustcEnvDeps = envHashes) :
    e'.readKey H getHash envValue externs fileHashes = some ⟨k, none⟩ := by
  have hpath : e'.keyRootPath = e.keyRootPath := by rw [keyRootPath, hroot, keyRootPath]
  cases externs with
  | none =>
    obtain ⟨rfl, -⟩ := Prod.mk.inj (Option.some.inj h)
    rw [readKey, hlog, hpath, computeArtifactKeyNormalizedWithRoot_eq]
  | some externs =>
    obtain ⟨externHashes, hexts, hfold⟩ := Option.map_eq_some_iff.mp h
    have hcur : collectRustcEnvHashes envValue H.toHasher envHashes = envHashes := by
      refine collectRustcEnvHashes_of_current fun dep hdep => ?_
      obtain ⟨name, -, rfl⟩ := mem_map.mp ((writeKey_env_perm h).mem_iff.mp hdep)
      rfl
    simp only [readKey, hexts, Option.map_some, henv, hcur, hlog, hpath, ne_eq,
      not_true_eq_false, if_false, Option.some.injEq, ReadKey.mk.injEq, and_true]
    have hidem := foldRustcEnvDeps_idem H.toHasher
      (computeRustcArtifactKeyWithRootWith H.toHasher e.logicalKey fileHashes externHashes
        e.keyRootPath normalizeKeyPath)
      (names.map fun name => (name, hashEnvDepValue H.toHasher (envValue name)))
    rw [hfold] at hidem
    rw [hidem]

theorem freshOrHashMatch_of_recorded {p : NormalizedPath}
    (h : ∃ d, getHash p = some d ∧ (p, d) ∈ e.lastFileHashes) :
    e.freshOrHashMatch isFresh getHash p = true := by
  obtain ⟨d, hd, hmem⟩ := h
  rw [freshOrHashMatch, Bool.or_eq_true, hd]
  exact .inr (any_eq_true.mpr ⟨(p, d), hmem, by simp⟩)

variable (isFresh) in
/-- With the recorded hashes, only the key is left to be judged. -/
theorem check_of_recorded {key : ReadKey D} (hcold : e.state ≠ .cold)
    (hcomp : e.hasComputedIncludes = false)
    (hashes : hashFiles getHash e.inputFiles = some e.lastFileHashes)
    (hread : e.readKey H getHash envValue externs e.lastFileHashes = some key) :
    e.check H isFresh getHash envValue externs =
        e.judgeKey H isFresh getHash e.lastFileHashes key ∧
      e.freshOrHashMatch isFresh getHash e.context.sourceFile = true := by
  have hfresh : ∀ p ∈ e.inputFiles, e.freshOrHashMatch isFresh getHash p = true :=
    fun p hp => freshOrHashMatch_of_recorded (mem_hashFiles hashes hp)
  have hchg : e.changedHeaders isFresh getHash = [] := by
    refine filter_eq_nil_iff.mpr fun p hp => ?_
    simp [hfresh p (mem_cons_of_mem _ hp)]
  constructor
  · rw [check, if_neg hcold, hcomp, if_neg Bool.false_ne_true, hchg]
    simp only [isEmpty_nil, Bool.not_true, Bool.false_eq_true, if_false, hashes, hread]
  · exact hfresh _ mem_cons_self

/-- An entry whose recorded hashes and key are those of the current contents. -/
structure Current (H : Host D) (getHash : NormalizedPath → Option D)
    (envValue : Name → Option Text) (e : ContextEntry D) (externs : Option Externs)
    (k : ArtifactKey D) : Prop where
  notCold : e.state ≠ .cold
  noComputed : e.hasComputedIncludes = false
  hashes : hashFiles getHash e.inputFiles = some e.lastFileHashes
  stored : e.artifactKey = some k
  read : e.readKey H getHash envValue externs e.lastFileHashes = some ⟨k, none⟩

theorem current_of_update (hscan : scan.hasComputed = false)
    (h : e.update H getHash envValue externs scan names now = (e', some k)) :
    Current H getHash envValue e' externs k := by
  rcases update_cases H getHash envValue e externs scan names now with
    hnone | ⟨fileHashes, key, env, hfiles, hkey, hr⟩
  · rw [hnone] at h
    cases h
  · rw [hr] at h
    cases h
    exact ⟨by simp, hscan, hfiles, rfl, readKey_of_writeKey hkey rfl rfl rfl⟩

omit [DecidableEq D] in
theorem update_envNames (h : e.update H getHash envValue externs scan names now = (e', some k)) :
    ∀ dep ∈ e'.rustcEnvDeps, dep.1 ∈ names := by
  rcases update_cases H getHash envValue e externs scan names now with
    hnone | ⟨fileHashes, key, env, -, hkey, hr⟩
  · rw [hnone] at h
    cases h
  · rw [hr] at h
    cases h
    intro dep hdep
    have hperm := writeKey_env_perm hkey
    obtain ⟨name, hname, rfl⟩ := mem_map.mp (hperm.mem_iff.mp hdep)
    exact hname

variable (h : Current H getHash envValue e externs k)

include h

theorem Current.touch (now : ℕ) :
    Current H getHash envValue { e with lastAccessedUnixMs := now } externs k :=
  ⟨h.notCold, h.noComputed, h.hashes, h.stored, h.read⟩

theorem Current.check_eq : (e.check H isFresh getHash envValue externs).2.1 = .hit k := by
  obtain ⟨hcheck, hfresh⟩ := check_of_recorded isFresh h.notCold h.noComputed h.hashes h.read
  rw [hcheck, judgeKey, if_pos hfresh, if_pos h.stored]

theorem Current.tryFastHit_eq : e.tryFastHit H getHash envValue externs = some k := by
  have hguard : ¬(e.state = .cold ∨ e.hasComputedIncludes = true) := by
    rintro (hcold | hcomp)
    · exact h.notCold hcold
    · rw [h.noComputed] at hcomp
      cases hcomp
  simp [tryFastHit, hguard, h.stored, h.hashes, h.read]

end ContextEntry

namespace DepGraph

variable {g : DepGraph D} {key : ContextKey D} {scan : ScanResult} {names : List Name}
variable {now : ℕ} {k : ArtifactKey D}

/-- A check right after an update that returned `k`, with the same contents and environment,
is a hit on `k` whatever the freshness predicate says, and so is the fast hit. -/
theorem hit_after_update (hscan : scan.hasComputed = false)
    (h : (g.updateWithEnv H getHash envValue key scan names now).2 = some k)
    (isFresh : NormalizedPath → Bool) (now' : ℕ) :
    let g' := (g.updateWithEnv H getHash envValue key scan names now).1
    (g'.checkWithEnv H isFresh getHash envValue key now').2 = .hit k ∧
      (g'.checkDiagnosticWithEnv H isFresh getHash envValue key now').2.1 = .hit k ∧
      (g'.tryFastHitWithEnv H getHash envValue key).2 = some k := by
  intro g'
  have hexts : g'.rustcExterns = g.rustcExterns :=
    (updateWithEnv_frame H getHash envValue g key scan names now).1
  obtain ⟨inst, e, -, -, hres, hlook, hk⟩ := updateWithEnv_eq_some h
  have hcur := ContextEntry.current_of_update hscan (Prod.ext (y := (_, some k)) rfl hk)
  have hcheck : (g'.checkDiagnosticWithEnv H isFresh getHash envValue key now').2.1 =
      .hit k := by
    rw [checkDiagnosticWithEnv_snd hres hlook, hexts]
    exact (hcur.touch now').check_eq
  refine ⟨by rw [checkWithEnv_eq]; exact hcheck, hcheck, ?_⟩
  rw [tryFastHitWithEnv_snd hres hlook, hexts]
  exact hcur.tryFastHit_eq

/-- A rustc crate with one extern, registered under the root `/w`. -/
def sampleCrate : DepGraph Text :=
  (DepGraph.new.registerRustcWithKeyAndRootResult Host.transparent ⟨"crate"⟩
    (.plain (.new "/w/lib.rs") "rustc") (some (.new "/w"))
    [(⟨"dep", by decide⟩, .new "/t/libdep.rlib")] none 0).1

def sampleScan : ScanResult :=
  ⟨[.new "/w/b.rs", .new "/usr/a.rs"], [], false⟩

def sampleEnvNames : List Name :=
  [⟨"REV", by decide⟩, ⟨"DATE", by decide⟩]

theorem hit_after_update_sampleCrate :
    ∃ k, let g' := (sampleCrate.updateWithEnv Host.transparent (fun p => some p.caseKey)
        (fun name => some name.val) ⟨"crate"⟩ sampleScan sampleEnvNames 1).1
      (g'.checkWithEnv Host.transparent (fun _ => false) (fun p => some p.caseKey)
          (fun name => some name.val) ⟨"crate"⟩ 2).2 = .hit k ∧
        (g'.checkDiagnosticWithEnv Host.transparent (fun _ => false) (fun p => some p.caseKey)
          (fun name => some name.val) ⟨"crate"⟩ 2).2.1 = .hit k ∧
        (g'.tryFastHitWithEnv Host.transparent (fun p => some p.caseKey)
          (fun name => some name.val) ⟨"crate"⟩).2 = some k := by
  have hsome : ((sampleCrate.updateWithEnv Host.transparent (fun p => some p.caseKey)
      (fun name => some name.val) ⟨"crate"⟩ sampleScan sampleEnvNames 1).2).isSome := by
    decide +kernel
  obtain ⟨k, hk⟩ := Option.isSome_iff_exists.mp hsome
  exact ⟨k, hit_after_update rfl hk (fun _ => false) 2⟩

end DepGraph

end Zccache
