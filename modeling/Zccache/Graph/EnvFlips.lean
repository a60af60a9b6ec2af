import Zccache.Base.Run
import Zccache.Graph.KeyInputs

/-! # Environment values that flip

A rustc context is checked under one environment after the other. Each check
gives the key of its own values, whatever values the checks before it saw.
-/

namespace Zccache

open List Unix StableSort Run ContextEntry

variable {D : Type} {H : Host D} {getHash : NormalizedPath → Option D}
variable {env env' : Name → Option Text} {names : List Name} {base : ArtifactKey D}

/-- The key and the snapshot that the values of an environment give. -/
def envFold (H : Host D) (base : ArtifactKey D) (names : List Name) (env : Name → Option Text) :
    ArtifactKey D × List (Name × Option D) :=
  foldRustcEnvDepsIntoArtifactKey H.toHasher base
    (names.map fun name => (name, hashEnvDepValue H.toHasher (env name)))

/-- The order of a snapshot does not depend on its values. -/
theorem collectRustcEnvHashes_envFold :
    collectRustcEnvHashes env' H.toHasher (envFold H base names env).2 =
      (envFold H base names env').2 := by
  cases names with
  | nil => rfl
  | cons name rest =>
    simp only [envFold, foldRustcEnvDepsIntoArtifactKey, collectRustcEnvHashes, map_cons,
      isEmpty_cons, Bool.false_eq_true, if_false]
    rw [(map_sortBy (fun _ => rfl) _ : _ = sortBy (fun e : Name × Option D => e.1.val) _),
      map_cons, map_map]
    rfl

theorem envFold_eq_of_snd (h : (envFold H base names env).2 = (envFold H base names env').2) :
    envFold H base names env = envFold H base names env' := by
  have hidem : ∀ env, foldRustcEnvDepsIntoArtifactKey H.toHasher base
      (envFold H base names env).2 = envFold H base names env :=
    fun env => foldRustcEnvDeps_idem ..
  rw [← hidem env, h, hidem env']

theorem envFold_congr (h : ∀ name ∈ names, env name = env' name) :
    envFold H base names env = envFold H base names env' := by
  rw [envFold, map_congr_left fun name hname => by rw [h name hname], envFold]

/-- Unset, empty and every other value of a name give keys of their own. -/
theorem eq_of_envFold_fst (hinj : Function.Injective H.digest)
    (h : (envFold H base names env).1 = (envFold H base names env').1) :
    ∀ name ∈ names, env name = env' name := by
  intro name hname
  have hempty : ∀ env : Name → Option Text, (names.map fun name =>
      (name, hashEnvDepValue H.toHasher (env name))).isEmpty = false := by
    cases names <;> simp_all
  simp only [envFold, foldRustcEnvDepsIntoArtifactKey, hempty, Bool.false_eq_true, if_false] at h
  obtain ⟨-, -, hflds⟩ := taggedKey_injective hinj (by decide) (by decide) (envFields_nulFree _)
    (envFields_nulFree _) h
  have hmem := (perm_of_sortBy_eq (envFields_injective hflds)).mem_iff.mp
    (mem_map_of_mem hname)
  obtain ⟨name', -, heq⟩ := mem_map.mp hmem
  obtain ⟨rfl, hval⟩ := Prod.mk.inj heq
  exact Option.map_injective (fun _ _ ht => text_injective (hinj ht)) hval.symm

theorem driftedPaths_self [DecidableEq D] {paths : List NormalizedPath}
    {fileHashes : List (NormalizedPath × D)} (h : hashFiles getHash paths = some fileHashes) :
    driftedPaths fileHashes fileHashes = [] := by
  unfold driftedPaths
  split
  · rfl
  · simp only [map_eq_nil_iff, filter_eq_nil_iff]
    intro f hf
    -- every record of a path holds the one hash of the path
    have hfound : (fileHashes.reverse.find? (·.1 = f.1)).isSome :=
      find?_isSome.mpr ⟨f, mem_reverse.mpr hf, by simp⟩
    obtain ⟨last, hlast⟩ := Option.isSome_iff_exists.mp hfound
    have hrec := mem_of_hashFiles h (mem_reverse.mp (mem_of_find?_eq_some hlast))
    have hpath : last.1 = f.1 := by simpa using find?_some hlast
    rw [hpath, (mem_of_hashFiles h hf).2, Option.some.injEq] at hrec
    simp [hlast, hrec.2]

namespace ContextEntry

variable {e : ContextEntry D} {externs : Externs} {externHashes : List (Name × D)}

def baseKey (H : Host D) (e : ContextEntry D) (externHashes : List (Name × D)) : ArtifactKey D :=
  computeRustcArtifactKeyWithRootWith H.toHasher e.logicalKey e.lastFileHashes externHashes
    e.keyRootPath normalizeKeyPath

/-- The entry with the key and the snapshot of other values. -/
def withEnv (e : ContextEntry D) (folded : ArtifactKey D × List (Name × Option D)) (now : ℕ) :
    ContextEntry D :=
  { e with artifactKey := some folded.1, rustcEnvDeps := folded.2, lastAccessedUnixMs := now }

theorem update_spec {e' : ContextEntry D} {k : ArtifactKey D} {scan : ScanResult} {now : ℕ}
    (h : e.update H getHash env (some externs) scan names now = (e', some k)) :
    ∃ externHashes, collectRustcExternHashes getHash externs = some externHashes ∧
      e' = e'.withEnv (envFold H (e'.baseKey H externHashes) names env) now ∧
      ∀ now', (e'.recordScan scan now').inputFiles = e'.inputFiles := by
  rcases update_cases H getHash env e (some externs) scan names now with
    hnone | ⟨fileHashes, k', deps, -, hwrite, hok⟩
  · rw [hnone] at h
    cases h
  · obtain ⟨externHashes, hexts, hfold⟩ := Option.map_eq_some_iff.mp hwrite
    obtain ⟨he, -⟩ := Prod.mk.inj (hok.symm.trans h)
    have hsame : envFold H (e'.baseKey H externHashes) names env = (k', deps) := by
      rw [← he]
      exact hfold
    refine ⟨externHashes, hexts, ?_, fun _ => by rw [← he]; rfl⟩
    rw [hsame, ← he]
    rfl

section Hashed

variable (hexts : collectRustcExternHashes getHash externs = some externHashes)

include hexts

theorem update_withEnv {folded : ArtifactKey D × List (Name × Option D)} {scan : ScanResult}
    {now now' : ℕ} (hscan : (e.recordScan scan now').inputFiles = e.inputFiles)
    (hfiles : hashFiles getHash e.inputFiles = some e.lastFileHashes) :
    ((e.withEnv folded now).update H getHash env (some externs) scan names now').2 =
      some (envFold H (e.baseKey H externHashes) names env).1 := by
  rw [← hscan] at hfiles
  simp only [update, show hashFiles getHash ((e.withEnv folded now).recordScan scan
    now').inputFiles = _ from hfiles, writeKey, hexts, Option.map_some]
  rfl

variable [DecidableEq D]

variable (env') in
theorem readKey_withEnv (now : ℕ) :
    let fold := envFold H (e.baseKey H externHashes) names
    (e.withEnv (fold env) now).readKey H getHash env' (some externs) e.lastFileHashes =
      some ⟨(fold env').1, if (fold env').2 ≠ (fold env).2 then some (fold env').2 else none⟩ := by
  intro fold
  have hidem : foldRustcEnvDepsIntoArtifactKey H.toHasher (e.baseKey H externHashes)
      (fold env').2 = fold env' := foldRustcEnvDeps_idem ..
  have hcoll : collectRustcEnvHashes env' H.toHasher (fold env).2 = (fold env').2 :=
    collectRustcEnvHashes_envFold
  simp only [readKey, hexts, Option.map_some, withEnv, hcoll]
  exact congrArg (fun key : ArtifactKey D × _ => some (ReadKey.mk key.1
    (if (fold env').2 ≠ (fold env).2 then some key.2 else none))) hidem

variable (env env' names) in
/-- A check gives the key of its own values, and leaves the entry as it was or with these
values. -/
theorem check_withEnv {k : ArtifactKey D} {env₀ : Name → Option Text}
    (h : e.Current H getHash env₀ (some externs) k) (isFresh : NormalizedPath → Bool) (now : ℕ) :
    let fold := envFold H (e.baseKey H externHashes) names
    let result := (e.withEnv (fold env) now).check H isFresh getHash env' (some externs)
    result.2.1.lookupKey = some (fold env').1 ∧ ∃ env₁, result.1 = e.withEnv (fold env₁) now := by
  intro fold result
  obtain ⟨hcheck, hfresh⟩ := check_of_recorded isFresh
    (e := e.withEnv (fold env) now) h.notCold h.noComputed h.hashes
    (readKey_withEnv env' hexts now)
  have hdrift : driftedPaths e.lastFileHashes e.lastFileHashes = [] := driftedPaths_self h.hashes
  simp only [result, hcheck, judgeKey, hfresh, if_true]
  split
  · exact ⟨rfl, env, rfl⟩
  · next hkey =>
    -- another key than the stored one comes from another snapshot
    have hmoved : (fold env').2 ≠ (fold env).2 := by
      intro hsame
      exact hkey (congrArg (some ∘ Prod.fst) (envFold_eq_of_snd hsame).symm)
    simp only [withEnv, hdrift, isEmpty_nil, Bool.not_true, Bool.false_eq_true, if_false]
    rw [if_pos hmoved]
    exact ⟨rfl, env', rfl⟩

end Hashed

end ContextEntry

namespace DepGraph

variable [DecidableEq D] {g : DepGraph D} {key inst : ContextKey D} {scan : ScanResult} {now : ℕ}

/-- A check of the sequence: its freshness predicate, its environment and its time. -/
structure EnvCheck where
  isFresh : NormalizedPath → Bool
  envValue : Name → Option Text
  now : ℕ

def EnvCheck.on (H : Host D) (getHash : NormalizedPath → Option D) (key : ContextKey D)
    (g : DepGraph D) (c : EnvCheck) : DepGraph D × CacheVerdict D :=
  g.checkWithEnv H c.isFresh getHash c.envValue key c.now

/-- The instance holds the entry with the values of some environment. -/
def HoldsEnv (key inst : ContextKey D) (e : ContextEntry D) (externs : Externs)
    (fold : (Name → Option Text) → ArtifactKey D × List (Name × Option D)) (g : DepGraph D) :
    Prop :=
  g.resolveInstanceKey key = some inst ∧ g.rustcExterns.lookup inst = some externs ∧
    ∃ env now, g.contexts.lookup inst = some (e.withEnv (fold env) now)

section Checks

variable {e : ContextEntry D} {externs : Externs} {externHashes : List (Name × D)}
variable {env₀ : Name → Option Text} {k : ArtifactKey D}
variable (hexts : collectRustcExternHashes getHash externs = some externHashes)
variable (hcur : e.Current H getHash env₀ (some externs) k)

include hexts hcur

theorem holdsEnv_on {fold : (Name → Option Text) → ArtifactKey D × List (Name × Option D)}
    (hfold : fold = envFold H (e.baseKey H externHashes) names)
    (h : g.HoldsEnv key inst e externs fold) (c : EnvCheck) :
    (c.on H getHash key g).2.lookupKey = some (fold c.envValue).1 ∧
      (c.on H getHash key g).1.HoldsEnv key inst e externs fold := by
  obtain ⟨hres, hrustc, env, now, he⟩ := h
  obtain ⟨hkey, env₁, hleft⟩ := check_withEnv env c.envValue names hexts
    hcur c.isFresh c.now
  rw [← hfold] at hkey hleft
  obtain ⟨hframe, hidx, -⟩ :=
    checkDiagnosticWithEnv_frame H c.isFresh getHash c.envValue g key c.now
  have hctxs := checkDiagnosticWithEnv_contexts H c.isFresh getHash c.envValue hres he c.now
  rw [hrustc] at hctxs
  rw [EnvCheck.on, checkWithEnv_eq]
  refine ⟨?_, ?_, hframe ▸ hrustc, env₁, c.now, ?_⟩
  · rw [checkDiagnosticWithEnv_snd hres he, hrustc]
    exact hkey
  · exact (resolveInstanceKey_insert hctxs hidx (by rw [he]; rfl) key).trans hres
  · rw [hctxs, AList.lookup_insert]
    exact congrArg some hleft

end Checks

/-- After an update of a rustc context, every check gives the key that an update would compute
from the values of the check. The key is the same for values that agree on the recorded names,
and another one as soon as one name differs. -/
theorem envFlips_keyed
    (hrustc : ((g.resolveInstanceKey key).bind fun inst => g.rustcExterns.lookup inst).isSome)
    (hscan : scan.hasComputed = false)
    (hupdate : (g.updateWithEnv H getHash env key scan names now).2.isSome) :
    let after := run (fun g c => (EnvCheck.on H getHash key g c).1)
      (g.updateWithEnv H getHash env key scan names now).1
    let keyOf checks c := (EnvCheck.on H getHash key (after checks) c).2.lookupKey
    (∀ checks c now', (keyOf checks c).isSome ∧ keyOf checks c =
      ((after checks).updateWithEnv H getHash c.envValue key scan names now').2) ∧
    ∀ checks checks' c c',
      ((∀ name ∈ names, c.envValue name = c'.envValue name) →
        keyOf checks c = keyOf checks' c') ∧
      (Function.Injective H.digest → (∃ name ∈ names, c.envValue name ≠ c'.envValue name) →
        keyOf checks c ≠ keyOf checks' c') := by
  intro after keyOf
  obtain ⟨k, hk⟩ := Option.isSome_iff_exists.mp hupdate
  obtain ⟨externs, hbind⟩ := Option.isSome_iff_exists.mp hrustc
  obtain ⟨inst, e, hres, he, hres', he', hk'⟩ := updateWithEnv_eq_some hk
  rw [hres, Option.bind_some] at hbind
  rw [hbind] at he' hk'
  have hrustc' := (updateWithEnv_frame H getHash env g key scan names now).1
  generalize hentry : (e.update H getHash env (some externs) scan names now).1 = e₁ at he'
  have hcur := current_of_update hscan (Prod.ext hentry hk')
  obtain ⟨externHashes, hexts, hself, hfiles⟩ :=
    update_spec (Prod.ext hentry hk')
  have hholds : ∀ checks, HoldsEnv key inst e₁ externs _ (after checks) :=
    run_invariant ⟨hres', by rw [hrustc', hbind], env, now, he'.trans (congrArg some hself)⟩
      fun g c h => (holdsEnv_on hexts hcur rfl h c).2
  have hkeyOf : ∀ checks c, keyOf checks c = _ := fun checks c =>
    (holdsEnv_on hexts hcur rfl (hholds checks) c).1
  refine ⟨fun checks c now' => ⟨by rw [hkeyOf]; rfl, ?_⟩, fun checks checks' c c' => ?_⟩
  · obtain ⟨hres, hrustc, env₁, t, he⟩ := hholds checks
    rw [hkeyOf]
    simp only [updateWithEnv, hres, hrustc, he]
    exact (update_withEnv hexts (hfiles now') hcur.hashes).symm
  · rw [hkeyOf, hkeyOf, ne_eq, Option.some.injEq]
    refine ⟨fun h => congrArg Prod.fst (envFold_congr h), ?_⟩
    rintro hinj ⟨name, hname, hne⟩ heq
    exact hne (eq_of_envFold_fst hinj heq name hname)

/-- An unset variable and an empty one, in turns. -/
theorem envFlips_keyed_sampleCrate :
    let check value : EnvCheck := ⟨fun _ => false, fun _ => value, 2⟩
    let on := EnvCheck.on Host.transparent (fun p => some p.caseKey) ⟨"crate"⟩
    let g := (sampleCrate.updateWithEnv Host.transparent (fun p => some p.caseKey)
      (fun name => some name.val) ⟨"crate"⟩ sampleScan sampleEnvNames 1).1
    (on (run (fun g c => (on g c).1) g [check (some [])]) (check none)).2.lookupKey ≠
      (on g (check (some []))).2.lookupKey := by
  intro check on g
  have hupdate : ((sampleCrate.updateWithEnv Host.transparent (fun p => some p.caseKey)
      (fun name => some name.val) ⟨"crate"⟩ sampleScan sampleEnvNames 1).2).isSome := by
    decide +kernel
  have hkeys := (envFlips_keyed (by decide) rfl hupdate).2 [check (some [])] [] (check none)
    (check (some []))
  refine hkeys.2 transparent_injective ⟨_, mem_cons_self, ?_⟩
  simp [check]

end DepGraph

end Zccache
