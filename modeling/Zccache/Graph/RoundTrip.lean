import Zccache.Graph.Operations
import Zccache.Graph.Snapshot

/-! # Round trips through a snapshot

What a restored graph answers. Entries come back up to the compiler hash, and the
index comes back up to order; an empty extern list does not come back.
-/

namespace Zccache

open List Unix FinMap Option NormalizedPath ContextEntry AList ContextEntrySnapshot

variable {D : Type}

namespace ContextEntry

/-- The entry as a snapshot keeps it. -/
def forgetCompiler (zeroHash : D) (e : ContextEntry D) : ContextEntry D :=
  { e with context := { e.context with compilerHash := zeroHash } }

end ContextEntry

@[simp] theorem NormalizedPath.new_toText (p : NormalizedPath) :
    new (toText p.path) = p := by
  rw [← p.caseKey_eq, new_caseKey]

@[simp] theorem stringsToPaths_pathsToStrings (paths : List NormalizedPath) :
    stringsToPaths (pathsToStrings paths) = paths :=
  Function.LeftInverse.list_map new_toText paths

@[simp] theorem ContextState.ofCode_code (s : ContextState) : ofCode s.code = s := by
  cases s <;> rfl

theorem restore_toSnapshot (zeroHash : D) (key : ContextKey D) (e : ContextEntry D)
    (externs : Externs) :
    (e.toSnapshot key externs).restore zeroHash = e.forgetCompiler zeroHash := by
  obtain ⟨logicalKey, context, keyRoot, _, _, _, artifactKey, lastFileHashes, _, _, _⟩ := e
  have hhash : (lastFileHashes.map fun f => (toText f.1.path, f.2)).map
      (fun f => (NormalizedPath.new f.1, f.2)) = lastFileHashes :=
    Function.LeftInverse.list_map (fun f => by simp) lastFileHashes
  cases keyRoot <;> cases artifactKey <;>
    simp only [ContextEntrySnapshot.restore, ContextEntry.toSnapshot, ContextEntry.forgetCompiler,
      ContextEntrySnapshot.logicalKey, hhash, stringsToPaths_pathsToStrings,
      new_toText, ContextState.ofCode_code, map_some, map_none]

@[simp] theorem externs_toSnapshot (key : ContextKey D) (e : ContextEntry D)
    (externs : Externs) : (e.toSnapshot key externs).externs = externs :=
  Function.LeftInverse.list_map (fun x => by simp) externs

section Restore

variable [DecidableEq D] (zeroHash : D) {g : DepGraph D} {cs : List (ContextEntrySnapshot D)}

namespace DepGraph

theorem restore_lookup_of_notMem {k : ContextKey D}
    (hk : k ∉ cs.map key) :
    (cs.foldl (restoreContext zeroHash) g).contexts.lookup k = g.contexts.lookup k ∧
      (cs.foldl (restoreContext zeroHash) g).rustcExterns.lookup k =
        g.rustcExterns.lookup k := by
  induction cs generalizing g with
  | nil => exact ⟨rfl, rfl⟩
  | cons c cs ih =>
    rw [map_cons, mem_cons, not_or] at hk
    obtain ⟨hctxs, hexts⟩ := ih (g := restoreContext zeroHash g c) hk.2
    rw [foldl_cons, hctxs, hexts]
    refine ⟨lookup_insert_ne hk.1, ?_⟩
    simp only [restoreContext]
    split
    · rfl
    · exact lookup_insert_ne hk.1

theorem restore_lookup_of_mem (hnodup : (cs.map key).Nodup)
    {c : ContextEntrySnapshot D} (hc : c ∈ cs) (hnone : g.rustcExterns.lookup c.key = none) :
    (cs.foldl (restoreContext zeroHash) g).contexts.lookup c.key = some (c.restore zeroHash) ∧
      (cs.foldl (restoreContext zeroHash) g).rustcExterns.lookup c.key =
        if c.externs.isEmpty then none else some c.externs := by
  induction cs generalizing g with
  | nil => cases hc
  | cons c' cs ih =>
    rw [map_cons, nodup_cons] at hnodup
    rw [foldl_cons]
    rcases mem_cons.mp hc with rfl | hmem
    · obtain ⟨hctxs, hexts⟩ :=
        restore_lookup_of_notMem zeroHash (g := restoreContext zeroHash g c) hnodup.1
      rw [hctxs, hexts]
      refine ⟨lookup_insert _, ?_⟩
      simp only [restoreContext]
      split
      · exact hnone
      · exact lookup_insert _
    · refine ih hnodup.2 hmem ?_
      have hne : c.key ≠ c'.key := fun h => hnodup.1 (h ▸ mem_map_of_mem hmem)
      simp only [restoreContext]
      split
      · exact hnone
      · rw [AList.lookup_insert_ne hne, hnone]

theorem restore_instancesOf (key : ContextKey D) :
    (cs.foldl (restoreContext zeroHash) g).instancesOf key =
      g.instancesOf key ++ (cs.filter (·.logicalKey = key)).map ContextEntrySnapshot.key := by
  induction cs generalizing g with
  | nil => simp
  | cons c cs ih =>
    rw [foldl_cons, ih]
    have hstep : (restoreContext zeroHash g c).instancesOf key =
        if c.logicalKey = key then g.instancesOf key ++ [c.key] else g.instancesOf key := by
      simp only [instancesOf, restoreContext, lookup_insert_eq_ite, eq_comm (a := key)]
      split
      · next h => rw [← h]; rfl
      · rfl
    rw [hstep]
    by_cases h : c.logicalKey = key <;> simp [h]

end DepGraph

end Restore

section Reads

variable [DecidableEq D] {H : Host D} {isFresh : NormalizedPath → Bool}
variable {getHash : NormalizedPath → Option D} {envValue : Name → Option Text}

namespace ContextEntry

theorem judgeKey_forgetCompiler (zeroHash : D) (e : ContextEntry D)
    (fileHashes : List (NormalizedPath × D)) (key : ReadKey D) :
    ((e.forgetCompiler zeroHash).judgeKey H isFresh getHash fileHashes key).2 =
      (e.judgeKey H isFresh getHash fileHashes key).2 := by
  simp only [judgeKey, apply_ite Prod.snd]
  rfl

theorem check_forgetCompiler (zeroHash : D) (e : ContextEntry D) (externs : Option Externs) :
    ((e.forgetCompiler zeroHash).check H isFresh getHash envValue externs).2 =
      (e.check H isFresh getHash envValue externs).2 := by
  have hfiles : (e.forgetCompiler zeroHash).inputFiles = e.inputFiles := rfl
  have hkey : ∀ fileHashes, (e.forgetCompiler zeroHash).readKey H getHash envValue externs
      fileHashes = e.readKey H getHash envValue externs fileHashes := fun _ => rfl
  simp only [check, apply_ite Prod.snd, hfiles, hkey]
  cases hashFiles getHash e.inputFiles with
  | none => rfl
  | some fileHashes =>
    dsimp only
    cases e.readKey H getHash envValue externs fileHashes with
    | none => rfl
    | some key =>
      simp only [judgeKey_forgetCompiler]
      rfl

theorem tryFastHit_forgetCompiler (zeroHash : D) (e : ContextEntry D)
    (externs : Option Externs) :
    (e.forgetCompiler zeroHash).tryFastHit H getHash envValue externs =
      e.tryFastHit H getHash envValue externs := rfl

theorem tryFastHit_of_inert {e : ContextEntry D}
    (h : e.state = .cold ∨ e.hasComputedIncludes = true) (externs : Option Externs) :
    e.tryFastHit H getHash envValue externs = none := by
  rw [tryFastHit, if_pos h]

variable {e : ContextEntry D} {externs : Option Externs} (zeroHash : D)

variable (h : externs = some [] → e.state = .cold ∨ e.hasComputedIncludes = true)

include h

theorem check_restored (now : ℕ) :
    ({ e.forgetCompiler zeroHash with lastAccessedUnixMs := now }.check H isFresh getHash envValue
        (externs.filter (!·.isEmpty))).2 =
      ({ e with lastAccessedUnixMs := now }.check H isFresh getHash envValue externs).2 := by
  refine (check_forgetCompiler zeroHash { e with lastAccessedUnixMs := now } _).trans ?_
  match externs, h with
  | none, _ => rfl
  | some [], h =>
    unfold check
    split
    · rfl
    · next hcold => rw [if_pos ((h rfl).resolve_left hcold), if_pos ((h rfl).resolve_left hcold)]
  | some (_ :: _), _ => rfl

theorem tryFastHit_restored :
    (e.forgetCompiler zeroHash).tryFastHit H getHash envValue (externs.filter (!·.isEmpty)) =
      e.tryFastHit H getHash envValue externs := by
  rw [tryFastHit_forgetCompiler]
  match externs, h with
  | none, _ => rfl
  | some [], h => rw [tryFastHit_of_inert (h rfl), tryFastHit_of_inert (h rfl)]
  | some (_ :: _), _ => rfl

end ContextEntry

end Reads

namespace DepGraph

section FromSnapshot

variable [DecidableEq D] {g : DepGraph D} {snap : DepGraphSnapshot D} {now : ℕ}
variable (zeroHash : D)

theorem keys_toSnapshotAt (g : DepGraph D) (now : ℕ) :
    (g.toSnapshotAt now).contexts.map ContextEntrySnapshot.key = g.contexts.keys := by
  rw [toSnapshotAt, List.map_map, AList.keys, List.keys]
  exact List.map_congr_left fun _ _ => rfl

variable (hperm : snap.contexts.Perm (g.toSnapshotAt now).contexts)

include hperm

theorem fromSnapshot_lookup (k : ContextKey D) :
    (fromSnapshot zeroHash snap).contexts.lookup k =
        (g.contexts.lookup k).map (forgetCompiler zeroHash) ∧
      ∀ e, g.contexts.lookup k = some e → (fromSnapshot zeroHash snap).rustcExterns.lookup k =
        (g.rustcExterns.lookup k).filter (!·.isEmpty) := by
  have hkeys : (snap.contexts.map key).Perm g.contexts.keys :=
    keys_toSnapshotAt g now ▸ hperm.map _
  have hnodup := hkeys.nodup_iff.mpr g.contexts.keys_nodup
  cases he : g.contexts.lookup k with
  | none =>
    have hk : k ∉ snap.contexts.map key := fun hmem =>
      lookup_eq_none.mp he (mem_keys.mpr (hkeys.mem_iff.mp hmem))
    exact ⟨(restore_lookup_of_notMem zeroHash hk).1, fun _ h => nomatch h⟩
  | some e =>
    have hmem : e.toSnapshot k ((g.getRustcExterns k).getD []) ∈ snap.contexts :=
      hperm.mem_iff.mpr (mem_map.mpr ⟨⟨k, e⟩, mem_lookup_iff.mp he, rfl⟩)
    have hrestored := fun files => restore_lookup_of_mem zeroHash
      (g := { DepGraph.new with files := files }) hnodup hmem (lookup_empty k)
    have hget : g.getRustcExterns k = g.rustcExterns.lookup k := by
      rw [getRustcExterns, resolveInstanceKey, he]
      rfl
    rw [restore_toSnapshot, externs_toSnapshot, hget] at hrestored
    refine ⟨(hrestored _).1, fun _ _ => (hrestored _).2.trans ?_⟩
    cases g.rustcExterns.lookup k with
    | none => rfl
    | some externs => cases externs <;> rfl

theorem IndexInv.fromSnapshot_instancesOf (h : IndexInv g) (key : ContextKey D) :
    ((fromSnapshot zeroHash snap).instancesOf key).Perm (g.instancesOf key) := by
  have hkeys : (snap.contexts.map ContextEntrySnapshot.key).Nodup := by
    rw [(hperm.map _).nodup_iff, keys_toSnapshotAt]
    exact g.contexts.keys_nodup
  rw [fromSnapshot, restore_instancesOf]
  refine (perm_ext_iff_of_nodup ((filter_sublist.map _).nodup hkeys)
    (h.nodup key)).mpr fun k => ?_
  rw [h.mem_iff]
  constructor
  · intro hk
    obtain ⟨c, hc, rfl⟩ := mem_map.mp hk
    obtain ⟨hmem, hlog⟩ := mem_filter.mp hc
    obtain ⟨⟨k, e⟩, he, rfl⟩ := mem_map.mp (hperm.mem_iff.mp hmem)
    have hlook : g.contexts.lookup k = some e := mem_lookup_iff.mpr he
    change g.logicalAt k = some key
    rw [logicalAt, hlook, map_some]
    exact congrArg some (of_decide_eq_true hlog)
  · intro hk
    obtain ⟨e, he, hlog⟩ := map_eq_some_iff.mp hk
    refine mem_map.mpr ⟨e.toSnapshot k ((g.getRustcExterns k).getD []), ?_, rfl⟩
    refine mem_filter.mpr ⟨hperm.mem_iff.mpr ?_, decide_eq_true hlog⟩
    exact mem_map.mpr ⟨⟨k, e⟩, mem_lookup_iff.mp he, rfl⟩

theorem IndexInv.fromSnapshot_resolveInstanceKey (h : IndexInv g) (key : ContextKey D) :
    (fromSnapshot zeroHash snap).resolveInstanceKey key = g.resolveInstanceKey key := by
  have hinsts := h.fromSnapshot_instancesOf zeroHash hperm key
  rw [resolveInstanceKey_eq, resolveInstanceKey_eq g, (fromSnapshot_lookup zeroHash hperm key).1,
    isSome_map]
  split
  · rfl
  · rcases hsame : g.instancesOf key with _ | ⟨k, _ | ⟨k', rest⟩⟩
    · rw [hsame] at hinsts
      rw [hinsts.eq_nil]
    · rw [hsame] at hinsts
      rw [perm_singleton.mp hinsts]
    · have hlen := hinsts.length_eq
      split
      · next heq => simp [heq, hsame] at hlen
      · rfl

end FromSnapshot

variable [DecidableEq D] {H : Host D} {snap : DepGraphSnapshot D} {now : ℕ}

/-- Every rustc context with an empty extern list is cold or needs the preprocessor. -/
def EmptyExternsInert (g : DepGraph D) : Prop :=
  ∀ k e, g.contexts.lookup k = some e → g.rustcExterns.lookup k = some [] →
    e.state = .cold ∨ e.hasComputedIncludes = true

theorem restored_answers (ops : List (PublicOp D)) (zeroHash : D)
    (hperm : snap.contexts.Perm ((performed H ops).toSnapshotAt now).contexts)
    (hinert : EmptyExternsInert (performed H ops)) (key : ContextKey D)
    (isFresh : NormalizedPath → Bool) (getHash : NormalizedPath → Option D)
    (envValue : Name → Option Text) (later : ℕ) :
    ((fromSnapshot zeroHash snap).checkWithEnv H isFresh getHash envValue key later).2 =
        ((performed H ops).checkWithEnv H isFresh getHash envValue key later).2 ∧
      ((fromSnapshot zeroHash snap).tryFastHitWithEnv H getHash envValue key).2 =
        ((performed H ops).tryFastHitWithEnv H getHash envValue key).2 := by
  have hres := (indexInv_performed (H := H) ops).fromSnapshot_resolveInstanceKey zeroHash
    hperm key
  have hlook := fromSnapshot_lookup zeroHash hperm
  generalize performed H ops = g at *
  cases hkey : g.resolveInstanceKey key with
  | none =>
    simp only [checkWithEnv_eq, checkDiagnosticWithEnv, tryFastHitWithEnv, hres, hkey, and_self]
  | some inst =>
    rw [hkey] at hres
    cases he : g.contexts.lookup inst with
    | none =>
      have hnone := (hlook inst).1
      rw [he, map_none] at hnone
      simp only [checkWithEnv_eq, checkDiagnosticWithEnv, tryFastHitWithEnv, hres, hkey, he,
        hnone, and_self]
    | some e =>
      have hsome := (hlook inst).1
      rw [he, map_some] at hsome
      have hexts := (hlook inst).2 e he
      simp only [checkWithEnv_eq, checkDiagnosticWithEnv_snd hres hsome,
        checkDiagnosticWithEnv_snd hkey he, tryFastHitWithEnv_snd hres hsome,
        tryFastHitWithEnv_snd hkey he, hexts]
      exact ⟨congrArg Prod.fst (check_restored zeroHash (hinert inst e he) later),
        tryFastHit_restored zeroHash (hinert inst e he)⟩

/-- A rustc crate with the given externs, registered and compiled once. -/
def compiledCrate (externs : Externs) : List (PublicOp Text) :=
  [.graph (.registerRustc ⟨"crate"⟩ (.plain (.new "/w/lib.rs") "rustc")
      (some (.new "/w")) externs none 0),
    .graph (.updateWithEnv ⟨"crate"⟩ ⟨[.new "/w/b.rs"], [], false⟩
      (fun p => some p.caseKey) [] (fun _ => none) 1)]

private theorem nul_not_mem_dep : nul ∉ "dep".toList := by decide

def sampleExterns : Externs :=
  [(⟨"dep", nul_not_mem_dep⟩, .new "/t/libdep.rlib")]

theorem restored_answers_compiledCrate :
    let g := performed Host.transparent (compiledCrate sampleExterns)
    let g' := fromSnapshot "0".toList (g.toSnapshotAt 2)
    (g.checkWithEnv Host.transparent (fun _ => true) (fun p => some p.caseKey) (fun _ => none)
        ⟨"crate".toList⟩ 3).2.isHit ∧
      (g'.checkWithEnv Host.transparent (fun _ => true) (fun p => some p.caseKey)
          (fun _ => none) ⟨"crate".toList⟩ 3).2 =
        (g.checkWithEnv Host.transparent (fun _ => true) (fun p => some p.caseKey)
          (fun _ => none) ⟨"crate".toList⟩ 3).2 := by
  refine ⟨by decide +kernel, (restored_answers _ _ (.refl _) ?_ _ _ _ _ _).1⟩
  intro k e _ hk
  have hne : ∀ s ∈ (performed Host.transparent (compiledCrate sampleExterns)).rustcExterns.entries,
      s.2 ≠ [] := by decide +kernel
  exact absurd rfl (hne _ (mem_lookup_iff.mp hk))

/-- A crate without externs hits before the restart and is cold after it. -/
theorem restored_answers_differ :
    let g := performed Host.transparent (compiledCrate [])
    let g' := fromSnapshot "0".toList (g.toSnapshotAt 2)
    (g.checkWithEnv Host.transparent (fun _ => true) (fun p => some p.caseKey) (fun _ => none)
        ⟨"crate".toList⟩ 3).2.isHit ∧
      (g'.checkWithEnv Host.transparent (fun _ => true) (fun p => some p.caseKey)
        (fun _ => none) ⟨"crate".toList⟩ 3).2 = .cold ∧
      (g.tryFastHitWithEnv Host.transparent (fun p => some p.caseKey) (fun _ => none)
        ⟨"crate".toList⟩).2.isSome ∧
      (g'.tryFastHitWithEnv Host.transparent (fun p => some p.caseKey) (fun _ => none)
        ⟨"crate".toList⟩).2 = none := by
  decide +kernel

end DepGraph

end Zccache
