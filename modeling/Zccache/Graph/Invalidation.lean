import Zccache.Graph.History

/-! # Evicted keys and stale contexts

What the graph serves after artifact keys were evicted or a context was marked:
keys that it computes again from hashes, and nothing else.
-/

namespace Zccache

open Unix FinMap Run ContextEntry

variable {D : Type} [DecidableEq D] {H : Host D} {g : DepGraph D} {evictedHex : List Text}

namespace DepGraph

section Invalidated

variable (H g evictedHex)

theorem not_stored_evicted {k : ArtifactKey D} (hk : H.toHex k.hash ∈ evictedHex) :
    ¬ Stored (g.invalidateArtifactKeys H.toHasher evictedHex).1 k := by
  rintro ⟨inst, e, he, hkey⟩
  rw [lookup_invalidateArtifactKeys] at he
  obtain ⟨old, -, rfl⟩ := Option.map_eq_some_iff.mp he
  rw [clearIfEvicted_eq] at hkey
  split at hkey
  · cases hkey
  · next hnot => simp [namesEvicted, hkey, hk] at hnot

omit [DecidableEq D] in
theorem invalidateArtifactKeys_count :
    (g.invalidateArtifactKeys H.toHasher evictedHex).2 =
      g.contexts.entries.countP fun s => s.2.namesEvicted H.toHasher evictedHex := by
  unfold invalidateArtifactKeys
  split
  · next hempty =>
    refine (List.countP_eq_zero.mpr fun s _ => ?_).symm
    simp [List.isEmpty_iff.mp hempty, namesEvicted_nil]
  · rfl

theorem resolveInstanceKey_invalidate (key : ContextKey D) :
    (g.invalidateArtifactKeys H.toHasher evictedHex).1.resolveInstanceKey key =
      g.resolveInstanceKey key := by
  apply resolveInstanceKey_congr
  · intro inst
    rw [lookup_invalidateArtifactKeys, Option.isSome_map]
  · exact (invalidateArtifactKeys_frame H.toHasher g evictedHex).index

/-- The count is that of the contexts with an evicted key. An evicted key is not served in any
history until an operation computes it from hashes; a context with another key keeps its entry and
every answer. -/
theorem invalidation_exact :
    (g.invalidateArtifactKeys H.toHasher evictedHex).2 =
      (g.contexts.entries.countP fun s => s.2.namesEvicted H.toHasher evictedHex) ∧
    let g' := (g.invalidateArtifactKeys H.toHasher evictedHex).1
    (∀ ops op k, H.toHex k.hash ∈ evictedHex → Serves H (run (step H) g' ops) op k →
      ∃ pre op' post, ops = pre ++ op' :: post ∧ Produces H (run (step H) g' pre) op' k ∧
        ∃ i, (run (step H) g' pre).usedInputs H op' = some i ∧ k = i.artifactKey H.toHasher) ∧
    (∀ inst e, g.contexts.lookup inst = some e → e.namesEvicted H.toHasher evictedHex = false →
      g'.contexts.lookup inst = some e ∧ g'.rustcExterns = g.rustcExterns ∧
      ∀ key, g.resolveInstanceKey key = some inst → ∀ isFresh getHash envValue now,
        (g'.checkWithEnv H isFresh getHash envValue key now).2 =
          (g.checkWithEnv H isFresh getHash envValue key now).2 ∧
        (g'.checkDiagnosticWithEnv H isFresh getHash envValue key now).2 =
          (g.checkDiagnosticWithEnv H isFresh getHash envValue key now).2 ∧
        (g'.tryFastHitWithEnv H getHash envValue key).2 =
          (g.tryFastHitWithEnv H getHash envValue key).2) := by
  refine ⟨invalidateArtifactKeys_count H g evictedHex, fun ops op k hk hserves => ?_,
    fun inst e he hnot => ?_⟩
  · -- The key is stored when it is served, and was not stored right after the eviction.
    obtain ⟨pre, op', post, hops, hprod⟩ := run_origin (Stored · k)
      (not_stored_evicted H g evictedHex hk) (fun s op => stored_step s op k)
      (serves_inputs hserves).1
    exact ⟨pre, op', post, hops, hprod, produces_inputs hprod⟩
  · set g' := (g.invalidateArtifactKeys H.toHasher evictedHex).1
    have he' : g'.contexts.lookup inst = some e := by
      rw [lookup_invalidateArtifactKeys, he, Option.map_some, clearIfEvicted_eq, hnot]
      rfl
    have hexts := (invalidateArtifactKeys_frame H.toHasher g evictedHex).1
    refine ⟨he', hexts, fun key hres isFresh getHash envValue now => ?_⟩
    have hres' := (resolveInstanceKey_invalidate H g evictedHex key).trans hres
    have hdiagnostic : (g'.checkDiagnosticWithEnv H isFresh getHash envValue key now).2 =
        (g.checkDiagnosticWithEnv H isFresh getHash envValue key now).2 := by
      rw [checkDiagnosticWithEnv_snd hres he, checkDiagnosticWithEnv_snd hres' he',
        hexts]
    refine ⟨?_, hdiagnostic, ?_⟩
    · rw [checkWithEnv_eq, checkWithEnv_eq, hdiagnostic]
    · rw [tryFastHitWithEnv_snd hres he, tryFastHitWithEnv_snd hres' he', hexts]

end Invalidated

variable {key inst : ContextKey D} {op : GraphOp D}

/-- The operation records a compilation of the instance. -/
def Updates (H : Host D) (g : DepGraph D) (inst : ContextKey D) : GraphOp D → Prop
  | .updateWithEnv key scan getHash names envValue now => g.resolveInstanceKey key = some inst ∧
      (g.updateWithEnv H getHash envValue key scan names now).2.isSome = true
  | _ => False

/-- The instance is live, and not marked. -/
def Unmarked (inst : ContextKey D) (g : DepGraph D) : Prop :=
  ∃ e ∈ g.contexts.lookup inst, e.state ≠ .stale

theorem unmarked_step (h : Unmarked inst (g.step H op)) :
    Unmarked inst g ∨ g.contexts.lookup inst = none ∨ Updates H g inst op := by
  obtain ⟨e', he', hstate'⟩ := h
  rcases entry_step he' with ⟨e, he, hstep⟩ | ⟨hnone, -⟩
  · cases hstep with
    | kept state now hkey hstate =>
      rcases hstate with rfl | rfl
      · exact .inl ⟨e, he, hstate'⟩
      · exact absurd rfl hstate'
    | @updated key scan getHash names envValue now hop hres hresult =>
      subst hop
      rcases update_cases H getHash envValue e (g.rustcExterns.lookup inst) scan names
          now with hfail | ⟨_, key', _, _, _, hok⟩
      · rw [hfail] at hstate'
        exact .inl ⟨e, he, hstate'⟩
      · rw [hok] at hresult
        exact .inr (.inr ⟨hres, by rw [OpResult.updated.inj hresult]; rfl⟩)
    | refreshed => exact .inl ⟨e, he, hstate'⟩
  · exact .inr (.inl hnone)

/-- A marked context stays marked in every history until a compilation of it is recorded or it
goes, and whatever key is served, then or later, is the one that the serving operation computes
from its own hashes of every input. -/
theorem markStale_blocks (H : Host D) (g : DepGraph D) (key : ContextKey D)
    (ops : List (GraphOp D)) :
    let marked := (g.markStale key).1
    (∀ inst ∈ g.resolveInstanceKey key, Unmarked inst (run (step H) marked ops) →
      ∃ pre op post, ops = pre ++ op :: post ∧
        ((run (step H) marked pre).contexts.lookup inst = none ∨
          Updates H (run (step H) marked pre) inst op)) ∧
    ∀ op k, Serves H (run (step H) marked ops) op k →
      ∃ i, (run (step H) marked ops).usedInputs H op = some i ∧ k = i.artifactKey H.toHasher := by
  intro marked
  refine ⟨fun inst hres h => ?_, fun op k h => (serves_inputs h).2⟩
  have hmarked : ¬ Unmarked inst marked := by
    rintro ⟨e, he, hstate⟩
    rw [Option.mem_def] at hres he
    simp only [marked, markStale, hres] at he
    split at he
    · next hnone =>
      rw [hnone] at he
      cases he
    · rw [AList.lookup_insert] at he
      cases he
      exact hstate rfl
  exact run_origin (Unmarked inst) hmarked (fun _ _ => unmarked_step) h

end DepGraph

end Zccache
