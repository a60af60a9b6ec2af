import Zccache.Graph.Compat
import Zccache.Graph.Index

/-! # The public operations of the graph

Every operation a client of the graph can call. Most of them rewrite entries of
live instances and leave the indexes alone; registration, eviction and clearing
keep the five maps in step with each other.
-/

namespace Zccache

open List Unix FinMap Option AList DepGraph

variable {D : Type} [DecidableEq D]

inductive PublicOp (D : Type) where
  | graph (op : GraphOp D)
  | checkRustcMetadataCompat (compatKey : ContextKey D) (currentExterns : Externs)
      (isFresh : NormalizedPath → Bool) (getHash : NormalizedPath → Option D)
      (envValue : Name → Option Text)
  | setRustcEnvDeps (key : ContextKey D) (deps : List (Name × Option D))
  | storeFileIncludes (path : NormalizedPath) (includes : List IncludeDirective)
  | takeDirty

namespace DepGraph

def takeDirty (g : DepGraph D) : DepGraph D × Bool :=
  ({ g with dirty := false }, g.dirty)

def perform (H : Host D) (g : DepGraph D) : PublicOp D → DepGraph D
  | .graph op => g.step H op
  | .checkRustcMetadataCompat compatKey currentExterns isFresh getHash envValue =>
    (g.checkRustcMetadataCompatDiagnosticWithEnv H isFresh getHash envValue compatKey
      currentExterns).1
  | .setRustcEnvDeps key deps => g.setRustcEnvDeps key deps
  | .storeFileIncludes path includes => g.storeFileIncludes path includes
  | .takeDirty => g.takeDirty.1

variable {H : Host D} {g g' : DepGraph D} {key k : ContextKey D}

/-- The same instances are live, under the same logical keys and the same indexes. -/
structure Rewrites (g g' : DepGraph D) : Prop where
  logicalAt : ∀ k, g'.logicalAt k = g.logicalAt k
  frame : SameIndexes g g'

theorem Rewrites.of_contexts (hctxs : g'.contexts = g.contexts)
    (hframe : SameIndexes g g') : Rewrites g g' where
  logicalAt k := by rw [DepGraph.logicalAt, hctxs, DepGraph.logicalAt]
  frame := hframe

theorem Rewrites.of_insert {e e' : ContextEntry D} (he : g.contexts.lookup k = some e)
    (hlog : e'.logicalKey = e.logicalKey) (hctxs : g'.contexts = g.contexts.insert k e')
    (hframe : SameIndexes g g') : Rewrites g g' where
  logicalAt k' := by
    rw [DepGraph.logicalAt, hctxs, lookup_insert_eq_ite, DepGraph.logicalAt]
    split
    · next hk => rw [hk, he, map_some, map_some, hlog]
    · rfl
  frame := hframe

theorem rewrites_checkDiagnosticWithEnv (g : DepGraph D) (key : ContextKey D)
    (isFresh : NormalizedPath → Bool) (getHash : NormalizedPath → Option D)
    (envValue : Name → Option Text) (now : ℕ) :
    Rewrites g (g.checkDiagnosticWithEnv H isFresh getHash envValue key now).1 := by
  have hframe := checkDiagnosticWithEnv_frame H isFresh getHash envValue g key now
  rcases checkDiagnosticWithEnv_cases H isFresh getHash envValue g key now with
    ⟨hsame, -⟩ | ⟨inst, e, -, he, hctxs, -⟩
  · exact .of_contexts hsame hframe
  · exact .of_insert he (by rw [ContextEntry.check_logicalKey]) hctxs hframe

theorem rewrites_updateWithEnv (g : DepGraph D) (key : ContextKey D) (scan : ScanResult)
    (getHash : NormalizedPath → Option D) (names : List Name) (envValue : Name → Option Text)
    (now : ℕ) : Rewrites g (g.updateWithEnv H getHash envValue key scan names now).1 := by
  have hframe := updateWithEnv_frame H getHash envValue g key scan names now
  rcases updateWithEnv_cases H getHash envValue g key scan names now with
    ⟨hsame, -⟩ | ⟨inst, e, -, he, hctxs, -⟩
  · exact .of_contexts hsame hframe
  · exact .of_insert he (ContextEntry.update_logicalKey ..) hctxs hframe

theorem rewrites_invalidateArtifactKeys (g : DepGraph D) (evictedHex : List Text) :
    Rewrites g (g.invalidateArtifactKeys H.toHasher evictedHex).1 := by
  refine ⟨fun k => ?_, invalidateArtifactKeys_frame H.toHasher g evictedHex⟩
  rw [logicalAt, lookup_invalidateArtifactKeys, Option.map_map, logicalAt]
  congr 1
  funext e
  rw [Function.comp_apply, clearIfEvicted_eq]
  split <;> rfl

theorem setRustcEnvDeps_cases (g : DepGraph D) (key : ContextKey D)
    (deps : List (Name × Option D)) :
    g.setRustcEnvDeps key deps = g ∨
    ∃ inst entry, g.contexts.lookup inst = some entry ∧
      g.setRustcEnvDeps key deps = { g with
        contexts := g.contexts.insert inst { entry with rustcEnvDeps := deps }
        dirty := true } := by
  unfold setRustcEnvDeps
  split
  · exact .inl rfl
  · split
    · exact .inl rfl
    · next entry hentry => exact .inr ⟨_, entry, hentry, rfl⟩

theorem checkRustcMetadataCompat_fst (g : DepGraph D) (compatKey : ContextKey D)
    (currentExterns : Externs) (isFresh : NormalizedPath → Bool)
    (getHash : NormalizedPath → Option D) (envValue : Name → Option Text) :
    ∃ hits, (g.checkRustcMetadataCompatDiagnosticWithEnv H isFresh getHash envValue compatKey
      currentExterns).1 = { g with hits := hits } := by
  unfold checkRustcMetadataCompatDiagnosticWithEnv
  split
  · exact ⟨g.hits, rfl⟩
  · split
    · exact ⟨g.hits, rfl⟩
    · exact ⟨g.hits, rfl⟩
    · exact ⟨_, rfl⟩

/-- The operations that can change which instances there are or what the indexes hold. -/
def restructures : PublicOp D → Bool
  | .graph (.register ..) => true
  | .graph (.registerWithKey ..) => true
  | .graph (.registerRustc ..) => true
  | .graph (.trimAt ..) => true
  | .graph (.evictContexts ..) => true
  | .graph .clear => true
  | _ => false

theorem rewrites_perform (g : DepGraph D) {op : PublicOp D} (hop : restructures op = false) :
    Rewrites g (g.perform H op) := by
  cases op with
  | graph op =>
    cases op with
    | updateWithEnv key scan getHash names envValue now => exact rewrites_updateWithEnv ..
    | checkWithEnv key isFresh getHash envValue now =>
      rw [perform, step, apply_checkWithEnv]
      exact rewrites_checkDiagnosticWithEnv ..
    | checkDiagnosticWithEnv key isFresh getHash envValue now =>
      exact rewrites_checkDiagnosticWithEnv ..
    | tryFastHitWithEnv key getHash envValue =>
      obtain ⟨hits, hsame⟩ := tryFastHitWithEnv_fst (H := H) g key
      rw [perform, step, apply, hsame]
      exact .of_contexts rfl ⟨rfl, rfl, rfl⟩
    | markStale key =>
      rw [perform, step, apply]
      rcases markStale_cases g key with hsame | ⟨inst, entry, hentry, hmarked⟩
      · rw [hsame]
        exact .of_contexts rfl ⟨rfl, rfl, rfl⟩
      · rw [hmarked]
        exact .of_insert hentry (by rfl) rfl ⟨rfl, rfl, rfl⟩
    | invalidateArtifactKeys evictedHex => exact rewrites_invalidateArtifactKeys ..
    | _ => cases hop
  | checkRustcMetadataCompat compatKey currentExterns isFresh getHash envValue =>
    obtain ⟨hits, hsame⟩ := checkRustcMetadataCompat_fst (H := H) g compatKey currentExterns
      isFresh getHash envValue
    rw [perform, hsame]
    exact .of_contexts rfl ⟨rfl, rfl, rfl⟩
  | setRustcEnvDeps key deps =>
    rw [perform]
    rcases setRustcEnvDeps_cases g key deps with hsame | ⟨inst, entry, hentry, hset⟩
    · rw [hsame]
      exact .of_contexts rfl ⟨rfl, rfl, rfl⟩
    · rw [hset]
      exact .of_insert hentry (by rfl) rfl ⟨rfl, rfl, rfl⟩
  | storeFileIncludes | takeDirty => exact .of_contexts rfl ⟨rfl, rfl, rfl⟩

/-- The five maps in step: the index lists exactly the live instances, in lists that are not
empty and within the limit, and the externs and aliases belong to live instances. -/
structure WellIndexed (H : Host D) (g : DepGraph D) : Prop where
  mem_iff : ∀ key k, k ∈ g.instancesOf key ↔ g.logicalAt k = some key
  nodup : ∀ key, (g.instancesOf key).Nodup
  nonempty : ∀ key, g.equivalentContexts.lookup key ≠ some []
  bounded : ∀ key, (g.instancesOf key).length ≤ H.maxEquivalentContexts
  externs : ∀ k, (g.rustcExterns.lookup k).isSome → g.isLive k
  compat : ∀ compatKey target, g.rustcCheckMetadataCompat.lookup compatKey = some target →
    g.isLive target

namespace WellIndexed

theorem indexInv (h : WellIndexed H g) : IndexInv g :=
  ⟨h.mem_iff, h.nodup⟩

theorem isLive_eq (g : DepGraph D) (k : ContextKey D) : g.isLive k = (g.logicalAt k).isSome := by
  rw [isLive, logicalAt, isSome_map]

theorem of_empty (hctxs : g.contexts = ∅) (hidx : g.equivalentContexts = ∅)
    (hexts : g.rustcExterns = ∅) (hcompat : g.rustcCheckMetadataCompat = ∅) :
    WellIndexed H g := by
  have hinv := indexInv_of_empty hctxs hidx
  refine ⟨hinv.mem_iff, hinv.nodup, ?_, ?_, ?_, ?_⟩
  · intro key
    simp [hidx]
  · intro key
    simp [instancesOf, hidx]
  · intro k hk
    simp [hexts] at hk
  · intro compatKey target htgt
    simp [hcompat] at htgt

theorem rewrites (h : WellIndexed H g) (hg : Rewrites g g') : WellIndexed H g' := by
  have hinv := h.indexInv.congr hg.logicalAt hg.frame.index
  have hlive : ∀ k, g'.isLive k = g.isLive k := by
    intro k
    rw [isLive_eq, hg.logicalAt, isLive_eq]
  refine ⟨hinv.mem_iff, hinv.nodup, ?_, ?_, ?_, ?_⟩
  · intro key
    rw [hg.frame.index]
    exact h.nonempty key
  · intro key
    rw [instancesOf, hg.frame.index]
    exact h.bounded key
  · intro k hk
    rw [hlive]
    exact h.externs k (hg.frame.externs ▸ hk)
  · intro compatKey target htgt
    rw [hlive]
    exact h.compat compatKey target (hg.frame.compat ▸ htgt)

theorem evictContexts (h : WellIndexed H g) (keys : List (ContextKey D)) :
    WellIndexed H (g.evictContexts keys).1 := by
  have hinv := h.indexInv.evictContexts keys
  have hidx : ∀ key, (g.evictContexts keys).1.equivalentContexts.lookup key =
      (g.equivalentContexts.lookup key).bind fun instances =>
        let instances := instances.filter (g.evictContexts keys).1.isLive
        if instances.isEmpty then none else some instances := by
    intro key
    exact lookup_filterMap _ g.equivalentContexts key
  refine ⟨hinv.mem_iff, hinv.nodup, ?_, ?_, ?_, ?_⟩
  · intro key hempty
    rw [hidx] at hempty
    obtain ⟨instances, -, hfilt⟩ := bind_eq_some_iff.mp hempty
    dsimp only at hfilt
    split at hfilt
    · cases hfilt
    · next hne => exact hne (by rw [some.inj hfilt]; rfl)
  · intro key
    have hbound := h.bounded key
    rw [instancesOf] at hbound ⊢
    rw [hidx]
    cases hlist : g.equivalentContexts.lookup key with
    | none => simp
    | some instances =>
      rw [hlist, getD_some] at hbound
      rw [bind_some]
      dsimp only
      split
      · simp
      · exact (length_filter_le _ _).trans hbound
  · intro k hk
    change (lookup k (filter _ g.rustcExterns)).isSome at hk
    rw [lookup_filter] at hk
    obtain ⟨externs, hexts⟩ := isSome_iff_exists.mp hk
    exact (filter_eq_some_iff.mp hexts).2
  · intro compatKey target htgt
    change lookup compatKey (filter _ g.rustcCheckMetadataCompat) = some target at htgt
    rw [lookup_filter] at htgt
    exact (filter_eq_some_iff.mp htgt).2

section Register

variable {instanceKey : ContextKey D} {e : ContextEntry D}

theorem push (h : WellIndexed H g) (hnew : g.contexts.lookup instanceKey = none)
    (hkey : e.logicalKey = key)
    (hlimit : (g.instancesOf key).length + 1 ≤ H.maxEquivalentContexts)
    (hctxs : g'.contexts = g.contexts.insert instanceKey e)
    (hidx : g'.equivalentContexts =
      g.equivalentContexts.insert key (g.instancesOf key ++ [instanceKey]))
    (hexts : g'.rustcExterns = g.rustcExterns)
    (hcompat : g'.rustcCheckMetadataCompat = g.rustcCheckMetadataCompat) :
    WellIndexed H g' := by
  have hinv := h.indexInv.push hnew hkey hctxs hidx
  have hlive : ∀ k, g.isLive k → g'.isLive k := by
    intro k hk
    rw [isLive, hctxs, lookup_insert_eq_ite]
    split
    · rfl
    · exact hk
  refine ⟨hinv.mem_iff, hinv.nodup, ?_, ?_, ?_, ?_⟩
  · intro key' hempty
    rw [hidx, lookup_insert_eq_ite] at hempty
    split at hempty
    · simp at hempty
    · exact h.nonempty key' hempty
  · intro key'
    rw [instancesOf, hidx, lookup_insert_eq_ite]
    split
    · simpa using hlimit
    · exact h.bounded key'
  · intro k hk
    exact hlive k (h.externs k (hexts ▸ hk))
  · intro compatKey target htgt
    exact hlive target (h.compat compatKey target (hcompat ▸ htgt))

/-- A new instance enters a full list, and the oldest one leaves. -/
theorem pushPop (h : WellIndexed H g) (hnew : g.contexts.lookup instanceKey = none)
    (hkey : e.logicalKey = key) {first : ContextKey D} {rest : List (ContextKey D)}
    (hlist : g.instancesOf key = first :: rest)
    (hctxs : g'.contexts = (g.contexts.insert instanceKey e).erase first)
    (hidx : g'.equivalentContexts = g.equivalentContexts.insert key (rest ++ [instanceKey]))
    (hexts : g'.rustcExterns = g.rustcExterns.erase first)
    (hcompat : g'.rustcCheckMetadataCompat =
      filter (fun _ target => target ≠ first) g.rustcCheckMetadataCompat) :
    WellIndexed H g' := by
  have hlive : ∀ k, k ≠ first → g.isLive k → g'.isLive k := by
    intro k hne hk
    rw [isLive, hctxs, lookup_erase_eq_ite, if_neg hne, lookup_insert_eq_ite]
    split
    · rfl
    · exact hk
  have hinv : IndexInv g' := by
    let pushed := { g with
      contexts := g.contexts.insert instanceKey e
      equivalentContexts :=
        g.equivalentContexts.insert key (g.instancesOf key ++ [instanceKey]) }
    have hpushed : IndexInv pushed := h.indexInv.push hnew hkey rfl rfl
    have hfirst : pushed.instancesOf key = first :: (rest ++ [instanceKey]) := by
      rw [instancesOf, lookup_insert, getD_some, hlist]
      rfl
    refine hpushed.pop hfirst hctxs fun key' => ?_
    simp only [pushed, instancesOf, hidx, lookup_insert_eq_ite]
    split <;> rfl
  refine ⟨hinv.mem_iff, hinv.nodup, ?_, ?_, ?_, ?_⟩
  · intro key' hempty
    rw [hidx, lookup_insert_eq_ite] at hempty
    split at hempty
    · simp at hempty
    · exact h.nonempty key' hempty
  · intro key'
    have hbound := h.bounded key
    rw [hlist, length_cons] at hbound
    rw [instancesOf, hidx, lookup_insert_eq_ite]
    split
    · simpa using hbound
    · exact h.bounded key'
  · intro k hk
    rw [hexts, lookup_erase_eq_ite] at hk
    split at hk
    · cases hk
    · next hne => exact hlive k hne (h.externs k hk)
  · intro compatKey target htgt
    rw [hcompat, lookup_filter] at htgt
    obtain ⟨hold, hne⟩ := filter_eq_some_iff.mp htgt
    exact hlive target (by simpa using hne) (h.compat compatKey target hold)

theorem isLive_of_insert (hctxs : g'.contexts = g.contexts.insert k e) : g'.isLive k := by
  rw [isLive, hctxs, lookup_insert]
  rfl

variable (h : WellIndexed H g)

include h

theorem registerContextEntry (key : ContextKey D) (ctx : CompileContext D)
    (keyRoot : Option NormalizedPath) (now : ℕ) :
    let result := g.registerContextEntry H key ctx keyRoot now
    WellIndexed H result.1 ∧ result.1.isLive result.2.mapKey := by
  intro result
  simp only [result, DepGraph.registerContextEntry]
  split
  · next existing hexisting =>
    exact ⟨h.rewrites (.of_insert hexisting (by rfl) rfl ⟨rfl, rfl, rfl⟩),
      isLive_of_insert (g := g) rfl⟩
  · next hnew =>
    generalize (ContextInstanceKey.new H.toHasher key ctx.sourceFile keyRoot).mapKey = inst at hnew
    have habsent : inst ∉ g.instancesOf key := by
      intro hmem
      have hlog := (h.mem_iff key inst).mp hmem
      rw [logicalAt, hnew] at hlog
      cases hlog
    have hkey := h.indexInv.logicalKey_freshEntry key ctx keyRoot now
    have hpush := pushInstance_eq g key habsent
    simp only [indexInstance, hpush]
    split
    · next hfull =>
      -- the limit is at least one, so the instance that leaves is an older one
      have hpos := H.maxEquivalentContexts_pos
      cases hlist : g.instancesOf key with
      | nil =>
        rw [hlist] at hfull
        simp only [nil_append, length_singleton] at hfull
        omega
      | cons first rest =>
        have hne : inst ≠ first := by
          rintro rfl
          exact habsent (hlist ▸ mem_cons_self)
        refine ⟨h.pushPop hnew hkey hlist rfl rfl rfl rfl, ?_⟩
        rw [isLive]
        simp only [cons_append, removeInstance, lookup_erase_eq_ite, if_neg hne,
          lookup_insert, isSome_some]
    · next hroom =>
      rw [length_append, length_singleton, not_lt] at hroom
      exact ⟨h.push hnew hkey hroom rfl rfl rfl rfl, isLive_of_insert (g := g) rfl⟩

theorem registerPlain (key : ContextKey D) (ctx : CompileContext D)
    (keyRoot : Option NormalizedPath) (now : ℕ) :
    WellIndexed H (g.registerWithKeyAndRootResult H key ctx keyRoot now).1 := by
  obtain ⟨hentry, -⟩ := h.registerContextEntry key ctx keyRoot now
  refine ⟨hentry.mem_iff, hentry.nodup, hentry.nonempty, hentry.bounded, ?_, hentry.compat⟩
  intro k hk
  change (lookup k (erase _ _)).isSome at hk
  rw [lookup_erase_eq_ite] at hk
  split at hk
  · cases hk
  · exact hentry.externs k hk

theorem registerRustc (key : ContextKey D) (ctx : CompileContext D)
    (keyRoot : Option NormalizedPath) (externs : Externs) (compat : Option (ContextKey D))
    (now : ℕ) :
    WellIndexed H (g.registerRustcWithKeyAndRootResult H key ctx keyRoot externs compat now).1 := by
  obtain ⟨hentry, hlive⟩ := h.registerContextEntry key ctx keyRoot now
  have hexts : ∀ k, (lookup k ((g.registerContextEntry H key ctx keyRoot
      now).1.rustcExterns.insert (g.registerContextEntry H key ctx keyRoot now).2.mapKey
        externs)).isSome → (g.registerContextEntry H key ctx keyRoot now).1.isLive k := by
    intro k hk
    rw [lookup_insert_eq_ite] at hk
    split at hk
    · next hinst => rwa [hinst]
    · exact hentry.externs k hk
  cases compat with
  | none =>
    exact ⟨hentry.mem_iff, hentry.nodup, hentry.nonempty, hentry.bounded, hexts,
      hentry.compat⟩
  | some compatKey =>
    refine ⟨hentry.mem_iff, hentry.nodup, hentry.nonempty, hentry.bounded, hexts, ?_⟩
    intro compatKey' target htgt
    have hins := (lookup_insert_eq_ite _ _ compatKey' _).symm.trans htgt
    split at hins
    · cases hins
      exact hlive
    · exact hentry.compat compatKey' target hins

end Register

theorem perform (h : WellIndexed H g) (op : PublicOp D) : WellIndexed H (g.perform H op) := by
  cases hop : restructures op with
  | false => exact h.rewrites (rewrites_perform g hop)
  | true =>
    cases op with
    | graph op =>
      cases op with
      | register ctx keyRoot salt now => exact (h.registerPlain _ ctx keyRoot now)
      | registerWithKey key ctx keyRoot now => exact (h.registerPlain key ctx keyRoot now)
      | registerRustc key ctx keyRoot externs compat now =>
        exact h.registerRustc key ctx keyRoot externs compat now
      | trimAt maxAge nowMs => exact h.evictContexts _
      | evictContexts keys => exact h.evictContexts keys
      | clear => exact of_empty rfl rfl rfl rfl
      | _ => cases hop
    | _ => cases hop

end WellIndexed

/-- The graph after a sequence of public operations. -/
def performed (H : Host D) (ops : List (PublicOp D)) : DepGraph D :=
  Run.run (perform H) new ops

theorem indexInv_performed (ops : List (PublicOp D)) : IndexInv (performed H ops) := by
  have hwell : WellIndexed H (performed H ops) :=
    Run.run_invariant (.of_empty rfl rfl rfl rfl) (fun _ op h => h.perform op) ops
  exact hwell.indexInv

/-- After every sequence of operations on the empty graph the maps are in step. -/
theorem wellIndexed_run (H : Host D) (ops : List (PublicOp D)) :
    WellIndexed H (Run.run (perform H) new ops) :=
  Run.run_invariant (.of_empty rfl rfl rfl rfl) (fun _ op h => h.perform op) ops

end DepGraph

end Zccache
