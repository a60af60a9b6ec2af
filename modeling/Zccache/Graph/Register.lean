import Zccache.Graph.Basic

/-! # Registering contexts

An instance is one checkout of a logical context. A new instance starts from the
first live instance of the same logical key, with the paths under that
instance's root moved to its own root.
-/

namespace Zccache

open Unix FinMap

variable {D : Type}

structure ContextRegistration (D : Type) where
  key : ContextKey D
  mapKey : ContextKey D
  instanceKey : ContextInstanceKey D
  metadataCompatMapKey : Option (ContextKey D)
  rebasedFromEquivalentRoot : Bool
  state : ContextState

namespace ContextEntry

def cold (key : ContextKey D) (ctx : CompileContext D) (keyRoot : Option NormalizedPath)
    (now : ℕ) : ContextEntry D where
  logicalKey := key
  context := ctx
  keyRoot := keyRoot
  resolvedIncludes := []
  unresolvedIncludes := []
  hasComputedIncludes := false
  artifactKey := none
  lastFileHashes := []
  rustcEnvDeps := []
  lastAccessedUnixMs := now
  state := .cold

def rebase (candidate : ContextEntry D) (ctx : CompileContext D)
    (keyRoot : Option NormalizedPath) (now : ℕ) : ContextEntry D :=
  let move path := rebaseProjectPath path candidate.keyRoot keyRoot
  { candidate with
    resolvedIncludes := candidate.resolvedIncludes.map move
    lastFileHashes := candidate.lastFileHashes.map fun f => (move f.1, f.2)
    context := ctx
    keyRoot := keyRoot
    lastAccessedUnixMs := now }

end ContextEntry

namespace DepGraph

variable [DecidableEq D] (H : Host D)

variable (g : DepGraph D) (key : ContextKey D) (ctx : CompileContext D)
variable (keyRoot : Option NormalizedPath) (instanceKey : ContextKey D) (worktreeSalt : Option Path)
variable (now : ℕ)

def equivalentCandidate : Option (ContextEntry D) :=
  (g.equivalentContexts.lookup key).bind fun instances =>
    instances.findSome? fun k => g.contexts.lookup k

def freshEntry : ContextEntry D :=
  match g.equivalentCandidate key with
  | some candidate => candidate.rebase ctx keyRoot now
  | none => .cold key ctx keyRoot now

def removeInstance : DepGraph D :=
  { g with
    contexts := g.contexts.erase instanceKey
    rustcExterns := g.rustcExterns.erase instanceKey
    rustcCheckMetadataCompat :=
      filter (fun _ target => target ≠ instanceKey) g.rustcCheckMetadataCompat }

def pushInstance (instances : Option (List (ContextKey D))) (instanceKey : ContextKey D) :
    List (ContextKey D) :=
  match instances with
  | some instances =>
    if instanceKey ∈ instances then instances else instances ++ [instanceKey]
  | none => [instanceKey]

/-- Records an instance under its logical key; past the limit the oldest one goes. -/
def indexInstance : DepGraph D :=
  let instances := pushInstance (g.equivalentContexts.lookup key) instanceKey
  if H.maxEquivalentContexts < instances.length then
    match instances with
    | [] => { g with equivalentContexts := g.equivalentContexts.insert key [] }
    | evicted :: rest =>
      { g with equivalentContexts := g.equivalentContexts.insert key rest }.removeInstance
        evicted
  else { g with equivalentContexts := g.equivalentContexts.insert key instances }

def registerContextEntry : DepGraph D × ContextRegistration D :=
  let inst := ContextInstanceKey.new H.toHasher key ctx.sourceFile keyRoot
  let instanceKey := inst.mapKey
  match g.contexts.lookup instanceKey with
  | some existing =>
    ({ g with
        contexts :=
          g.contexts.insert instanceKey { existing with lastAccessedUnixMs := now }
        dirty := true },
      ⟨key, instanceKey, inst, none, false, existing.state⟩)
  | none =>
    let rebased :=
      match g.equivalentCandidate key with
      | some e => e.keyRoot.isSome && keyRoot.isSome && e.keyRoot ≠ keyRoot
      | none => false
    let entry := g.freshEntry key ctx keyRoot now
    ({ g with
        contexts := g.contexts.insert instanceKey entry
        dirty := true }.indexInstance H key instanceKey,
      ⟨key, instanceKey, inst, none, rebased, entry.state⟩)

def registerWithKeyAndRootResult : DepGraph D × ContextRegistration D :=
  let result := g.registerContextEntry H key ctx keyRoot now
  ({ result.1 with rustcExterns := result.1.rustcExterns.erase result.2.mapKey }, result.2)

def registerWithRootAndSaltResult :
    DepGraph D × ContextRegistration D :=
  let key := computeContextKeyWith H ctx (keyRoot.map NormalizedPath.path) worktreeSalt
    normalizeKeyPath
  g.registerWithKeyAndRootResult H key ctx keyRoot now

def rustcMetadataCompatMapKey (compatKey : ContextKey D) (sourceFile : NormalizedPath)
    (keyRoot : Option NormalizedPath) : ContextKey D :=
  (ContextInstanceKey.new H.toHasher compatKey sourceFile keyRoot).mapKey

def registerRustcWithKeyAndRootResult (externs : Externs)
    (checkMetadataCompatKey : Option (ContextKey D)) (now : ℕ) :
    DepGraph D × ContextRegistration D :=
  let result := g.registerContextEntry H key ctx keyRoot now
  let g := { result.1 with
    rustcExterns := result.1.rustcExterns.insert result.2.mapKey externs }
  let compat := checkMetadataCompatKey.map fun compatKey =>
    rustcMetadataCompatMapKey H compatKey ctx.sourceFile keyRoot
  let g :=
    match compat with
    | some compatMapKey =>
      { g with
        rustcCheckMetadataCompat :=
          g.rustcCheckMetadataCompat.insert compatMapKey result.2.mapKey }
    | none => g
  (g, { result.2 with metadataCompatMapKey := compat })

variable {H} {g : DepGraph D} {key k : ContextKey D} {ctx : CompileContext D}
variable {keyRoot : Option NormalizedPath} {now : ℕ} {e : ContextEntry D}

theorem indexInstance_contexts (g : DepGraph D) (key instanceKey : ContextKey D) :
    (g.indexInstance H key instanceKey).contexts = g.contexts ∨
      ∃ evicted, (g.indexInstance H key instanceKey).contexts = g.contexts.erase evicted := by
  simp only [indexInstance]
  split
  · split
    · exact .inl rfl
    · next evicted rest _ => exact .inr ⟨evicted, rfl⟩
  · exact .inl rfl

theorem lookup_of_indexInstance {instanceKey : ContextKey D}
    (h : (g.indexInstance H key instanceKey).contexts.lookup k = some e) :
    g.contexts.lookup k = some e := by
  rcases indexInstance_contexts (H := H) g key instanceKey with hsame | ⟨evicted, herase⟩
  · rwa [hsame] at h
  · rw [herase] at h
    exact lookup_of_erase h

theorem lookup_registerContextEntry
    (h : (g.registerContextEntry H key ctx keyRoot now).1.contexts.lookup k = some e) :
    (∃ old now', g.contexts.lookup k = some old ∧
      e = { old with lastAccessedUnixMs := now' }) ∨
    g.contexts.lookup k = none ∧ e = g.freshEntry key ctx keyRoot now := by
  simp only [registerContextEntry] at h
  split at h
  · next existing hexisting =>
    obtain ⟨rfl, rfl⟩ | ⟨-, hold⟩ := lookup_insert_eq_some.mp h
    · exact .inl ⟨existing, now, hexisting, rfl⟩
    · exact .inl ⟨e, e.lastAccessedUnixMs, hold, rfl⟩
  · next hnone =>
    have hins := lookup_of_indexInstance h
    obtain ⟨rfl, rfl⟩ | ⟨-, hold⟩ := lookup_insert_eq_some.mp hins
    · exact .inr ⟨hnone, rfl⟩
    · exact .inl ⟨e, e.lastAccessedUnixMs, hold, rfl⟩

theorem registerRustc_contexts (g : DepGraph D) (key : ContextKey D) (ctx : CompileContext D)
    (keyRoot : Option NormalizedPath) (externs : Externs) (compat : Option (ContextKey D))
    (now : ℕ) :
    (g.registerRustcWithKeyAndRootResult H key ctx keyRoot externs compat now).1.contexts =
      (g.registerContextEntry H key ctx keyRoot now).1.contexts := by
  cases compat <;> rfl

theorem equivalentCandidate_lookup {candidate : ContextEntry D}
    (h : g.equivalentCandidate key = some candidate) :
    ∃ k, g.contexts.lookup k = some candidate := by
  obtain ⟨instances, -, hfind⟩ := Option.bind_eq_some_iff.mp h
  obtain ⟨k, -, hk⟩ := List.exists_of_findSome?_eq_some hfind
  exact ⟨k, hk⟩

theorem freshEntry_artifactKey (g : DepGraph D) (key : ContextKey D) (ctx : CompileContext D)
    (keyRoot : Option NormalizedPath) (now : ℕ) :
    (g.freshEntry key ctx keyRoot now).artifactKey = none ∨
      ∃ k e, g.contexts.lookup k = some e ∧
        (g.freshEntry key ctx keyRoot now).artifactKey = e.artifactKey := by
  unfold freshEntry
  split
  · next candidate hcand =>
    obtain ⟨k, hk⟩ := equivalentCandidate_lookup hcand
    exact .inr ⟨k, candidate, hk, rfl⟩
  · exact .inl rfl

end DepGraph

end Zccache
