import Zccache.Graph.Basic

/-! # Recording a compilation

The write side of the graph: the include list of a compilation and the artifact
key computed from its inputs.
-/

namespace Zccache

variable {D : Type} [DecidableEq D] (H : Host D)
variable (getHash : NormalizedPath → Option D) (envValue : Name → Option Unix.Text)

namespace ContextEntry

variable (e : ContextEntry D) (externs : Option Externs) (scan : ScanResult)

/-- The include lists are recorded before any file is hashed. -/
def recordScan (now : ℕ) : ContextEntry D :=
  { e with
    resolvedIncludes := scan.resolved
    unresolvedIncludes := scan.unresolved
    hasComputedIncludes := scan.hasComputed
    lastAccessedUnixMs := now }

/-- The write side's key with the environment snapshot in the order the key used it. -/
def writeKey
    (fileHashes : List (NormalizedPath × D)) (envHashes : List (Name × Option D)) :
    Option (ArtifactKey D × List (Name × Option D)) :=
  match externs with
  | some externs =>
    (collectRustcExternHashes getHash externs).map fun externHashes =>
      foldRustcEnvDepsIntoArtifactKey H.toHasher
        (computeRustcArtifactKeyWithRootWith H.toHasher e.logicalKey fileHashes externHashes
          e.keyRootPath normalizeKeyPath)
        envHashes
  | none =>
    some (computeArtifactKeyNormalizedWithRoot H.toHasher e.logicalKey fileHashes e.keyRootPath,
      envHashes)

/-- A missing hash leaves everything but the include lists as it was. -/
def update
    (envDepNames : List Name) (now : ℕ) : ContextEntry D × Option (ArtifactKey D) :=
  let envHashes := envDepNames.map fun name => (name, hashEnvDepValue H.toHasher (envValue name))
  let e := e.recordScan scan now
  match hashFiles getHash e.inputFiles with
  | none => (e, none)
  | some fileHashes =>
    match e.writeKey H getHash externs fileHashes envHashes with
    | none => (e, none)
    | some (artifactKey, envHashes) =>
      ({ e with
          state := .warm
          artifactKey := some artifactKey
          lastFileHashes := fileHashes
          rustcEnvDeps := envHashes }, some artifactKey)

omit [DecidableEq D] in
/-- An update that returns no key keeps the recorded key and hashes. -/
theorem update_cases (e : ContextEntry D) (externs : Option Externs) (scan : ScanResult)
    (names : List Name) (now : ℕ) :
    let result := e.update H getHash envValue externs scan names now
    result = (e.recordScan scan now, none) ∨
    ∃ fileHashes key envHashes,
      hashFiles getHash (e.recordScan scan now).inputFiles = some fileHashes ∧
      (e.recordScan scan now).writeKey H getHash externs fileHashes
        (names.map fun name => (name, hashEnvDepValue H.toHasher (envValue name))) =
          some (key, envHashes) ∧
      result = ({ e.recordScan scan now with
        state := .warm
        artifactKey := some key
        lastFileHashes := fileHashes
        rustcEnvDeps := envHashes }, some key) := by
  intro result
  simp only [result, update]
  split
  · exact .inl rfl
  · next fileHashes hfiles =>
    split
    · exact .inl rfl
    · next key envHashes hkey =>
      exact .inr ⟨fileHashes, key, envHashes, hfiles, hkey, rfl⟩

omit [DecidableEq D] in
theorem update_frame (e : ContextEntry D) (externs : Option Externs) (scan : ScanResult)
    (names : List Name) (now : ℕ) :
    let result := e.update H getHash envValue externs scan names now
    result.1.keyRoot = e.keyRoot ∧ result.1.context = e.context ∧
      result.1.inputFiles = (e.recordScan scan now).inputFiles := by
  intro result
  rcases update_cases H getHash envValue e externs scan names now with h | ⟨_, _, _, _, _, h⟩ <;>
    rw [show result = _ from h] <;> exact ⟨rfl, rfl, rfl⟩

end ContextEntry

namespace DepGraph

def updateWithEnv (g : DepGraph D) (key : ContextKey D) (scan : ScanResult)
    (envDepNames : List Name) (now : ℕ) : DepGraph D × Option (ArtifactKey D) :=
  match g.resolveInstanceKey key with
  | none => (g, none)
  | some key =>
    match g.contexts.lookup key with
    | none => (g, none)
    | some entry =>
      let result :=
        entry.update H getHash envValue (g.rustcExterns.lookup key) scan envDepNames now
      ({ g with
          contexts := g.contexts.insert key result.1
          dirty := g.dirty || result.2.isSome }, result.2)

variable (g : DepGraph D) (key : ContextKey D) (scan : ScanResult) (names : List Name) (now : ℕ)

theorem updateWithEnv_cases :
    let result := g.updateWithEnv H getHash envValue key scan names now
    (result.1.contexts = g.contexts ∧ result.2 = none) ∨
    ∃ instanceKey e, g.resolveInstanceKey key = some instanceKey ∧
      g.contexts.lookup instanceKey = some e ∧
      result.1.contexts = g.contexts.insert instanceKey (e.update H getHash envValue
        (g.rustcExterns.lookup instanceKey) scan names now).1 ∧
      result.2 = (e.update H getHash envValue
        (g.rustcExterns.lookup instanceKey) scan names now).2 := by
  intro result
  simp only [result, updateWithEnv]
  split
  · exact .inl ⟨rfl, rfl⟩
  · next instanceKey hres =>
    split
    · exact .inl ⟨rfl, rfl⟩
    · next e he => exact .inr ⟨instanceKey, e, hres, he, rfl, rfl⟩

theorem updateWithEnv_frame :
    SameIndexes g (g.updateWithEnv H getHash envValue key scan names now).1 := by
  unfold updateWithEnv
  split
  · exact ⟨rfl, rfl, rfl⟩
  · split <;> exact ⟨rfl, rfl, rfl⟩

variable {H getHash envValue g key scan names now}

theorem updateWithEnv_eq_some {k : ArtifactKey D}
    (h : (g.updateWithEnv H getHash envValue key scan names now).2 = some k) :
    let g' := (g.updateWithEnv H getHash envValue key scan names now).1
    ∃ instanceKey e,
      let result :=
        e.update H getHash envValue (g.rustcExterns.lookup instanceKey) scan names now
      g.resolveInstanceKey key = some instanceKey ∧ g.contexts.lookup instanceKey = some e ∧
        g'.resolveInstanceKey key = some instanceKey ∧
        g'.contexts.lookup instanceKey = some result.1 ∧ result.2 = some k := by
  intro g'
  have hidx : g'.equivalentContexts = g.equivalentContexts :=
    (updateWithEnv_frame H getHash envValue g key scan names now).index
  rcases updateWithEnv_cases H getHash envValue g key scan names now with
    ⟨-, hnone⟩ | ⟨inst, e, hres, he, hctxs, hresult⟩
  · rw [h] at hnone
    cases hnone
  · refine ⟨inst, e, hres, he, ?_, ?_, hresult.symm.trans h⟩
    · rw [← hres]
      exact resolveInstanceKey_insert hctxs hidx (by rw [he]; rfl) key
    · exact (congrArg (AList.lookup inst) hctxs).trans (AList.lookup_insert _)

end DepGraph

end Zccache
