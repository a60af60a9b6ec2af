import Zccache.Graph.Basic

/-! # Cache verdicts

The read side of the graph: whether the artifact recorded for a context may be
used for the files as they are now.
-/

namespace Zccache

open List Unix

variable {D : Type} [DecidableEq D] (H : Host D)
variable (isFresh : NormalizedPath → Bool) (getHash : NormalizedPath → Option D)
variable (envValue : Name → Option Text)

def CacheVerdict.isHit : CacheVerdict D → Bool
  | .hit _ => true
  | .sourceChanged _ => true
  | _ => false

def CacheVerdict.lookupKey : CacheVerdict D → Option (ArtifactKey D)
  | .hit k => some k
  | .sourceChanged k => some k
  | _ => none

/-- A key recomputed from current contents, and the environment snapshot when it moved. -/
structure ReadKey (D : Type) where
  artifactKey : ArtifactKey D
  envSnapshot : Option (List (Name × Option D))

def borrow (f : NormalizedPath × D) : Path × D :=
  (f.1.path, f.2)

def borrowHashes : List NormalizedPath → List (Path × D) → Option (List (Path × D))
  | [], fileHashes => some fileHashes
  | p :: rest, fileHashes =>
    match getHash p with
    | some h => borrowHashes rest (fileHashes ++ [(p.path, h)])
    | none => none

/-- `drifted_paths` over borrowed paths, which it turns back into owned ones. -/
def driftedBorrowed (lastFileHashes : List (NormalizedPath × D)) (current : List (Path × D)) :
    List NormalizedPath :=
  if lastFileHashes.isEmpty then []
  else
    let oldHash p := ((lastFileHashes.map borrow).reverse.find? (·.1 = p)).map Prod.snd
    current.filterMap fun f =>
      match oldHash f.1 with
      | some old => if old ≠ f.2 then some (.ofPath f.1) else none
      | none => some (.ofPath f.1)

section Borrowed

variable {fileHashes : List (NormalizedPath × D)}

omit [DecidableEq D] in
theorem computeArtifactKeyOfPaths_borrow (H : Hasher D) (contextKey : ContextKey D)
    (keyRoot : Option Path) (normalize : Path → Option Path → Text) :
    computeArtifactKeyOfPaths H contextKey (fileHashes.map borrow) keyRoot normalize =
      computeArtifactKeyWith H contextKey fileHashes keyRoot normalize := by
  simp only [computeArtifactKeyOfPaths, computeArtifactKeyWith, map_map]
  rfl

omit [DecidableEq D] in
theorem computeRustcArtifactKeyOfPaths_borrow (H : Hasher D) (contextKey : ContextKey D)
    (externHashes : List (Name × D)) (keyRoot : Option Path)
    (normalize : Path → Option Path → Text) :
    computeRustcArtifactKeyOfPaths H contextKey (fileHashes.map borrow) externHashes keyRoot
        normalize =
      computeRustcArtifactKeyWithRootWith H contextKey fileHashes externHashes keyRoot
        normalize := by
  simp only [computeRustcArtifactKeyOfPaths, computeRustcArtifactKeyWithRootWith, map_map]
  rfl

omit [DecidableEq D] in
theorem borrowHashes_eq (paths : List NormalizedPath) (acc : List (NormalizedPath × D)) :
    borrowHashes getHash paths (acc.map borrow) =
      (hashFiles getHash paths).map fun hashes => (acc ++ hashes).map borrow := by
  induction paths generalizing acc with
  | nil => simp [borrowHashes, hashFiles]
  | cons p rest ih =>
    rw [borrowHashes, hashFiles_cons]
    cases getHash p with
    | none => rfl
    | some h =>
      have hpush : acc.map borrow ++ [(p.path, h)] = (acc ++ [(p, h)]).map borrow := by
        rw [map_append]
        rfl
      dsimp only
      rw [hpush, ih, Option.bind_some, Option.map_map]
      congr 1
      funext hashes
      simp

omit [DecidableEq D] in
theorem find?_map_borrow (last : List (NormalizedPath × D)) (p : NormalizedPath) :
    ((last.map borrow).find? (·.1 = p.path)).map Prod.snd =
      (last.find? (·.1 = p)).map Prod.snd := by
  have hpath : (fun f : Path × D => decide (f.1 = p.path)) ∘ borrow =
      fun f => decide (f.1 = p) := by
    funext f
    simp [borrow, NormalizedPath.ext_iff]
    rfl
  rw [find?_map, hpath, Option.map_map]
  rfl

theorem driftedBorrowed_borrow (last : List (NormalizedPath × D)) :
    driftedBorrowed last (fileHashes.map borrow) = driftedPaths last fileHashes := by
  unfold driftedBorrowed driftedPaths
  split
  · rfl
  · dsimp only
    rw [← map_reverse]
    induction fileHashes with
    | nil => rfl
    | cons f rest ih =>
      rw [map_cons, filterMap_cons, filter_cons, ih]
      have hpath : NormalizedPath.ofPath (borrow f).1 = f.1 := f.1.ofPath_path
      have hfind := find?_map_borrow last.reverse f.1
      rw [show ((last.reverse.map borrow).find? fun x => x.1 = (borrow f).1).map Prod.snd = _
        from hfind, hpath]
      obtain ⟨old, hlast⟩ : ∃ old, (last.reverse.find? fun x => x.1 = f.1).map Prod.snd = old :=
        ⟨_, rfl⟩
      simp only [hlast]
      cases old with
      | none => simp
      | some old => by_cases hold : old = f.2 <;> simp [borrow, hold]

end Borrowed

/-- Which counter an exit increments. -/
inductive Tally where
  | hit
  | miss
  deriving DecidableEq

def CacheVerdict.tally (v : CacheVerdict D) : Tally :=
  if v.isHit then .hit else .miss

/-- How an exit of `check_with_env` leaves the entry. -/
structure Judged (D : Type) where
  entry : ContextEntry D
  verdict : CacheVerdict D
  tally : Tally

namespace ContextEntry

variable (e : ContextEntry D) (externs : Option Externs) (fileHashes : List (NormalizedPath × D))
variable (changed paths : List NormalizedPath)

def readKey : Option (ReadKey D) :=
  match externs with
  | some externs =>
    (collectRustcExternHashes getHash externs).map fun externHashes =>
      let base := computeRustcArtifactKeyWithRootWith H.toHasher e.logicalKey fileHashes
        externHashes e.keyRootPath normalizeKeyPath
      let envHashes := collectRustcEnvHashes envValue H.toHasher e.rustcEnvDeps
      let folded := foldRustcEnvDepsIntoArtifactKey H.toHasher base envHashes
      ⟨folded.1, if envHashes ≠ e.rustcEnvDeps then some folded.2 else none⟩
  | none =>
    some ⟨computeArtifactKeyWith H.toHasher e.logicalKey fileHashes e.keyRootPath
      normalizeKeyPath, none⟩

def freshOrHashMatch (path : NormalizedPath) : Bool :=
  isFresh path ||
    match getHash path with
    | some current => e.lastFileHashes.any fun f => f.1 = path ∧ f.2 = current
    | none => false

def changedHeaders : List NormalizedPath :=
  (e.resolvedIncludes ++ e.context.forceIncludes).filter fun p =>
    !e.freshOrHashMatch isFresh getHash p

def missingHashReason : Text :=
  let missing p := (getHash p).isNone
  if missing e.context.sourceFile then
    "source hash missing: " ++ toText e.context.sourceFile.path
  else
    match e.resolvedIncludes.find? missing, e.context.forceIncludes.find? missing with
    | some header, _ => "header hash missing: " ++ toText header.path
    | none, some fi => "force-include hash missing: " ++ toText fi.path
    | none, none => []

def oldHex : Text :=
  match e.artifactKey with
  | some key => (H.toHex key.hash).take 8
  | none => "none"

/-- The verdict once every input has a hash and a key could be computed. -/
def judgeKey (key : ReadKey D) :
    ContextEntry D × CacheVerdict D × Text :=
  let refreshed := { e with
    artifactKey := some key.artifactKey
    rustcEnvDeps := key.envSnapshot.getD e.rustcEnvDeps }
  if e.freshOrHashMatch isFresh getHash e.context.sourceFile then
    if e.artifactKey = some key.artifactKey then
      (e, .hit key.artifactKey,
        "hit: artifact_key=" ++ (H.toHex key.artifactKey.hash).take 8)
    else
      let drifted := driftedPaths e.lastFileHashes fileHashes
      let counted := e.oldHex H ++ ", files=" ++ (toString fileHashes.length).toList
      if !drifted.isEmpty then
        ({ e with state := .stale }, .headersChanged drifted,
          "drift: was=" ++ counted ++ formatDriftForLog drifted ++
            (" (journal reported fresh; recompile forced to refresh " ++
              "resolved_includes and store under the write-side key)").toList)
      else if key.envSnapshot.isSome then
        (refreshed, .sourceChanged key.artifactKey,
          ("rustc env dependency values changed; looking up the key for the " ++
            "current values").toList)
      else
        (e, .cold, "artifact key missing or stale (was=" ++ counted ++
          "); recompile forced")
  else
    (refreshed, .sourceChanged key.artifactKey, "source content changed")

/-- The verdict on one entry, the entry as the check leaves it, and the reason. -/
def check :
    ContextEntry D × CacheVerdict D × Text :=
  if e.state = .cold then (e, .cold, "context never updated (state=Cold)")
  else if e.hasComputedIncludes then
    (e, .needsPreprocessor, "has computed includes, needs preprocessor")
  else
    let changed := e.changedHeaders isFresh getHash
    if !changed.isEmpty then
      ({ e with state := .stale }, .headersChanged changed,
        "headers changed: [" ++
          ", ".toList.intercalate (changed.map fun p => toText p.path) ++ [']'])
    else
      match hashFiles getHash e.inputFiles with
      | none => (e, .cold, e.missingHashReason getHash)
      | some fileHashes =>
        match e.readKey H getHash envValue externs fileHashes with
        | none => (e, .cold, "rustc extern hash missing")
        | some key => e.judgeKey H isFresh getHash fileHashes key

def tryFastHit : Option (ArtifactKey D) := do
  if e.state = .cold ∨ e.hasComputedIncludes = true then none
  else
    let storedKey ← e.artifactKey
    let fileHashes ← hashFiles getHash e.inputFiles
    let key ← e.readKey H getHash envValue externs fileHashes
    if key.artifactKey = storedKey then some key.artifactKey else none

def pushChanged :
    List NormalizedPath :=
  paths.foldl (fun changed p =>
    if e.freshOrHashMatch isFresh getHash p then changed else changed ++ [p]) changed

/-- The key over borrowed paths, and the environment snapshot when it moved. -/
def borrowedKey (fileHashes : List (Path × D)) :
    Option (ArtifactKey D × Option (List (Name × Option D))) :=
  match externs with
  | some externs => do
    let externHashes ← collectRustcExternHashes getHash externs
    let base := computeRustcArtifactKeyOfPaths H.toHasher e.logicalKey fileHashes externHashes
      e.keyRootPath normalizeKeyPath
    let envHashes := collectRustcEnvHashes envValue H.toHasher e.rustcEnvDeps
    let changed := envHashes ≠ e.rustcEnvDeps
    let folded := foldRustcEnvDepsIntoArtifactKey H.toHasher base envHashes
    some (folded.1, if changed then some folded.2 else none)
  | none =>
    some (computeArtifactKeyOfPaths H.toHasher e.logicalKey fileHashes e.keyRootPath
      normalizeKeyPath, none)

/-- The body of `check_with_env`, which keeps its own copy of the diagnostic one's exits and
works on borrowed paths. -/
def judge : Judged D :=
  if e.state = .cold then ⟨e, .cold, .miss⟩
  else if e.hasComputedIncludes then ⟨e, .needsPreprocessor, .miss⟩
  else
    let sourceFresh := e.freshOrHashMatch isFresh getHash e.context.sourceFile
    let changedHeaders := e.pushChanged isFresh getHash [] e.resolvedIncludes
    let changedHeaders := e.pushChanged isFresh getHash changedHeaders e.context.forceIncludes
    if !changedHeaders.isEmpty then
      ⟨{ e with state := .stale }, .headersChanged changedHeaders, .miss⟩
    else
      match getHash e.context.sourceFile with
      | none => ⟨e, .cold, .miss⟩
      | some h =>
      match borrowHashes getHash e.resolvedIncludes [(e.context.sourceFile.path, h)] with
      | none => ⟨e, .cold, .miss⟩
      | some fileHashes =>
      match borrowHashes getHash e.context.forceIncludes fileHashes with
      | none => ⟨e, .cold, .miss⟩
      | some fileHashes =>
      match e.borrowedKey H getHash envValue externs fileHashes with
      | none => ⟨e, .cold, .miss⟩
      | some (artifactKey, envSnapshot) =>
        if sourceFresh then
          if e.artifactKey = some artifactKey then ⟨e, .hit artifactKey, .hit⟩
          else
            let drifted := driftedBorrowed e.lastFileHashes fileHashes
            if !drifted.isEmpty then
              ⟨{ e with state := .stale }, .headersChanged drifted, .miss⟩
            else
              match envSnapshot with
              | some snapshot =>
                let e := { e with rustcEnvDeps := snapshot }
                ⟨{ e with artifactKey := some artifactKey }, .sourceChanged artifactKey, .hit⟩
              | none => ⟨e, .cold, .miss⟩
        else
          let e :=
            match envSnapshot with
            | some snapshot => { e with rustcEnvDeps := snapshot }
            | none => e
          ⟨{ e with artifactKey := some artifactKey }, .sourceChanged artifactKey, .hit⟩

theorem pushChanged_eq :
    e.pushChanged isFresh getHash changed paths =
      changed ++ paths.filter fun p => !e.freshOrHashMatch isFresh getHash p := by
  unfold pushChanged
  induction paths generalizing changed with
  | nil => simp
  | cons p rest ih =>
    rw [foldl_cons, ih, filter_cons]
    cases e.freshOrHashMatch isFresh getHash p <;> simp

theorem borrowedKey_borrow :
    e.borrowedKey H getHash envValue externs (fileHashes.map borrow) =
      (e.readKey H getHash envValue externs fileHashes).map fun key =>
        (key.artifactKey, key.envSnapshot) := by
  cases externs with
  | none => simp only [borrowedKey, readKey, computeArtifactKeyOfPaths_borrow, Option.map_some]
  | some externs =>
    simp only [borrowedKey, readKey, computeRustcArtifactKeyOfPaths_borrow]
    cases collectRustcExternHashes getHash externs <;> rfl

/-- The exits after the key was computed are those of the diagnostic check. -/
theorem judge_eq :
    e.judge H isFresh getHash envValue externs =
      let result := e.check H isFresh getHash envValue externs
      ⟨result.1, result.2.1, result.2.1.tally⟩ := by
  unfold judge check
  by_cases hcold : e.state = .cold
  · simp only [if_pos hcold]
    rfl
  rw [if_neg hcold, if_neg hcold]
  by_cases hcomp : e.hasComputedIncludes = true
  · simp only [if_pos hcomp]
    rfl
  rw [if_neg hcomp, if_neg hcomp]
  have hchg : e.pushChanged isFresh getHash (e.pushChanged isFresh getHash []
      e.resolvedIncludes) e.context.forceIncludes = e.changedHeaders isFresh getHash := by
    rw [pushChanged_eq, pushChanged_eq, nil_append, changedHeaders, filter_append]
  dsimp only
  rw [hchg]
  split
  · rfl
  rw [hashFiles_inputFiles]
  cases getHash e.context.sourceFile with
  | none => rfl
  | some h =>
    have hresolved := borrowHashes_eq getHash e.resolvedIncludes [(e.context.sourceFile, h)]
    dsimp only
    rw [show borrowHashes getHash e.resolvedIncludes [(e.context.sourceFile.path, h)] = _
      from hresolved]
    cases hashFiles getHash e.resolvedIncludes with
    | none => rfl
    | some hashes =>
      dsimp only [Option.map_some, Option.bind_some]
      rw [borrowHashes_eq]
      cases hashFiles getHash e.context.forceIncludes with
      | none => rfl
      | some hashes' =>
        dsimp only [Option.map_some]
        rw [borrowedKey_borrow, cons_append, nil_append, cons_append]
        cases e.readKey H getHash envValue externs
          ((e.context.sourceFile, h) :: (hashes ++ hashes')) with
        | none => rfl
        | some key =>
          simp only [Option.map_some, judgeKey, driftedBorrowed_borrow]
          split
          · split
            · rfl
            · split
              · rfl
              · cases key.envSnapshot <;> rfl
          · cases key.envSnapshot <;> rfl

/-- What a check can do to an entry: change its state, serve the stored key that the current
contents give again, or store the key of the current contents. -/
theorem check_cases (e : ContextEntry D) (externs : Option Externs) :
    let result := e.check H isFresh getHash envValue externs
    (∃ s, (s = e.state ∨ s = .stale) ∧ result.1 = { e with state := s } ∧
      result.2.1.isHit = false) ∨
    ∃ fileHashes key, hashFiles getHash e.inputFiles = some fileHashes ∧
      e.readKey H getHash envValue externs fileHashes = some key ∧
      e.state ≠ .cold ∧ e.hasComputedIncludes = false ∧
      (result.1 = e ∧ result.2.1 = .hit key.artifactKey ∧ e.artifactKey = some key.artifactKey ∨
        result.1 = { e with
          artifactKey := some key.artifactKey
          rustcEnvDeps := key.envSnapshot.getD e.rustcEnvDeps } ∧
        result.2.1 = .sourceChanged key.artifactKey) := by
  intro result
  simp only [result, check]
  split
  · exact .inl ⟨e.state, .inl rfl, rfl, rfl⟩
  · next hstate =>
    split
    · exact .inl ⟨e.state, .inl rfl, rfl, rfl⟩
    · next hcomp =>
      split
      · exact .inl ⟨.stale, .inr rfl, rfl, rfl⟩
      · split
        · exact .inl ⟨e.state, .inl rfl, rfl, rfl⟩
        · next fileHashes hfiles =>
          split
          · exact .inl ⟨e.state, .inl rfl, rfl, rfl⟩
          · next key hkey =>
            simp only [judgeKey]
            split
            · split
              · next hstored =>
                exact .inr ⟨fileHashes, key, hfiles, hkey, hstate, by simpa using hcomp,
                  .inl ⟨rfl, rfl, hstored⟩⟩
              · split
                · exact .inl ⟨.stale, .inr rfl, rfl, rfl⟩
                · split
                  · exact .inr ⟨fileHashes, key, hfiles, hkey, hstate, by simpa using hcomp,
                      .inr ⟨rfl, rfl⟩⟩
                  · exact .inl ⟨e.state, .inl rfl, rfl, rfl⟩
            · exact .inr ⟨fileHashes, key, hfiles, hkey, hstate, by simpa using hcomp,
                .inr ⟨rfl, rfl⟩⟩

variable {H getHash envValue}

theorem tryFastHit_eq_some {e : ContextEntry D} {externs : Option Externs} {k : ArtifactKey D}
    (h : e.tryFastHit H getHash envValue externs = some k) :
    ∃ fileHashes key, hashFiles getHash e.inputFiles = some fileHashes ∧
      e.readKey H getHash envValue externs fileHashes = some key ∧
      key.artifactKey = k ∧ e.artifactKey = some k := by
  unfold tryFastHit at h
  split at h
  · cases h
  · obtain ⟨stored, hstored, h⟩ := Option.bind_eq_some_iff.mp h
    obtain ⟨fileHashes, hfiles, h⟩ := Option.bind_eq_some_iff.mp h
    obtain ⟨key, hkey, h⟩ := Option.bind_eq_some_iff.mp h
    split at h
    · next hsame =>
      cases h
      exact ⟨fileHashes, key, hfiles, hkey, rfl, hsame ▸ hstored⟩
    · cases h

variable (H getHash envValue)

/-- With every file fresh, a check hits exactly where the fast path does. -/
theorem tryFastHit_eq_some_iff (e : ContextEntry D) (externs : Option Externs)
    (k : ArtifactKey D) :
    e.tryFastHit H getHash envValue externs = some k ↔
      (e.check H (fun _ => true) getHash envValue externs).2.1 = .hit k := by
  have hfresh : ∀ p, e.freshOrHashMatch (fun _ => true) getHash p = true := fun _ => rfl
  have hunchanged : e.changedHeaders (fun _ => true) getHash = [] := by
    simp [changedHeaders, hfresh]
  unfold tryFastHit check
  by_cases hcold : e.state = .cold
  · simp [hcold]
  by_cases hcomp : e.hasComputedIncludes = true
  · simp [hcold, hcomp]
  simp only [hcold, hcomp, hunchanged, or_self, if_false, isEmpty_nil, Bool.not_true,
    Bool.false_eq_true, Option.bind_eq_bind]
  cases hashFiles getHash e.inputFiles with
  | none => cases e.artifactKey <;> simp
  | some fileHashes =>
    dsimp only [Option.bind_some]
    cases e.readKey H getHash envValue externs fileHashes with
    | none => cases e.artifactKey <;> simp
    | some key =>
      simp only [judgeKey, hfresh, if_true, Option.bind_some]
      cases hstored : e.artifactKey with
      | none =>
        simp only [Option.bind_none, reduceCtorEq, if_false, false_iff]
        split
        · simp
        · split <;> simp
      | some stored =>
        by_cases hsame : stored = key.artifactKey
        · simp [hsame]
        · have hne : key.artifactKey ≠ stored := fun h => hsame h.symm
          simp only [Option.bind_some, hne, if_false, Option.some.injEq, hsame, reduceCtorEq,
            false_iff]
          split
          · simp
          · split <;> simp

end ContextEntry

namespace DepGraph

variable (g : DepGraph D) (key : ContextKey D) (now : ℕ)

def count : Tally → DepGraph D
  | .hit => { g with hits := g.hits + 1 }
  | .miss => { g with misses := g.misses + 1 }

def checkDiagnosticWithEnv :
    DepGraph D × CacheVerdict D × Text :=
  match g.resolveInstanceKey key with
  | none => ({ g with misses := g.misses + 1 }, .cold, "context_key not registered")
  | some key =>
    match g.contexts.lookup key with
    | none =>
      ({ g with checks := g.checks + 1, misses := g.misses + 1 }, .cold,
        "context_key not registered")
    | some entry =>
      let result := { entry with lastAccessedUnixMs := now }.check H isFresh getHash envValue
        (g.rustcExterns.lookup key)
      let hit := result.2.1.isHit
      ({ g with
          contexts := g.contexts.insert key result.1
          checks := g.checks + 1
          hits := if hit then g.hits + 1 else g.hits
          misses := if hit then g.misses else g.misses + 1
          dirty := true }, result.2)

def checkWithEnv :
    DepGraph D × CacheVerdict D :=
  match g.resolveInstanceKey key with
  | none => (g.count .miss, .cold)
  | some key =>
    let g := { g with checks := g.checks + 1 }
    match g.contexts.lookup key with
    | none => (g.count .miss, .cold)
    | some entry =>
      let entry := { entry with lastAccessedUnixMs := now }
      let g := { g with dirty := true }
      let result := entry.judge H isFresh getHash envValue (g.rustcExterns.lookup key)
      (({ g with contexts := g.contexts.insert key result.entry }).count result.tally,
        result.verdict)

def tryFastHitWithEnv :
    DepGraph D × Option (ArtifactKey D) :=
  match g.resolveInstanceKey key with
  | none => (g, none)
  | some key =>
    match g.contexts.lookup key with
    | none => (g, none)
    | some entry =>
      match entry.tryFastHit H getHash envValue (g.rustcExterns.lookup key) with
      | none => (g, none)
      | some artifactKey => ({ g with hits := g.hits + 1 }, some artifactKey)

theorem checkWithEnv_eq :
    g.checkWithEnv H isFresh getHash envValue key now =
      ((g.checkDiagnosticWithEnv H isFresh getHash envValue key now).1,
        (g.checkDiagnosticWithEnv H isFresh getHash envValue key now).2.1) := by
  unfold checkWithEnv checkDiagnosticWithEnv
  cases g.resolveInstanceKey key with
  | none => rfl
  | some key =>
    dsimp only
    cases g.contexts.lookup key with
    | none => rfl
    | some entry =>
      dsimp only
      rw [ContextEntry.judge_eq]
      dsimp only [CacheVerdict.tally]
      split <;> rfl

theorem checkDiagnosticWithEnv_cases (g : DepGraph D) (key : ContextKey D) (now : ℕ) :
    let result := g.checkDiagnosticWithEnv H isFresh getHash envValue key now
    (result.1.contexts = g.contexts ∧ result.2.1 = .cold) ∨
    ∃ instanceKey e, g.resolveInstanceKey key = some instanceKey ∧
      g.contexts.lookup instanceKey = some e ∧
      result.1.contexts = g.contexts.insert instanceKey
        ({ e with lastAccessedUnixMs := now }.check H isFresh getHash envValue
          (g.rustcExterns.lookup instanceKey)).1 ∧
      result.2 = ({ e with lastAccessedUnixMs := now }.check H isFresh getHash envValue
        (g.rustcExterns.lookup instanceKey)).2 := by
  intro result
  simp only [result, checkDiagnosticWithEnv]
  split
  · exact .inl ⟨rfl, rfl⟩
  · next instanceKey hres =>
    split
    · exact .inl ⟨rfl, rfl⟩
    · next e he => exact .inr ⟨instanceKey, e, hres, he, rfl, rfl⟩

theorem checkDiagnosticWithEnv_frame (g : DepGraph D) (key : ContextKey D) (now : ℕ) :
    SameIndexes g (g.checkDiagnosticWithEnv H isFresh getHash envValue key now).1 := by
  unfold checkDiagnosticWithEnv
  split
  · exact ⟨rfl, rfl, rfl⟩
  · split <;> exact ⟨rfl, rfl, rfl⟩

variable {H isFresh getHash envValue}

section Reads

variable {g : DepGraph D} {key instanceKey : ContextKey D} {e : ContextEntry D}
variable (hres : g.resolveInstanceKey key = some instanceKey)
variable (he : g.contexts.lookup instanceKey = some e)

include hres he

theorem checkDiagnosticWithEnv_snd (now : ℕ) :
    (g.checkDiagnosticWithEnv H isFresh getHash envValue key now).2 =
      ({ e with lastAccessedUnixMs := now }.check H isFresh getHash envValue
        (g.rustcExterns.lookup instanceKey)).2 := by
  simp only [checkDiagnosticWithEnv, hres, he]

variable (H isFresh getHash envValue) in
theorem checkDiagnosticWithEnv_contexts (now : ℕ) :
    (g.checkDiagnosticWithEnv H isFresh getHash envValue key now).1.contexts =
      g.contexts.insert instanceKey ({ e with lastAccessedUnixMs := now }.check H isFresh getHash
        envValue (g.rustcExterns.lookup instanceKey)).1 := by
  simp only [checkDiagnosticWithEnv, hres, he]

theorem tryFastHitWithEnv_snd :
    (g.tryFastHitWithEnv H getHash envValue key).2 =
      e.tryFastHit H getHash envValue (g.rustcExterns.lookup instanceKey) := by
  simp only [tryFastHitWithEnv, hres, he]
  cases e.tryFastHit H getHash envValue (g.rustcExterns.lookup instanceKey) <;> rfl

end Reads

theorem tryFastHitWithEnv_fst (g : DepGraph D) (key : ContextKey D) :
    ∃ hits, (g.tryFastHitWithEnv H getHash envValue key).1 = { g with hits := hits } := by
  unfold tryFastHitWithEnv
  split
  · exact ⟨g.hits, rfl⟩
  · split
    · exact ⟨g.hits, rfl⟩
    · split
      · exact ⟨g.hits, rfl⟩
      · exact ⟨g.hits + 1, rfl⟩

theorem tryFastHitWithEnv_of_none {g : DepGraph D} {key : ContextKey D}
    (h : (g.tryFastHitWithEnv H getHash envValue key).2 = none) :
    (g.tryFastHitWithEnv H getHash envValue key).1 = g := by
  cases hres : g.resolveInstanceKey key with
  | none => simp only [tryFastHitWithEnv, hres]
  | some instanceKey =>
    cases he : g.contexts.lookup instanceKey with
    | none => simp only [tryFastHitWithEnv, hres, he]
    | some e =>
      rw [tryFastHitWithEnv_snd hres he] at h
      simp only [tryFastHitWithEnv, hres, he, h]

theorem tryFastHitWithEnv_eq_some {g : DepGraph D} {key : ContextKey D} {k : ArtifactKey D}
    (h : (g.tryFastHitWithEnv H getHash envValue key).2 = some k) :
    ∃ instanceKey e, g.resolveInstanceKey key = some instanceKey ∧
      g.contexts.lookup instanceKey = some e ∧
      e.tryFastHit H getHash envValue (g.rustcExterns.lookup instanceKey) = some k := by
  cases hres : g.resolveInstanceKey key with
  | none => simp [tryFastHitWithEnv, hres] at h
  | some instanceKey =>
    cases he : g.contexts.lookup instanceKey with
    | none => simp [tryFastHitWithEnv, hres, he] at h
    | some e => exact ⟨instanceKey, e, rfl, he, (tryFastHitWithEnv_snd hres he).symm.trans h⟩

/-- The three verdict paths agree: the plain check gives the verdict of the diagnostic one and
leaves the same graph, and the fast path serves what a check serves when every file is fresh. -/
theorem verdictPaths_agree (H : Host D) (isFresh : NormalizedPath → Bool)
    (getHash : NormalizedPath → Option D) (envValue : Name → Option Text) (g : DepGraph D)
    (key : ContextKey D) (now : ℕ) :
    g.checkWithEnv H isFresh getHash envValue key now =
        ((g.checkDiagnosticWithEnv H isFresh getHash envValue key now).1,
          (g.checkDiagnosticWithEnv H isFresh getHash envValue key now).2.1) ∧
      ∀ k, (g.tryFastHitWithEnv H getHash envValue key).2 = some k ↔
        (g.checkWithEnv H (fun _ => true) getHash envValue key now).2 = .hit k := by
  constructor
  · exact checkWithEnv_eq H isFresh getHash envValue g key now
  · intro k
    rw [checkWithEnv_eq]
    cases hres : g.resolveInstanceKey key with
    | none => simp [tryFastHitWithEnv, checkDiagnosticWithEnv, hres]
    | some instanceKey =>
      cases he : g.contexts.lookup instanceKey with
      | none => simp [tryFastHitWithEnv, checkDiagnosticWithEnv, hres, he]
      | some e =>
        rw [tryFastHitWithEnv_snd hres he, checkDiagnosticWithEnv_snd hres he]
        exact ContextEntry.tryFastHit_eq_some_iff H getHash envValue
          { e with lastAccessedUnixMs := now } (g.rustcExterns.lookup instanceKey) k

end DepGraph

end Zccache
