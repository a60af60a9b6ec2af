import Zccache.Graph.Index

/-! # Checkouts of one context

A context registered in a second checkout starts from the entry of the first one.
When the files of the two checkouts have the same contents it hits at once, and
what happens to it afterwards does not reach the first one.
-/

namespace Zccache

open List Unix FinMap Option NormalizedPath ContextEntry AList ContextInstanceKey

variable {D : Type} {getHash : NormalizedPath → Option D} {files : List NormalizedPath}

theorem hashFiles_map {getHash' : NormalizedPath → Option D}
    {move : NormalizedPath → NormalizedPath} (h : ∀ p ∈ files, getHash' (move p) = getHash p) :
    hashFiles getHash' (files.map move) =
      (hashFiles getHash files).map (List.map fun f => (move f.1, f.2)) := by
  induction files with
  | nil => rfl
  | cons p files ih =>
    rw [map_cons, hashFiles_cons, hashFiles_cons, h p mem_cons_self,
      ih fun q hq => h q (mem_cons_of_mem _ hq)]
    cases getHash p with
    | none => rfl
    | some d => cases hashFiles getHash files <;> rfl

theorem hashFiles_fst {fileHashes : List (NormalizedPath × D)}
    (h : hashFiles getHash files = some fileHashes) : fileHashes.map Prod.fst = files := by
  induction files generalizing fileHashes with
  | nil =>
    cases h
    rfl
  | cons p files ih =>
    rw [hashFiles_cons] at h
    obtain ⟨d, -, hrest⟩ := bind_eq_some_iff.mp h
    obtain ⟨rest, htail, rfl⟩ := map_eq_some_iff.mp hrest
    rw [map_cons, ih htail]

/-- The second checkout, seen through `getHash'`, has the contents of the first one: the
files below the first root lie at the same place below the second root, and the files
outside the first root lie outside the second one as well. -/
structure Mirrors (root root' : NormalizedPath) (getHash getHash' : NormalizedPath → Option D)
    (files : List NormalizedPath) : Prop where
  below : ∀ p ∈ files, ∀ rest ∈ p.stripPrefix root, rest.all Component.isNormal
  outside : ∀ p ∈ files, p.stripPrefix root = none → p.stripPrefix root' = none
  hashes : ∀ p ∈ files,
    getHash' (rebaseProjectPath p (some root) (some root')) = getHash p

section Rebase

variable {root root' p : NormalizedPath}

theorem join_names (root : NormalizedPath) (names : List FileName) :
    (root.join (names.map .normal)).path = root.path ++ names.map .normal := by
  change normalize (Unix.join root.path (names.map .normal)) = _
  rw [normalize_join, normalize_path, foldl_normalStep_names]

theorem normalizeKeyPath_rebase
    (hbelow : ∀ rest, p.stripPrefix root = some rest → rest.all Component.isNormal)
    (houtside : p.stripPrefix root = none → p.stripPrefix root' = none) :
    normalizeKeyPath (rebaseProjectPath p (some root) (some root')).path (some root'.path) =
      normalizeKeyPath p.path (some root.path) := by
  simp only [stripPrefix_eq] at hbelow houtside
  simp only [rebaseProjectPath, stripPrefix_eq, normalizeKeyPath, bind_some]
  cases hstrip : Unix.stripPrefix p.path root.path with
  | none =>
    rw [houtside hstrip]
  | some rest =>
    obtain ⟨names, rfl⟩ := all_isNormal_iff.mp (hbelow rest hstrip)
    rw [join_names, stripPrefix_append]

end Rebase

section Entries

variable [DecidableEq D] {H : Host D} {root root' : NormalizedPath}
variable {getHash getHash' : NormalizedPath → Option D} {envValue envValue' : Name → Option Text}

namespace ContextEntry

variable {e e' : ContextEntry D} {externs externs' : Option Externs} {k : ArtifactKey D}
variable {ctx : CompileContext D} {now : ℕ} {fileHashes : List (NormalizedPath × D)}

omit [DecidableEq D] in
theorem indexed_rebase (h : Mirrors root root' getHash getHash' (fileHashes.map Prod.fst)) :
    (fileHashes.map fun f => (rebaseProjectPath f.1 (some root) (some root'), f.2)).map
        (fun f => (normalizeKeyPath f.1.path (some root'.path), f.2)) =
      fileHashes.map fun f => (normalizeKeyPath f.1.path (some root.path), f.2) := by
  rw [List.map_map]
  refine List.map_congr_left fun f hf => ?_
  have hmem : f.1 ∈ fileHashes.map Prod.fst := List.mem_map_of_mem hf
  rw [Function.comp_apply, normalizeKeyPath_rebase (h.below _ hmem) (h.outside _ hmem)]

variable (hroot : e.keyRoot = some root)

include hroot

omit [DecidableEq D] in
theorem inputFiles_rebase
    (hsrc : ctx.sourceFile = rebaseProjectPath e.context.sourceFile (some root) (some root'))
    (hforce : ctx.forceIncludes =
      e.context.forceIncludes.map fun p => rebaseProjectPath p (some root) (some root')) :
    (e.rebase ctx (some root') now).inputFiles =
      e.inputFiles.map fun p => rebaseProjectPath p (some root) (some root') := by
  simp only [inputFiles, rebase, hroot, hsrc, hforce, map_cons, map_append]

theorem readKey_rebase (h : Mirrors root root' getHash getHash' (fileHashes.map Prod.fst))
    (hexts : externs'.map (collectRustcExternHashes getHash') =
      externs.map (collectRustcExternHashes getHash))
    (henv : ∀ dep ∈ e.rustcEnvDeps, envValue' dep.1 = envValue dep.1) :
    (e.rebase ctx (some root') now).readKey H getHash' envValue' externs'
        (fileHashes.map fun f => (rebaseProjectPath f.1 (some root) (some root'), f.2)) =
      e.readKey H getHash envValue externs fileHashes := by
  have henvHashes : collectRustcEnvHashes envValue' H.toHasher e.rustcEnvDeps =
      collectRustcEnvHashes envValue H.toHasher e.rustcEnvDeps :=
    map_congr_left fun dep hdep => by rw [henv dep hdep]
  have hold : e.keyRootPath = some root.path := by rw [keyRootPath, hroot, map_some]
  have hnew : (e.rebase ctx (some root') now).keyRootPath = some root'.path := rfl
  cases externs with
  | none =>
    cases externs' with
    | some _ => cases hexts
    | none =>
      simp only [readKey, computeArtifactKeyWith, hold, hnew, indexed_rebase h]
      rfl
  | some externs =>
    cases externs' with
    | none => cases hexts
    | some externs' =>
      have hcoll : collectRustcExternHashes getHash' externs' =
          collectRustcExternHashes getHash externs := some.inj hexts
      simp only [readKey, computeRustcArtifactKeyWithRootWith, hold, hnew, indexed_rebase h,
        hcoll]
      simp only [rebase, henvHashes]

theorem Current.rebase (hcur : Current H getHash envValue e externs k)
    (h : Mirrors root root' getHash getHash' e.inputFiles)
    (hfiles : (e.rebase ctx (some root') now).inputFiles =
      e.inputFiles.map fun p => rebaseProjectPath p (some root) (some root'))
    (hexts : externs'.map (collectRustcExternHashes getHash') =
      externs.map (collectRustcExternHashes getHash))
    (henv : ∀ dep ∈ e.rustcEnvDeps, envValue' dep.1 = envValue dep.1) :
    Current H getHash' envValue' (e.rebase ctx (some root') now) externs' k := by
  have hhash : (e.rebase ctx (some root') now).lastFileHashes =
      e.lastFileHashes.map fun f => (rebaseProjectPath f.1 (some root) (some root'), f.2) := by
    simp only [ContextEntry.rebase, hroot]
  refine ⟨hcur.notCold, hcur.noComputed, ?_, hcur.stored, ?_⟩
  · rw [hfiles, hashFiles_map h.hashes, hcur.hashes, hhash, map_some]
  · rw [hhash, readKey_rebase hroot (by rwa [hashFiles_fst hcur.hashes]) hexts henv]
    exact hcur.read

end ContextEntry

end Entries

namespace DepGraph

variable [DecidableEq D] (H : Host D)

def instanceKeyOf (key : ContextKey D) (sourceFile keyRoot : NormalizedPath) : ContextKey D :=
  (ContextInstanceKey.new H.toHasher key sourceFile (some keyRoot)).mapKey

/-- Registers a C/C++ context, or a rustc context when there is an extern list. -/
def registerInstance (g : DepGraph D) (key : ContextKey D) (ctx : CompileContext D)
    (keyRoot : NormalizedPath) (externs : Option Externs) (compat : Option (ContextKey D))
    (now : ℕ) : DepGraph D :=
  match externs with
  | none => (g.registerWithKeyAndRootResult H key ctx (some keyRoot) now).1
  | some externs =>
    (g.registerRustcWithKeyAndRootResult H key ctx (some keyRoot) externs compat now).1

/-- The operations on one checkout's instance. -/
inductive OnInstance (key : ContextKey D) (sourceFile keyRoot : NormalizedPath) :
    GraphOp D → Prop
  | register (ctx : CompileContext D) (salt : Option Path) (now : ℕ)
      (hsrc : ctx.sourceFile = sourceFile)
      (hkey : computeContextKeyWith H ctx (some keyRoot.path) salt normalizeKeyPath = key) :
      OnInstance key sourceFile keyRoot (.register ctx (some keyRoot) salt now)
  | registerWithKey (ctx : CompileContext D) (now : ℕ) (hsrc : ctx.sourceFile = sourceFile) :
      OnInstance key sourceFile keyRoot (.registerWithKey key ctx (some keyRoot) now)
  | registerRustc (ctx : CompileContext D) (externs : Externs) (compat : Option (ContextKey D))
      (now : ℕ) (hsrc : ctx.sourceFile = sourceFile) :
      OnInstance key sourceFile keyRoot
        (.registerRustc key ctx (some keyRoot) externs compat now)
  | updateWithEnv (scan : ScanResult) (getHash : NormalizedPath → Option D) (names : List Name)
      (envValue : Name → Option Text) (now : ℕ) :
      OnInstance key sourceFile keyRoot (.updateWithEnv (instanceKeyOf H key sourceFile keyRoot)
        scan getHash names envValue now)
  | checkWithEnv (isFresh : NormalizedPath → Bool) (getHash : NormalizedPath → Option D)
      (envValue : Name → Option Text) (now : ℕ) :
      OnInstance key sourceFile keyRoot (.checkWithEnv (instanceKeyOf H key sourceFile keyRoot)
        isFresh getHash envValue now)
  | checkDiagnosticWithEnv (isFresh : NormalizedPath → Bool)
      (getHash : NormalizedPath → Option D) (envValue : Name → Option Text) (now : ℕ) :
      OnInstance key sourceFile keyRoot
        (.checkDiagnosticWithEnv (instanceKeyOf H key sourceFile keyRoot) isFresh getHash
          envValue now)
  | tryFastHitWithEnv (getHash : NormalizedPath → Option D) (envValue : Name → Option Text) :
      OnInstance key sourceFile keyRoot
        (.tryFastHitWithEnv (instanceKeyOf H key sourceFile keyRoot) getHash envValue)

section Isolation

variable {H} {g g' : DepGraph D} {key inst inst' : ContextKey D}

/-- `inst'` is live, and `inst` has the entry and the externs it has in `g`. -/
structure Untouched (g : DepGraph D) (inst inst' : ContextKey D) (g' : DepGraph D) : Prop where
  live : (g'.contexts.lookup inst').isSome
  entry : g'.contexts.lookup inst = g.contexts.lookup inst
  externs : g'.rustcExterns.lookup inst = g.rustcExterns.lookup inst

theorem Untouched.of_insert (hne : inst ≠ inst') {e : ContextEntry D}
    (hctxs : g'.contexts = g.contexts.insert inst' e)
    (hexts : g'.rustcExterns.lookup inst = g.rustcExterns.lookup inst) :
    Untouched g inst inst' g' := by
  refine ⟨?_, ?_, hexts⟩
  · rw [hctxs, lookup_insert]
    rfl
  · rw [hctxs, lookup_insert_ne hne]

theorem Untouched.of_resolved (hne : inst ≠ inst')
    (hresolve : g.resolveInstanceKey inst' = some inst')
    (hlive : (g.contexts.lookup inst').isSome)
    (hctxs : g'.contexts = g.contexts ∨
      ∃ k e, g.resolveInstanceKey inst' = some k ∧ g'.contexts = g.contexts.insert k e)
    (hexts : g'.rustcExterns = g.rustcExterns) : Untouched g inst inst' g' := by
  rcases hctxs with hsame | ⟨k, e, hk, hins⟩
  · exact ⟨by rw [hsame, hlive], by rw [hsame], by rw [hexts]⟩
  · rw [hresolve] at hk
    cases hk
    exact .of_insert hne hins (by rw [hexts])

theorem checkDiagnosticWithEnv_untouched {isFresh : NormalizedPath → Bool}
    {getHash : NormalizedPath → Option D} {envValue : Name → Option Text} {now : ℕ}
    (hne : inst ≠ inst') (hresolve : g.resolveInstanceKey inst' = some inst')
    (hlive : (g.contexts.lookup inst').isSome) :
    Untouched g inst inst' (g.checkDiagnosticWithEnv H isFresh getHash envValue inst' now).1 := by
  refine .of_resolved hne hresolve hlive ?_
    (checkDiagnosticWithEnv_frame H isFresh getHash envValue g inst' now).1
  rcases checkDiagnosticWithEnv_cases H isFresh getHash envValue g inst' now with
    ⟨hsame, -⟩ | ⟨k, e, hk, -, hctxs, -⟩
  · exact .inl hsame
  · exact .inr ⟨k, _, hk, hctxs⟩

theorem Untouched.trans {g'' : DepGraph D} (h : Untouched g inst inst' g')
    (h' : Untouched g' inst inst' g'') : Untouched g inst inst' g'' :=
  ⟨h'.live, h'.entry.trans h.entry, h'.externs.trans h.externs⟩

theorem pushInstance_length_le (g : DepGraph D) (key inst : ContextKey D) :
    (pushInstance (g.equivalentContexts.lookup key) inst).length ≤
      (g.instancesOf key).length + 1 := by
  rw [instancesOf]
  cases g.equivalentContexts.lookup key with
  | none => simp [pushInstance]
  | some instances =>
    by_cases h : inst ∈ instances <;> simp [pushInstance, h]

variable {ctx : CompileContext D} {keyRoot : NormalizedPath} {externs : Option Externs}
variable {compat : Option (ContextKey D)} {now : ℕ}

theorem registerContextEntry_insert (ctx : CompileContext D) (now : ℕ)
    (hcap : (g.contexts.lookup (instanceKeyOf H key ctx.sourceFile keyRoot)).isSome ∨
      (g.instancesOf key).length < H.maxEquivalentContexts) :
    let g' := (g.registerContextEntry H key ctx (some keyRoot) now).1
    (∃ e, g'.contexts = g.contexts.insert (instanceKeyOf H key ctx.sourceFile keyRoot) e) ∧
      g'.rustcExterns = g.rustcExterns := by
  intro g'
  simp only [g', registerContextEntry, instanceKeyOf] at hcap ⊢
  split
  · exact ⟨⟨_, rfl⟩, rfl⟩
  · next hnone =>
    generalize (ContextInstanceKey.new H.toHasher key ctx.sourceFile (some keyRoot)).mapKey =
      inst' at hcap hnone ⊢
    have hroom : ¬ H.maxEquivalentContexts <
        (pushInstance (g.equivalentContexts.lookup key) inst').length := by
      have hlen := pushInstance_length_le g key inst'
      rcases hcap with hlive | hroom
      · rw [hnone] at hlive
        cases hlive
      · omega
    simp only [indexInstance]
    rw [if_neg hroom]
    exact ⟨⟨_, rfl⟩, rfl⟩

theorem registerContextEntry_mapKey :
    (g.registerContextEntry H key ctx (some keyRoot) now).2.mapKey =
      instanceKeyOf H key ctx.sourceFile keyRoot := by
  simp only [registerContextEntry]
  split <;> rfl

theorem registerInstance_externs :
    (g.registerInstance H key ctx keyRoot externs compat now).rustcExterns =
      match externs with
      | none => (g.registerContextEntry H key ctx (some keyRoot) now).1.rustcExterns.erase
          (instanceKeyOf H key ctx.sourceFile keyRoot)
      | some externs => (g.registerContextEntry H key ctx (some keyRoot) now).1.rustcExterns.insert
          (instanceKeyOf H key ctx.sourceFile keyRoot) externs := by
  cases externs with
  | none =>
    rw [← registerContextEntry_mapKey]
    rfl
  | some externs =>
    rw [← registerContextEntry_mapKey]
    cases compat <;> rfl

theorem registerInstance_contexts :
    (g.registerInstance H key ctx keyRoot externs compat now).contexts =
      (g.registerContextEntry H key ctx (some keyRoot) now).1.contexts := by
  cases externs with
  | none => rfl
  | some externs => exact registerRustc_contexts ..

theorem registerInstance_untouched (ctx : CompileContext D) (externs : Option Externs)
    (compat : Option (ContextKey D)) (now : ℕ)
    (hne : inst ≠ instanceKeyOf H key ctx.sourceFile keyRoot)
    (hcap : (g.contexts.lookup (instanceKeyOf H key ctx.sourceFile keyRoot)).isSome ∨
      (g.instancesOf key).length < H.maxEquivalentContexts) :
    Untouched g inst (instanceKeyOf H key ctx.sourceFile keyRoot)
      (g.registerInstance H key ctx keyRoot externs compat now) := by
  obtain ⟨⟨e, hctxs⟩, hexts⟩ :=
    registerContextEntry_insert ctx now hcap
  refine .of_insert hne (registerInstance_contexts.trans hctxs) ?_
  rw [registerInstance_externs, hexts]
  cases externs with
  | none => exact AList.lookup_erase_ne hne
  | some externs => exact AList.lookup_insert_ne hne

variable {sourceFile : NormalizedPath}

theorem OnInstance.untouched {op : GraphOp D} (hop : OnInstance H key sourceFile keyRoot op)
    (hne : inst ≠ instanceKeyOf H key sourceFile keyRoot)
    (hlive : (g.contexts.lookup (instanceKeyOf H key sourceFile keyRoot)).isSome) :
    Untouched g inst (instanceKeyOf H key sourceFile keyRoot) (g.step H op) := by
  have hresolve : g.resolveInstanceKey (instanceKeyOf H key sourceFile keyRoot) =
      some (instanceKeyOf H key sourceFile keyRoot) := by
    rw [resolveInstanceKey, if_pos hlive]
  cases hop with
  | register ctx salt now hsrc hkey =>
    subst hsrc hkey
    exact registerInstance_untouched ctx none none now hne (.inl hlive)
  | registerWithKey ctx now hsrc =>
    subst hsrc
    exact registerInstance_untouched ctx none none now hne (.inl hlive)
  | registerRustc ctx externs compat now hsrc =>
    subst hsrc
    exact registerInstance_untouched ctx (some externs) compat now hne (.inl hlive)
  | updateWithEnv scan getHash names envValue now =>
    refine .of_resolved hne hresolve hlive ?_
      (updateWithEnv_frame H getHash envValue g _ scan names now).1
    rcases updateWithEnv_cases H getHash envValue g _ scan names now with
      ⟨hsame, -⟩ | ⟨inst', e, hinst', -, hctxs, -⟩
    · exact .inl hsame
    · exact .inr ⟨inst', _, hinst', hctxs⟩
  | checkWithEnv isFresh getHash envValue now =>
    rw [step, apply_checkWithEnv]
    exact checkDiagnosticWithEnv_untouched hne hresolve hlive
  | checkDiagnosticWithEnv isFresh getHash envValue now =>
    exact checkDiagnosticWithEnv_untouched hne hresolve hlive
  | tryFastHitWithEnv getHash envValue =>
    obtain ⟨hits, hsame⟩ : ∃ hits, (g.tryFastHitWithEnv H getHash envValue _).1 = _ :=
      tryFastHitWithEnv_fst g (instanceKeyOf H key sourceFile keyRoot)
    rw [step, apply, hsame]
    exact ⟨hlive, rfl, rfl⟩

theorem run_untouched {ops : List (GraphOp D)}
    (hops : ∀ op ∈ ops, OnInstance H key sourceFile keyRoot op)
    (hne : inst ≠ instanceKeyOf H key sourceFile keyRoot)
    (hlive : (g.contexts.lookup (instanceKeyOf H key sourceFile keyRoot)).isSome) :
    Untouched g inst (instanceKeyOf H key sourceFile keyRoot) (Run.run (step H) g ops) := by
  induction ops generalizing g with
  | nil => exact ⟨hlive, rfl, rfl⟩
  | cons op ops ih =>
    have hop := (hops op mem_cons_self).untouched hne hlive
    exact hop.trans (ih (fun op' hop' => hops op' (mem_cons_of_mem _ hop')) hop.live)

end Isolation

variable {H} {g : DepGraph D} {key inst : ContextKey D} {e : ContextEntry D}
variable {ctx : CompileContext D} {keyRoot : NormalizedPath} {now : ℕ}

section

variable (hfirst : (g.instancesOf key).head? = some inst)

include hfirst

theorem exists_of_first : ∃ others, g.equivalentContexts.lookup key = some (inst :: others) := by
  rw [instancesOf] at hfirst
  cases hlook : g.equivalentContexts.lookup key with
  | none =>
    rw [hlook] at hfirst
    cases hfirst
  | some instances =>
    rw [hlook, getD_some] at hfirst
    exact ⟨instances.tail, by rw [eq_cons_of_mem_head? hfirst]; rfl⟩

theorem freshEntry_of_first (he : g.contexts.lookup inst = some e) :
    g.freshEntry key ctx (some keyRoot) now = e.rebase ctx (some keyRoot) now := by
  obtain ⟨others, hothers⟩ := exists_of_first hfirst
  have hcand : g.equivalentCandidate key = some e := by
    rw [equivalentCandidate, hothers, Option.bind_some, findSome?_cons, he]
  rw [freshEntry, hcand]

theorem lookup_registerContextEntry_new (hne : inst ≠ instanceKeyOf H key ctx.sourceFile keyRoot)
    (hnew : g.contexts.lookup (instanceKeyOf H key ctx.sourceFile keyRoot) = none) :
    (g.registerContextEntry H key ctx (some keyRoot) now).1.contexts.lookup
      (instanceKeyOf H key ctx.sourceFile keyRoot) =
        some (g.freshEntry key ctx (some keyRoot) now) := by
  obtain ⟨others, hothers⟩ := exists_of_first hfirst
  simp only [registerContextEntry, instanceKeyOf] at hne hnew ⊢
  simp only [hnew]
  generalize (ContextInstanceKey.new H.toHasher key ctx.sourceFile (some keyRoot)).mapKey =
    inst' at hne hnew ⊢
  obtain ⟨rest, hpush⟩ : ∃ rest, pushInstance (g.equivalentContexts.lookup key) inst' =
      inst :: rest := by
    rw [hothers, pushInstance]
    split
    · exact ⟨others, rfl⟩
    · exact ⟨others ++ [inst'], rfl⟩
  simp only [indexInstance, hpush]
  split
  · rw [removeInstance, lookup_erase_ne hne.symm, lookup_insert]
  · rw [lookup_insert]

theorem check_second_checkout {root root' : NormalizedPath}
    {getHash getHash' : NormalizedPath → Option D} {envValue envValue' : Name → Option Text}
    {externs externs₁ : Option Externs} {compat : Option (ContextKey D)}
    {isFresh : NormalizedPath → Bool} {k : ArtifactKey D} {now' : ℕ}
    (he : g.contexts.lookup inst = some e) (hcur : e.Current H getHash envValue externs₁ k)
    (hroot : e.keyRoot = some root)
    (hnew : g.contexts.lookup (instanceKeyOf H key ctx.sourceFile root') = none)
    (hfiles : (e.rebase ctx (some root') now).inputFiles =
      e.inputFiles.map fun p => rebaseProjectPath p (some root) (some root'))
    (hmirrors : Mirrors root root' getHash getHash' e.inputFiles)
    (hexts : externs.map (collectRustcExternHashes getHash') =
      externs₁.map (collectRustcExternHashes getHash))
    (henv : ∀ dep ∈ e.rustcEnvDeps, envValue' dep.1 = envValue dep.1) :
    ((g.registerInstance H key ctx root' externs compat now).checkWithEnv H isFresh getHash'
      envValue' (instanceKeyOf H key ctx.sourceFile root') now').2 = .hit k := by
  have hne : inst ≠ instanceKeyOf H key ctx.sourceFile root' := by
    rintro rfl
    rw [he] at hnew
    cases hnew
  have hentry : (g.registerInstance H key ctx root' externs compat now).contexts.lookup
      (instanceKeyOf H key ctx.sourceFile root') = some (e.rebase ctx (some root') now) := by
    rw [registerInstance_contexts, lookup_registerContextEntry_new hfirst hne hnew,
      freshEntry_of_first hfirst he]
  have hlook : (g.registerInstance H key ctx root' externs compat now).rustcExterns.lookup
      (instanceKeyOf H key ctx.sourceFile root') = externs := by
    rw [registerInstance_externs]
    cases externs with
    | none => exact AList.lookup_erase _ _
    | some externs => exact AList.lookup_insert _
  have hresolve : (g.registerInstance H key ctx root' externs compat now).resolveInstanceKey
      (instanceKeyOf H key ctx.sourceFile root') =
        some (instanceKeyOf H key ctx.sourceFile root') := by
    rw [resolveInstanceKey, hentry, Option.isSome_some, if_pos rfl]
  rw [checkWithEnv_eq, checkDiagnosticWithEnv_snd hresolve hentry, hlook]
  exact ((hcur.rebase hroot hmirrors hfiles hexts henv).touch now').check_eq

end

/-- A second checkout with the contents of the first one hits the first one's key, and no
sequence of operations on it changes the first one. -/
theorem worktrees_share_and_isolate (ctx : CompileContext D) (root' : NormalizedPath)
    (hfirst : (g.instancesOf key).head? = some inst) (he : g.contexts.lookup inst = some e) :
    (∀ (root : NormalizedPath) (pub : ContextKey D) (scan : ScanResult) (names : List Name)
        (getHash getHash' : NormalizedPath → Option D) (envValue envValue' : Name → Option Text)
        (externs : Option Externs) (compat : Option (ContextKey D))
        (isFresh : NormalizedPath → Bool) (k : ArtifactKey D) (now now' now'' : ℕ),
      e.keyRoot = some root → scan.hasComputed = false →
      g.resolveInstanceKey pub = some inst →
      (g.updateWithEnv H getHash envValue pub scan names now).2 = some k →
      g.contexts.lookup (instanceKeyOf H key ctx.sourceFile root') = none →
      ctx.sourceFile = rebaseProjectPath e.context.sourceFile (some root) (some root') →
      (ctx.forceIncludes =
        e.context.forceIncludes.map fun p => rebaseProjectPath p (some root) (some root')) →
      Mirrors root root' getHash getHash' (e.recordScan scan now).inputFiles →
      externs.map (collectRustcExternHashes getHash') =
        (g.rustcExterns.lookup inst).map (collectRustcExternHashes getHash) →
      (∀ name ∈ names, envValue' name = envValue name) →
      (((g.updateWithEnv H getHash envValue pub scan names now).1.registerInstance H key ctx root'
        externs compat now').checkWithEnv H isFresh getHash' envValue'
          (instanceKeyOf H key ctx.sourceFile root') now'').2 = .hit k) ∧
    (∀ (externs : Option Externs) (compat : Option (ContextKey D)) (now : ℕ)
        (ops : List (GraphOp D)),
      inst ≠ instanceKeyOf H key ctx.sourceFile root' →
      (g.instancesOf key).length < H.maxEquivalentContexts →
      (∀ op ∈ ops, OnInstance H key ctx.sourceFile root' op) →
      let g' := Run.run (step H) (g.registerInstance H key ctx root' externs compat now) ops
      g'.contexts.lookup inst = some e ∧
        g'.rustcExterns.lookup inst = g.rustcExterns.lookup inst) := by
  constructor
  · intro root pub scan names getHash getHash' envValue envValue' externs compat isFresh k now now'
      now'' hroot hscan hpub hupdate hnew hsrc hforce hmirrors hexts henv
    have hframe := updateWithEnv_frame H getHash envValue g pub scan names now
    rcases updateWithEnv_cases H getHash envValue g pub scan names now with
      ⟨-, hnone⟩ | ⟨inst₀, e₀, hres, he₀, hctxs, hresult⟩
    · rw [hupdate] at hnone
      cases hnone
    · rw [hpub] at hres
      cases hres
      rw [he] at he₀
      cases he₀
      have hupdated : e.update H getHash envValue (g.rustcExterns.lookup inst) scan names now =
          ((e.update H getHash envValue (g.rustcExterns.lookup inst) scan names now).1, some k) :=
        Prod.ext rfl (hresult.symm.trans hupdate)
      have hne : instanceKeyOf H key ctx.sourceFile root' ≠ inst := by
        intro heq
        rw [heq, he] at hnew
        cases hnew
      obtain ⟨hroot₁, hctx₁, hfiles₁⟩ := ContextEntry.update_frame H getHash envValue e
        (g.rustcExterns.lookup inst) scan names now
      refine check_second_checkout ?_ ((congrArg _ hctxs).trans (AList.lookup_insert _))
        (current_of_update hscan hupdated) (hroot₁.trans hroot) ?_ ?_ ?_ hexts ?_
      · rwa [instancesOf, hframe.index]
      · rw [hctxs, lookup_insert_ne hne, hnew]
      · exact inputFiles_rebase (hroot₁.trans hroot) (by rw [hsrc, hctx₁])
          (by rw [hforce, hctx₁])
      · rwa [hfiles₁]
      · exact fun dep hdep => henv _ (update_envNames hupdated dep hdep)
  · intro externs compat now ops hne hcap hops
    have hreg := registerInstance_untouched ctx externs compat now hne (.inr hcap)
    have hrun := hreg.trans (run_untouched hops hne hreg.live)
    exact ⟨hrun.entry.trans he, hrun.externs⟩

/-- One checkout of `m.c` at `root`, registered under the key `key`. -/
def checkoutContext (root : Text) : CompileContext Text :=
  .plain (.new (root ++ "/m.c")) "cc"

def firstCheckout (root : Text) : DepGraph Text :=
  (DepGraph.new.registerWithKeyAndRootResult Host.transparent ⟨"key"⟩
    (checkoutContext root) (some (.new root)) 0).1

def checkoutScan (root : Text) (hasComputed : Bool) : ScanResult :=
  ⟨[.new (root ++ "/m.h"), .new "/usr/s.h"], [], hasComputed⟩

/-- Contents that depend on the file name only. -/
def sameContents (p : NormalizedPath) : Option Text :=
  some (fileNameText p)

theorem worktrees_share_and_isolate_twoRoots :
    let g := firstCheckout "/a"
    let inst := instanceKeyOf Host.transparent ⟨"key"⟩ (.new "/a/m.c")
      (.new "/a")
    let inst' := instanceKeyOf Host.transparent ⟨"key"⟩ (.new "/b/m.c")
      (.new "/b")
    (∃ k, (g.updateWithEnv Host.transparent sameContents (fun _ => none) inst
          (checkoutScan "/a" false) [] 1).2 = some k ∧
        (((g.updateWithEnv Host.transparent sameContents (fun _ => none) inst
          (checkoutScan "/a" false) [] 1).1.registerInstance Host.transparent
            ⟨"key"⟩ (checkoutContext "/b") (.new "/b") none none
              2).checkWithEnv Host.transparent (fun _ => false) sameContents (fun _ => none) inst'
                3).2 = .hit k) ∧
      (Run.run (step Host.transparent) (g.registerInstance Host.transparent ⟨"key"⟩
        (checkoutContext "/b") (.new "/b") none none 2)
          [.updateWithEnv inst' (checkoutScan "/b" false) (fun _ => some "2") []
            (fun _ => none) 3]).contexts.lookup inst = g.contexts.lookup inst := by
  intro g inst inst'
  have hentry : g.contexts.lookup inst = some (.cold ⟨"key"⟩ (checkoutContext "/a")
      (some (.new "/a")) 0) := by decide +kernel
  have hfirst : (g.instancesOf ⟨"key"⟩).head? = some inst := by decide +kernel
  obtain ⟨hshare, hisolate⟩ := worktrees_share_and_isolate (H := Host.transparent)
    (checkoutContext "/b") (.new "/b") hfirst hentry
  have hsome : (g.updateWithEnv Host.transparent sameContents (fun _ => none) inst
      (checkoutScan "/a" false) [] 1).2.isSome := by decide +kernel
  obtain ⟨k, hk⟩ := isSome_iff_exists.mp hsome
  refine ⟨⟨k, hk, hshare (.new "/a") inst _ _ _ _ _ _ _ _ _ k _ _ _ rfl rfl ?_ hk ?_ ?_ rfl
    ⟨?_, ?_, ?_⟩ ?_ (forall_mem_nil _)⟩, (hisolate none none 2 _ ?_ ?_
      (forall_mem_singleton.mpr (.updateWithEnv _ _ _ _ _))).1.trans hentry.symm⟩
  all_goals decide +kernel

/-- The verdict of a check in the second checkout `/b`, registered under its own source. -/
def verdictAtB (g : DepGraph Text) (sourceFile : NormalizedPath) : CacheVerdict Text :=
  ((g.registerInstance Host.transparent ⟨"key"⟩ (.plain sourceFile "cc")
    (.new "/b") none none 2).checkWithEnv Host.transparent (fun _ => false) sameContents
      (fun _ => none) (instanceKeyOf Host.transparent ⟨"key"⟩ sourceFile
        (.new "/b")) 3).2

/-- Three ways for the second checkout to miss although the first one was updated: an include
that only the preprocessor can resolve, a registration older than the update, and a source
that climbs out of the first root. -/
theorem second_checkout_misses :
    let inst := instanceKeyOf Host.transparent ⟨"key"⟩ (.new "/a/m.c")
      (.new "/a")
    let computed := (firstCheckout "/a").updateWithEnv Host.transparent sameContents
      (fun _ => none) inst (checkoutScan "/a" true) [] 1
    let early := ((firstCheckout "/a").registerInstance Host.transparent ⟨"key"⟩
      (checkoutContext "/b") (.new "/b") none none 0).updateWithEnv
        Host.transparent sameContents (fun _ => none) inst (checkoutScan "/a" false) [] 1
    let climbing := (DepGraph.new.registerWithKeyAndRootResult Host.transparent ⟨"key"⟩
      (.plain (.new "../../m.c") "cc") (some (.new "..")) 0).1.updateWithEnv
        Host.transparent sameContents (fun _ => none) ⟨"key"⟩ ⟨[], [], false⟩ [] 1
    computed.2.isSome ∧ verdictAtB computed.1 (.new "/b/m.c") = .needsPreprocessor ∧
      early.2.isSome ∧ verdictAtB early.1 (.new "/b/m.c") = .cold ∧
      climbing.2.isSome ∧
      rebaseProjectPath (.new "../../m.c") (some (.new ".."))
        (some (.new "/b")) = .new "/m.c" ∧
      (verdictAtB climbing.1 (.new "/m.c")).isHit = false := by
  decide +kernel

end DepGraph

end Zccache
