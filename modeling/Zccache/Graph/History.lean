import Zccache.Base.Run
import Zccache.Graph.KeyInputs
import Zccache.Graph.Maintenance

/-! # Histories of the graph

Sequences of graph operations, each with its own oracles. A key that the graph
serves was produced by an earlier operation from the same inputs.
-/

namespace Zccache

open Unix FinMap Option ContextEntry

variable {D : Type} [DecidableEq D]

inductive GraphOp (D : Type) where
  | register (ctx : CompileContext D) (keyRoot : Option NormalizedPath)
      (worktreeSalt : Option Path) (now : ℕ)
  | registerWithKey (key : ContextKey D) (ctx : CompileContext D)
      (keyRoot : Option NormalizedPath) (now : ℕ)
  | registerRustc (key : ContextKey D) (ctx : CompileContext D)
      (keyRoot : Option NormalizedPath) (externs : Externs)
      (checkMetadataCompatKey : Option (ContextKey D)) (now : ℕ)
  | updateWithEnv (key : ContextKey D) (scan : ScanResult)
      (getHash : NormalizedPath → Option D) (envDepNames : List Name)
      (envValue : Name → Option Text) (now : ℕ)
  | checkWithEnv (key : ContextKey D) (isFresh : NormalizedPath → Bool)
      (getHash : NormalizedPath → Option D) (envValue : Name → Option Text) (now : ℕ)
  | checkDiagnosticWithEnv (key : ContextKey D) (isFresh : NormalizedPath → Bool)
      (getHash : NormalizedPath → Option D) (envValue : Name → Option Text) (now : ℕ)
  | tryFastHitWithEnv (key : ContextKey D) (getHash : NormalizedPath → Option D)
      (envValue : Name → Option Text)
  | markStale (key : ContextKey D)
  | invalidateArtifactKeys (evictedHex : List Text)
  | trimAt (maxAge nowMs : ℕ)
  | evictContexts (keys : List (ContextKey D))
  | clear

/-- The context and the hashes that an operation may take for a new key. -/
def GraphOp.oracle : GraphOp D → Option (ContextKey D × (NormalizedPath → Option D))
  | .updateWithEnv key _ getHash _ _ _ => some (key, getHash)
  | .checkWithEnv key _ getHash _ _ => some (key, getHash)
  | .checkDiagnosticWithEnv key _ getHash _ _ => some (key, getHash)
  | _ => none

inductive OpResult (D : Type) where
  | done
  | updated (artifactKey : Option (ArtifactKey D))
  | verdict (verdict : CacheVerdict D)
  | fastHit (artifactKey : Option (ArtifactKey D))

namespace OpResult

/-- The key that a result offers for use. -/
def served : OpResult D → Option (ArtifactKey D)
  | verdict (.hit k) => some k
  | fastHit k => k
  | _ => none

/-- The key that a result reports as newly computed and stored. -/
def produced : OpResult D → Option (ArtifactKey D)
  | updated k => k
  | verdict (.sourceChanged k) => some k
  | _ => none

variable {v : CacheVerdict D} {k : ArtifactKey D}

omit [DecidableEq D] in
theorem served_verdict (h : (verdict v).served = some k) : v = .hit k := by
  cases v <;> cases h
  rfl

omit [DecidableEq D] in
theorem produced_verdict : (verdict v).produced = some k ↔ v = .sourceChanged k := by
  cases v <;> simp [produced]

end OpResult

namespace DepGraph

variable (H : Host D)

variable (g : DepGraph D) (op : GraphOp D) (k : ArtifactKey D) (key : ContextKey D)

def apply : GraphOp D → DepGraph D × OpResult D
  | .register ctx keyRoot worktreeSalt now =>
    ((g.registerWithRootAndSaltResult H ctx keyRoot worktreeSalt now).1, .done)
  | .registerWithKey key ctx keyRoot now =>
    ((g.registerWithKeyAndRootResult H key ctx keyRoot now).1, .done)
  | .registerRustc key ctx keyRoot externs compat now =>
    ((g.registerRustcWithKeyAndRootResult H key ctx keyRoot externs compat now).1, .done)
  | .updateWithEnv key scan getHash names envValue now =>
    let result := g.updateWithEnv H getHash envValue key scan names now
    (result.1, .updated result.2)
  | .checkWithEnv key isFresh getHash envValue now =>
    let result := g.checkWithEnv H isFresh getHash envValue key now
    (result.1, .verdict result.2)
  | .checkDiagnosticWithEnv key isFresh getHash envValue now =>
    let result := g.checkDiagnosticWithEnv H isFresh getHash envValue key now
    (result.1, .verdict result.2.1)
  | .tryFastHitWithEnv key getHash envValue =>
    let result := g.tryFastHitWithEnv H getHash envValue key
    (result.1, .fastHit result.2)
  | .markStale key => ((g.markStale key).1, .done)
  | .invalidateArtifactKeys evictedHex =>
    ((g.invalidateArtifactKeys H.toHasher evictedHex).1, .done)
  | .trimAt maxAge nowMs => ((g.trimAt maxAge nowMs).1, .done)
  | .evictContexts keys => ((g.evictContexts keys).1, .done)
  | .clear => (g.clear, .done)

def step : DepGraph D :=
  (g.apply H op).1

/-- The graph after a sequence of operations on the empty graph. -/
def after (ops : List (GraphOp D)) : DepGraph D :=
  Run.run (step H) DepGraph.new ops

theorem apply_checkWithEnv
    (isFresh : NormalizedPath → Bool) (getHash : NormalizedPath → Option D)
    (envValue : Name → Option Text) (now : ℕ) :
    g.apply H (.checkWithEnv key isFresh getHash envValue now) =
      g.apply H (.checkDiagnosticWithEnv key isFresh getHash envValue now) := by
  rw [apply, checkWithEnv_eq]
  rfl

/-- The operation returns `k` as usable. -/
def Serves : Prop :=
  (g.apply H op).2.served = some k

/-- The operation computes and stores `k`. -/
def Produces : Prop :=
  (g.apply H op).2.produced = some k

/-- The inputs that a read of `key` would put into its artifact key. -/
def readInputs (getHash : NormalizedPath → Option D)
    (envValue : Name → Option Text) : Option (KeyInputs D) :=
  (g.resolveInstanceKey key).bind fun instanceKey =>
    (g.contexts.lookup instanceKey).bind fun e =>
      e.keyInputs getHash (g.rustcExterns.lookup instanceKey)
        (collectRustcEnvHashes envValue H.toHasher e.rustcEnvDeps)

/-- The inputs that an operation puts into the artifact key it computes. -/
def usedInputs : GraphOp D → Option (KeyInputs D)
  | .updateWithEnv key scan getHash names envValue now =>
    (g.resolveInstanceKey key).bind fun instanceKey =>
      (g.contexts.lookup instanceKey).bind fun e =>
        (e.recordScan scan now).keyInputs getHash (g.rustcExterns.lookup instanceKey)
          (names.map fun name => (name, hashEnvDepValue H.toHasher (envValue name)))
  | .checkWithEnv key _ getHash envValue _ => g.readInputs H key getHash envValue
  | .checkDiagnosticWithEnv key _ getHash envValue _ => g.readInputs H key getHash envValue
  | .tryFastHitWithEnv key getHash envValue => g.readInputs H key getHash envValue
  | _ => none

/-- Some live entry holds `k`. -/
def Stored : Prop :=
  ∃ key e, g.contexts.lookup key = some e ∧ e.artifactKey = some k

section Steps

variable {H} {g : DepGraph D} {k : ArtifactKey D}

/-- What one operation can do to the entry of an instance. -/
inductive EntryStep (H : Host D) (g : DepGraph D) (op : GraphOp D) (inst : ContextKey D)
    (e : ContextEntry D) : ContextEntry D → Prop where
  | kept {key : Option (ArtifactKey D)} (state : ContextState) (now : ℕ)
      (hkey : key = e.artifactKey ∨ key = none) (hstate : state = e.state ∨ state = .stale) :
      EntryStep H g op inst e
        { e with artifactKey := key, lastAccessedUnixMs := now, state := state }
  | updated {key : ContextKey D} {scan : ScanResult} {getHash : NormalizedPath → Option D}
      {names : List Name} {envValue : Name → Option Text} {now : ℕ}
      (hop : op = .updateWithEnv key scan getHash names envValue now)
      (hres : g.resolveInstanceKey key = some inst)
      (hresult : (g.apply H op).2 = .updated (e.update H getHash envValue
        (g.rustcExterns.lookup inst) scan names now).2) :
      EntryStep H g op inst e
        (e.update H getHash envValue (g.rustcExterns.lookup inst) scan names now).1
  | refreshed {key : ContextKey D} {getHash : NormalizedPath → Option D}
      {envValue : Name → Option Text} {fileHashes : List (NormalizedPath × D)} {read : ReadKey D}
      (now : ℕ) (hop : op.oracle = some (key, getHash))
      (hres : g.resolveInstanceKey key = some inst)
      (hfiles : hashFiles getHash e.inputFiles = some fileHashes)
      (hread : e.readKey H getHash envValue (g.rustcExterns.lookup inst) fileHashes = some read)
      (hresult : (g.apply H op).2 = .verdict (.sourceChanged read.artifactKey)) :
      EntryStep H g op inst e
        { e with
          artifactKey := some read.artifactKey
          lastAccessedUnixMs := now
          rustcEnvDeps := read.envSnapshot.getD e.rustcEnvDeps }

section Entries

variable {op : GraphOp D} {inst : ContextKey D} {e e' : ContextEntry D}

theorem EntryStep.refl (e : ContextEntry D) : EntryStep H g op inst e e :=
  .kept e.state e.lastAccessedUnixMs (.inl rfl) (.inl rfl)

def Entered (H : Host D) (g : DepGraph D) (op : GraphOp D) (inst : ContextKey D)
    (e' : ContextEntry D) : Prop :=
  (∃ e, g.contexts.lookup inst = some e ∧ EntryStep H g op inst e e') ∨
    g.contexts.lookup inst = none ∧ ∃ key ctx keyRoot now, e' = g.freshEntry key ctx keyRoot now

theorem Entered.of_lookup (h : g.contexts.lookup inst = some e) : Entered H g op inst e :=
  .inl ⟨e, h, .refl e⟩

variable {key : ContextKey D} {now : ℕ}

theorem entered_register {ctx : CompileContext D} {keyRoot : Option NormalizedPath}
    (h : (g.registerContextEntry H key ctx keyRoot now).1.contexts.lookup inst = some e') :
    Entered H g op inst e' := by
  rcases lookup_registerContextEntry h with ⟨old, now', hold, rfl⟩ | ⟨hnone, rfl⟩
  · exact .inl ⟨old, hold, .kept old.state now' (.inl rfl) (.inl rfl)⟩
  · exact .inr ⟨hnone, key, ctx, keyRoot, now, rfl⟩

variable {getHash : NormalizedPath → Option D} {envValue : Name → Option Text}

theorem entered_update {scan : ScanResult} {names : List Name}
    (h : (g.updateWithEnv H getHash envValue key scan names now).1.contexts.lookup inst =
      some e') : Entered H g (.updateWithEnv key scan getHash names envValue now) inst e' := by
  rcases updateWithEnv_cases H getHash envValue g key scan names now with
    ⟨hsame, -⟩ | ⟨inst', e, hres, he, hctxs, hresult⟩
  · exact .of_lookup (hsame ▸ h)
  · rw [hctxs] at h
    obtain ⟨rfl, rfl⟩ | ⟨-, hold⟩ := lookup_insert_eq_some.mp h
    · exact .inl ⟨e, he, .updated rfl hres (congrArg OpResult.updated hresult)⟩
    · exact .of_lookup hold

theorem entered_check {isFresh : NormalizedPath → Bool} (hop : op.oracle = some (key, getHash))
    (happly : (g.apply H op).2 =
      .verdict (g.checkDiagnosticWithEnv H isFresh getHash envValue key now).2.1)
    (h : (g.checkDiagnosticWithEnv H isFresh getHash envValue key now).1.contexts.lookup inst =
      some e') : Entered H g op inst e' := by
  rcases checkDiagnosticWithEnv_cases H isFresh getHash envValue g key now with
    ⟨hsame, -⟩ | ⟨inst', e, hres, he, hctxs, hresult⟩
  · exact .of_lookup (hsame ▸ h)
  · rw [hctxs] at h
    obtain ⟨rfl, rfl⟩ | ⟨-, hold⟩ := lookup_insert_eq_some.mp h
    · have hverd := congrArg Prod.fst hresult
      rcases check_cases H isFresh getHash envValue
        { e with lastAccessedUnixMs := now }
          (g.rustcExterns.lookup inst) with
        ⟨s, hs, hsame, -⟩ | ⟨fileHashes, read, hfiles, hread, -, -, ⟨hsame, -⟩ | ⟨hnew, hchg⟩⟩
      · rw [hsame]
        exact .inl ⟨e, he, .kept s now (.inl rfl) hs⟩
      · rw [hsame]
        exact .inl ⟨e, he, .kept e.state now (.inl rfl) (.inl rfl)⟩
      · rw [hverd.trans hchg] at happly
        rw [hnew]
        exact .inl ⟨e, he, .refreshed now hop hres hfiles hread happly⟩
    · exact .of_lookup hold

/-- Every entry after an operation is an old one that went through the operation, or fresh. -/
theorem entry_step (h : (g.step H op).contexts.lookup inst = some e') :
    Entered H g op inst e' := by
  cases op with
  | register | registerWithKey => exact entered_register h
  | registerRustc key ctx keyRoot externs compat now =>
    rw [step, apply, registerRustc_contexts] at h
    exact entered_register h
  | updateWithEnv key scan getHash names envValue now => exact entered_update h
  | checkWithEnv key isFresh getHash envValue now =>
    rw [step, apply_checkWithEnv] at h
    exact entered_check rfl (congrArg Prod.snd (apply_checkWithEnv ..)) h
  | checkDiagnosticWithEnv key isFresh getHash envValue now => exact entered_check rfl rfl h
  | tryFastHitWithEnv key getHash envValue =>
    obtain ⟨hits, hsame⟩ := tryFastHitWithEnv_fst (H := H) g key
    rw [step, apply, hsame] at h
    exact .of_lookup h
  | markStale key =>
    rcases markStale_cases g key with hsame | ⟨inst', entry, hentry, hmarked⟩
    · rw [step, apply, hsame] at h
      exact .of_lookup h
    · rw [step, apply, hmarked] at h
      obtain ⟨rfl, rfl⟩ | ⟨-, hold⟩ := lookup_insert_eq_some.mp h
      · exact .inl ⟨entry, hentry, .kept .stale entry.lastAccessedUnixMs (.inl rfl) (.inr rfl)⟩
      · exact .of_lookup hold
  | invalidateArtifactKeys evictedHex =>
    rw [step, apply, lookup_invalidateArtifactKeys] at h
    obtain ⟨old, hold, rfl⟩ := map_eq_some_iff.mp h
    rw [clearIfEvicted_eq]
    split
    · exact .inl ⟨old, hold, .kept old.state old.lastAccessedUnixMs (.inr rfl) (.inl rfl)⟩
    · exact .of_lookup hold
  | trimAt | evictContexts => exact .of_lookup (lookup_of_evictContexts h)
  | clear => cases h

end Entries

theorem stored_step (g : DepGraph D) (op : GraphOp D) (k : ArtifactKey D)
    (h : Stored (g.step H op) k) : Stored g k ∨ Produces H g op k := by
  obtain ⟨inst, e', he', hk⟩ := h
  rcases entry_step he' with ⟨e, he, hstep⟩ | ⟨-, key, ctx, keyRoot, now, rfl⟩
  · cases hstep with
    | kept state now hkey hstate =>
      rcases hkey with rfl | rfl
      · exact .inl ⟨inst, e, he, hk⟩
      · cases hk
    | @updated key scan getHash names envValue now hop hres hresult =>
      rcases update_cases H getHash envValue e (g.rustcExterns.lookup inst) scan names
          now with
        hfail | ⟨_, key', _, _, _, hok⟩
      · rw [hfail] at hk
        exact .inl ⟨inst, e, he, hk⟩
      · rw [hok] at hk hresult
        exact .inr ((congrArg OpResult.produced hresult).trans hk)
    | refreshed now hop hres hfiles hread hresult =>
      exact .inr ((congrArg OpResult.produced hresult).trans hk)
  · rcases freshEntry_artifactKey g key ctx keyRoot now with hnone | ⟨inst', old, hold, hkey⟩
    · rw [hnone] at hk
      cases hk
    · exact .inl ⟨inst', old, hold, hkey ▸ hk⟩

section Inputs

variable {key : ContextKey D} {isFresh : NormalizedPath → Bool}
variable {getHash : NormalizedPath → Option D} {envValue : Name → Option Text} {now : ℕ}

theorem readInputs_of_readKey {inst : ContextKey D} {e : ContextEntry D}
    {fileHashes : List (NormalizedPath × D)} {read : ReadKey D}
    (hres : g.resolveInstanceKey key = some inst) (he : g.contexts.lookup inst = some e)
    (hfiles : hashFiles getHash e.inputFiles = some fileHashes)
    (hread : e.readKey H getHash envValue (g.rustcExterns.lookup inst) fileHashes = some read) :
    ∃ i, g.readInputs H key getHash envValue = some i ∧
      read.artifactKey = i.artifactKey H.toHasher := by
  obtain ⟨i, hi, hkey⟩ := readKey_eq hread
  refine ⟨i, ?_, hkey⟩
  rw [readInputs, hres, bind_some, he, bind_some, keyInputs, hfiles,
    bind_some, hi]

/-- A verdict that carries a key carries the key of the current inputs; a hit is stored. -/
theorem checkDiagnosticWithEnv_inputs
    (h : (g.checkDiagnosticWithEnv H isFresh getHash envValue key now).2.1 = .hit k ∨
      (g.checkDiagnosticWithEnv H isFresh getHash envValue key now).2.1 = .sourceChanged k) :
    ∃ i, g.readInputs H key getHash envValue = some i ∧ k = i.artifactKey H.toHasher ∧
      ((g.checkDiagnosticWithEnv H isFresh getHash envValue key now).2.1 = .hit k →
        Stored g k) := by
  rcases checkDiagnosticWithEnv_cases H isFresh getHash envValue g key now with
      ⟨-, hcold⟩ | ⟨inst, e, hres, he, -, hresult⟩
  · rw [hcold] at h
    rcases h with h | h <;> cases h
  · rw [hresult] at h ⊢
    rcases check_cases H isFresh getHash envValue
        { e with lastAccessedUnixMs := now }
        (g.rustcExterns.lookup inst) with
      ⟨s, -, -, hmiss⟩ | ⟨fileHashes, read, hfiles, hread, -, -, ⟨-, hverd, hstored⟩ |
        ⟨-, hverd⟩⟩
    · rcases h with h | h <;> rw [h] at hmiss <;> cases hmiss
    · obtain ⟨i, hi, hkey⟩ := readInputs_of_readKey hres he hfiles hread
      rw [hverd] at h
      rcases h with h | h <;> cases h
      exact ⟨i, hi, hkey, fun _ => ⟨inst, e, he, hstored⟩⟩
    · obtain ⟨i, hi, hkey⟩ := readInputs_of_readKey hres he hfiles hread
      rw [hverd] at h ⊢
      rcases h with h | h <;> cases h
      exact ⟨i, hi, hkey, fun hhit => by cases hhit⟩

theorem tryFastHitWithEnv_inputs
    (h : (g.tryFastHitWithEnv H getHash envValue key).2 = some k) :
    ∃ i, g.readInputs H key getHash envValue = some i ∧ k = i.artifactKey H.toHasher ∧
      Stored g k := by
  obtain ⟨inst, e, hres, he, hit⟩ := tryFastHitWithEnv_eq_some h
  obtain ⟨fileHashes, read, hfiles, hread, rfl, hstored⟩ := tryFastHit_eq_some hit
  obtain ⟨i, hi, hkey⟩ := readInputs_of_readKey hres he hfiles hread
  exact ⟨i, hi, hkey, inst, e, he, hstored⟩

end Inputs

variable {op : GraphOp D}

theorem serves_inputs (h : Serves H g op k) :
    Stored g k ∧ ∃ i, g.usedInputs H op = some i ∧ k = i.artifactKey H.toHasher := by
  cases op with
  | checkWithEnv key isFresh getHash envValue now =>
    rw [Serves, apply_checkWithEnv] at h
    have hhit := OpResult.served_verdict h
    obtain ⟨i, hi, hkey, hstored⟩ := checkDiagnosticWithEnv_inputs (.inl hhit)
    exact ⟨hstored hhit, i, hi, hkey⟩
  | checkDiagnosticWithEnv key isFresh getHash envValue now =>
    have hhit := OpResult.served_verdict h
    obtain ⟨i, hi, hkey, hstored⟩ := checkDiagnosticWithEnv_inputs (.inl hhit)
    exact ⟨hstored hhit, i, hi, hkey⟩
  | tryFastHitWithEnv key getHash envValue =>
    obtain ⟨i, hi, hkey, hstored⟩ := tryFastHitWithEnv_inputs h
    exact ⟨hstored, i, hi, hkey⟩
  | _ => cases h

theorem updateWithEnv_inputs {key : ContextKey D} {scan : ScanResult}
    {getHash : NormalizedPath → Option D} {names : List Name} {envValue : Name → Option Text}
    {now : ℕ} (h : (g.updateWithEnv H getHash envValue key scan names now).2 = some k) :
    ∃ i, g.usedInputs H (.updateWithEnv key scan getHash names envValue now) = some i ∧
      k = i.artifactKey H.toHasher := by
  rcases updateWithEnv_cases H getHash envValue g key scan names now with
      ⟨-, hnone⟩ | ⟨inst, e, hres, he, -, hresult⟩
  · rw [h] at hnone
    cases hnone
  · rcases update_cases H getHash envValue e (g.rustcExterns.lookup inst) scan
        names now with
      hfail | ⟨fileHashes, key', env, hfiles, hwrite, hok⟩
    · rw [hfail, h] at hresult
      cases hresult
    · obtain ⟨i, hi, hkey⟩ := writeKey_eq hwrite
      rw [hok, h] at hresult
      cases hresult
      refine ⟨i, ?_, hkey⟩
      rw [usedInputs, hres, bind_some, he, bind_some, keyInputs,
        hfiles, bind_some, hi]

theorem produces_inputs (h : Produces H g op k) :
    ∃ i, g.usedInputs H op = some i ∧ k = i.artifactKey H.toHasher := by
  cases op with
  | updateWithEnv key scan getHash names envValue now =>
    exact updateWithEnv_inputs h
  | checkWithEnv key isFresh getHash envValue now =>
    rw [Produces, apply_checkWithEnv] at h
    obtain ⟨i, hi, hkey, -⟩ :=
      checkDiagnosticWithEnv_inputs (.inr (OpResult.produced_verdict.mp h))
    exact ⟨i, hi, hkey⟩
  | checkDiagnosticWithEnv key isFresh getHash envValue now =>
    obtain ⟨i, hi, hkey, -⟩ :=
      checkDiagnosticWithEnv_inputs (.inr (OpResult.produced_verdict.mp h))
    exact ⟨i, hi, hkey⟩
  | _ => cases h

end Steps

/-- In every history, a key that is served was produced by an earlier operation on an
instance of the same logical key, from the same files, externs and environment values. -/
theorem served_key_origin {H : Host D} (hinj : Function.Injective H.digest)
    (ops : List (GraphOp D)) (op : GraphOp D) (k : ArtifactKey D)
    (h : Serves H (after H ops) op k) :
    ∃ pre op' post, ops = pre ++ op' :: post ∧ Produces H (after H pre) op' k ∧
      ∃ i j, (after H pre).usedInputs H op' = some i ∧
        (after H ops).usedInputs H op = some j ∧ i.Same j := by
  obtain ⟨hstored, j, hj, hkj⟩ := serves_inputs h
  have hempty : ¬ Stored (DepGraph.new : DepGraph D) k := by
    rintro ⟨key, e, he, -⟩
    cases he
  obtain ⟨pre, op', post, hops, hprod⟩ := Run.run_origin (Stored · k) hempty
    (fun s op => stored_step s op k) hstored
  obtain ⟨i, hi, hki⟩ := produces_inputs hprod
  exact ⟨pre, op', post, hops, hprod, i, j, hi, hj,
    KeyInputs.same_of_artifactKey_eq hinj (hki.symm.trans hkj)⟩

/-- Two checkouts of one source: the second starts from the entry of the first. -/
def twoCheckouts : List (GraphOp Text) :=
  [.registerWithKey ⟨"key"⟩ (.plain (.new "/a/m.c") "cc")
      (some (.new "/a")) 0,
    .updateWithEnv ⟨"key"⟩ ⟨[.new "/a/m.h", .new "/usr/s.h"], [], false⟩
      (fun _ => some "1") [] (fun _ => none) 1,
    .registerWithKey ⟨"key"⟩ (.plain (.new "/b/m.c") "cc")
      (some (.new "/b")) 2]

def checkSecondCheckout : GraphOp Text :=
  .checkWithEnv
    (ContextInstanceKey.new Hasher.transparent ⟨"key"⟩ (.new "/b/m.c")
      (some (.new "/b"))).mapKey
    (fun _ => false) (fun _ => some "1") (fun _ => none) 3

theorem served_key_origin_twoCheckouts :
    ∃ k, Serves Host.transparent (after Host.transparent twoCheckouts) checkSecondCheckout k ∧
      ∃ pre op' post, twoCheckouts = pre ++ op' :: post ∧
        Produces Host.transparent (after Host.transparent pre) op' k ∧
        ∃ i j, (after Host.transparent pre).usedInputs Host.transparent op' = some i ∧
          (after Host.transparent twoCheckouts).usedInputs Host.transparent
            checkSecondCheckout = some j ∧ i.Same j := by
  have hsome : ((after Host.transparent twoCheckouts).apply Host.transparent
      checkSecondCheckout).2.served.isSome := by
    decide +kernel
  obtain ⟨k, hk⟩ := isSome_iff_exists.mp hsome
  exact ⟨k, hk, served_key_origin transparent_injective _ _ _ hk⟩

end DepGraph

end Zccache
