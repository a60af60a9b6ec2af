import Zccache.Daemon.ErrorCache

/-! # Replayed errors

A failed run is stored under a key of the files alone that the dep-info lists at its
place. A staged run does not write there, so this is the list of an earlier run. If it
has the files of the run, whoever is answered with the verdict has them too. Variables,
and files that the run listed but did not find, are not looked at again.
-/

namespace Zccache

open List Unix FinMap Option ContextEntry DepGraph

variable {D : Type} [DecidableEq D]

namespace DepGraph

def entryOf (g : DepGraph D) (key : ContextKey D) : Option (ContextEntry D) :=
  (g.resolveInstanceKey key).bind g.contexts.lookup

variable {H : Host D} {g : DepGraph D} {key : ContextKey D} {e' : ContextEntry D} {g' : DepGraph D}

theorem entryOf_congr (hctxs : g'.contexts = g.contexts)
    (hidx : g'.equivalentContexts = g.equivalentContexts) : g'.entryOf key = g.entryOf key := by
  have hres := resolveInstanceKey_congr (fun k => by rw [hctxs]) hidx key
  rw [entryOf, entryOf, hres, hctxs]

theorem entryOf_insert {inst : ContextKey D} {e : ContextEntry D}
    (hres : g.resolveInstanceKey key = some inst) (he : g.contexts.lookup inst = some e)
    (hctxs : g'.contexts = g.contexts.insert inst e')
    (hidx : g'.equivalentContexts = g.equivalentContexts) : g'.entryOf key = some e' := by
  have hkept := resolveInstanceKey_insert hctxs hidx (by rw [he]; rfl) key
  rw [entryOf, hkept, hres, bind_some, hctxs]
  exact AList.lookup_insert _

end DepGraph

/-- The entry belongs to the unit, under a key root. -/
structure RustcUnit.Describes (u : RustcUnit D) (root : Option Path) (e : ContextEntry D) :
    Prop where
  source : e.context.sourceFile = u.source
  keyRoot : e.keyRootPath = root
  absolute : ∀ p ∈ e.inputFiles, IsAbsolute p.path

/-- The graph knows the unit, if at all, under this key root. -/
def RustcUnit.Registered (u : RustcUnit D) (root : Option Path) (g : DepGraph D) : Prop :=
  ∀ e ∈ g.entryOf u.key, u.Describes root e

section Registered

variable {H : Host D} {g : DepGraph D} {u : RustcUnit D} {root : Option Path}
  {getHash : NormalizedPath → Option D}

variable {envValue : Name → Option Text} {now : ℕ}

variable (h : u.Registered root g)

include h

theorem RustcUnit.Registered.updateWithEnv {scan : ScanResult} {names : List Name}
    (hscan : ∀ p ∈ scan.resolved, IsAbsolute p.path) :
    u.Registered root (g.updateWithEnv H getHash envValue u.key scan names now).1 := by
  intro e' he'
  obtain ⟨-, hidx, -⟩ := updateWithEnv_frame H getHash envValue g u.key scan names now
  rcases updateWithEnv_cases H getHash envValue g u.key scan names now with
    ⟨hctxs, -⟩ | ⟨inst, e, hres, he, hctxs, -⟩
  · rw [entryOf_congr hctxs hidx] at he'
    exact h e' he'
  · rw [entryOf_insert hres he hctxs hidx] at he'
    obtain rfl := some.inj he'
    have hold := h e (by rw [entryOf, hres, bind_some, he]; rfl)
    obtain ⟨hkeyRoot, hctx, hfiles⟩ := update_frame H getHash envValue e
      (g.rustcExterns.lookup inst) scan names now
    refine ⟨by rw [hctx, hold.source], ?_, fun p hp => ?_⟩
    · rw [keyRootPath, hkeyRoot]
      exact hold.keyRoot
    · rw [hfiles] at hp
      rcases mem_cons.mp hp with hp | hp
      · exact hold.absolute p (hp ▸ mem_cons_self)
      · rcases mem_append.mp hp with hp | hp
        · exact hscan p hp
        · exact hold.absolute p (mem_cons_of_mem _ (mem_append_right _ hp))

theorem RustcUnit.Registered.checkDiagnosticWithEnv {isFresh : NormalizedPath → Bool} :
    u.Registered root (g.checkDiagnosticWithEnv H isFresh getHash envValue u.key now).1 := by
  intro e' he'
  obtain ⟨-, hidx, -⟩ :=
    checkDiagnosticWithEnv_frame H isFresh getHash envValue g u.key now
  rcases checkDiagnosticWithEnv_cases H isFresh getHash envValue g u.key now with
    ⟨hctxs, -⟩ | ⟨inst, e, hres, he, hctxs, -⟩
  · rw [entryOf_congr hctxs hidx] at he'
    exact h e' he'
  · rw [entryOf_insert hres he hctxs hidx] at he'
    obtain rfl := some.inj he'
    have hold := h e (by rw [entryOf, hres, bind_some, he]; rfl)
    rcases check_cases H isFresh getHash envValue
        { e with lastAccessedUnixMs := now } (g.rustcExterns.lookup inst) with
      ⟨s, -, hresult, -⟩ | ⟨_, _, -, -, -, -, ⟨hresult, -⟩ | ⟨hresult, -⟩⟩
    all_goals
      rw [hresult]
      exact ⟨hold.source, hold.keyRoot, hold.absolute⟩

theorem RustcUnit.Registered.tryFastHitWithEnv :
    u.Registered root (g.tryFastHitWithEnv H getHash envValue u.key).1 := by
  obtain ⟨hits, hgraph⟩ : ∃ hits, (g.tryFastHitWithEnv H getHash envValue u.key).1 =
      { g with hits := hits } := tryFastHitWithEnv_fst g u.key
  rw [hgraph]
  exact h

end Registered

theorem isAbsolute_of_mem_depinfoFiles {content : Text} {cwd : Path} (hcwd : IsAbsolute cwd)
    {p : NormalizedPath} (h : p ∈ depinfoFiles content cwd) : IsAbsolute p.path := by
  obtain ⟨dep, -, rfl⟩ := mem_map.mp h
  exact (hcwd.join_components dep).isAbsolute_normalize

namespace ErrorWorld

variable {H : Host D} {u : RustcUnit D} {root : Option Path} {w : ErrorWorld D} {hex : Text}
  {v : ArtifactVerdict D}

variable {p : NormalizedPath} {depinfo : Option Text}

/-- The files that a dep-info lists. -/
def listedFiles (u : RustcUnit D) (depinfo : Option Text) : List NormalizedPath :=
  (depinfo.map (depinfoFiles · u.cwd)).getD []

omit [DecidableEq D] in
theorem mem_scanRustcDeps :
    p ∈ (w.scanRustcDeps u depinfo).scan.resolved ↔ "dep-info".toList ∈ u.emitTypes ∧
      p ∈ listedFiles u depinfo ∧ p ≠ u.source ∧ w.fileExists p := by
  unfold scanRustcDeps
  split_ifs with hemit
  · rw [and_iff_right hemit]
    cases depinfo with
    | none => simp [RustcDepScan.empty, listedFiles]
    | some content => simp [parseRustcDepinfo, listedFiles, StableSort.mem_sortBy]
  · exact iff_of_false not_mem_nil fun h => hemit h.1

omit [DecidableEq D] in
theorem hashFile_eq (h : ∀ p, w.known.Truthful p (w.disk p)) : w.hashFile = w.disk :=
  funext fun p => (h p).hashFile_eq

omit [DecidableEq D] in
theorem isAbsolute_of_mem_scanRustcDeps (hcwd : IsAbsolute u.cwd)
    (h : p ∈ (w.scanRustcDeps u depinfo).scan.resolved) : IsAbsolute p.path := by
  obtain ⟨-, hfiles, -⟩ := mem_scanRustcDeps.mp h
  cases depinfo with
  | none => exact nomatch hfiles
  | some content => exact isAbsolute_of_mem_depinfoFiles hcwd hfiles

def Stored (w : ErrorWorld D) (hex : Text) (v : ArtifactVerdict D) : Prop :=
  ∃ index ∈ w.artifacts.lookup hex, ∃ key, index.rustcVerdicts.lookup key = some v

def StoredError (w : ErrorWorld D) (hex : Text) (v : ArtifactVerdict D) : Prop :=
  w.Stored hex v ∧ v.exitCode ≠ 0

omit [DecidableEq D] in
theorem rustcVerdicts_mergeRustcIndex (preferred fallback : ArtifactIndex D) :
    (mergeRustcIndex preferred fallback).rustcVerdicts =
      preferred.rustcVerdicts ∪ fallback.rustcVerdicts := by
  unfold mergeRustcIndex
  split_ifs <;> rfl

variable {outputNames : List Text} {dylintInputHash : Option Text} {verdict : ArtifactVerdict D}
  {graph : DepGraph D}

omit [DecidableEq D] in
theorem stored_commitRustcVerdict {artifactKey : ArtifactKey D}
    (h : Stored { w with
      graph := graph
      artifacts := w.commitRustcVerdict H artifactKey outputNames dylintInputHash verdict } hex v) :
    w.Stored hex v ∨ hex = H.toHex artifactKey.hash ∧ v = verdict := by
  obtain ⟨index, hidx, key, hv⟩ := h
  have hsingle : ∀ {k : Text},
      (AList.singleton k verdict : Map Text (ArtifactVerdict D)).lookup key = some v →
        v = verdict := by
    intro k hlook
    rw [FinMap.lookup_singleton] at hlook
    split at hlook
    · exact (some.inj hlook).symm
    · cases hlook
  change (AList.insert _ _ w.artifacts).lookup hex = some index at hidx
  rw [lookup_insert_eq_ite] at hidx
  split_ifs at hidx with hhex
  · cases hold : w.artifacts.lookup (H.toHex artifactKey.hash) with
    | none =>
      rw [hold] at hidx
      cases hidx
      exact .inr ⟨hhex, hsingle hv⟩
    | some old =>
      rw [hold] at hidx
      cases hidx
      rw [map_some, getD_some, rustcVerdicts_mergeRustcIndex] at hv
      rcases AList.mem_lookup_union.mp hv with hnew | ⟨-, hkept⟩
      · exact .inr ⟨hhex, hsingle hnew⟩
      · exact .inl ⟨old, hhex ▸ hold, key, hkept⟩
  · exact .inl ⟨index, hidx, key, hv⟩

/-- The row of the artifact key was computed from the files that the run found. -/
def KeyedBy (H : Host D) (root : Option Path) (hex : Text) (r : RunRecord D) : Prop :=
  ∃ i : KeyInputs D, hex = H.toHex (i.artifactKey H.toHasher).hash ∧
    ∀ p d, (p, some d) ∈ r.files → IsAbsolute p.path ∧ (pathKey p root, d) ∈ i.files

/-- What the run saw is still so. -/
structure Current (w : ErrorWorld D) (r : RunRecord D) : Prop where
  files : ∀ f ∈ r.files, w.disk f.1 = f.2
  env : ∀ e ∈ r.env, w.env e.1 = e.2

/-- The parts of the record that the key leaves out are still so. -/
structure Kept (w : ErrorWorld D) (r : RunRecord D) : Prop where
  missing : ∀ p, (p, none) ∈ r.files → w.disk p = none
  env : ∀ e ∈ r.env, w.env e.1 = e.2

/-- The dep-info that is read for a stored failed run has the files of the run. Nothing happens to
what such a run asked for but its key leaves out: no file appears that its dep-info lists and that
was not there, and no variable changes that its dep-info names. The metadata cache remembers no
other digests than those of the files. -/
def Undisturbed (u : RustcUnit D) (w : ErrorWorld D) : ErrorEvent D → Prop
  | .edit path content sameStat =>
      (w.known.edited path sameStat).Truthful path content ∧
        (content ≠ none → ∀ hex v, w.StoredError hex v → (path, none) ∉ v.run.files)
  | .remember path digest => (w.known.updated path digest).Truthful path (w.disk path)
  | .setEnv env => ∀ hex v, w.StoredError hex v → ∀ e ∈ v.run.env, env e.1 = w.env e.1
  | .failed run => shouldCacheRustcError u run = true → ∀ p ∈ listedFiles u run.depinfo,
      p = u.source ∨ p ∈ listedFiles u (w.leftDepinfo run)
  | _ => True

structure Inv (H : Host D) (u : RustcUnit D) (root : Option Path) (w : ErrorWorld D) : Prop where
  truthful : ∀ p, w.known.Truthful p (w.disk p)
  registered : u.Registered root w.graph
  keyed : ∀ hex v, w.StoredError hex v → KeyedBy H root hex v.run
  kept : ∀ hex v, w.StoredError hex v → w.Kept v.run

omit [DecidableEq D] in
theorem kept_recordRun (w : ErrorWorld D) (u : RustcUnit D) (depinfo : Option Text) :
    w.Kept (w.recordRun u depinfo) := by
  constructor
  · intro p hp
    obtain ⟨q, -, hq⟩ := mem_map.mp hp
    obtain ⟨rfl, hdisk⟩ := Prod.mk.inj hq
    exact hdisk
  · intro e he
    obtain ⟨name, -, rfl⟩ := mem_map.mp he
    rfl

variable {k : ArtifactKey D}

theorem keyedBy_recordRun (htrue : ∀ p, w.known.Truthful p (w.disk p)) (hcwd : IsAbsolute u.cwd)
    (hreg : u.Registered root w.graph)
    {run : FailedRun} (hcache : shouldCacheRustcError u run = true)
    (hlisted : ∀ p ∈ listedFiles u run.depinfo, p = u.source ∨ p ∈ listedFiles u w.depinfo)
    (h : (w.graph.updateWithEnv H (w.trackedHash u) (fun _ => none) u.key
      (w.scanRustcDeps u w.depinfo).scan [] run.now).2 = some k) :
    KeyedBy H root (H.toHex k.hash) (w.recordRun u run.depinfo) := by
  obtain ⟨i, hins, rfl⟩ := updateWithEnv_inputs h
  refine ⟨i, rfl, fun p d hp => ?_⟩
  obtain ⟨inst, hres, hins⟩ := bind_eq_some_iff.mp hins
  obtain ⟨e, he, hins⟩ := bind_eq_some_iff.mp hins
  have hunit := hreg e (by rw [entryOf, hres, bind_some, he]; rfl)
  obtain ⟨q, hq, heq⟩ := mem_map.mp hp
  obtain ⟨rfl, hdisk⟩ := Prod.mk.inj heq
  have hlist : q = u.source ∨ q ∈ (w.scanRustcDeps u w.depinfo).scan.resolved := by
    have hemit : "dep-info".toList ∈ u.emitTypes := by
      unfold shouldCacheRustcError at hcache
      simp only [Bool.and_eq_true, decide_eq_true_eq] at hcache
      exact hcache.1.2.1
    by_cases hsrc : q = u.source
    · exact .inl hsrc
    · refine .inr (mem_scanRustcDeps.mpr ⟨hemit, ?_, hsrc, ?_⟩)
      · exact (hlisted q ((mem_cons.mp hq).resolve_left hsrc)).resolve_left hsrc
      · rw [fileExists, hdisk]
        rfl
  have htrack : w.trackedHash u q = some d := by
    rw [trackedHash, if_pos, hashFile_eq htrue, hdisk]
    rcases hlist with rfl | hlist
    · exact mem_cons_self
    · exact mem_cons_of_mem _ (mem_append_left _ hlist)
  have hmem : q ∈ (e.recordScan (w.scanRustcDeps u w.depinfo).scan run.now).inputFiles := by
    rcases hlist with rfl | hlist
    · rw [← hunit.source]
      exact mem_cons_self
    · exact mem_cons_of_mem _ (mem_append_left _ hlist)
  refine ⟨?_, (mem_keyInputs_files hins).mpr ⟨q, hmem, htrack, ?_⟩⟩
  · rcases hlist with rfl | hlist
    · exact hunit.absolute _ (hunit.source ▸ mem_cons_self)
    · exact isAbsolute_of_mem_scanRustcDeps hcwd hlist
  · rw [← hunit.keyRoot]
    rfl

variable {l : Lookup}

theorem hashAndVerify_inputs (h : (w.hashAndVerify H u l).2 = some k) :
    ∃ i, w.graph.readInputs H u.key w.hashFile l.keyValue = some i ∧
      k = i.artifactKey H.toHasher := by
  unfold hashAndVerify at h
  split at h
  · next graph k' hfast =>
    obtain rfl := some.inj h
    obtain ⟨i, hi, hkey, -⟩ := tryFastHitWithEnv_inputs (congrArg Prod.snd hfast)
    exact ⟨i, hi, hkey⟩
  · next graph hfast =>
    have hgraph := tryFastHitWithEnv_of_none (congrArg Prod.snd hfast)
    rw [hfast] at hgraph
    obtain rfl : graph = w.graph := hgraph
    split at h
    · next hcheck =>
      obtain rfl := some.inj h
      obtain ⟨i, hi, hkey, -⟩ :=
        checkDiagnosticWithEnv_inputs (.inl (congrArg (·.2.1) hcheck))
      exact ⟨i, hi, hkey⟩
    · next hcheck =>
      obtain rfl := some.inj h
      obtain ⟨i, hi, hkey, -⟩ :=
        checkDiagnosticWithEnv_inputs (.inr (congrArg (·.2.1) hcheck))
      exact ⟨i, hi, hkey⟩
    · exact nomatch h

theorem registered_hashAndVerify (h : u.Registered root w.graph) (l : Lookup) :
    u.Registered root (w.hashAndVerify H u l).1 := by
  unfold hashAndVerify
  have hfast : u.Registered root (w.graph.tryFastHitWithEnv H w.hashFile l.keyValue u.key).1 :=
    h.tryFastHitWithEnv
  split
  · next graph k hgraph =>
    rw [hgraph] at hfast
    exact hfast
  · next graph hgraph =>
    rw [hgraph] at hfast
    have hcheck : u.Registered root
        (graph.checkDiagnosticWithEnv H l.isFresh w.hashFile l.keyValue u.key l.now).1 :=
      hfast.checkDiagnosticWithEnv
    split
    all_goals
      next hresult =>
        rw [hresult] at hcheck
        exact hcheck

theorem disk_eq_of_keyedBy (hinj : Function.Injective H.digest) (hhex : Function.Injective H.toHex)
    (htrue : ∀ p, w.known.Truthful p (w.disk p)) (hreg : u.Registered root w.graph)
    (h : (w.hashAndVerify H u l).2 = some k) {r : RunRecord D}
    (hr : KeyedBy H root (H.toHex k.hash) r) {d : D} (hp : (p, some d) ∈ r.files) :
    w.disk p = some d := by
  obtain ⟨j, hread, rfl⟩ := hashAndVerify_inputs h
  rw [hashFile_eq htrue] at hread
  obtain ⟨i, hkey, hfiles⟩ := hr
  obtain ⟨habs, hmem⟩ := hfiles p d hp
  have hsame : j.Same i :=
    KeyInputs.same_of_artifactKey_eq hinj (congrArg ArtifactKey.mk (hhex hkey))
  have hmem : (pathKey p root, d) ∈ j.files := by
    rw [← Multiset.mem_coe, hsame.files]
    exact hmem
  obtain ⟨inst, hres, hread⟩ := bind_eq_some_iff.mp hread
  obtain ⟨e, he, hread⟩ := bind_eq_some_iff.mp hread
  have hunit := hreg e (by rw [entryOf, hres, bind_some, he]; rfl)
  obtain ⟨q, hq, hd, hname⟩ := (mem_keyInputs_files hread).mp hmem
  rw [hunit.keyRoot] at hname
  rw [← pathKey_inj (hunit.absolute q hq) habs hname]
  exact hd

omit [DecidableEq D] in
theorem storedError_of_getD {key : Option (ArtifactKey D)}
    (h : StoredError { w with
      graph := graph
      artifacts := (key.map fun k =>
        w.commitRustcVerdict H k outputNames dylintInputHash verdict).getD w.artifacts } hex v) :
    w.StoredError hex v ∨ ∃ k, key = some k ∧ hex = H.toHex k.hash ∧ v = verdict := by
  cases key with
  | none => exact .inl h
  | some k =>
    rcases stored_commitRustcVerdict h.1 with hold | ⟨hhex, hv⟩
    · exact .inl ⟨hold, h.2⟩
    · exact .inr ⟨k, rfl, hhex, hv⟩

omit [DecidableEq D] in
theorem Kept.frame {w' : ErrorWorld D} {r : RunRecord D} (h : w.Kept r)
    (hdisk : w'.disk = w.disk) (henv : w'.env = w.env) : w'.Kept r where
  missing p hp := (congrFun hdisk p).trans (h.missing p hp)
  env e he := (congrFun henv e.1).trans (h.env e he)

/-- While files and variables stay as they are, what is newly stored has to be checked, and no
more. -/
theorem Inv.grow {w' : ErrorWorld D} (hinv : Inv H u root w) (hknown : w'.known = w.known)
    (hdisk : w'.disk = w.disk) (henv : w'.env = w.env) (hreg : u.Registered root w'.graph)
    (hnew : ∀ hex v, w'.StoredError hex v →
      w.StoredError hex v ∨ KeyedBy H root hex v.run ∧ w.Kept v.run) : Inv H u root w' where
  truthful := by
    rw [hknown, hdisk]
    exact hinv.truthful
  registered := hreg
  keyed hex v hv := (hnew hex v hv).elim (hinv.keyed hex v) And.left
  kept hex v hv := ((hnew hex v hv).elim (hinv.kept hex v) And.right).frame hdisk henv

/-- What a stored failed run saw of the files that it did not find and of its variables stays so,
as long as nothing disturbs it. -/
theorem inv_step (hcwd : IsAbsolute u.cwd) (op : ErrorEvent D) (hinv : Inv H u root w)
    (hop : w.Undisturbed u op) : Inv H u root (w.step H u op) := by
  cases op with
  | edit path content sameStat =>
    refine ⟨fun p => ?_, hinv.registered, hinv.keyed,
      fun hex v hv => ⟨fun p hp => ?_, (hinv.kept hex v hv).env⟩⟩
    · refine Remembered.truthful_of_frame hinv.truthful path ?_ (fun p hp =>
        ⟨Function.update_of_ne hp content w.disk, fun d => Remembered.lookup_of_edited⟩) p
      change Remembered.Truthful _ path (Function.update w.disk path content path)
      rw [Function.update_self]
      exact hop.1
    have hmiss := (hinv.kept hex v hv).missing p hp
    change Function.update w.disk path content p = none
    by_cases hpath : p = path
    · subst hpath
      rw [Function.update_self]
      by_contra hcont
      exact hop.2 hcont hex v hv hp
    · rw [Function.update_of_ne hpath]
      exact hmiss
  | remember path digest =>
    refine ⟨Remembered.truthful_of_frame hinv.truthful path hop fun p hp => ⟨rfl, fun d hd => ?_⟩,
      hinv.registered, hinv.keyed, fun hex v hv => (hinv.kept hex v hv).frame rfl rfl⟩
    exact Remembered.lookup_updated hp ▸ hd
  | setDepinfo content => exact hinv.grow rfl rfl rfl hinv.registered fun _ _ hv => .inl hv
  | setEnv env =>
    refine ⟨hinv.truthful, hinv.registered, hinv.keyed, fun hex v hv => ?_⟩
    have hkept := hinv.kept hex v hv
    exact ⟨hkept.missing, fun e he => (hop hex v hv e he).trans (hkept.env e he)⟩
  | failed run =>
    have hleft : Inv H u root { w with depinfo := w.leftDepinfo run } :=
      hinv.grow rfl rfl rfl hinv.registered fun _ _ hv => .inl hv
    change Inv H u root ({ w with depinfo := w.leftDepinfo run }.maybeStoreRustcErrorArtifact H u
      run)
    unfold maybeStoreRustcErrorArtifact
    split_ifs with hcache
    · rw [Bool.and_eq_true] at hcache
      refine hleft.grow rfl rfl rfl
        (hleft.registered.updateWithEnv fun p hp => isAbsolute_of_mem_scanRustcDeps hcwd hp)
        fun hex v hv => (storedError_of_getD hv).imp_right ?_
      rintro ⟨k, hk, rfl, rfl⟩
      exact ⟨keyedBy_recordRun hleft.truthful hcwd hleft.registered hcache.1 (hop hcache.1) hk,
        kept_recordRun _ u run.depinfo⟩
    · exact hleft
  | succeeded run =>
    have hreg : u.Registered root (w.graph.updateWithEnv H w.hashFile run.keyValue u.key
        (w.scanRustcDeps u run.depinfo).scan run.envDepNames run.now).1 :=
      hinv.registered.updateWithEnv fun p hp => isAbsolute_of_mem_scanRustcDeps hcwd hp
    refine hinv.grow rfl rfl rfl hreg fun hex v hv => (storedError_of_getD hv).imp_right ?_
    -- a successful run brings in no error
    rintro ⟨k, -, -, rfl⟩
    exact absurd rfl hv.2
  | lookup l =>
    exact hinv.grow rfl rfl rfl (registered_hashAndVerify hinv.registered l) fun _ _ hv => .inl hv

instance (w : ErrorWorld D) (r : RunRecord D) : Decidable (w.Current r) :=
  decidable_of_iff ((∀ f ∈ r.files, w.disk f.1 = f.2) ∧ ∀ e ∈ r.env, w.env e.1 = e.2)
    ⟨fun h => ⟨h.1, h.2⟩, fun h => ⟨h.files, h.env⟩⟩

def checkedUnit : RustcUnit Text where
  key := ⟨"key"⟩
  source := .new "/w/m.rs"
  forceIncludes := []
  cwd := components "/w"
  emitTypes := texts ["dep-info", "metadata"]

/-- The unit is registered, its source is there and the variable `A` is set. -/
def checkedWorld : ErrorWorld Text where
  disk := fun p => if p = .new "/w/m.rs" then some "1" else none
  known := ∅
  depinfo := none
  env := fun name => if name = "A" then some "1" else none
  graph := (new.registerRustcWithKeyAndRootResult Host.transparent checkedUnit.key
    (.plain checkedUnit.source "rustc") (some (.new "/w")) [] none 0).1
  artifacts := ∅

/-- A staged run that fails. -/
def failedWith (depinfo : String) : ErrorEvent Text :=
  .failed ⟨1, "error", true, some depinfo.toList, true, none, 1⟩

def succeededWith (depinfo : String) : ErrorEvent Text :=
  .succeeded ⟨some depinfo.toList, ["m.rmeta".toList], [], fun _ => none, none, 0⟩

def plainLookup : Lookup :=
  ⟨fun _ => false, fun _ => none, none, 2⟩

end ErrorWorld

end Zccache
