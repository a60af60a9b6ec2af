import Zccache.Base.Codec
import Zccache.Graph.Persistence

/-! # Saving a snapshot in place of another

The snapshot is written to a file of its own, which then takes the place of the target. As the
target is removed first, a rename that fails or is not reached leaves none.
-/

namespace Zccache

open List Codecs

variable {D : Type} [DecidableEq D]

structure PayloadCodec (D : Type) extends SnapshotCodec D where
  encode : DepGraphSnapshot D → List UInt8
  decode : List UInt8 → Except String (DepGraphSnapshot D)

def depgraphVersion : ℕ :=
  9

def depgraphMagic : List UInt8 :=
  [0x5A, 0x43, 0x44, 0x47]

def fileBytes (payload : List UInt8) : List UInt8 :=
  depgraphMagic ++ (leBytes 4 depgraphVersion ++ (leBytes 8 payload.length ++ payload))

inductive SnapshotError where
  | badMagic
  | versionMismatch (file expected : ℕ)
  | corrupt (reason : String)

def loadFromFile (codec : PayloadCodec D) (zeroHash : D) (now : ℕ) (bytes : List UInt8) :
    Except SnapshotError (DepGraph D) :=
  let version := leValue ((bytes.drop 4).take 4)
  let payloadLen := leValue ((bytes.drop 8).take 8)
  let available := bytes.length - headerSize
  if bytes.length < headerSize then .error (.corrupt "file too small for header")
  else if bytes.take 4 ≠ depgraphMagic then .error .badMagic
  else if version ≠ depgraphVersion then .error (.versionMismatch version depgraphVersion)
  else if available < payloadLen then
    .error (.corrupt s!"truncated: expected {payloadLen} payload bytes, got {available}")
  else
    match codec.decode ((bytes.drop headerSize).take payloadLen) with
    | .error e => .error (.corrupt s!"decode: {e}")
    | .ok snapshot => .ok (loadSnapshot zeroHash now snapshot)

inductive SaveStep where
  | encode
  | createDir
  | create
  | write
  | sync
  | removeTarget
  | rename
  | removeTmp
  deriving DecidableEq

/-- How a step ends. The process may stop before the step is done. -/
inductive Ending where
  | done
  | failed
  | stopped
  deriving DecidableEq

structure SnapshotFiles where
  target : Option (List UInt8)
  tmp : Option (List UInt8)

section Save

variable (ending : SaveStep → Ending) (written : ℕ) (bytes : List UInt8) (files : SnapshotFiles)

/-- A write that is not done leaves some of the bytes. -/
def writeTmp : SnapshotFiles × Ending :=
  match ending .create, ending .write with
  | .done, .done => ({ files with tmp := some bytes }, ending .sync)
  | .done, other => ({ files with tmp := some (bytes.take written) }, other)
  | other, _ => (files, other)

def cleanup : SnapshotFiles :=
  if ending .removeTmp = .done then { files with tmp := none } else files

/-- Whether the target could be removed is not asked. -/
def replaceTarget : SnapshotFiles × Ending :=
  if ending .removeTarget = .stopped then (files, .stopped)
  else
    let files := if ending .removeTarget = .done then { files with target := none } else files
    match ending .rename with
    | .done => (⟨files.tmp, none⟩, .done)
    | .failed => (cleanup ending files, .failed)
    | .stopped => (files, .stopped)

def saveBytes : SnapshotFiles × Ending :=
  match ending .encode, ending .createDir with
  | .done, .done =>
    match writeTmp ending written bytes files with
    | (files, .done) => replaceTarget ending files
    | (files, .failed) => (cleanup ending files, .failed)
    | (files, .stopped) => (files, .stopped)
  | .done, other => (files, other)
  | other, _ => (files, other)

end Save

variable (codec : PayloadCodec D)

def newSnapshot (ttl budgetBytes now : ℕ) (g : DepGraph D) : DepGraphSnapshot D :=
  (fitToBudget codec.toSnapshotCodec budgetBytes now maxEvictionRounds (g.trimAt ttl now).1).2

def saveToFileWith (ttl budgetBytes now : ℕ) (g : DepGraph D) (ending : SaveStep → Ending)
    (written : ℕ) (files : SnapshotFiles) : SnapshotFiles × Ending :=
  saveBytes ending written (fileBytes (codec.encode (newSnapshot codec ttl budgetBytes now g)))
    files

variable {codec} in
theorem loadFromFile_fileBytes {snapshot : DepGraphSnapshot D}
    (hdecode : codec.decode (codec.encode snapshot) = .ok snapshot)
    (hfits : (codec.encode snapshot).length < 256 ^ 8) (zeroHash : D) (now : ℕ) :
    loadFromFile codec zeroHash now (fileBytes (codec.encode snapshot)) =
      .ok (loadSnapshot zeroHash now snapshot) := by
  have hversion : leValue (leBytes 4 depgraphVersion) = depgraphVersion := by decide
  have hlen := leValue_leBytes hfits
  have hdrop : (leBytes 4 depgraphVersion).drop 12 = [] := by decide
  have hshort : ¬ 4 + (8 + (codec.encode snapshot).length) + 1 + 1 + 1 + 1 < 16 := by omega
  have hall : ¬ 4 + (8 + (codec.encode snapshot).length) - 12 < (codec.encode snapshot).length := by
    omega
  simp [loadFromFile, fileBytes, depgraphMagic, drop_append, take_append, headerSize, hversion,
    hlen, hdrop, hshort, hall, hdecode]

theorem saveBytes_target (ending : SaveStep → Ending) (written : ℕ) (bytes : List UInt8)
    (files : SnapshotFiles) :
    (saveBytes ending written bytes files).1.target =
      if [.encode, .createDir, .create, .write, .sync].all (ending · = .done) then
        if ending .removeTarget = .stopped then files.target
        else if ending .rename = .done then some bytes
        else if ending .removeTarget = .done then none else files.target
      else files.target := by
  have hclean : ∀ files, (cleanup ending files).target = files.target := by
    intro files
    unfold cleanup
    split <;> rfl
  unfold saveBytes writeTmp replaceTarget
  cases hencode : ending .encode <;> cases hdir : ending .createDir <;>
    cases hcreate : ending .create <;> cases hwrite : ending .write <;>
    cases hsync : ending .sync <;> simp [hencode, hdir, hcreate, hwrite, hsync, hclean]
  cases hrename : ending .rename <;> cases hremove : ending .removeTarget <;> simp [hclean]

/-- The target keeps its bytes or gets the new snapshot, which can be loaded, exactly unless it was
there, was removed, and the rename is not done. -/
theorem saveToFileWith_atomic_iff (ttl budgetBytes now : ℕ) (g : DepGraph D)
    (ending : SaveStep → Ending) (written : ℕ) (files : SnapshotFiles) :
    ((saveToFileWith codec ttl budgetBytes now g ending written files).1.target ∈
        [files.target, some (fileBytes (codec.encode (newSnapshot codec ttl budgetBytes now g)))] ↔
      ¬ (files.target ≠ none ∧ ending .rename ≠ .done ∧
        [.encode, .createDir, .create, .write, .sync, .removeTarget].all (ending · = .done))) ∧
    ∀ snapshot, codec.decode (codec.encode snapshot) = .ok snapshot →
      (codec.encode snapshot).length < 256 ^ 8 → ∀ zeroHash now',
        loadFromFile codec zeroHash now' (fileBytes (codec.encode snapshot)) =
          .ok (loadSnapshot zeroHash now' snapshot) := by
  refine ⟨?_, fun _ hdecode hfits => loadFromFile_fileBytes hdecode hfits⟩
  rw [saveToFileWith, saveBytes_target]
  split_ifs with hall hstop hrename hremove
  · simp [hstop]
  · simp [hrename]
  · cases htarget : files.target <;> simp_all
  · simp [hremove]
  · simp_all

theorem saveToFileWith_atomic_iff_compiledCrate :
    let saved := (DepGraph.performed Host.transparent
      (DepGraph.compiledCrate DepGraph.sampleExterns)).toSnapshotAt 2
    let codec : PayloadCodec Unix.Text :=
      ⟨⟨fun _ => 1, fun _ => 1⟩, fun _ => [1], fun _ => .ok saved⟩
    loadFromFile codec [] 3 (fileBytes (codec.encode saved)) = .ok (loadSnapshot [] 3 saved) :=
  (saveToFileWith_atomic_iff _ 0 0 0 .new (fun _ => .done) 0 ⟨none, none⟩).2 _ rfl (by decide) _ _

/-- The process stops between the removal and the rename. -/
theorem snapshot_lost :
    (saveToFileWith ⟨⟨fun _ => 1, fun _ => 1⟩, fun _ => [1], fun _ => .error ""⟩ 0 100 0
      (DepGraph.new : DepGraph Unix.Text) (fun step => if step = .rename then .stopped else .done) 0
      ⟨some [2], none⟩).1.target = none := by
  decide

namespace DepGraph

open Run

variable {H : Host D} {g : DepGraph D} {now : ℕ} (zeroHash : D)

/-- The contexts have different keys, and no logical key has too many of them. -/
def Separate (H : Host D) (contexts : List (ContextEntrySnapshot D)) : Prop :=
  (contexts.map (·.key)).Nodup ∧
    ∀ k, (contexts.filter (·.logicalKey = k)).length ≤ H.maxEquivalentContexts

theorem WellIndexed.separate (h : WellIndexed H g) : Separate H (g.toSnapshotAt now).contexts := by
  refine ⟨keys_toSnapshotAt g now ▸ g.contexts.keys_nodup, fun k => ?_⟩
  have hperm := h.indexInv.fromSnapshot_instancesOf k.1 (.refl (g.toSnapshotAt now).contexts) k
  have hbound := h.bounded k
  rw [← hperm.length_eq, fromSnapshot, restore_instancesOf, length_append, length_map] at hbound
  omega

theorem WellIndexed.restored (h : WellIndexed H g) {c : ContextEntrySnapshot D}
    (hnew : g.contexts.lookup c.key = none)
    (hroom : (g.instancesOf c.logicalKey).length + 1 ≤ H.maxEquivalentContexts) :
    WellIndexed H (restoreContext zeroHash g c) := by
  have hpush : WellIndexed H { restoreContext zeroHash g c with rustcExterns := g.rustcExterns } :=
    h.push hnew rfl hroom rfl rfl rfl rfl
  refine { hpush with externs := fun k hk => ?_ }
  by_cases hkey : k = c.key
  · exact hkey ▸ isLive_of_insert (g := g) rfl
  · refine hpush.externs k ?_
    simp only [restoreContext] at hk
    split at hk <;> simpa [AList.lookup_insert_ne hkey] using hk

theorem Separate.restored {cs : List (ContextEntrySnapshot D)} (h : Separate H cs) (files) :
    WellIndexed H (cs.foldl (restoreContext zeroHash) { new with files := files }) := by
  induction cs using List.reverseRecOn with
  | nil => exact .of_empty rfl rfl rfl rfl
  | append_singleton cs c ih =>
    obtain ⟨hkeys, hlimit⟩ := h
    rw [map_append, nodup_append] at hkeys
    simp only [filter_append, length_append] at hlimit
    rw [foldl_append]
    refine (ih ⟨hkeys.1, fun k => by have := hlimit k; omega⟩).restored zeroHash ?_ ?_
    · exact (restore_lookup_of_notMem zeroHash fun hmem => hkeys.2.2 _ hmem _ (by simp) rfl).1
    · rw [restore_instancesOf]
      simpa [instancesOf, new] using hlimit c.logicalKey

theorem Separate.loadSnapshot {snap : DepGraphSnapshot D} (h : Separate H snap.contexts) :
    WellIndexed H (loadSnapshot zeroHash now snap) := by
  have hkept : Separate H (snap.contexts.filter (ContextEntrySnapshot.fresh now)) :=
    ⟨(filter_sublist.map _).nodup h.1, fun k => (filter_sublist.filter _).length_le.trans (h.2 k)⟩
  have hg := hkept.restored zeroHash
  unfold Zccache.loadSnapshot
  dsimp only
  split
  · exact hg _
  · exact (hg _).evictContexts []

theorem WellIndexed.fitToBudget (h : WellIndexed H g) (codec : SnapshotCodec D)
    (budgetBytes rounds : ℕ) : WellIndexed H (fitToBudget codec budgetBytes now rounds g).1 := by
  induction rounds generalizing g with
  | zero => exact h
  | succ rounds ih =>
    rw [Zccache.fitToBudget]
    split
    · exact h
    · exact ih (h.evictContexts _)

/-- The maps of the graph stay in step however often it is trimmed, saved and loaded. -/
theorem wellIndexed_restarts (H : Host D) (ttl budgetBytes : ℕ)
    (lives : List (ℕ × ℕ × List (PublicOp D))) :
    WellIndexed H (run (fun g (savedAt, loadedAt, ops) => run (perform H)
      (loadSnapshot zeroHash loadedAt (newSnapshot codec ttl budgetBytes savedAt g)) ops)
        new lives) := by
  refine run_invariant (WellIndexed.of_empty rfl rfl rfl rfl) ?_ lives
  rintro g ⟨savedAt, loadedAt, ops⟩ hg
  refine run_invariant (Separate.loadSnapshot zeroHash ?_) (fun _ op h => h.perform op) ops
  rw [newSnapshot, fitToBudget_snd]
  exact ((hg.evictContexts _).fitToBudget _ _ _).separate

end DepGraph

end Zccache
