import Zccache.Base.Run
import Zccache.Persist.Verification

/-! # Accepted blobs are good

A call that accepts a blob should have had the stored bytes before it at some
moment. It need not: a mark that comes while a call is about to clear the bit is
lost, what was written while nobody watched is forgotten when the watcher comes
back or the other names go, and a new registration takes the bytes as they are.
Without these a wrong blob that is trusted is one that the watcher still has to
report, or one with a further name while nobody watches.
-/

namespace Zccache

open List Unix FinMap Files Run Option FileSystem

variable {D : Type}

namespace Registry

/-- `r'` trusts no blob that `r` does not trust. -/
def TrustsLess (r' r : Registry D) : Prop :=
  ∀ id record', r'.records.lookup id = some record' →
    ∃ record, r.records.lookup id = some record ∧ record.blobPath = record'.blobPath ∧
      record.expectedHash = record'.expectedHash ∧
      (record'.suspect = false → record.suspect = false)

variable {r : Registry D} {r' : Registry D}

theorem TrustsLess.of_records_eq (h : r'.records = r.records) : r'.TrustsLess r := by
  intro id record' hrec
  rw [h] at hrec
  exact ⟨record', hrec, rfl, rfl, fun h => h⟩

theorem TrustsLess.refl (r : Registry D) : r.TrustsLess r :=
  .of_records_eq rfl

theorem TrustsLess.trans {r'' : Registry D} (h : r''.TrustsLess r') (h' : r'.TrustsLess r) :
    r''.TrustsLess r := by
  intro id record'' hrec
  obtain ⟨record', hrec', hblob', hhash', hsusp'⟩ := h id record'' hrec
  obtain ⟨record, hrec, hblob, hhash, hsusp⟩ := h' id record' hrec'
  exact ⟨record, hrec, hblob.trans hblob', hhash.trans hhash',
    fun h => hsusp (hsusp' h)⟩

variable {f : LinkRecord D → LinkRecord D}

theorem trustsLess_setRecord (r : Registry D) (id : FileIdentity)
    (hf : ∀ record, record.blobPath = (f record).blobPath ∧
      record.expectedHash = (f record).expectedHash ∧
      ((f record).suspect = false → record.suspect = false)) : (r.setRecord id f).TrustsLess r := by
  unfold setRecord
  cases hid : r.records.lookup id with
  | none => exact .refl r
  | some record =>
    intro id' record' hrec
    obtain ⟨rfl, rfl⟩ | ⟨-, hold⟩ := lookup_insert_eq_some.mp hrec
    · exact ⟨record, hid, hf record⟩
    · exact ⟨record', hold, rfl, rfl, fun h => h⟩

theorem trustsLess_markSuspect (r : Registry D) (id : FileIdentity) :
    (r.markSuspect id).TrustsLess r :=
  r.trustsLess_setRecord id fun _ => ⟨rfl, rfl, fun h => nomatch h⟩

theorem trustsLess_cancel (r : Registry D) (id : FileIdentity) (outputPath : NormalizedPath) :
    (r.cancelHardlinkRegistration id outputPath).TrustsLess r := by
  unfold cancelHardlinkRegistration
  split
  · exact .of_records_eq rfl
  · exact .refl r

theorem trustsLess_commit (r : Registry D) (id : FileIdentity) (outputPath : NormalizedPath)
    (actual : Option FileIdentity) :
    (r.commitHardlinkRegistration id outputPath actual).1.TrustsLess r := by
  unfold commitHardlinkRegistration
  cases r.records.lookup id with
  | none => exact r.trustsLess_cancel id outputPath
  | some record =>
    cases actual with
    | none => exact r.trustsLess_cancel id outputPath
    | some actual =>
      dsimp only
      split
      · exact r.trustsLess_setRecord id fun _ => ⟨rfl, rfl, fun h => h⟩
      · exact ((r.markSuspect id).trustsLess_cancel id outputPath).trans
          (r.trustsLess_markSuspect id)

theorem trustsLess_removeRecord (r : Registry D) (id : FileIdentity) :
    (r.removeRecord id).TrustsLess r :=
  fun _ record' hrec => ⟨record', lookup_of_erase hrec, rfl, rfl, fun h => h⟩

theorem trustsLess_detachOutput (r : Registry D) (id : FileIdentity) (path : NormalizedPath) :
    (r.detachOutput id path).1.TrustsLess r := by
  have hset := Registry.trustsLess_setRecord { r with outputIds := r.outputIds.erase path } id
    (f := fun record => { record with outputs := record.outputs.erase path })
    fun _ => ⟨rfl, rfl, fun h => h⟩
  unfold setRecord at hset
  unfold detachOutput
  cases hid : r.records.lookup id with
  | none =>
    simp only [hid]
    exact .of_records_eq rfl
  | some record =>
    simp only [hid] at hset ⊢
    exact hset

theorem trustsLess_markRemoved (r : Registry D) (path : NormalizedPath) :
    (r.markRemovedLinkSuspect path).TrustsLess r := by
  unfold markRemovedLinkSuspect
  split
  · exact .refl r
  · exact trustsLess_setRecord _ _ fun _ => ⟨rfl, rfl, fun h => nomatch h⟩

theorem trustsLess_unregister (r : Registry D) (id : FileIdentity) :
    (r.unregisterBlobId id).TrustsLess r := by
  unfold unregisterBlobId
  split
  · exact .refl r
  · exact r.trustsLess_removeRecord id

theorem trustsLess_sweepOne (r : Registry D) (id : FileIdentity)
    (recorded current : Option StatSignature) :
    (r.sweepOne id recorded current).TrustsLess r := by
  unfold sweepOne
  split
  · exact .refl r
  · refine r.trustsLess_setRecord id fun record => ?_
    split
    · exact ⟨rfl, rfl, fun h => nomatch h⟩
    · exact ⟨rfl, rfl, fun h => h⟩

theorem suspect_setRecord {id : FileIdentity} {record : LinkRecord D}
    (hf : ∀ record, (f record).suspect = true)
    (h : (r.setRecord id f).records.lookup id = some record) : record.suspect = true := by
  unfold setRecord at h
  split at h
  · next hid =>
    rw [hid] at h
    cases h
  · rw [lookup_insert_eq_ite, if_pos rfl] at h
    cases h
    exact hf _

end Registry

namespace VerifyPc

def id : VerifyPc D → Option FileIdentity
  | .identified id | .settled id | .unregistered id | .digestRead id _ | .matched id _ _
  | .held id | .hashing id _ | .confirmed id _ _ => some id
  | .start | .evicting | .unregistering _ => none

def digest : VerifyPc D → Option D
  | .digestRead _ expectedHash | .matched _ expectedHash _ => some expectedHash
  | _ => none

def keeps : VerifyPc D → Bool
  | .evicting | .unregistering _ => false
  | _ => true

def evicts : VerifyPc D → Bool
  | .evicting => true
  | _ => false

end VerifyPc

namespace VerifyWorld

def hashedCall (w : VerifyWorld D) (b : NormalizedPath) : Prop :=
  ∃ e ∈ w.calls.entries, e.2.blobPath = b ∧ e.2.pc.hashed = true
  deriving Decidable

theorem hashedCall_iff {w : VerifyWorld D} {b : NormalizedPath} : w.hashedCall b ↔
    ∃ k c, w.calls.lookup k = some c ∧ c.blobPath = b ∧ c.pc.hashed = true := by
  constructor
  · rintro ⟨⟨k, c⟩, hmem, hblob, hhashed⟩
    exact ⟨k, c, AList.mem_lookup_iff.mpr hmem, hblob, hhashed⟩
  · rintro ⟨k, c, hc, hblob, hhashed⟩
    exact ⟨⟨k, c⟩, AList.mem_lookup_iff.mp hc, hblob, hhashed⟩

section Conditions

variable [DecidableEq D] (H : Hasher D) (stored : NormalizedPath → D)
  (blobs : List NormalizedPath) (w : VerifyWorld D)

/-- The blob has an unsuspected record, or is about to have one. -/
def Trusts (b : NormalizedPath) : Prop :=
  (∃ id ∈ w.disk.identity b, ∃ record ∈ w.registry.records.lookup id, record.suspect = false) ∨
    w.hashedCall b
  deriving Decidable

/-- What is assumed of the events: programs work on delivered names, and every write that the
watcher can see is reported before the next call begins. -/
def Fair : VerifyEvent → Prop
  | .start _ b => b ∈ blobs ∧ w.owed = []
  | .prepare b _ => b ∈ blobs
  | .mark _ => w.watcherAvailable = true
  | .markRemoved _ => w.watcherAvailable = true
  | .link _ path => path ∉ blobs
  | .write path _ => path ∉ blobs
  | .unlink path => path ∉ blobs
  | _ => True

/-- The reports of writes through `path` find the record, and no call is about to clear it. -/
def Reported (path : NormalizedPath) (found : Option FileIdentity) : Prop :=
  ∀ e ∈ w.owed, e.1 = path →
    found = some e.2 ∧ ∀ b ∈ blobs, w.disk.identity b = some e.2 → ¬ w.hashedCall b

/-- A call begins when the blob is there, and a blob is evicted when no other call looks at it. A
blob that gets a new record has the stored bytes, and so has one of which a failed system call is
taken for an answer. Reports find the record and are not cleared. A
trusted blob with wrong bytes is not left with one name while nobody watches, and there is none
when the watcher comes back. -/
def Regular : VerifyEvent → Prop
  | .start _ b => (w.disk.identity b).isSome = true
  | .advance call => ∀ c ∈ w.calls.lookup call, c.pc.evicts = true →
      ∀ e ∈ w.calls.entries, e.2.blobPath = c.blobPath → e.1 = call
  | .fail call => ∀ c ∈ w.calls.lookup call, c.pc.guesses w.watcherAvailable = true →
      w.right H stored c.blobPath = true
  | .prepare b _ => ∀ id ∈ w.disk.identity b,
      (∀ record ∈ w.registry.records.lookup id, record.blobPath ≠ b) → w.right H stored b = true
  | .mark path => w.Reported blobs path (w.disk.identity path)
  | .markRemoved path => w.Reported blobs path (w.registry.outputIds.lookup path)
  | .setWatcher available => ∀ b ∈ blobs, w.Trusts b → w.right H stored b = true ∨
      if available then w.watcherAvailable = true else 1 < hardLinkCount w.disk b
  | .unlink path => w.watcherAvailable = false → ∀ b ∈ blobs, w.Trusts b →
      w.right H stored b = true ∨ 1 < hardLinkCount (w.disk.unlink path) b
  | _ => True

instance (path : NormalizedPath) (found : Option FileIdentity) :
    Decidable (w.Reported blobs path found) :=
  inferInstanceAs (Decidable (∀ e ∈ w.owed, _))

instance : (event : VerifyEvent) → Decidable (w.Fair blobs event)
  | .start _ b => inferInstanceAs (Decidable (b ∈ blobs ∧ w.owed = []))
  | .prepare b _ => inferInstanceAs (Decidable (b ∈ blobs))
  | .mark _ | .markRemoved _ => inferInstanceAs (Decidable (_ = true))
  | .link _ path | .write path _ | .unlink path => inferInstanceAs (Decidable (path ∉ blobs))
  | .advance _ | .fail _ | .commit _ _ | .cancel _ _ | .commitDetach _ _ | .removeDetached _
  | .sweepStart | .sweepNext | .setWatcher _ => isTrue trivial

instance : (event : VerifyEvent) → Decidable (w.Regular H stored blobs event)
  | .start _ _ => inferInstanceAs (Decidable (_ = true))
  | .advance call | .fail call => inferInstanceAs (Decidable (∀ c ∈ w.calls.lookup call, _))
  | .prepare b _ => inferInstanceAs (Decidable (∀ id ∈ w.disk.identity b, _))
  | .mark path => inferInstanceAs (Decidable (w.Reported blobs path _))
  | .markRemoved path => inferInstanceAs (Decidable (w.Reported blobs path _))
  | .setWatcher _ => inferInstanceAs (Decidable (∀ b ∈ blobs, _))
  | .unlink _ => inferInstanceAs (Decidable (_ → ∀ b ∈ blobs, _))
  | .commit _ _ | .cancel _ _ | .commitDetach _ _ | .removeDetached _
  | .sweepStart | .sweepNext | .link _ _ | .write _ _ => isTrue trivial

end Conditions

section Invariant

variable (H : Hasher D) (stored : NormalizedPath → D)
  (blobs : List NormalizedPath)

/-- The watcher still has to report a write to the blob. -/
def Owes (w : VerifyWorld D) (b : NormalizedPath) : Prop :=
  ∃ e ∈ w.owed, w.disk.identity b = some e.2

/-- Nobody watches, and the blob has a further name. -/
def Covered (w : VerifyWorld D) (b : NormalizedPath) : Prop :=
  w.watcherAvailable = false ∧ 1 < hardLinkCount w.disk b

structure CallOk (disk : Disk) (c : VerifyCall D) : Prop where
  blob : c.blobPath ∈ blobs
  present : c.pc.keeps = true → (disk.identity c.blobPath).isSome = true
  id : ∀ id ∈ c.pc.id, disk.identity c.blobPath = some id
  digest : ∀ d ∈ c.pc.digest, d = stored c.blobPath

variable {c : VerifyCall D}

theorem CallOk.evicting {stored : NormalizedPath → D} {blobs : List NormalizedPath} {disk : Disk}
    (h : CallOk stored blobs disk c) : CallOk stored blobs disk { c with pc := .evicting } :=
  ⟨h.blob, nofun, nofun, nofun⟩

variable [DecidableEq D]

def RecordsOk (disk : Disk) (r : Registry D) : Prop :=
  ∀ id record, r.records.lookup id = some record →
    record.expectedHash = stored record.blobPath ∧
      ∀ b ∈ blobs, disk.identity b = some id → record.blobPath = b

structure Inv (w : VerifyWorld D) : Prop where
  inj : ∀ b ∈ blobs, ∀ b' ∈ blobs, ∀ id, w.disk.identity b = some id →
    w.disk.identity b' = some id → b = b'
  records : RecordsOk stored blobs w.disk w.registry
  sidecars : ∀ b d, w.sidecars.lookup b = some d → d = stored b
  call : ∀ k c, w.calls.lookup k = some c → CallOk stored blobs w.disk c
  hashed : ∀ k c, w.calls.lookup k = some c → c.pc.hashed = true → c.good = true
  seen : ∀ k c, w.calls.lookup k = some c → w.right H stored c.blobPath = true → c.good = true
  safe : ∀ b ∈ blobs, w.Trusts b → w.right H stored b = true ∨ w.Owes b ∨ w.Covered b
  callSafe : ∀ k c, w.calls.lookup k = some c → w.Trusts c.blobPath →
    c.good = true ∨ w.Covered c.blobPath
  owed : w.watcherAvailable = false → w.owed = []
  answers : ∀ a ∈ w.answers, a.1 = true → a.2 = true

/-- What an event may do to the registry. -/
structure RegistryOk (w w' : VerifyWorld D) : Prop where
  records : RecordsOk stored blobs w'.disk w'.registry
  trust : ∀ id record, w'.registry.records.lookup id = some record → record.suspect = false →
    ∀ b ∈ blobs, w'.disk.identity b = some id → w.Trusts b ∨ w'.right H stored b = true

/-- What an event may do to the calls: each goes on from where it was, or begins when nothing is
owed. -/
def CallsOk (w w' : VerifyWorld D) : Prop :=
  ∀ k c, w'.calls.lookup k = some c → CallOk stored blobs w'.disk c ∧
    (c.pc.hashed = false ∧ w'.owed = [] ∨ ∃ c₀, w.calls.lookup k = some c₀ ∧
      c₀.blobPath = c.blobPath ∧ c₀.good = c.good ∧
      (c.pc.hashed = true → c₀.pc.hashed = true ∨ w'.right H stored c.blobPath = true))

/-- What one event can do, before the calls take note of it: trust is new only where the bytes
are right. -/
structure Moves (w w' : VerifyWorld D) : Prop where
  identity : ∀ b ∈ blobs, ∀ id, w'.disk.identity b = some id → w.disk.identity b = some id
  registry : RegistryOk H stored blobs w w'
  sidecars : ∀ b d, w'.sidecars.lookup b = some d → w.sidecars.lookup b = some d
  call : CallsOk H stored blobs w w'
  safe : ∀ b ∈ blobs, w'.Trusts b → w.Trusts b →
    w'.right H stored b = true ∨ w'.Owes b ∨ w'.Covered b
  owed : w.watcherAvailable = false ∨ w'.watcherAvailable = false → w'.owed = []
  answers : ∀ a ∈ w'.answers, a ∈ w.answers ∨ (a.1 = true → a.2 = true)

variable {H stored blobs} {w w' : VerifyWorld D} {b : NormalizedPath}

theorem lookup_observe {k : ℕ} (h : (w.observe H stored).calls.lookup k = some c) :
    ∃ c₀, w.calls.lookup k = some c₀ ∧
      c = { c₀ with good := c₀.good || w.right H stored c₀.blobPath } := by
  rw [observe, lookup_map] at h
  obtain ⟨c₀, hc₀, rfl⟩ := map_eq_some_iff.mp h
  exact ⟨c₀, hc₀, rfl⟩

theorem trusts_of_observe (h : (w.observe H stored).Trusts b) : w.Trusts b := by
  rcases h with hrec | hcall
  · exact .inl hrec
  · obtain ⟨k, c, hc, hblob, hhashed⟩ := hashedCall_iff.mp hcall
    obtain ⟨c₀, hc₀, rfl⟩ := lookup_observe hc
    exact .inr (hashedCall_iff.mpr ⟨k, c₀, hc₀, hblob, hhashed⟩)

theorem Moves.trust (hm : Moves H stored blobs w w') (hb : b ∈ blobs) (h : w'.Trusts b) :
    w.Trusts b ∨ w'.right H stored b = true := by
  rcases h with ⟨id, hid, record, hrec, hsusp⟩ | hcall
  · exact hm.registry.trust id record hrec hsusp b hb hid
  · obtain ⟨k, c, hc, rfl, hhashed⟩ := hashedCall_iff.mp hcall
    rcases (hm.call k c hc).2 with ⟨hnot, -⟩ | ⟨c₀, hc₀, hpath, -, hpc⟩
    · rw [hhashed] at hnot
      cases hnot
    · refine (hpc hhashed).imp_left fun hhash₀ => .inr ?_
      exact hashedCall_iff.mpr ⟨k, c₀, hc₀, hpath, hhash₀⟩

theorem Moves.settled (hm : Moves H stored blobs w w') (hb : b ∈ blobs) (h : w'.Trusts b) :
    w'.right H stored b = true ∨ w'.Owes b ∨ w'.Covered b := by
  rcases hm.trust hb h with hold | hright
  · exact hm.safe b hb h hold
  · exact .inl hright

variable (h : w.Inv H stored blobs)

include h

theorem Inv.observe (hm : Moves H stored blobs w w') :
    (w'.observe H stored).Inv H stored blobs where
  inj b hb b' hb' id hid hid' :=
    h.inj b hb b' hb' id (hm.identity b hb id hid) (hm.identity b' hb' id hid')
  records := hm.registry.records
  sidecars b d hd := h.sidecars b d (hm.sidecars b d hd)
  owed hwatch := hm.owed (.inr hwatch)
  answers a ha := (hm.answers a ha).elim (h.answers a) fun hgood => hgood
  safe _ hb htrust := hm.settled hb (trusts_of_observe htrust)
  call k c hc := by
    obtain ⟨c₀, hc₀, rfl⟩ := lookup_observe hc
    obtain ⟨hblob, hpres, hid, hdig⟩ := (hm.call k c₀ hc₀).1
    exact ⟨hblob, hpres, hid, hdig⟩
  hashed k c hc hhashed := by
    obtain ⟨c₀, hc₀, rfl⟩ := lookup_observe hc
    rw [Bool.or_eq_true]
    rcases (hm.call k c₀ hc₀).2 with ⟨hnot, -⟩ | ⟨c₁, hc₁, -, hgood, hpc⟩
    · rw [hhashed] at hnot
      cases hnot
    · rw [← hgood]
      exact (hpc hhashed).imp_left (h.hashed k c₁ hc₁)
  seen k c hc hright := by
    obtain ⟨c₀, -, rfl⟩ := lookup_observe hc
    exact Bool.or_eq_true_iff.mpr (.inr hright)
  callSafe k c hc htrust := by
    obtain ⟨c₀, hc₀, rfl⟩ := lookup_observe hc
    obtain ⟨⟨hblob, -⟩, horigin⟩ := hm.call k c₀ hc₀
    have htrust' : w'.Trusts c₀.blobPath := trusts_of_observe htrust
    rw [Bool.or_eq_true]
    -- Nothing is owed for the blob, so that wrong bytes are covered.
    have hsettled : w'.owed = [] → (c₀.good = true ∨ w'.right H stored c₀.blobPath = true) ∨
        w'.Covered c₀.blobPath := by
      intro howed
      rcases hm.settled hblob htrust' with hright | ⟨e, he, -⟩ | hcov
      · exact .inl (.inr hright)
      · rw [howed] at he
        cases he
      · exact .inr hcov
    rcases horigin with ⟨-, howed⟩ | ⟨c₁, hc₁, hpath, hgood, -⟩
    · exact hsettled howed
    · rcases hm.trust hblob htrust' with hold | hright
      · rcases h.callSafe k c₁ hc₁ (hpath ▸ hold) with hgood₁ | hcov
        · exact .inl (.inl (hgood ▸ hgood₁))
        · exact hsettled (hm.owed (.inl hcov.1))
      · exact .inl (.inr hright)

theorem Inv.registryOk
    (hid : ∀ b ∈ blobs, ∀ id, w'.disk.identity b = some id → w.disk.identity b = some id)
    (hr : w'.registry.TrustsLess w.registry) : RegistryOk H stored blobs w w' := by
  refine ⟨fun id record hrec => ?_, fun id record hrec hsusp b hb hb' => ?_⟩
  · obtain ⟨record₀, hrec₀, hblob, hhash, -⟩ := hr id record hrec
    have hok := h.records id record₀ hrec₀
    rw [hblob, hhash] at hok
    exact ⟨hok.1, fun b hb hb' => hok.2 b hb (hid b hb id hb')⟩
  · obtain ⟨record₀, hrec₀, -, -, hsusp₀⟩ := hr id record hrec
    exact .inl (.inl ⟨id, hid b hb id hb', record₀, hrec₀, hsusp₀ hsusp⟩)

theorem Inv.callsOk (hid : ∀ b ∈ blobs, w'.disk.identity b = w.disk.identity b)
    (hcalls : ∀ k c, w'.calls.lookup k = some c → w.calls.lookup k = some c) :
    CallsOk H stored blobs w w' := by
  intro k c hc
  obtain ⟨hblob, hpres, hpc, hdig⟩ := h.call k c (hcalls k c hc)
  rw [← hid c.blobPath hblob] at hpres hpc
  exact ⟨⟨hblob, hpres, hpc, hdig⟩, .inr ⟨c, hcalls k c hc, rfl, rfl, .inl⟩⟩

end Invariant

section Calls

variable [DecidableEq D] {H : Hasher D} {stored : NormalizedPath → D}
  {blobs : List NormalizedPath} {w w' : VerifyWorld D} {k : ℕ} {c : VerifyCall D}
  {b : NormalizedPath} {r : Registry D} {sidecars : Map NormalizedPath D}

section

variable (h : w.Inv H stored blobs)

include h

/-- The files stay as they are. -/
theorem Inv.moves {calls : Map ℕ (VerifyCall D)} {removals : List FileIdentity}
    {answers : List (Bool × Bool)}
    {sweep : List (FileIdentity × NormalizedPath × Option StatSignature)}
    (hr : RegistryOk H stored blobs w { w with registry := r })
    (hside : ∀ b d, sidecars.lookup b = some d → w.sidecars.lookup b = some d)
    (hcalls : CallsOk H stored blobs w { w with calls := calls })
    (hanswers : ∀ a ∈ answers, a ∈ w.answers ∨ (a.1 = true → a.2 = true)) :
    Moves H stored blobs w { w with
      registry := r
      sidecars := sidecars
      calls := calls
      removals := removals
      sweep := sweep
      answers := answers } where
  identity _ _ _ hid := hid
  registry := ⟨hr.records, hr.trust⟩
  sidecars := hside
  call := hcalls
  safe b hb _ hold := h.safe b hb hold
  owed hwatch := h.owed (or_self_iff.mp hwatch)
  answers := hanswers

theorem Inv.registryOk_less (hr : r.TrustsLess w.registry) :
    RegistryOk H stored blobs w { w with registry := r } :=
  h.registryOk (fun _ _ _ hid => hid) hr

/-- An event that only takes trust away. -/
theorem Inv.moves_registry (hr : r.TrustsLess w.registry) (removals : List FileIdentity)
    (sweep : List (FileIdentity × NormalizedPath × Option StatSignature)) :
    Moves H stored blobs w { w with registry := r, removals := removals, sweep := sweep } :=
  h.moves (h.registryOk_less hr) (fun _ _ hd => hd)
    (h.callsOk (fun _ _ => rfl) fun _ _ hc => hc) fun _ ha => .inl ha

theorem Inv.moves_self : Moves H stored blobs w w :=
  h.moves_registry (.refl _) w.removals w.sweep

theorem Inv.moves_whenUnlocked (id : FileIdentity) (hm : Moves H stored blobs w w') :
    Moves H stored blobs w (w.whenUnlocked id w') := by
  unfold whenUnlocked
  split
  · exact h.moves_self
  · exact hm

theorem Inv.moves_setPc (hc : w.calls.lookup k = some c) {pc : VerifyPc D}
    (hok : CallOk stored blobs w.disk { c with pc := pc })
    (hhashed : pc.hashed = true → w.right H stored c.blobPath = true)
    (hr : r.TrustsLess w.registry) :
    Moves H stored blobs w { w.setPc k c pc with registry := r } := by
  refine h.moves (h.registryOk_less hr) (fun _ _ hd => hd) (fun k' c' hc' => ?_)
    fun _ ha => .inl ha
  obtain ⟨rfl, rfl⟩ | ⟨-, hold⟩ := lookup_insert_eq_some.mp hc'
  · exact ⟨hok, .inr ⟨c, hc, rfl, rfl, fun hpc => .inr (hhashed hpc)⟩⟩
  · exact h.moves_self.call k' c' hold

end

variable {ok : Bool}

theorem Inv.moves_finish (h : w.Inv H stored blobs) (hgood : ok = true → c.good = true)
    (hr : RegistryOk H stored blobs w { w with registry := r })
    (hside : ∀ b d, sidecars.lookup b = some d → w.sidecars.lookup b = some d) :
    Moves H stored blobs w
      { w.finish k c ok with registry := r, sidecars := sidecars } := by
  refine h.moves hr hside (h.callsOk (fun _ _ => rfl) fun _ _ => lookup_of_erase)
    fun a ha => ?_
  rcases mem_cons.mp ha with rfl | hold
  · exact .inr hgood
  · exact .inl hold

theorem Inv.moves_finish_plain (h : w.Inv H stored blobs) (hgood : ok = true → c.good = true) :
    Moves H stored blobs w (w.finish k c ok) :=
  h.moves_finish hgood (h.registryOk_less (.refl _)) fun _ _ hd => hd

variable {id : FileIdentity}

/-- A record with the stored digest, for a blob that is trusted already or has the right
bytes. -/
theorem Inv.registryOk_insert (h : w.Inv H stored blobs) {record : LinkRecord D}
    (hr : r.records = w.registry.records.insert id record)
    (hhash : record.expectedHash = stored record.blobPath)
    (hblob : ∀ b ∈ blobs, w.disk.identity b = some id →
      record.blobPath = b ∧ (w.Trusts b ∨ w.right H stored b = true)) :
    RegistryOk H stored blobs w { w with registry := r } := by
  have hself := h.registryOk_less (.refl _)
  refine ⟨fun id' record' hrec => ?_, fun id' record' hrec hsusp b hb hid => ?_⟩
  · rw [hr] at hrec
    obtain ⟨rfl, rfl⟩ | ⟨-, hold⟩ := lookup_insert_eq_some.mp hrec
    · exact ⟨hhash, fun b hb hid => (hblob b hb hid).1⟩
    · exact hself.records id' record' hold
  · rw [hr] at hrec
    obtain ⟨rfl, rfl⟩ | ⟨-, hold⟩ := lookup_insert_eq_some.mp hrec
    · exact (hblob b hb hid).2
    · exact hself.trust id' record' hold hsusp b hb hid

theorem Inv.registryOk_clear (h : w.Inv H stored blobs) (hc : w.calls.lookup k = some c)
    (hid : w.disk.identity c.blobPath = some id)
    (hhashed : c.pc.hashed = true) (signature : Option StatSignature) :
    RegistryOk H stored blobs w { w with registry := w.registry.setRecord id fun record =>
      { record with suspect := false, statSignature := signature } } := by
  unfold Registry.setRecord
  cases hrec : w.registry.records.lookup id with
  | none => exact h.registryOk_less (.refl _)
  | some record =>
    obtain ⟨hhash, hblob⟩ := h.records id record hrec
    refine h.registryOk_insert rfl hhash fun b hb hid' => ⟨hblob b hb hid', .inl (.inr ?_)⟩
    obtain rfl := h.inj c.blobPath (h.call k c hc).blob b hb id hid hid'
    exact hashedCall_iff.mpr ⟨k, c, hc, rfl, hhashed⟩

theorem right_of_hashFile {actual : D} (hhash : hashFile H w.disk b = some actual)
    (hactual : actual = stored b) : w.right H stored b = true := by
  rw [right, hhash, hactual]
  exact decide_eq_true rfl

theorem right_congr (hid : w'.disk.identity b = w.disk.identity b)
    (hinodes : ∀ id, w.disk.identity b = some id → w'.disk.inodes id = w.disk.inodes id) :
    w'.right H stored b = w.right H stored b := by
  rw [right, right, hashFile, hashFile, FileSystem.read, FileSystem.read, hid]
  cases hb : w.disk.identity b with
  | none => rfl
  | some id => simp only [Option.map_some, hinodes id hb]

variable (h : w.Inv H stored blobs)

include h

theorem Inv.safe_of_same (hb : b ∈ blobs) (htrust : w.Trusts b)
    (hid : w'.disk.identity b = w.disk.identity b)
    (hwatch : w'.watcherAvailable = w.watcherAvailable) (howed : ∀ e ∈ w.owed, e ∈ w'.owed)
    (hinodes : ∀ id, w.disk.identity b = some id → w'.disk.inodes id = w.disk.inodes id)
    (hlinks : ∀ id, w.disk.identity b = some id → w.disk.linkCount id ≤ w'.disk.linkCount id) :
    w'.right H stored b = true ∨ w'.Owes b ∨ w'.Covered b := by
  rcases h.safe b hb htrust with hright | ⟨e, he, hid'⟩ | ⟨hoff, hcount⟩
  · exact .inl ((right_congr hid hinodes).trans hright)
  · exact .inr (.inl ⟨e, howed e he, hid.trans hid'⟩)
  · refine .inr (.inr ⟨hwatch.trans hoff, ?_⟩)
    unfold hardLinkCount at hcount ⊢
    rw [hid]
    cases hb' : w.disk.identity b with
    | none =>
      rw [hb'] at hcount
      cases hcount
    | some id =>
      rw [hb'] at hcount
      exact hcount.trans_le (hlinks id hb')

/-- The blob loses its own name. No other call looks at it, so that nobody trusts it then. -/
theorem Inv.moves_evict (hc : w.calls.lookup k = some c)
    (halone : ∀ k' c', w.calls.lookup k' = some c' → c'.blobPath = c.blobPath → k' = k)
    (id : Option FileIdentity) :
    Moves H stored blobs w
      { w.setPc k c (.unregistering id) with disk := w.disk.unlink c.blobPath } := by
  set w' := { w.setPc k c (.unregistering id) with disk := w.disk.unlink c.blobPath }
  have hident : ∀ b, w'.disk.identity b =
      if b = c.blobPath then none else w.disk.identity b := w.disk.identity_unlink c.blobPath
  have hkept : ∀ b id, w'.disk.identity b = some id →
      b ≠ c.blobPath ∧ w.disk.identity b = some id := by
    intro b id hid
    rw [hident] at hid
    split at hid
    · cases hid
    · next hne => exact ⟨hne, hid⟩
  have hother : ∀ k' c', w'.calls.lookup k' = some c' →
      k' = k ∧ { c with pc := .unregistering id } = c' ∨
        w.calls.lookup k' = some c' ∧ c'.blobPath ≠ c.blobPath := by
    intro k' c' hc'
    refine (lookup_insert_eq_some.mp hc').imp_right fun ⟨hk, hold⟩ => ⟨hold, fun hpath => ?_⟩
    exact hk (halone k' c' hold hpath)
  have hbefore := h.call k c hc
  refine ⟨fun b _ id' hid' => (hkept b id' hid').2,
    h.registryOk (fun b _ id' hid' => (hkept b id' hid').2) (.refl _), fun _ _ hd => hd,
    fun k' c' hc' => ?_, fun b hb htrusts hold => ?_,
    fun hwatch => h.owed (or_self_iff.mp hwatch), fun _ ha => .inl ha⟩
  · rcases hother k' c' hc' with ⟨rfl, rfl⟩ | ⟨hold, hne⟩
    · exact ⟨⟨hbefore.blob, nofun, nofun, nofun⟩, .inr ⟨c, hc, rfl, rfl, nofun⟩⟩
    · obtain ⟨hblob, hpres, hid, hdig⟩ := h.call k' c' hold
      have hsame : w'.disk.identity c'.blobPath = w.disk.identity c'.blobPath := by
        rw [hident, if_neg hne]
      rw [← hsame] at hpres hid
      exact ⟨⟨hblob, hpres, hid, hdig⟩, .inr ⟨c', hold, rfl, rfl, .inl⟩⟩
  · have hne : b ≠ c.blobPath := by
      rintro rfl
      rcases htrusts with ⟨id', hid', -⟩ | hcall
      · exact (hkept _ id' hid').1 rfl
      · obtain ⟨k', c', hc', hpath, hhashed⟩ := hashedCall_iff.mp hcall
        rcases hother k' c' hc' with ⟨-, rfl⟩ | ⟨-, hne⟩
        · cases hhashed
        · exact hne hpath
    -- The name that goes is not one of this inode.
    refine h.safe_of_same hb hold (by rw [hident, if_neg hne]) rfl (fun _ he => he)
      (fun _ _ => rfl) fun id' hid' => (linkCount_unlink_of_ne fun hid'' => ?_).ge
    exact hne (h.inj b hb c.blobPath hbefore.blob id' hid' hid'')

theorem Inv.moves_verifyStep (hc : w.calls.lookup k = some c) (halone : c.pc.evicts = true →
      ∀ k' c', w.calls.lookup k' = some c' → c'.blobPath = c.blobPath → k' = k) :
    Moves H stored blobs w (w.verifyStep H k c) := by
  have hok := h.call k c hc
  have hgood := h.hashed k c hc
  have hsafe := h.callSafe k c hc
  have hevicting : Moves H stored blobs w (w.setPc k c .evicting) :=
    h.moves_setPc hc hok.evicting nofun (.refl _)
  have hfailed : Moves H stored blobs w (w.finish k c false) :=
    h.moves_finish_plain nofun
  -- A call that keeps the blob goes on with what it knows of it.
  have hnext : ∀ pc : VerifyPc D, c.pc.keeps = true → pc.hashed = false →
      (∀ id ∈ pc.id, w.disk.identity c.blobPath = some id) →
      (∀ d ∈ pc.digest, d = stored c.blobPath) → Moves H stored blobs w (w.setPc k c pc) := by
    intro pc hkeeps hhashed hid hdig
    refine h.moves_setPc hc ⟨hok.blob, fun _ => hok.present hkeeps, hid, hdig⟩
      (fun htrue => ?_) (.refl _)
    rw [hhashed] at htrue
    cases htrue
  obtain ⟨b, pc, good⟩ := c
  cases pc with
  | start =>
    obtain ⟨id, hid⟩ := isSome_iff_exists.mp (hok.present rfl)
    simp only [verifyStep, hid]
    refine hnext (.identified id) rfl rfl ?_ nofun
    rintro _ ⟨⟩
    exact hid
  | identified id =>
    have hsettled := hnext (.settled id) rfl rfl hok.id nofun
    unfold verifyStep
    dsimp only
    split
    · split
      · exact hsettled
      · exact h.moves_whenUnlocked id (h.moves_setPc hc ⟨hok.blob, hok.present, hok.id, nofun⟩
          nofun (w.registry.trustsLess_removeRecord id))
    · exact hsettled
  | settled id =>
    unfold verifyStep
    dsimp only
    split
    · exact hnext (.held id) rfl rfl hok.id nofun
    · exact hnext (.unregistered id) rfl rfl hok.id nofun
  | unregistered id =>
    unfold verifyStep
    dsimp only
    split
    · next expectedHash hsidecar =>
      refine hnext (.digestRead id expectedHash) rfl rfl hok.id ?_
      rintro _ ⟨⟩
      exact h.sidecars b expectedHash hsidecar
    · exact hevicting
  | digestRead id expectedHash =>
    unfold verifyStep
    dsimp only
    split
    · exact hfailed
    · next actual hhash =>
      split
      · next hactual =>
        exact h.moves_setPc hc ⟨hok.blob, hok.present, hok.id, hok.digest⟩
          (fun _ => right_of_hashFile hhash (hactual.trans (hok.digest expectedHash rfl))) (.refl _)
      · exact hevicting
  | matched id expectedHash signature =>
    have hdig : expectedHash = stored b := hok.digest expectedHash rfl
    subst hdig
    refine h.moves_whenUnlocked id (h.moves_finish (fun _ => hgood rfl) ?_ fun _ _ hd => hd)
    refine h.registryOk_insert rfl rfl fun b' hb' hid' => ?_
    obtain rfl := h.inj b hok.blob b' hb' id (hok.id id rfl) hid'
    exact ⟨rfl, .inl (.inr (hashedCall_iff.mpr ⟨k, _, hc, rfl, rfl⟩))⟩
  | held id =>
    have hid := hok.id id rfl
    unfold verifyStep
    dsimp only
    split
    · exact hfailed
    · next record hrec =>
      split
      · next htrusted =>
        rw [Bool.and_eq_true, Bool.or_eq_true, Bool.not_eq_true'] at htrusted
        refine h.moves_finish_plain fun _ => ?_
        rcases hsafe (.inl ⟨id, hid, record, hrec, htrusted.1⟩) with hgood' | ⟨hwatch, hlinks⟩
        · exact hgood'
        · rcases htrusted.2 with hwatch' | hlinks'
          · rw [hwatch] at hwatch'
            cases hwatch'
          · exact absurd (of_decide_eq_true hlinks') hlinks.not_ge
      · exact hnext (.hashing id _) rfl rfl hok.id nofun
  | hashing id signature =>
    have hid := hok.id id rfl
    unfold verifyStep
    dsimp only
    split
    · next record actual hrec hhash =>
      obtain ⟨hexp, hblob⟩ := h.records id record hrec
      split
      · next hactual =>
        refine h.moves_setPc hc ⟨hok.blob, hok.present, hok.id, nofun⟩
          (fun _ => right_of_hashFile hhash ?_) (.refl _)
        rw [hactual, hexp, hblob b hok.blob hid]
      · exact hevicting
    · exact hfailed
  | confirmed id signature remove =>
    refine h.moves_whenUnlocked id (h.moves_finish (fun _ => hgood rfl) ?_ fun _ _ hd => hd)
    split
    · exact h.registryOk_less (w.registry.trustsLess_removeRecord id)
    · exact h.registryOk_clear hc (hok.id id rfl) rfl signature
  | evicting =>
    unfold verifyStep
    dsimp only
    split
    · exact hfailed
    · exact h.moves_evict hc (halone rfl) _
  | unregistering id =>
    have hside : ∀ b' d, (w.sidecars.erase b).lookup b' = some d →
        w.sidecars.lookup b' = some d := fun _ _ hd => lookup_of_erase hd
    cases id with
    | none =>
      exact h.moves_finish nofun (h.registryOk_less (.refl _)) hside
    | some id =>
      exact h.moves_whenUnlocked id (h.moves_finish nofun
        (h.registryOk_less (w.registry.trustsLess_unregister id)) hside)

theorem Inv.moves_failStep (hc : w.calls.lookup k = some c)
    (hright : c.pc.guesses w.watcherAvailable = true → w.right H stored c.blobPath = true) :
    Moves H stored blobs w (w.failStep k c) := by
  have hok := h.call k c hc
  have hseen := h.seen k c hc
  have hsafe := h.callSafe k c hc
  have hfailed : Moves H stored blobs w (w.finish k c false) :=
    h.moves_finish_plain nofun
  obtain ⟨b, pc, good⟩ := c
  cases pc with
  | start => exact h.moves_finish_plain fun _ => hseen (hright rfl)
  | held id =>
    have hid := hok.id id rfl
    unfold failStep
    dsimp only
    split
    · exact hfailed
    · next record hrec =>
      split
      · exact h.moves_setPc hc ⟨hok.blob, hok.present, hok.id, nofun⟩ nofun (.refl _)
      · next htrusted =>
        refine h.moves_finish_plain fun _ => ?_
        rcases hsafe (.inl ⟨id, hid, record, hrec, Bool.not_eq_true _ ▸ htrusted⟩) with
          hgood | ⟨hwatch, -⟩
        · exact hgood
        · exact hseen (hright (by rw [VerifyPc.guesses, hwatch, Bool.not_false]))
  | unregistered id => exact hfailed
  | digestRead id expectedHash => exact hfailed
  | hashing id signature => exact hfailed
  | evicting => exact hfailed
  | identified id => exact h.moves_self
  | settled id => exact h.moves_self
  | matched id expectedHash signature => exact h.moves_self
  | confirmed id signature remove => exact h.moves_self
  | unregistering id =>
    cases id with
    | none => exact hfailed
    | some id =>
      exact h.moves_whenUnlocked id (h.moves_finish nofun
        (h.registryOk_less (w.registry.trustsLess_unregister id)) fun _ _ hd => hd)

end Calls

section Events

variable [DecidableEq D] {H : Hasher D} {stored : NormalizedPath → D}
  {blobs : List NormalizedPath} {w w' : VerifyWorld D}

variable {r : Registry D}

theorem Inv.moves_files (h : w.Inv H stored blobs) {disk : Disk}
    {watcherAvailable : Bool} {owed : List (NormalizedPath × FileIdentity)}
    (hid : ∀ b ∈ blobs, disk.identity b = w.disk.identity b) (hr : r.TrustsLess w.registry)
    (hw' : w' = { w with
      disk := disk
      registry := r
      watcherAvailable := watcherAvailable
      owed := owed })
    (howed : w.watcherAvailable = false ∨ watcherAvailable = false → owed = [])
    (hsafe : ∀ b ∈ blobs, w'.Trusts b → w.Trusts b →
      w'.right H stored b = true ∨ w'.Owes b ∨ w'.Covered b) :
    Moves H stored blobs w w' := by
  subst hw'
  have hkept : ∀ b ∈ blobs, ∀ id, disk.identity b = some id → w.disk.identity b = some id :=
    fun b hb id hb' => (hid b hb).symm.trans hb'
  exact ⟨hkept, h.registryOk hkept hr, fun _ _ hd => hd, h.callsOk hid fun _ _ hc => hc, hsafe,
    howed, fun _ ha => .inl ha⟩

variable {b : NormalizedPath}

theorem Inv.moves_start (h : w.Inv H stored blobs) {k : ℕ} (hb : b ∈ blobs) (howed : w.owed = [])
    (hpres : (w.disk.identity b).isSome = true) :
    Moves H stored blobs w { w with calls := w.calls.insert k ⟨b, .start, false⟩ } := by
  refine h.moves (h.registryOk_less (.refl _)) (fun _ _ hd => hd) (fun k' c hc => ?_)
    fun _ ha => .inl ha
  obtain ⟨-, rfl⟩ | ⟨-, hold⟩ := lookup_insert_eq_some.mp hc
  · exact ⟨⟨hb, fun _ => hpres, nofun, nofun⟩, .inl ⟨rfl, howed⟩⟩
  · exact h.moves_self.call k' c hold

theorem Inv.moves_prepare (h : w.Inv H stored blobs) {outputPath : NormalizedPath} (hb : b ∈ blobs)
    (hreg : ∀ id ∈ w.disk.identity b,
      (∀ record ∈ w.registry.records.lookup id, record.blobPath ≠ b) →
        w.right H stored b = true) : Moves H stored blobs w (w.prepare H b outputPath) := by
  unfold prepare
  cases hid : w.disk.identity b with
  | none => exact h.moves_self
  | some id =>
    refine h.moves_whenUnlocked id (h.moves ?_ (fun _ _ hd => hd)
      (h.callsOk (fun _ _ => rfl) fun _ _ hc => hc) fun _ ha => .inl ha)
    rcases w.registry.records_prepare b outputPath id (statSignature w.disk b)
      (hashFile H w.disk b) with hsame | ⟨expectedHash, hhash, hother, hrecs⟩
    · exact h.registryOk_less (.of_records_eq hsame)
    · -- A new record is made from bytes that are right.
      have hright := hreg id hid hother
      obtain rfl : expectedHash = stored b :=
        some.inj (hhash.symm.trans (of_decide_eq_true hright))
      refine h.registryOk_insert hrecs rfl fun b' hb' hid' => ?_
      obtain rfl := h.inj b hb b' hb' id hid hid'
      exact ⟨rfl, .inr hright⟩

variable {path : NormalizedPath}

variable (h : w.Inv H stored blobs)

include h

theorem Inv.moves_reported {found : Option FileIdentity} (hwatch : w.watcherAvailable = true)
    (hrep : w.Reported blobs path found)
    (hless : r.TrustsLess w.registry)
    (hsusp : ∀ id ∈ found, ∀ record, r.records.lookup id = some record →
      record.suspect = true) : Moves H stored blobs w { w.settle path with registry := r } := by
  refine h.moves_files (fun _ _ => rfl) hless rfl ?_ fun b hb htrust hold => ?_
  · intro hoff
    have hoff' := or_self_iff.mp hoff
    rw [hwatch] at hoff'
    cases hoff'
  · rcases h.safe b hb hold with hright | ⟨e, he, hid⟩ | hcov
    · exact .inl hright
    · by_cases hpath : e.1 = path
      · obtain ⟨rfl, hcleared⟩ := hrep e he hpath
        rcases htrust with ⟨id, hid', record, hrec, hfalse⟩ | hcall
        · have hsame : id = e.2 := some.inj (hid'.symm.trans hid)
          rw [hsusp e.2 rfl record (hsame ▸ hrec)] at hfalse
          cases hfalse
        · exact absurd hcall (hcleared b hb hid)
      · exact .inr (.inl ⟨e, mem_filter.mpr ⟨he, decide_eq_true hpath⟩, hid⟩)
    · rw [hcov.1] at hwatch
      cases hwatch

theorem Inv.moves_setWatcher {available : Bool}
    (hreg : ∀ b ∈ blobs, w.Trusts b → w.right H stored b = true ∨
      if available then w.watcherAvailable = true else 1 < hardLinkCount w.disk b) :
    Moves H stored blobs w
      { w with watcherAvailable := available, owed := if available then w.owed else [] } := by
  refine h.moves_files (fun _ _ => rfl) (.refl _) rfl ?_ fun b hb _ hold => ?_
  · rintro (hoff | hoff)
    · rw [h.owed hoff, ite_self]
    · subst hoff
      rfl
  · rcases hreg b hb hold with hright | hcov
    · exact .inl hright
    · cases available with
      | false => exact .inr (.inr ⟨rfl, hcov⟩)
      | true =>
        rcases h.safe b hb hold with hright | howes | ⟨hoff, -⟩
        · exact .inl hright
        · exact .inr (.inl howes)
        · rw [show w.watcherAvailable = true from hcov] at hoff
          cases hoff

theorem Inv.moves_link {p : NormalizedPath} (hpath : path ∉ blobs) :
    Moves H stored blobs w { w with disk := w.disk.link p path } := by
  have hid : ∀ b ∈ blobs, (w.disk.link p path).identity b = w.disk.identity b := by
    intro b hb
    rw [identity_link, if_neg]
    rintro ⟨rfl, -⟩
    exact hpath hb
  refine h.moves_files hid (.refl _) rfl (fun hoff => h.owed (or_self_iff.mp hoff))
    fun b hb _ hold => ?_
  exact h.safe_of_same hb hold (hid b hb) rfl (fun _ he => he)
    (fun id _ => congrFun (w.disk.inodes_link p path) id)
    fun id _ => w.disk.linkCount_le_link p path id

theorem Inv.moves_write {inode : Inode} (hpath : path ∉ blobs) :
    Moves H stored blobs w (w.write path inode) := by
  have hid : ∀ b, (w.write path inode).disk.identity b = w.disk.identity b :=
    w.disk.identity_modify path _
  have howed : w.watcherAvailable = false → (w.write path inode).owed = w.owed := by
    intro hoff
    simp only [write, hoff]
    split <;> rfl
  refine h.moves_files (fun b _ => hid b) (.refl _) rfl (fun hoff => ?_) fun b hb _ hold => ?_
  · have hoff' := or_self_iff.mp hoff
    exact (howed hoff').trans (h.owed hoff')
  · by_cases hwritten : ∃ id, w.disk.identity b = some id ∧ w.disk.identity path = some id
    · -- The blob was written: the watcher reports it, or there are two names.
      obtain ⟨id, hb', hwritten⟩ := hwritten
      cases hwatch : w.watcherAvailable with
      | true =>
        refine .inr (.inl ⟨(path, id), ?_, (hid b).trans hb'⟩)
        simp only [write, hwritten, hwatch]
        exact mem_cons_self
      | false =>
        refine .inr (.inr ⟨hwatch, ?_⟩)
        rw [hardLinkCount, hid b, hb']
        refine one_lt_linkCount ((hid b).trans hb') ((hid path).trans hwritten) ?_
        rintro rfl
        exact hpath hb
    · refine h.safe_of_same hb hold (hid b) rfl (fun e he => ?_) (fun id hid' => ?_)
        fun id _ => (linkCount_congr hid id).ge
      · unfold write
        split
        · exact he
        · split
          · exact mem_cons_of_mem _ he
          · exact he
      · exact inodes_modify_of_ne _ fun hpath' => hwritten ⟨id, hid', hpath'⟩

theorem Inv.moves_unlink (hpath : path ∉ blobs)
    (hreg : w.watcherAvailable = false → ∀ b ∈ blobs, w.Trusts b →
      w.right H stored b = true ∨ 1 < hardLinkCount (w.disk.unlink path) b) :
    Moves H stored blobs w { w with disk := w.disk.unlink path } := by
  have hid : ∀ b ∈ blobs, (w.disk.unlink path).identity b = w.disk.identity b := by
    intro b hb
    rw [identity_unlink, if_neg]
    rintro rfl
    exact hpath hb
  refine h.moves_files hid (.refl _) rfl (fun hoff => h.owed (or_self_iff.mp hoff))
    fun b hb _ hold => ?_
  have hright : ({ w with disk := w.disk.unlink path } : VerifyWorld D).right H stored b =
      w.right H stored b := right_congr (hid b hb) fun _ _ => rfl
  rcases h.safe b hb hold with hright' | ⟨e, he, hid'⟩ | ⟨hoff, -⟩
  · exact .inl (hright.trans hright')
  · exact .inr (.inl ⟨e, he, (hid b hb).trans hid'⟩)
  · rcases hreg hoff b hb hold with hright' | hlinks
    · exact .inl (hright.trans hright')
    · exact .inr (.inr ⟨hoff, hlinks⟩)

theorem Inv.moves_act (event : VerifyEvent) (hfair : w.Fair blobs event)
    (hreg : w.Regular H stored blobs event) :
    Moves H stored blobs w (w.act H event) := by
  cases event with
  | start k b =>
    unfold act
    dsimp only
    split
    · exact h.moves_self
    · exact h.moves_start hfair.1 hfair.2 hreg
  | advance k =>
    unfold act
    dsimp only
    split
    · exact h.moves_self
    · next c hc =>
      refine h.moves_verifyStep hc fun hevicts k' c' hc' hpath => ?_
      exact hreg c hc hevicts ⟨k', c'⟩ (AList.mem_lookup_iff.mp hc') hpath
  | fail k =>
    unfold act
    dsimp only
    split
    · exact h.moves_self
    · next c hc => exact h.moves_failStep hc (hreg c hc)
  | prepare b outputPath => exact h.moves_prepare hfair hreg
  | commit id outputPath =>
    exact h.moves_whenUnlocked id
      (h.moves_registry (w.registry.trustsLess_commit id outputPath _) _ _)
  | cancel id outputPath =>
    exact h.moves_registry (w.registry.trustsLess_cancel id outputPath) _ _
  | commitDetach id path =>
    exact h.moves_whenUnlocked id
      (h.moves_registry (w.registry.trustsLess_detachOutput id path) _ _)
  | removeDetached id =>
    unfold act
    dsimp only
    split
    · exact h.moves_whenUnlocked id
        (h.moves_registry (w.registry.trustsLess_removeRecord id) _ _)
    · exact h.moves_self
  | mark path =>
    unfold act mark
    dsimp only
    cases hid : w.disk.identity path with
    | none =>
      refine h.moves_reported hfair hreg (.refl _) fun id hfound => ?_
      rw [hid] at hfound
      cases hfound
    | some id =>
      refine h.moves_whenUnlocked id (h.moves_reported hfair hreg
        (w.registry.trustsLess_markSuspect id) fun id' hfound record hrec => ?_)
      rw [hid] at hfound
      cases hfound
      exact Registry.suspect_setRecord (fun _ => rfl) hrec
  | markRemoved path =>
    unfold act markRemoved
    dsimp only
    cases hid : w.registry.outputIds.lookup path with
    | none =>
      refine h.moves_reported hfair hreg (.refl _) fun id hfound => ?_
      rw [hid] at hfound
      cases hfound
    | some id =>
      refine h.moves_whenUnlocked id (h.moves_reported hfair hreg
        (w.registry.trustsLess_markRemoved path) fun id' hfound record hrec => ?_)
      simp only [Registry.markRemovedLinkSuspect, hid] at hrec
      rw [hid] at hfound
      cases hfound
      exact Registry.suspect_setRecord (fun _ => rfl) hrec
  | sweepStart => exact h.moves_registry (.refl _) _ _
  | sweepNext =>
    unfold act sweepNext
    dsimp only
    split
    · exact h.moves_self
    · next id blobPath recorded rest _ =>
      exact h.moves_whenUnlocked id
        (h.moves_registry (w.registry.trustsLess_sweepOne id recorded _) _ _)
  | setWatcher available => exact h.moves_setWatcher hreg
  | link b outputPath => exact h.moves_link hfair
  | write path inode => exact h.moves_write hfair
  | unlink path => exact h.moves_unlink hfair hreg

theorem Inv.step (event : VerifyEvent)
    (hevent : w.Fair blobs event ∧ w.Regular H stored blobs event) :
    (w.step H stored event).Inv H stored blobs :=
  h.observe (h.moves_act event hevent.1 hevent.2)

end Events

section Results

variable [DecidableEq D]

/-- A process that has just begun: nothing is registered, the blobs are files of their own, and
the digests that were stored with them are there or not. -/
structure Fresh (stored : NormalizedPath → D) (blobs : List NormalizedPath)
    (w : VerifyWorld D) : Prop where
  inj : ∀ b ∈ blobs, ∀ b' ∈ blobs, ∀ id, w.disk.identity b = some id →
    w.disk.identity b' = some id → b = b'
  sidecars : ∀ b d, w.sidecars.lookup b = some d → d = stored b
  records : w.registry.records = ∅
  calls : w.calls = ∅
  owed : w.owed = []
  answers : w.answers = []

theorem Fresh.inv {H : Hasher D} {stored : NormalizedPath → D} {blobs : List NormalizedPath}
    {w : VerifyWorld D} (h : w.Fresh stored blobs) : w.Inv H stored blobs := by
  have hno : ∀ b, ¬ w.Trusts b := by
    rintro b (⟨id, -, record, hrec, -⟩ | ⟨e, he, -⟩)
    · rw [h.records] at hrec
      cases hrec
    · rw [h.calls] at he
      cases he
  have hcalls : ∀ k c, w.calls.lookup k ≠ some c := by
    intro k c hc
    rw [h.calls] at hc
    cases hc
  refine ⟨h.inj, fun id record hrec => ?_, h.sidecars, fun k c hc => absurd hc (hcalls k c),
    fun k c hc => absurd hc (hcalls k c), fun k c hc => absurd hc (hcalls k c),
    fun b _ htrust => absurd htrust (hno b),
    fun k c hc => absurd hc (hcalls k c), fun _ => h.owed, fun a ha => ?_⟩
  · rw [h.records] at hrec
    cases hrec
  · rw [h.answers] at ha
    cases ha

/-- In every interleaving that meets the conditions, a blob that is accepted had the stored bytes
at some moment of the call. -/
theorem accepted_blob_good (H : Hasher D) (stored : NormalizedPath → D)
    (blobs : List NormalizedPath) (w : VerifyWorld D) (hfresh : w.Fresh stored blobs)
    (events : List VerifyEvent)
    (hevents : Along (step H · stored) (fun w event => w.Fair blobs event ∧
      w.Regular H stored blobs event) w events) :
    ∀ answer ∈ (run (step H · stored) w events).answers, answer.1 = true → answer.2 = true :=
  (run_invariant_along hfresh.inv (fun _ event h hevent => h.step event hevent) hevents).answers

end Results

private def blob : NormalizedPath := .new "/c/b"

private def output : NormalizedPath := .new "/w/a.o"

private def other : NormalizedPath := .new "/w/b.o"

private def storedBytes : Text := "s"

private def sampleStored (_ : NormalizedPath) : Text :=
  Hasher.transparent.hashText storedBytes

private def oneBlob : VerifyWorld Text where
  disk := (empty ⟨[], 0⟩).create blob ⟨storedBytes, 0⟩
  registry := .empty
  sidecars := AList.insert blob (sampleStored blob) ∅
  watcherAvailable := true
  calls := ∅
  removals := []
  sweep := []
  owed := []
  answers := []

private def spoil (path : NormalizedPath) : VerifyEvent :=
  .write path ⟨"x", 1⟩

private def deliver : List VerifyEvent :=
  [.prepare blob output, .link blob output, .commit 0 output]

private def verify (call steps : ℕ) : List VerifyEvent :=
  .start call blob :: List.replicate steps (.advance call)

private def spoiledRuns : List (List VerifyEvent) :=
  -- The output is spoiled and deleted while nobody watches.
  [deliver ++ [.setWatcher false, spoil output, .unlink output] ++ verify 0 4,
    -- The watcher comes back afterwards.
    deliver ++ [.setWatcher false, spoil output, .setWatcher true] ++ verify 0 4,
    -- The report comes after the bytes were hashed and before the bit is cleared.
    deliver ++ [.write output ⟨storedBytes, 1⟩, .mark output] ++ verify 0 5 ++
      [spoil output, .mark output, .advance 0] ++ verify 1 4,
    -- The blob is registered again after its record was removed.
    deliver ++ [.link blob other, .unlink output, .commitDetach 0 output, .removeDetached 0,
      spoil other, .mark other, .prepare blob output] ++ verify 0 4,
    -- The blob was evicted.
    deliver ++ [spoil output, .mark output] ++ verify 0 7 ++ verify 1 1,
    -- The identity of the spoiled blob cannot be read.
    deliver ++ [spoil output, .mark output] ++ verify 0 0 ++ [.fail 0],
    -- The names of the spoiled blob cannot be counted.
    deliver ++ [.setWatcher false, spoil output] ++ verify 0 3 ++ [.fail 0]]

/-- In each of these interleavings a blob is accepted that never had the stored bytes during the
call, although every write that the watcher saw was reported. -/
theorem spoiled_blob_accepted : spoiledRuns.Forall fun events =>
    Along (step Hasher.transparent · sampleStored) (fun w event => w.Fair [blob] event) oneBlob
      events ∧
    ∃ answer ∈ (run (step Hasher.transparent · sampleStored) oneBlob events).answers,
      answer.1 = true ∧ answer.2 = false := by
  decide +kernel

private theorem fresh_oneBlob : oneBlob.Fresh sampleStored [blob] := by
  refine ⟨fun b hb b' hb' _ _ _ => ?_, fun b d hd => ?_, rfl, rfl, rfl, rfl⟩
  · rw [mem_singleton.mp hb, mem_singleton.mp hb']
  · obtain ⟨-, rfl⟩ | ⟨-, hnone⟩ := lookup_insert_eq_some.mp hd
    · rfl
    · cases hnone

/-- An output that is touched while nobody watches, and spoiled later. -/
private def sampleRun : List VerifyEvent :=
  deliver ++ [.setWatcher false, .write output ⟨storedBytes, 1⟩] ++ verify 0 6 ++
    [.setWatcher true, spoil output, .sweepStart, .sweepNext, .mark output] ++ verify 1 7

theorem accepted_blob_good_sampleRun :
    (run (step Hasher.transparent · sampleStored) oneBlob sampleRun).answers =
      [(false, false), (true, true)] ∧
    ∀ answer ∈ (run (step Hasher.transparent · sampleStored) oneBlob sampleRun).answers,
      answer.1 = true → answer.2 = true :=
  ⟨by decide +kernel, accepted_blob_good Hasher.transparent sampleStored [blob] oneBlob
    fresh_oneBlob sampleRun (by decide +kernel)⟩

end VerifyWorld

end Zccache
