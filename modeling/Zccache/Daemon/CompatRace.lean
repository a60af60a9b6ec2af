import Zccache.Daemon.FastHitRace
import Zccache.Graph.Compat

/-! # Edits against the compatibility alias

The alias serves the stored key of its candidate. The request asks whether the
candidate's files changed since the request began, not since the key was stored,
and never asks about the candidate's externs. A file that changed is compared by
the digest that the metadata cache gives for it.
-/

namespace Zccache

open Unix FinMap Option ContextEntry DepGraph

variable {D : Type}

namespace World

/-- A dependency was hashed as the file that it is. -/
def HashedAs (w : World D) (path : NormalizedPath) (h : DependencyHash D) : Prop :=
  h.header = none ∧ w.disk path = some h.own

/-- The request can tell when a file has not the recorded content. -/
structure Seen (w : World D) (r : Request D) (x : NormalizedPath × D) : Prop where
  settled : w.Settled r.snapClock x
  hashed : w.disk x.1 = some x.2 ∨ ∀ h ∈ r.hashes.lookup x.1, w.HashedAs x.1 h

/-- Before the request begins a recorded hash is that of the content. -/
def Known (w : World D) (id : ℕ) (x : NormalizedPath × D) : Prop :=
  match w.requests.lookup id with
  | none => w.disk x.1 = some x.2
  | some r => w.Seen r x

variable [DecidableEq D]

/-- The compatibility check of a request. What it has not hashed before it hashes now. -/
def checkCompat (H : Host D) (w : World D) (r : Request D) (compatKey : ContextKey D)
    (currentExterns : Externs) (envValue : Name → Option Text) :
    CacheVerdict D × Text × Option (ContextKey D) :=
  (w.graph.checkRustcMetadataCompatDiagnosticWithEnv H
    (fun p => journalProvesFresh w.journal p r.snapClock)
    (fun p => (r.getHash H.toHasher p).or (w.hashFile p)) envValue compatKey currentExterns).2

variable (H : Host D) (id : ℕ) (c : ContextKey D)

/-- An update stores a key, and no check moves the key while the request is open. -/
def WritesInTime (w : World D) : OpResult D → Prop
  | .updated k => k ≠ none
  | .verdict (.sourceChanged _) => w.requests.lookup id = none
  | _ => True

/-- The operation gives the candidate no other externs, does not bring it back, and takes
current hashes for its key. -/
def KeepsCandidate (w : World D) (op : GraphOp D) : Prop :=
  (∀ externs ∈ (w.graph.step H op).rustcExterns.lookup c,
    w.graph.rustcExterns.lookup c = some externs) ∧
  (((w.graph.step H op).contexts.lookup c).isSome → (w.graph.contexts.lookup c).isSome) ∧
  ∀ o ∈ op.oracle, w.graph.resolveInstanceKey o.1 = some c →
    (∀ p ∈ (w.graph.step H op).keyedFiles c, o.2 p = none ∨ o.2 p = w.disk p) ∧
    w.WritesInTime id (w.graph.apply H op).2

/-- The candidate's externs are not edited. Its other files are edited only while the request
is open and has not hashed them, and the request is given the digests of the contents. -/
def KeepsFiles (w : World D) : Event D → Prop
  | .hashFile id' path header =>
    id' = id → header = none ∧ w.known.Truthful path (w.disk path)
  | .edit path _ _ =>
    path ∉ ((w.graph.rustcExterns.lookup c).getD []).map Prod.snd ∧
      (path ∈ ((w.graph.contexts.lookup c).map inputFiles).getD [] →
        (w.requests.lookup id).any (fun r => (r.hashes.lookup path).isNone) = true)
  | _ => True

/-- An event that neither restarts the request nor ages the candidate's key. -/
structure Keeps (w : World D) (event : Event D) : Prop where
  request : ∀ r ∈ w.requests.lookup id,
    ((w.step H event).requests.lookup id).map Request.snapClock = some r.snapClock
  candidate : ∀ op ∈ w.graphOp H event, w.KeepsCandidate H id c op
  files : w.KeepsFiles id c event

instance (w : World D) : (result : OpResult D) → Decidable (w.WritesInTime id result)
  | .updated k => inferInstanceAs (Decidable (k ≠ none))
  | .verdict (.sourceChanged _) => inferInstanceAs (Decidable (w.requests.lookup id = none))
  | .verdict (.hit _) | .verdict (.headersChanged _) | .verdict .cold
  | .verdict .needsPreprocessor | .fastHit _ | .done => isTrue trivial

instance (w : World D) (op : GraphOp D) : Decidable (w.KeepsCandidate H id c op) :=
  inferInstanceAs (Decidable (_ ∧ _ ∧ _))

instance (w : World D) : (event : Event D) → Decidable (w.KeepsFiles id c event)
  | .hashFile id' _ _ => inferInstanceAs (Decidable (id' = id → _))
  | .edit .. => inferInstanceAs (Decidable (_ ∧ _))
  | .remember .. | .journal _ | .graph _ | .evictFastHit _ | .start .. | .readClock _
  | .compilerRead .. | .compilerDone _ | .check .. | .update .. | .matchInputs .. | .publish _ =>
    isTrue trivial

instance (w : World D) (event : Event D) : Decidable (w.Keeps H id c event) :=
  decidable_of_iff
    ((∀ r ∈ w.requests.lookup id,
      ((w.step H event).requests.lookup id).map Request.snapClock = some r.snapClock) ∧
      (∀ op ∈ w.graphOp H event, w.KeepsCandidate H id c op) ∧ w.KeepsFiles id c event)
    ⟨fun h => ⟨h.1, h.2.1, h.2.2⟩, fun h => ⟨h.request, h.candidate, h.files⟩⟩

/-- The recorded hashes and the stored key of the candidate. -/
structure CandidateEntry (w : World D) (externs : Option Externs) (e : ContextEntry D) :
    Prop where
  files : ∃ recorded, hashFiles recorded e.inputFiles = some e.lastFileHashes
  known : ∀ x ∈ e.lastFileHashes, w.Known id x
  key : ∀ {k list}, e.artifactKey = some k → externs = some list →
    e.recordedKey H w.disk list = some k

structure CandidateSound (w : World D) : Prop where
  clock_le : ∀ r ∈ w.requests.lookup id, r.snapClock ≤ w.journal.current
  entry : ∀ {e}, w.graph.contexts.lookup c = some e →
    w.CandidateEntry H id (w.graph.rustcExterns.lookup c) e

variable {H id c} {w w' : World D} {x : NormalizedPath × D}

omit [DecidableEq D] in
theorem Known.of_disk (h : w.disk x.1 = some x.2) : w.Known id x := by
  unfold Known
  split
  · exact h
  · exact ⟨.inl (.inl h), .inl h⟩

omit [DecidableEq D] in
theorem Known.disk_of_none (h : w.Known id x) (hnone : w.requests.lookup id = none) :
    w.disk x.1 = some x.2 := by
  unfold Known at h
  rwa [hnone] at h

variable {r : Request D}

omit [DecidableEq D] in
theorem Known.seen (h : w.Known id x) (hr : w.requests.lookup id = some r) : w.Seen r x := by
  unfold Known at h
  rwa [hr] at h

omit [DecidableEq D] in
theorem Known.of_seen (hr : w.requests.lookup id = some r) (h : w.Seen r x) : w.Known id x := by
  unfold Known
  rwa [hr]

variable {op : GraphOp D} {getHash : NormalizedPath → Option D}

theorem KeepsCandidate.current (h : w.KeepsCandidate H id c op) {key : ContextKey D}
    (hop : op.oracle = some (key, getHash)) (hresolve : w.graph.resolveInstanceKey key = some c)
    {p : NormalizedPath} (hp : p ∈ (w.graph.step H op).keyedFiles c) {d : D}
    (hd : getHash p = some d) : w.disk p = some d := by
  rcases (h.2.2 (key, getHash) hop hresolve).1 p hp with hnone | hsame
  · cases hd.symm.trans hnone
  · exact hsame.symm.trans hd

variable {e : ContextEntry D}

theorem resolveInstanceKey_of_lookup {g : DepGraph D} (h : g.contexts.lookup c = some e) :
    g.resolveInstanceKey c = some c := by
  rw [resolveInstanceKey, h, isSome_some, if_pos rfl]

theorem keyedFiles_of_lookup {g : DepGraph D} (h : g.contexts.lookup c = some e) :
    g.keyedFiles c = e.inputFiles ++ ((g.rustcExterns.lookup c).getD []).map Prod.snd :=
  keyedFiles_of_resolve (resolveInstanceKey_of_lookup h) h

variable {envValue : Name → Option Text} {k : ArtifactKey D}

omit [DecidableEq D] in
theorem candidateEntry_of_update {externs : Option Externs} {scan : ScanResult} {names : List Name}
    {now : ℕ} (hk : (e.update H getHash envValue externs scan names now).2 = some k)
    (hcur : ∀ p ∈ (e.update H getHash envValue externs scan names now).1.inputFiles ++
        (externs.getD []).map Prod.snd, ∀ d, getHash p = some d → w.disk p = some d) :
    w.CandidateEntry H id externs
      (e.update H getHash envValue externs scan names now).1 := by
  obtain ⟨hfiles, hstored, hkey⟩ := update_eq_some hk
  refine ⟨⟨getHash, hfiles⟩, fun x hx => .of_disk ?_, fun {k' list} hk' hlist => ?_⟩
  · obtain ⟨hmem, hd⟩ := mem_of_hashFiles hfiles hx
    exact hcur x.1 (List.mem_append_left _ hmem) x.2 hd
  · cases hstored.symm.trans hk'
    refine recordedKey_mono (hkey list hlist) fun p hp d hd => hcur p ?_ d hd
    rw [hlist]
    exact List.mem_append_right _ hp

theorem CandidateSound.entry_step (hw : w.CandidateSound H id c)
    (hkeeps : w.KeepsCandidate H id c op) {e' : ContextEntry D}
    (he' : (w.graph.step H op).contexts.lookup c = some e') :
    w.CandidateEntry H id ((w.graph.step H op).rustcExterns.lookup c) e' := by
  have hlive := hkeeps.2.1 (isSome_of_eq_some he')
  have hkeyed := keyedFiles_of_lookup he'
  rcases DepGraph.entry_step he' with ⟨e, he, hstep⟩ | ⟨hnone, -⟩
  · have hentry := hw.entry he
    cases hstep with
    | kept state now hkey hstate =>
      refine ⟨hentry.files, hentry.known, fun hk hlist => ?_⟩
      rcases hkey with rfl | rfl
      · exact hentry.key hk (hkeeps.1 _ hlist)
      · cases hk
    | @updated key scan getHash names envValue now hop hresolve hres =>
      have horacle : op.oracle = some (key, getHash) := by rw [hop]; rfl
      have hwrites := (hkeeps.2.2 (key, getHash) horacle hresolve).2
      rw [hres] at hwrites
      obtain ⟨k, hk⟩ := ne_none_iff_exists'.mp hwrites
      have hexts : (w.graph.step H op).rustcExterns = w.graph.rustcExterns := by
        rw [hop]
        exact (updateWithEnv_frame H getHash envValue w.graph key scan names now).1
      rw [hexts] at hkeyed ⊢
      exact candidateEntry_of_update hk fun p hp d hd =>
        hkeeps.current horacle hresolve (hkeyed ▸ hp) hd
    | @refreshed key getHash envValue fileHashes read now hop hresolve hfiles hread hres =>
      have hwrites := (hkeeps.2.2 (key, getHash) hop hresolve).2
      rw [hres] at hwrites
      have hcur : ∀ p ∈ e.inputFiles, ∀ d, getHash p = some d → w.disk p = some d :=
        fun p hp d hd => hkeeps.current hop hresolve (hkeyed ▸ List.mem_append_left _ hp) hd
      have hsame : fileHashes = e.lastFileHashes := by
        obtain ⟨recorded, hrecd⟩ := hentry.files
        have hdisk : hashFiles w.disk e.inputFiles = some e.lastFileHashes := by
          refine hashFiles_mono hrecd fun p hp d hd => ?_
          obtain ⟨d', hd', hmem⟩ := mem_hashFiles hrecd hp
          cases hd.symm.trans hd'
          exact (hentry.known _ hmem).disk_of_none hwrites
        exact some.inj ((hashFiles_mono hfiles hcur).symm.trans hdisk)
      refine ⟨hentry.files, hentry.known, fun {k' list} hk' hlist => ?_⟩
      cases hk'
      have hexts := hkeeps.1 list hlist
      rw [hsame, hexts] at hread
      refine recordedKey_mono (recordedKey_of_readKey now hread)
        fun p hp d hd => ?_
      refine hkeeps.current hop hresolve ?_ hd
      rw [hkeyed, hlist]
      exact List.mem_append_right _ hp
  · rw [hnone] at hlive
    cases hlive

theorem KeepsFiles.hashedAs {event : Event D} (h : w.KeepsFiles id c event)
    {p : NormalizedPath} {hash : DependencyHash D} (htaken : w.takes event id p hash) :
    w.HashedAs p hash := by
  obtain ⟨header, rfl, hhash⟩ := htaken
  obtain ⟨rfl, htrue⟩ := h rfl
  obtain ⟨own, hown, rfl⟩ := map_eq_some_iff.mp hhash
  exact ⟨rfl, htrue.hashFile_eq.symm.trans hown⟩

theorem Known.handled (hx : w.Known id x) {event : Event D} (h : Handled w event w')
    (hfiles : w.KeepsFiles id c event)
    (hreq : ∀ r ∈ w.requests.lookup id,
      (w'.requests.lookup id).map Request.snapClock = some r.snapClock) : w'.Known id x := by
  cases hr' : w'.requests.lookup id with
  | none =>
    cases hr : w.requests.lookup id with
    | none =>
      refine .of_disk ?_
      rw [h.disk]
      exact hx.disk_of_none hr
    | some r =>
      have hclock := hreq r hr
      rw [hr'] at hclock
      cases hclock
  | some r' =>
    refine .of_seen hr' ?_
    cases hr : w.requests.lookup id with
    | none =>
      have hdisk := hx.disk_of_none hr
      rw [← h.disk] at hdisk
      exact ⟨.inl (.inl hdisk), .inl hdisk⟩
    | some r =>
      have hseen := hx.seen hr
      have hclock := hreq r hr
      rw [hr', map_some, some.injEq] at hclock
      refine ⟨?_, ?_⟩
      · rw [hclock]
        exact h.settled.mpr hseen.settled
      · unfold HashedAs
        rw [h.disk]
        refine hseen.hashed.imp_right fun hhashes d hd => ?_
        rcases h.requests hr' with ⟨site, key, rfl⟩ | ⟨r₀, hr₀, hmoves⟩
        · simp [Request.begin] at hd
        · cases hr.symm.trans hr₀
          exact (hmoves.frame.2.2 hd).elim (hhashes d) hfiles.hashedAs

variable {path : NormalizedPath} {content : Option D} {sameStat : Bool}

theorem Known.edit (hx : w.Known id x)
    (h : x.1 = path → (w.requests.lookup id).any (fun r => (r.hashes.lookup path).isNone) = true) :
    (w.step H (.edit path content sameStat)).Known id x := by
  cases hr : w.requests.lookup id with
  | none =>
    refine .of_disk (disk_edit (fun hpath => ?_) (hx.disk_of_none hr))
    have hopen := h hpath
    rw [hr] at hopen
    cases hopen
  | some r =>
    have hseen := hx.seen hr
    have hset : (w.step H (.edit path content sameStat)).Settled r.snapClock x :=
      hseen.settled.imp_left fun hfresh => hfresh.edit path content sameStat
    refine .of_seen (r := r) hr ⟨hset, ?_⟩
    by_cases hpath : x.1 = path
    · have hnone := h hpath
      rw [hr, any_some, isNone_iff_eq_none, ← hpath] at hnone
      rw [hnone]
      exact .inr fun d hd => (nomatch hd)
    · exact hseen.hashed.imp (disk_edit hpath) fun hhashes d hd =>
        ⟨(hhashes d hd).1, disk_edit hpath (hhashes d hd).2⟩

theorem Known.journal (hx : w.Known id x)
    (hclock : ∀ r ∈ w.requests.lookup id, r.snapClock ≤ w.journal.current)
    (step : ChangeJournal.Step) : (w.step H (.journal step)).Known id x := by
  have hdisk : (w.step H (.journal step)).disk = w.disk := by cases step <;> rfl
  have hreqs := (journal_frame (H := H) w step).1
  cases hr : w.requests.lookup id with
  | none =>
    refine .of_disk ?_
    rw [hdisk]
    exact hx.disk_of_none hr
  | some r =>
    have hseen := hx.seen hr
    refine .of_seen (r := r) (hreqs ▸ hr) ⟨hseen.settled.journal (hclock r hr) step, ?_⟩
    unfold HashedAs
    rw [hdisk]
    exact hseen.hashed

theorem CandidateSound.edit (hw : w.CandidateSound H id c)
    (h : w.KeepsFiles id c (.edit path content sameStat)) :
    (w.step H (.edit path content sameStat)).CandidateSound H id c := by
  refine ⟨hw.clock_le, fun {e} he => ?_⟩
  have hentry := hw.entry he
  refine ⟨hentry.files, fun x hx => (hentry.known x hx).edit fun hpath => h.2 ?_,
    fun {k list} hk hlist => ?_⟩
  · obtain ⟨recorded, hrecd⟩ := hentry.files
    rw [← hpath, show w.graph.contexts.lookup c = some e from he]
    exact (mem_of_hashFiles hrecd hx).1
  · refine recordedKey_mono (hentry.key hk hlist) fun p hp d hd => ?_
    have hne : p ≠ path := by
      rintro rfl
      refine h.1 ?_
      rw [show w.graph.rustcExterns.lookup c = some list from hlist]
      exact hp
    exact disk_edit hne hd

/-- The clock of a request is one that the journal has reached. -/
theorem snapClock_le_step (h : ∀ r ∈ w.requests.lookup id, r.snapClock ≤ w.journal.current)
    (event : Event D) : ∀ r ∈ (w.step H event).requests.lookup id,
      r.snapClock ≤ (w.step H event).journal.current := by
  intro r' hr'
  rcases step_cases w event with ⟨path, content, sameStat, rfl⟩ | ⟨step, rfl⟩ | hdone
  · exact h r' hr'
  · obtain ⟨hreqs, -, -, hclock⟩ := journal_frame (H := H) w step
    rw [hreqs] at hr'
    exact (h r' hr').trans hclock
  · rw [hdone.journal]
    rcases hdone.requests hr' with ⟨site, key, rfl⟩ | ⟨r, hr, hmoves⟩
    · exact le_rfl
    · rw [hmoves.frame.2.1]
      exact h r hr

theorem CandidateSound.handled (hw : w.CandidateSound H id c) {event : Event D}
    (h : Handled w event (w.step H event)) (hkeeps : w.Keeps H id c event) :
    (w.step H event).CandidateSound H id c := by
  refine ⟨snapClock_le_step hw.clock_le event, fun {e'} he' => ?_⟩
  have hentry : w.CandidateEntry H id ((w.step H event).graph.rustcExterns.lookup c) e' := by
    rw [graph_step] at he' ⊢
    cases hop : w.graphOp H event with
    | none =>
      rw [hop] at he'
      exact hw.entry he'
    | some op =>
      rw [hop] at he'
      exact hw.entry_step (hkeeps.candidate op hop) he'
  refine ⟨hentry.files, fun x hx => (hentry.known x hx).handled h hkeeps.files hkeeps.request, ?_⟩
  rw [h.disk]
  exact hentry.key

theorem candidateSound_step (w : World D) (event : Event D) (hw : w.CandidateSound H id c)
    (hkeeps : w.Keeps H id c event) : (w.step H event).CandidateSound H id c := by
  rcases step_cases w event with ⟨path, content, sameStat, rfl⟩ | ⟨step, rfl⟩ | h
  · exact hw.edit hkeeps.files
  · have hsame : (w.step H (.journal step)).graph = w.graph ∧
        (w.step H (.journal step)).disk = w.disk := by
      cases step <;> exact ⟨rfl, rfl⟩
    refine ⟨snapClock_le_step hw.clock_le _, fun {e} he => ?_⟩
    rw [hsame.1] at he ⊢
    have hentry := hw.entry he
    refine ⟨hentry.files, fun x hx => (hentry.known x hx).journal hw.clock_le step, ?_⟩
    rw [hsame.2]
    exact hentry.key
  · exact hw.handled h hkeeps

theorem Seen.disk_eq (hx : w.Seen r x) (hquiet : w.Quiescent)
    (htrue : w.known.Truthful x.1 (w.disk x.1)) {recorded : NormalizedPath → Option D}
    (hrecd : hashFiles recorded e.inputFiles = some e.lastFileHashes)
    (hmem : x ∈ e.lastFileHashes)
    (hpass : e.freshOrHashMatch (fun p => journalProvesFresh w.journal p r.snapClock)
      (fun p => (r.getHash H.toHasher p).or (w.hashFile p)) x.1 = true) :
    w.disk x.1 = some x.2 := by
  rw [freshOrHashMatch, Bool.or_eq_true] at hpass
  rcases hpass with hfresh | hmatch
  · exact hx.settled.disk_eq hquiet hfresh
  · cases hd : (r.getHash H.toHasher x.1).or (w.hashFile x.1) with
    | none =>
      rw [hd] at hmatch
      cases hmatch
    | some d =>
      rw [hd] at hmatch
      obtain ⟨y, hy, heq⟩ := List.any_eq_true.mp hmatch
      obtain ⟨hy₁, hy₂⟩ : y.1 = x.1 ∧ y.2 = d := of_decide_eq_true heq
      have hrec := (mem_of_hashFiles hrecd hmem).2
      rw [← hy₁, (mem_of_hashFiles hrecd hy).2, hy₂, some.injEq] at hrec
      rw [hrec] at hd
      rcases hx.hashed with hdisk | hhashes
      · exact hdisk
      · rcases or_eq_some_iff.mp hd with hhash | ⟨-, hdisk⟩
        · obtain ⟨h, hlook, hh⟩ := map_eq_some_iff.mp hhash
          obtain ⟨hheader, hown⟩ := hhashes h hlook
          rwa [← hh, DependencyHash.hash, hheader]
        · exact htrue.hashFile_eq.symm.trans hdisk

theorem CandidateSound.compat_hit (hw : w.CandidateSound H id c) (hquiet : w.Quiescent)
    (htrue : ∀ p ∈ w.graph.keyedFiles c, w.known.Truthful p (w.disk p))
    (hr : w.requests.lookup id = some r) {compatKey : ContextKey D} {currentExterns : Externs}
    {reason : Text}
    (hhit : w.checkCompat H r compatKey currentExterns envValue = (.hit k, reason, some c)) :
    (w.graph.tryFastHitWithEnv H w.disk envValue c).2 = some k := by
  obtain ⟨externs, e, hexts, he, hcompat⟩ := checkRustcMetadataCompat_eq_hit hhit
  have hentry := hw.entry he
  obtain ⟨recorded, hrecd⟩ := hentry.files
  rw [tryFastHitWithEnv_snd (resolveInstanceKey_of_lookup he) he, hexts]
  refine hcompat.tryFastHit_eq ?_ (hentry.key hcompat.stored hexts)
  refine hashFiles_mono hrecd fun p hp d hd => ?_
  obtain ⟨d', hd', hmem⟩ := mem_hashFiles hrecd hp
  cases hd.symm.trans hd'
  refine ((hentry.known _ hmem).seen hr).disk_eq hquiet (htrue p ?_) hrecd hmem
    (hcompat.inputs p hp)
  rw [keyedFiles_of_lookup he]
  exact List.mem_append_left _ hp

section Stores

variable {event : Event D} {key : ContextKey D} {scan : ScanResult}
variable {getHash : NormalizedPath → Option D} {names : List Name}
variable {envValue : Name → Option Text} {now : ℕ}

theorem candidateSound_of_update
    (hclock : ∀ r ∈ w.requests.lookup id, r.snapClock ≤ w.journal.current)
    (hevent : w.graphOp H event = some (.updateWithEnv key scan getHash names envValue now))
    (hresolve : w.graph.resolveInstanceKey key = some c)
    (hstored : (w.graph.updateWithEnv H getHash envValue key scan names now).2 ≠ none)
    (hhashes : ∀ p ∈ (w.step H event).graph.keyedFiles c,
      getHash p = none ∨ getHash p = w.disk p) :
    (w.step H event).CandidateSound H id c := by
  have hgraph : (w.step H event).graph =
      (w.graph.updateWithEnv H getHash envValue key scan names now).1 := by
    rw [graph_step, hevent]
    rfl
  have hdisk : (w.step H event).disk = w.disk := by
    rcases step_cases w event with ⟨path, content, sameStat, rfl⟩ | ⟨step, rfl⟩ | h
    · cases hevent
    · cases hevent
    · exact h.disk
  refine ⟨snapClock_le_step hclock event, fun {e'} he' => ?_⟩
  have hkeyed := keyedFiles_of_lookup he'
  obtain ⟨k, hk⟩ := ne_none_iff_exists'.mp hstored
  obtain ⟨inst, e, hres', he, -, hlook, hk'⟩ := updateWithEnv_eq_some hk
  cases hresolve.symm.trans hres'
  rw [hgraph] at he'
  cases hlook.symm.trans he'
  have hexts : (w.step H event).graph.rustcExterns = w.graph.rustcExterns := by
    rw [hgraph]
    exact (updateWithEnv_frame H getHash envValue w.graph key scan names now).1
  rw [hexts] at hkeyed ⊢
  refine candidateEntry_of_update hk' fun p hp d hd => ?_
  rw [hdisk]
  rcases hhashes p (hkeyed ▸ hp) with hnone | hsame
  · cases hd.symm.trans hnone
  · exact hsame.symm.trans hd

/-- Once a key was stored for the candidate from current hashes, and as long as every event
keeps it, a hit through the alias in a quiet moment in which the metadata cache knows the
candidate's files is on the key of the current contents. -/
theorem compat_hit_current {disk : NormalizedPath → Option D} {pre post : List (Event D)}
    (hevent : (after H disk pre).graphOp H event =
      some (.updateWithEnv key scan getHash names envValue now))
    (hresolve : (after H disk pre).graph.resolveInstanceKey key = some c)
    (hstored : ((after H disk pre).graph.updateWithEnv H getHash envValue key scan names now).2 ≠
      none)
    (hhashes : ∀ p ∈ (after H disk (pre ++ [event])).graph.keyedFiles c,
      getHash p = none ∨ getHash p = (after H disk pre).disk p)
    (hkeeps : Run.Along (step H) (Keeps H id c) (after H disk (pre ++ [event])) post)
    {r : Request D} {compatKey : ContextKey D} {currentExterns : Externs}
    {env : Name → Option Text} {k : ArtifactKey D} {reason : Text}
    (hr : (after H disk (pre ++ event :: post)).requests.lookup id = some r)
    (hquiet : (after H disk (pre ++ event :: post)).Quiescent)
    (htrue : ∀ p ∈ (after H disk (pre ++ event :: post)).graph.keyedFiles c,
      (after H disk (pre ++ event :: post)).known.Truthful p
        ((after H disk (pre ++ event :: post)).disk p))
    (hhit : (after H disk (pre ++ event :: post)).checkCompat H r compatKey currentExterns env =
      (.hit k, reason, some c)) :
    ((after H disk (pre ++ event :: post)).graph.tryFastHitWithEnv H
      (after H disk (pre ++ event :: post)).disk env c).2 = some k := by
  have hlast : after H disk (pre ++ [event]) = (after H disk pre).step H event :=
    Run.run_append (step H) (new disk) pre [event]
  have hfinal : after H disk (pre ++ event :: post) =
      Run.run (step H) ((after H disk pre).step H event) post :=
    Run.run_append (step H) (new disk) pre (event :: post)
  have hclock := @Run.run_invariant _ _ (step H)
    (fun w => ∀ r ∈ w.requests.lookup id, r.snapClock ≤ w.journal.current) (new disk)
    (by simp [new]) (fun _ event h => snapClock_le_step h event) pre
  rw [hlast] at hhashes hkeeps
  have hsound : (after H disk (pre ++ event :: post)).CandidateSound H id c := by
    rw [hfinal]
    exact Run.run_invariant_along
      (candidateSound_of_update hclock hevent hresolve hstored hhashes) candidateSound_step hkeeps
  exact hsound.compat_hit hquiet htrue hr hhit

end Stores

private theorem nul_not_mem_dependency : nul ∉ "dep".toList := by decide

def dependency : Externs :=
  [(⟨"dep", nul_not_mem_dependency⟩, .new "/a/libdep.rmeta")]

def aliasKey : ContextKey Text :=
  rustcMetadataCompatMapKey Host.transparent ⟨"compat"⟩ (.new "/a/lib.rs")
    (some (.new "/a"))

def candidateKey : ContextKey Text :=
  (ContextInstanceKey.new Hasher.transparent ⟨"key"⟩ (.new "/a/lib.rs")
    (some (.new "/a"))).mapKey

def registerCandidate : Event Text :=
  .graph (.registerRustc ⟨"key"⟩ (.plain (.new "/a/lib.rs") "rustc")
    (some (.new "/a")) dependency (some ⟨"compat"⟩) 0)

def updateCandidate : Event Text :=
  .graph (.updateWithEnv ⟨"key"⟩ ⟨[], [], false⟩ (fun _ => some "1") []
    (fun _ => none) 1)

/-- Events before and after a request begins that may use the alias. -/
def aliasRun (before later : List (Event Text)) : List (Event Text) :=
  before ++ .start 0 .hit ⟨"other"⟩ :: later

def editAndReport (path : NormalizedPath) : List (Event Text) :=
  [.edit path (some "2") false, .journal (.advance [path])]

theorem compat_hit_current_aliasRun :
    let source := NormalizedPath.new "/a/lib.rs"
    let w := after Host.transparent (fun _ => some "1")
      ([registerCandidate] ++ updateCandidate :: aliasRun (editAndReport (.new "/a/b.rs"))
        [.edit source (some "2") false, .edit source (some "1") false,
          .journal (.advance [source, source])])
    ∃ r k reason, w.requests.lookup 0 = some r ∧
      w.checkCompat Host.transparent r aliasKey dependency (fun _ => none) =
        (.hit k, reason, some candidateKey) ∧
      (w.graph.tryFastHitWithEnv Host.transparent w.disk (fun _ => none) candidateKey).2 =
        some k := by
  intro source w
  have hopen : (w.requests.lookup 0).isSome := by decide +kernel
  obtain ⟨r, hr⟩ := isSome_iff_exists.mp hopen
  have hverd : ∀ r ∈ w.requests.lookup 0,
      let verdict := w.checkCompat Host.transparent r aliasKey dependency (fun _ => none)
      (OpResult.verdict verdict.1).served.isSome ∧ verdict.2.2 = some candidateKey := by
    decide +kernel
  obtain ⟨hserved, hcand⟩ := hverd r hr
  obtain ⟨k, hk⟩ := isSome_iff_exists.mp hserved
  have hhit : w.checkCompat Host.transparent r aliasKey dependency (fun _ => none) =
      (.hit k, _, some candidateKey) :=
    Prod.ext (OpResult.served_verdict hk) (Prod.ext rfl hcand)
  exact ⟨r, k, _, hr, hhit, compat_hit_current rfl (by decide +kernel) (by decide +kernel)
    (by decide +kernel) (by decide +kernel) hr (by decide +kernel) (by decide +kernel) hhit⟩

/-- An edit of the source that is reported before the request begins, an edit of an extern at any
time, and an edit that keeps time and size of a source whose digest is remembered and that is
hashed before the report, go unnoticed. -/
theorem alias_serves_stale :
    let stale before later :=
      let w := after Host.transparent (fun _ => some "1")
        ([registerCandidate] ++ updateCandidate :: aliasRun before later)
      w.unreported = [] ∧
        (∀ r ∈ w.requests.lookup 0,
          let verdict := w.checkCompat Host.transparent r aliasKey dependency (fun _ => none)
          (OpResult.verdict verdict.1).served.isSome ∧ verdict.2.2 = some candidateKey) ∧
        (w.requests.lookup 0).isSome ∧
        (w.graph.tryFastHitWithEnv Host.transparent w.disk (fun _ => none) candidateKey).2 = none
    stale (editAndReport (.new "/a/lib.rs")) [] ∧
      stale [] (editAndReport (.new "/a/libdep.rmeta")) ∧
      stale [] [.remember (.new "/a/lib.rs") (some "1".toList),
        .edit (.new "/a/lib.rs") (some "2".toList) true, .hashFile 0 (.new "/a/lib.rs") none,
        .journal (.advance [.new "/a/lib.rs"])] := by
  decide +kernel

end World

end Zccache
