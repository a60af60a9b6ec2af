import Zccache.Base.Traverse
import Zccache.Daemon.World

/-! # What one event does

The inputs of an answer are all the files that go into its key. An event changes
an open request by one of its own moves, and whatever is stored was the answer
of an open request.
-/

namespace Zccache

open Unix FinMap Option

variable {D : Type} [DecidableEq D]

namespace DepGraph

variable {H : Host D} {g : DepGraph D} {key : ContextKey D} {k : ArtifactKey D}
variable {getHash : NormalizedPath → Option D} {envValue : Name → Option Text} {now : ℕ}

theorem keyedFiles_of_resolve {inst : ContextKey D} {e : ContextEntry D}
    (hres : g.resolveInstanceKey key = some inst) (he : g.contexts.lookup inst = some e) :
    g.keyedFiles key = e.inputFiles ++ ((g.rustcExterns.lookup inst).getD []).map Prod.snd := by
  rw [keyedFiles, entryFor, getRustcExterns, hres, bind_some, bind_some, he]
  rfl

theorem mem_hashedInputs {hashes : Map NormalizedPath (DependencyHash D)}
    {x : NormalizedPath × DependencyHash D} (hx : x ∈ g.hashedInputs key hashes) :
    hashes.lookup x.1 = some x.2 := by
  obtain ⟨p, -, hp⟩ := List.mem_filterMap.mp hx
  obtain ⟨d, hd, rfl⟩ := map_eq_some_iff.mp hp
  exact hd

end DepGraph

namespace World

variable {H : Host D} {w w' : World D}

/-- A file that the request hashed, by itself or for a precompiled header. -/
def Looked (r : Request D) (x : NormalizedPath × D) : Prop :=
  ∃ p h, r.hashes.lookup p = some h ∧ x ∈ h.files p

/-- The inputs of the answers to an open request are among the files it hashed. -/
def Hashed (r : Request D) (answer : Option (Answer D)) : Prop :=
  ∀ a ∈ answer, ∀ x ∈ a.inputs, r.hashes.lookup x.1 = some x.2

omit [DecidableEq D] in
theorem Hashed.looked {r : Request D} {a : Answer D} (h : Hashed r (some a))
    {x : NormalizedPath × D} (hx : x ∈ a.files) : Looked r x := by
  obtain ⟨input, hmem, hfile⟩ := List.mem_flatMap.mp hx
  exact ⟨input.1, input.2, h a rfl input hmem, hfile⟩

/-- What a request may take for a dependency. -/
abbrev Taken (D : Type) := NormalizedPath → DependencyHash D → Prop

/-- What one event can do to an open request. -/
inductive Moves (w : World D) (taken : Taken D) (r : Request D) : Request D → Prop where
  | stays : Moves w taken r r
  | readClock {r' : Request D} (h : r.readClock w = some r') : Moves w taken r r'
  | hashFile {r' : Request D} {path : NormalizedPath} {hash : DependencyHash D}
      (htaken : taken path hash) (h : r.hashFile path (some hash) = some r') : Moves w taken r r'
  | compilerRead {r' : Request D} (path : NormalizedPath)
      (h : r.compilerRead w path = some r') : Moves w taken r r'
  | compilerDone {r' : Request D} (h : r.compilerDone = some r') : Moves w taken r r'
  | answered {answer : Option (Answer D)} (hopen : r.answer = none)
      (hhash : Hashed r answer) (hdone : r.site.compiles = true → r.compiled = true) :
      Moves w taken r { r with answer := answer }

/-- What the request is given when the event is its hashing of a dependency. -/
def takes (w : World D) (event : Event D) (id : ℕ) : Taken D :=
  fun path hash => ∃ header, event = .hashFile id path header ∧
    w.hashDependency path header = some hash

/-- The files and the watcher are as before. -/
structure SameFiles (w w' : World D) : Prop where
  disk : w'.disk = w.disk
  unreported : w'.unreported = w.unreported
  journal : w'.journal = w.journal

/-- A request handler changes no file. It moves the request or closes it, and what it stores
is the answer of the request. -/
structure Handled (w : World D) (event : Event D) (w' : World D) : Prop extends SameFiles w w' where
  requests : ∀ {id r'}, w'.requests.lookup id = some r' →
    (∃ site key, r' = .begin w site key) ∨
      ∃ r, w.requests.lookup id = some r ∧ w.Moves (w.takes event id) r r'
  fastHits : ∀ {key e}, w'.fastHits.lookup key = some e →
    w.fastHits.lookup key = some e ∨
      ∃ id r, w.requests.lookup id = some r ∧ r.answer = some e.answer ∧
        r.entryClock = some e.clock
  validations : ∀ {key e}, w'.validations.lookup key = some e →
    w.validations.lookup key = some e ∨
      ∃ id r, w.requests.lookup id = some r ∧ Hashed r (some e.answer) ∧
        r.entryClock = some e.clock
  stored : ∀ {s}, s ∈ w'.stored →
    s ∈ w.stored ∨
      ∃ id r, w.requests.lookup id = some r ∧ r.site = .miss ∧ r.answer = some s.answer ∧
        r.reads = s.reads

variable {event : Event D}

theorem Handled.refl (w : World D) (event : Event D) : Handled w event w :=
  ⟨⟨rfl, rfl, rfl⟩, fun h => .inr ⟨_, h, .stays⟩, .inl, .inl, .inl⟩

theorem Handled.insert {id : ℕ} {r r' : Request D} (hr : w.requests.lookup id = some r)
    (hmoves : w.Moves (w.takes event id) r r') (g : DepGraph D) :
    Handled w event { w with graph := g, requests := w.requests.insert id r' } := by
  refine ⟨⟨rfl, rfl, rfl⟩, fun {id'} r'' h => .inr ?_, .inl, .inl, .inl⟩
  obtain ⟨rfl, rfl⟩ | ⟨-, hold⟩ := lookup_insert_eq_some.mp h
  · exact ⟨r, hr, hmoves⟩
  · exact ⟨r'', hold, .stays⟩

theorem handled_withRequest {id : ℕ} {f : Request D → Option (Request D)}
    (hf : ∀ r r', f r = some r' → w.Moves (w.takes event id) r r') :
    Handled w event (w.withRequest id f) := by
  unfold withRequest
  split
  · next r' hr' =>
    obtain ⟨r, hr, hfr⟩ := bind_eq_some_iff.mp hr'
    exact .insert hr (hf r r' hfr) w.graph
  · exact .refl w event

variable (id : ℕ)

theorem handled_hashFile (path : NormalizedPath) (header : Option NormalizedPath) :
    Handled w (.hashFile id path header) (w.step H (.hashFile id path header)) := by
  refine handled_withRequest fun r r' h => ?_
  cases hhash : w.hashDependency path header with
  | none =>
    rw [hhash] at h
    unfold Request.hashFile at h
    split at h <;> cases h
  | some hash => exact .hashFile ⟨header, rfl, hhash⟩ (hhash ▸ h)

theorem handled_check (envValue : Name → Option Text) (now : ℕ) :
    Handled w event (w.check H id envValue now) := by
  unfold check
  split
  · exact .refl w event
  · next r hr =>
    split
    · exact .refl w event
    · next hguard =>
      rw [Bool.or_eq_true, not_or, not_isSome_iff_eq_none, Bool.not_eq_true',
        Bool.not_eq_false] at hguard
      have hsite : r.site.compiles = true → r.compiled = true := by
        intro hcompiles
        cases h : r.site <;> simp [h, Site.asksGraph, Site.compiles] at hguard hcompiles
      refine .insert hr (.answered hguard.2 (fun a ha x hx => ?_) hsite) _
      obtain ⟨k, -, rfl⟩ := map_eq_some_iff.mp ha
      exact DepGraph.mem_hashedInputs hx

theorem handled_update (scan : ScanResult) (names : List Name)
    (envValue : Name → Option Text) (now : ℕ) :
    Handled w event (w.update H id scan names envValue now) := by
  unfold update
  split
  · exact .refl w event
  · next r hr =>
    split
    · exact .refl w event
    · next hguard =>
      rw [Bool.or_eq_true, not_or, not_isSome_iff_eq_none, Bool.not_eq_true',
        Bool.not_eq_false] at hguard
      refine .insert hr (.answered hguard.2 (fun a ha x hx => ?_) fun _ => hguard.1) _
      obtain ⟨k, -, rfl⟩ := map_eq_some_iff.mp ha
      exact DepGraph.mem_hashedInputs hx

theorem hashed_crossRootAnswer {r : Request D} {entry : RequestCacheEntry D}
    {root : NormalizedPath} : Hashed r (w.crossRootAnswer H r entry root) := by
  intro a ha x hx
  simp only [crossRootAnswer, mem_def, bind_eq_bind, bind_eq_some_iff] at ha
  obtain ⟨paths, -, inputs, hins, logicalKey, -, expected, -, ha⟩ := ha
  obtain ⟨-, ⟨⟩⟩ := ite_none_right_eq_some.mp ha
  obtain ⟨p, -, hp⟩ := Traverse.mem_of_mapM hins hx
  obtain ⟨h, hh, rfl⟩ := map_eq_some_iff.mp hp
  exact hh

theorem handled_matchInputs (entry : RequestCacheEntry D) (requestFp : D)
    (root : NormalizedPath) : Handled w event (w.matchInputs H id entry requestFp root) := by
  unfold matchInputs
  split
  · exact .refl w event
  · next r hr =>
    split
    · exact .refl w event
    · next hguard =>
      simp only [Bool.or_eq_true, decide_eq_true_eq, not_or, not_not,
        not_isSome_iff_eq_none] at hguard
      split
      · next a clock ha hclock =>
        have hhash : Hashed r (some a) := ha ▸ hashed_crossRootAnswer
        have hmoves : Handled w event _ := .insert hr
          (.answered hguard.2 hhash (by rw [hguard.1]; exact fun h => nomatch h)) w.graph
        refine ⟨⟨rfl, rfl, rfl⟩, hmoves.requests, .inl, fun h => ?_, .inl⟩
        obtain ⟨-, rfl⟩ | ⟨-, hold⟩ := lookup_insert_eq_some.mp h
        · exact .inr ⟨id, r, hr, hhash, hclock⟩
        · exact .inl hold
      · exact .refl w event

omit [DecidableEq D] in
theorem Moves.frame {taken : Taken D} {r r' : Request D} (h : w.Moves taken r r') :
    r'.site = r.site ∧ r'.snapClock = r.snapClock ∧
      ∀ {p d}, r'.hashes.lookup p = some d → r.hashes.lookup p = some d ∨ taken p d := by
  cases h with
  | stays | answered => exact ⟨rfl, rfl, .inl⟩
  | readClock h =>
    unfold Request.readClock at h
    split at h <;> cases h
    exact ⟨rfl, rfl, .inl⟩
  | hashFile htaken h =>
    unfold Request.hashFile at h
    split at h <;> cases h
    refine ⟨rfl, rfl, fun hlook => ?_⟩
    obtain ⟨rfl, rfl⟩ | ⟨-, hold⟩ := lookup_insert_eq_some.mp hlook
    · exact .inr htaken
    · exact .inl hold
  | compilerRead path h =>
    unfold Request.compilerRead at h
    split at h
    · obtain ⟨d, -, rfl⟩ := map_eq_some_iff.mp h
      exact ⟨rfl, rfl, .inl⟩
    · cases h
  | compilerDone h =>
    unfold Request.compilerDone at h
    split at h <;> cases h
    exact ⟨rfl, rfl, .inl⟩

theorem handled_publish : Handled w event (w.publish id) := by
  unfold publish
  split
  · exact .refl w event
  · next r hr =>
    have hkeep : ∀ {id' r'}, (w.requests.erase id).lookup id' = some r' →
        ∃ r, w.requests.lookup id' = some r ∧ w.Moves (w.takes event id') r r' :=
      fun h => ⟨_, lookup_of_erase h, .stays⟩
    split
    · next _ a hsite hans =>
      refine ⟨⟨rfl, rfl, rfl⟩, fun h => .inr (hkeep h), .inl, .inl, fun hs => ?_⟩
      rcases List.mem_cons.mp hs with rfl | hs
      · exact .inr ⟨id, r, hr, hsite, hans, rfl⟩
      · exact .inl hs
    · exact ⟨⟨rfl, rfl, rfl⟩, fun h => .inr (hkeep h), .inl, .inl, .inl⟩
    · next a clock hans hclock _ _ =>
      refine ⟨⟨rfl, rfl, rfl⟩, fun h => .inr (hkeep h), fun h => ?_, .inl, .inl⟩
      split at h
      · obtain ⟨-, rfl⟩ | ⟨-, hold⟩ := lookup_insert_eq_some.mp h
        · exact .inr ⟨id, r, hr, hans, hclock⟩
        · exact .inl hold
      · exact .inl h
    · exact .refl w event

theorem handled_start (site : Site) (key : ContextKey D) :
    Handled w event (w.step H (.start id site key)) := by
  refine ⟨⟨rfl, rfl, rfl⟩, fun h => ?_, fun h => .inl ?_, .inl, .inl⟩
  · obtain ⟨-, rfl⟩ | ⟨-, hold⟩ := lookup_insert_eq_some.mp h
    · exact .inl ⟨site, key, rfl⟩
    · exact .inr ⟨_, hold, .stays⟩
  · dsimp only [step] at h
    split at h
    · exact lookup_of_erase h
    · exact h

/-- Every event but an edit and a change of the journal is a handler's, or leaves alone what a
handler may change. -/
theorem step_cases (w : World D) (event : Event D) :
    (∃ path content sameStat, event = .edit path content sameStat) ∨
      (∃ step, event = .journal step) ∨ Handled w event (w.step H event) := by
  cases event with
  | edit path content sameStat => exact .inl ⟨path, content, sameStat, rfl⟩
  | journal step => exact .inr (.inl ⟨step, rfl⟩)
  | remember | graph =>
    exact .inr (.inr ⟨⟨rfl, rfl, rfl⟩, fun h => .inr ⟨_, h, .stays⟩, .inl, .inl, .inl⟩)
  | evictFastHit key =>
    exact .inr (.inr ⟨⟨rfl, rfl, rfl⟩, fun h => .inr ⟨_, h, .stays⟩,
      fun h => .inl (lookup_of_erase h), .inl, .inl⟩)
  | start id site key => exact .inr (.inr (handled_start id site key))
  | readClock id => exact .inr (.inr (handled_withRequest fun _ _ => .readClock))
  | hashFile id path header => exact .inr (.inr (handled_hashFile id path header))
  | compilerRead id path => exact .inr (.inr (handled_withRequest fun _ _ => .compilerRead path))
  | compilerDone id => exact .inr (.inr (handled_withRequest fun _ _ => .compilerDone))
  | check id envValue now => exact .inr (.inr (handled_check id envValue now))
  | update id scan names envValue now =>
    exact .inr (.inr (handled_update id scan names envValue now))
  | matchInputs id entry requestFp root =>
    exact .inr (.inr (handled_matchInputs id entry requestFp root))
  | publish id => exact .inr (.inr (handled_publish id))

/-- The operation that a request has the graph perform for its verdict. -/
def lookupOp (H : Host D) (w : World D) (r : Request D) (envValue : Name → Option Text)
    (now : ℕ) : GraphOp D :=
  let isFresh path := journalProvesFresh w.journal path r.snapClock
  match r.site with
  | .multiHit => .checkWithEnv r.key isFresh (r.getHash H.toHasher) (fun _ => none) now
  | _ =>
    match (w.graph.tryFastHitWithEnv H (r.getHash H.toHasher) envValue r.key).2 with
    | some _ => .tryFastHitWithEnv r.key (r.getHash H.toHasher) envValue
    | none => .checkWithEnv r.key isFresh (r.getHash H.toHasher) envValue now

def graphOp (H : Host D) (w : World D) : Event D → Option (GraphOp D)
  | .graph op => some op
  | .check id envValue now =>
    (w.requests.lookup id).bind fun r =>
      if !r.site.asksGraph || r.answer.isSome then none else some (w.lookupOp H r envValue now)
  | .update id scan names envValue now =>
    (w.requests.lookup id).bind fun r =>
      if !r.compiled || r.answer.isSome then none
      else some (.updateWithEnv r.key scan (r.getHash H.toHasher) names envValue now)
  | _ => none

theorem lookupVerdict_fst (w : World D) (r : Request D) (envValue : Name → Option Text)
    (now : ℕ) :
    (w.lookupVerdict H r envValue now).1 = w.graph.step H (w.lookupOp H r envValue now) := by
  cases hsite : r.site with
  | multiHit =>
    simp only [lookupVerdict, lookupOp, hsite]
    rfl
  | _ =>
    simp only [lookupVerdict, lookupOp, hsite]
    split
    · next g k hfast =>
      rw [hfast]
      exact (congrArg Prod.fst hfast).symm
    · next g hfast =>
      have hsame := DepGraph.tryFastHitWithEnv_of_none (congrArg Prod.snd hfast)
      rw [hfast] at hsame ⊢
      cases hsame
      rfl

omit [DecidableEq D] in
theorem withRequest_graph (w : World D) (id : ℕ) (f : Request D → Option (Request D)) :
    (w.withRequest id f).graph = w.graph := by
  unfold withRequest
  split <;> rfl

theorem publish_graph (w : World D) (id : ℕ) : (w.publish id).graph = w.graph := by
  unfold publish
  split
  · rfl
  · split <;> rfl

theorem matchInputs_graph (w : World D) (id : ℕ) (entry : RequestCacheEntry D) (requestFp : D)
    (root : NormalizedPath) : (w.matchInputs H id entry requestFp root).graph = w.graph := by
  unfold matchInputs
  split
  · rfl
  · split
    · rfl
    · split <;> rfl

theorem graph_step (w : World D) (event : Event D) :
    (w.step H event).graph = ((w.graphOp H event).map (w.graph.step H)).getD w.graph := by
  cases event with
  | graph op => rfl
  | check id envValue now =>
    simp only [step, check, graphOp]
    cases w.requests.lookup id with
    | none => rfl
    | some r =>
      simp only [bind_some]
      split
      · rfl
      · exact lookupVerdict_fst w r envValue now
  | update id scan names envValue now =>
    simp only [step, update, graphOp]
    cases w.requests.lookup id with
    | none => rfl
    | some r =>
      simp only [bind_some]
      split <;> rfl
  | matchInputs id entry requestFp root => exact matchInputs_graph w id entry requestFp root
  | publish id => exact publish_graph w id
  | journal step => cases step <;> rfl
  | readClock | hashFile | compilerRead | compilerDone => exact withRequest_graph ..
  | _ => rfl

end World

end Zccache
