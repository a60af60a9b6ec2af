import Zccache.Base.Traverse
import Zccache.Exec.World

/-! # Fresh answers to requests with a depfile

A request with a depfile should be answered only by a run whose listed files
are all as they were. The full key says so. It is the primary key alone that
says nothing about the listed files, and a request falls back to it if its
sidecar is of no use.
-/

namespace Zccache.Exec

open List Unix StableSort FinMap Run Traverse Option
open Lines (trim)

variable {D : Type} {S : Services D}

/-- The artifact comes from a run that read a depfile, and the listed files are as they were. -/
def Fresh (S : Services D) (s : State D) (artifact : Artifact D) : Prop :=
  ∃ listed, artifact.harvest = some listed ∧
    ∀ file ∈ listed, currentHash S s.files.contents file.1 = some file.2

def SidecarUsable [DecidableEq D] (s : State D) (primary : D) : Prop :=
  ∃ content, s.sidecars.lookup primary = some content ∧
    ∀ path ∈ sidecarPaths content, (s.files.contents.lookup (.new path)).isSome = true

def PlainPath (path : Text) : Prop :=
  '\\' ∉ path ∧ Bounded (byteLength path)
  deriving Decidable

/-- The paths of the inputs hold no backslash, and nothing is longer than an address space. -/
def Request.IsPlain (r : Request D) : Prop :=
  (Bounded r.args.length ∧ ∀ arg ∈ r.args, Bounded (byteLength arg)) ∧
  (Bounded r.env.length ∧
    ∀ kv ∈ r.env, Bounded (byteLength kv.1) ∧ Bounded (byteLength kv.2)) ∧
  Bounded (byteLength (normalizeForKey (toText r.cwd))) ∧
  Bounded r.inputPaths.length ∧ ∀ path ∈ r.inputPaths, PlainPath path
  deriving Decidable

def Pending.readPairs (p : Pending D) : List (Text × D) :=
  p.material.inputPairs ++ p.deps.getD []

/-- No file that entered the key of a request is edited while the request is under way, no input and
no listed file has a backslash in its path, and the metadata cache holds no digest of another
content of a file. -/
def Regular [DecidableEq D] (S : Services D) (s : State D) : Event D → Prop
  | .edit path content sameStat =>
    (∀ entry ∈ s.pending.entries, ∀ pair ∈ entry.2.readPairs, .new pair.1 ≠ path) ∧
      (s.files.known.edited path sameStat).Truthful path (content.map S.hashText)
  | .remember path digest =>
    (s.files.known.updated path digest).Truthful path (currentHash S s.files.contents path)
  | .begin _ request => request.IsPlain
  | .answer _ => True
  | .finish id _ => ∀ p ∈ s.pending.lookup id, ∀ depfile ∈ p.request.depfile,
      ∀ listed ∈ listedFiles S s.files p.request depfile, ∀ file ∈ listed,
        PlainPath file.1.caseKey

instance [DecidableEq D] (S : Services D) (s : State D) :
    (event : Event D) → Decidable (Regular S s event)
  | .edit _ _ _ => inferInstanceAs (Decidable ((∀ entry ∈ s.pending.entries, _) ∧ _))
  | .remember _ _ => inferInstanceAs (Decidable (Remembered.Truthful _ _ _))
  | .begin _ request => inferInstanceAs (Decidable request.IsPlain)
  | .answer _ => isTrue trivial
  | .finish id _ => inferInstanceAs (Decidable (∀ p ∈ s.pending.lookup id, _))

section Paths

variable {path : Text}

theorem PlainPath.normalizeForKey_eq (h : PlainPath path) : normalizeForKey path = path := by
  conv_rhs => rw [← map_id path]
  apply map_congr_left
  intro c hc
  have hne : c ≠ '\\' := fun hslash => h.1 (hslash ▸ hc)
  rw [if_neg hne, id]

variable {t t' : Text}

theorem byteLength_le_of_sublist (h : t.Sublist t') : byteLength t ≤ byteLength t' := by
  unfold byteLength
  induction h with
  | slnil => exact le_rfl
  | cons | cons_cons =>
    simp only [map_cons, sum_cons]
    omega

theorem PlainPath.of_sublist (h : PlainPath t') (hsub : t.Sublist t') : PlainPath t :=
  ⟨fun hmem => h.1 (hsub.subset hmem), lt_of_le_of_lt (byteLength_le_of_sublist hsub) h.2⟩

theorem trim_sublist (t : Text) : (trim t).Sublist t := by
  have hfront := dropWhile_sublist (l := t) Lines.isWhitespace
  have hback := dropWhile_sublist (l := (t.dropWhile Lines.isWhitespace).reverse)
    Lines.isWhitespace
  have hrev := hback.reverse
  rw [reverse_reverse] at hrev
  exact hrev.trans hfront

variable {pairs : List (Text × D)}

/-- A line of a sidecar lies inside one of the paths that were written. -/
theorem exists_sublist_of_mem_lines {line : Text}
    (h : line ∈ (persistDepfileSidecar pairs).splitOn '\n') :
    line = [] ∨ ∃ pair ∈ pairs, line.Sublist pair.1 := by
  induction pairs with
  | nil => exact Or.inl (by simpa [persistDepfileSidecar] using h)
  | cons pair pairs ih =>
    have hsplit : (persistDepfileSidecar (pair :: pairs)).splitOn '\n' =
        pair.1.splitOn '\n' ++ (persistDepfileSidecar pairs).splitOn '\n' := by
      have happ : persistDepfileSidecar (pair :: pairs) =
          pair.1 ++ '\n' :: persistDepfileSidecar pairs := by
        simp [persistDepfileSidecar]
      rw [happ]
      simpa [List.splitOn] using
        splitOnP_append_cons (p := (· == '\n')) pair.1 (persistDepfileSidecar pairs)
          (beq_self_eq_true '\n')
    rw [hsplit, mem_append] at h
    rcases h with hfirst | hrest
    · exact Or.inr ⟨pair, mem_cons_self, sublist_of_mem_splitOn hfirst⟩
    · rcases ih hrest with hnil | ⟨pair', hmem, hsub⟩
      · exact Or.inl hnil
      · exact Or.inr ⟨pair', mem_cons_of_mem pair hmem, hsub⟩

theorem plainPath_of_mem_sidecarPaths (h : ∀ pair ∈ pairs, PlainPath pair.1)
    (hpath : path ∈ sidecarPaths (persistDepfileSidecar pairs)) : PlainPath path := by
  obtain ⟨hline, hne⟩ := mem_filter.mp hpath
  obtain ⟨line, hmem, rfl⟩ := mem_map.mp hline
  rcases exists_sublist_of_mem_lines hmem with rfl | ⟨pair, hpair, hsub⟩
  · exact absurd hne (by decide)
  · exact (h pair hpair).of_sublist ((trim_sublist line).trans hsub)

end Paths

section Requests

variable {files : Files D} {r : Request D} {material : ExecKeyMaterial D} {pair : Text × D}

theorem hashPair_eq_some {path : Text} :
    hashPair S files path = some pair ↔
      pair.1 = normalizeForKey path ∧ hashFileViaCache S files path = some pair.2 := by
  simp only [hashPair, map_eq_some_iff]
  constructor
  · rintro ⟨hash, hhash, rfl⟩
    exact ⟨rfl, hhash⟩
  · rintro ⟨hkey, hhash⟩
    exact ⟨pair.2, hhash, Prod.ext hkey.symm rfl⟩

theorem pairs_of_mapM_hashPair {paths : List Text} {pairs : List (Text × D)}
    (hplain : ∀ path ∈ paths, PlainPath path) (h : paths.mapM (hashPair S files) = some pairs)
    (hpair : pair ∈ pairs) : PlainPath pair.1 ∧ hashFileViaCache S files pair.1 = some pair.2 := by
  obtain ⟨path, hpath, hhash⟩ := mem_of_mapM h hpair
  obtain ⟨hkey, hhash⟩ := hashPair_eq_some.mp hhash
  rw [(hplain path hpath).normalizeForKey_eq] at hkey
  rw [hkey]
  exact ⟨hplain path hpath, hhash⟩

theorem keyMaterial_eq_some (h : r.keyMaterial S files = some material) :
    material.args.Sublist r.args ∧ material.env = r.env ∧
      (∀ cwd ∈ material.cwd, cwd = normalizeForKey (toText r.cwd)) ∧
      ∃ pairs, r.inputPaths.mapM (hashPair S files) = some pairs ∧
        material.inputPairs = sortBy Prod.fst pairs := by
  simp only [Request.keyMaterial, bind_eq_bind, bind_eq_some_iff,
    some.injEq] at h
  obtain ⟨keyArgs, hargs, toolId, -, pairs, hpairs, scanPairs, -, rfl⟩ := h
  obtain ⟨regexes, -, rfl⟩ := map_eq_some_iff.mp hargs
  refine ⟨filter_sublist, rfl, ?_, pairs, hpairs, rfl⟩
  intro cwd hcwd
  by_cases hkey : r.cwdInKey = true
  · simp only [hkey, if_true, mem_def, some.injEq] at hcwd
    exact hcwd.symm
  · simp [hkey] at hcwd

theorem isBounded_of_keyMaterial (hplain : r.IsPlain) (h : r.keyMaterial S files = some material) :
    material.IsBounded := by
  obtain ⟨hargs, henv, hcwd, pairs, hpairs, hins⟩ := keyMaterial_eq_some h
  obtain ⟨⟨hargsLength, hargsBound⟩, henvBound, hcwdBound, hinputLength, hinputPlain⟩ := hplain
  refine ⟨⟨?_, ?_⟩, ?_, ?_, ?_, ?_⟩
  · exact lt_of_le_of_lt hargs.length_le hargsLength
  · exact fun arg harg => hargsBound arg (hargs.subset harg)
  · rw [henv]
    exact henvBound
  · intro cwd hmem
    rw [hcwd cwd hmem]
    exact hcwdBound
  · rw [hins, (sortBy_perm Prod.fst pairs).length_eq, length_mapM hpairs]
    exact hinputLength
  · intro pair hpair
    rw [hins, mem_sortBy] at hpair
    exact (pairs_of_mapM_hashPair hinputPlain hpairs hpair).1.2

end Requests

section Invariant

variable {contents : Contents} {files : Files D}

/-- The digests that the cache answers are those of the contents. -/
def Files.Truthful (S : Services D) (files : Files D) : Prop :=
  ∀ path, files.known.Truthful path (currentHash S files.contents path)

theorem Files.Truthful.hashFileViaCache_eq (h : files.Truthful S) (path : Text) :
    hashFileViaCache S files path = currentHash S files.contents (.new path) :=
  (h (.new path)).hashFile_eq

theorem currentHash_edited (S : Services D) (contents : Contents) (path p : NormalizedPath)
    (content : Option Text) : currentHash S (edited contents path content) p =
      if p = path then content.map S.hashText else currentHash S contents p := by
  unfold currentHash edited
  cases content with
  | none =>
    rw [lookup_erase_eq_ite]
    split <;> rfl
  | some content =>
    rw [lookup_insert_eq_ite]
    split <;> rfl

theorem Files.Truthful.edit (h : files.Truthful S) {path : NormalizedPath} {content : Option Text}
    {sameStat : Bool}
    (hcontent : (files.known.edited path sameStat).Truthful path (content.map S.hashText)) :
    Files.Truthful S ⟨edited files.contents path content, files.known.edited path sameStat⟩ := by
  refine Remembered.truthful_of_frame h path ?_ fun p hp =>
    ⟨?_, fun d => Remembered.lookup_of_edited⟩
  · rwa [currentHash_edited, if_pos rfl]
  · rw [currentHash_edited, if_neg hp]

theorem Files.Truthful.update (h : files.Truthful S) {path : NormalizedPath} {digest : Option D}
    (hdigest : (files.known.updated path digest).Truthful path
      (currentHash S files.contents path)) :
    Files.Truthful S { files with known := files.known.updated path digest } := by
  exact Remembered.truthful_of_frame h path hdigest fun p hp =>
    ⟨rfl, fun d => (Remembered.lookup_updated hp ▸ ·)⟩

/-- A request under way whose files are still as its key says. -/
structure Pending.Current (S : Services D) (contents : Contents) (p : Pending D) : Prop where
  bounded : p.material.IsBounded
  pairs : ∀ pair ∈ p.readPairs,
    PlainPath pair.1 ∧ currentHash S contents (.new pair.1) = some pair.2
  deps : p.request.depfile = none → p.deps = none

/-- An artifact lies under a primary key if no depfile was read, and else under a full key that
covers all the listed files, together with the declared inputs. -/
def Stored (S : Services D) (key : D) (artifact : Artifact D) : Prop :=
  (∃ material, key = composePrimaryKey S.toHasher material ∧ artifact.harvest = none) ∨
  ∃ (material : ExecKeyMaterial D) (pairs : List (Text × D)) (listed : List (NormalizedPath × D)),
    material.IsBounded ∧ (∀ pair ∈ pairs, PlainPath pair.1) ∧ artifact.harvest = some listed ∧
    key = composeFullKey S.toHasher (composePrimaryKey S.toHasher material) pairs ∧
    ∀ file ∈ listed, (file.1.caseKey, file.2) ∈ pairs ∨
      (file.1.caseKey, file.2) ∈ material.inputPairs

variable {p : Pending D}

theorem Pending.Current.edit (h : p.Current S contents) {path : NormalizedPath}
    {content : Option Text} (hother : ∀ pair ∈ p.readPairs, .new pair.1 ≠ path) :
    p.Current S (edited contents path content) := by
  refine ⟨h.bounded, fun pair hpair => ⟨(h.pairs pair hpair).1, ?_⟩, h.deps⟩
  rw [currentHash_edited, if_neg (hother pair hpair)]
  exact (h.pairs pair hpair).2

variable {listed : List (NormalizedPath × D)}

theorem currentHash_of_listed (htrue : files.Truthful S) {r : Request D} {depfile : Path}
    (hlist : listedFiles S files r depfile = some listed) {file : NormalizedPath × D}
    (hfile : file ∈ listed) : currentHash S files.contents file.1 = some file.2 := by
  simp only [listedFiles, bind_eq_bind, bind_eq_some_iff] at hlist
  obtain ⟨content, -, deps, -, hdeps⟩ := hlist
  obtain ⟨dep, -, hdep⟩ := mem_of_mapM hdeps hfile
  obtain ⟨hash, hdepHash, rfl⟩ := map_eq_some_iff.mp hdep
  rwa [htrue.hashFileViaCache_eq, NormalizedPath.new_caseKey] at hdepHash

theorem withContents_eq (h : ∀ file ∈ listed, currentHash S contents file.1 = some file.2) :
    withContents S contents listed = some listed := by
  induction listed with
  | nil => rfl
  | cons file listed ih =>
    obtain ⟨hfile, hrest⟩ := forall_mem_cons.mp h
    refine mapM_cons_eq_some.mpr ⟨file, listed, ?_, ih hrest, rfl⟩
    rw [hfile]
    rfl

theorem Pending.Current.mem_of_listed (h : p.Current S files.contents)
    (htrue : files.Truthful S) {depfile : Path}
    (hlist : listedFiles S files p.request depfile = some listed)
    (hplain : ∀ file ∈ listed, PlainPath file.1.caseKey) {file : NormalizedPath × D}
    (hfile : file ∈ listed) :
    (file.1.caseKey, file.2) ∈ harvestPairs listed p.material.inputPairs ∨
      (file.1.caseKey, file.2) ∈ p.material.inputPairs := by
  have hkey := (hplain file hfile).normalizeForKey_eq
  by_cases hdecl : file.1.caseKey ∈ p.material.inputPairs.map Prod.fst
  · right
    obtain ⟨pair, hpair, hfst⟩ := mem_map.mp hdecl
    -- the file has not changed since the key was computed
    have hhash := (h.pairs pair (mem_append_left _ hpair)).2
    rw [hfst, NormalizedPath.new_caseKey, currentHash_of_listed htrue hlist hfile] at hhash
    have : pair = (file.1.caseKey, file.2) := Prod.ext hfst (some.inj hhash).symm
    rwa [← this]
  · left
    refine mem_sortBy.mpr (mem_filter.mpr ⟨mem_map.mpr ⟨file, hfile, ?_⟩, ?_⟩)
    · rw [hkey]
    · exact decide_eq_true hdecl

variable {pair : Text × D}

theorem plainPath_of_mem_harvestPairs {inputPairs : List (Text × D)}
    (hplain : ∀ file ∈ listed, PlainPath file.1.caseKey)
    (hpair : pair ∈ harvestPairs listed inputPairs) : PlainPath pair.1 := by
  obtain ⟨hmem, -⟩ := mem_filter.mp (mem_sortBy.mp hpair)
  obtain ⟨file, hfile, rfl⟩ := mem_map.mp hmem
  rw [(hplain file hfile).normalizeForKey_eq]
  exact hplain file hfile

variable [DecidableEq D]

structure Inv (S : Services D) (s : State D) : Prop where
  known : s.files.Truthful S
  pending : ∀ id p, s.pending.lookup id = some p → p.Current S s.files.contents
  sidecars : ∀ key content, s.sidecars.lookup key = some content →
    ∀ path ∈ sidecarPaths content, PlainPath path
  artifacts : ∀ key artifact, s.artifacts.lookup key = some artifact → Stored S key artifact

variable {s : State D}

theorem inv_start : Inv S (.start contents : State D) := by
  refine ⟨?_, ?_, ?_, ?_⟩
  · exact fun path d hd d' h => nomatch h
  · exact fun id p h => nomatch h
  · exact fun key content h => nomatch h
  · exact fun key artifact h => nomatch h

theorem Inv.loadDepfileSidecar (h : Inv S s) {primary : D} {deps : List (Text × D)}
    (hload : loadDepfileSidecar S s primary = some deps) (hpair : pair ∈ deps) :
    PlainPath pair.1 ∧ currentHash S s.files.contents (.new pair.1) = some pair.2 := by
  obtain ⟨content, hcont, hdeps⟩ := bind_eq_some_iff.mp hload
  obtain ⟨pairs, hpairs, rfl⟩ := map_eq_some_iff.mp hdeps
  rw [mem_sortBy] at hpair
  rw [← h.known.hashFileViaCache_eq]
  exact pairs_of_mapM_hashPair (h.sidecars primary content hcont) hpairs hpair

theorem Inv.beginRequest (h : Inv S s) {r : Request D} (hplain : r.IsPlain)
    (hbegin : beginRequest S s r = some p) : p.Current S s.files.contents := by
  obtain ⟨material, hmaterial, rfl⟩ := map_eq_some_iff.mp hbegin
  refine ⟨isBounded_of_keyMaterial hplain hmaterial, ?_, ?_⟩
  · intro pair hpair
    rcases mem_append.mp hpair with hinp | hdep
    · obtain ⟨-, -, -, pairs, hpairs, hins⟩ := keyMaterial_eq_some hmaterial
      rw [hins, mem_sortBy] at hinp
      rw [← h.known.hashFileViaCache_eq]
      exact pairs_of_mapM_hashPair hplain.2.2.2.2 hpairs hinp
    · by_cases hdepfile : r.depfile.isSome = true
      · simp only [hdepfile, if_true] at hdep
        cases hload : Exec.loadDepfileSidecar S s (composePrimaryKey S.toHasher material) with
        | none =>
          rw [hload] at hdep
          cases hdep
        | some deps =>
          rw [hload] at hdep
          exact h.loadDepfileSidecar hload hdep
      · simp only [hdepfile, if_false, Bool.false_eq_true] at hdep
        cases hdep
  · intro hnone
    change r.depfile = none at hnone
    simp only [hnone, isSome_none, Bool.false_eq_true, if_false]

variable {result : ToolResult}

theorem Inv.storeExecArtifact (h : Inv S s) {key : D} {harvest : Option (List (NormalizedPath × D))}
    (hstored : Stored S key ⟨result.exitCode, result.output, harvest⟩) :
    Inv S (s.storeExecArtifact p result key harvest) := by
  unfold State.storeExecArtifact
  split
  · refine ⟨h.known, h.pending, h.sidecars, ?_⟩
    intro key' artifact hlook
    obtain ⟨rfl, rfl⟩ | ⟨-, hold⟩ := lookup_insert_eq_some.mp hlook
    · assumption
    · exact h.artifacts key' artifact hold
  · exact h

theorem Inv.finishRun (h : Inv S s) (hp : p.Current S s.files.contents)
    (hplain : ∀ depfile ∈ p.request.depfile, ∀ listed ∈ listedFiles S s.files p.request depfile,
      ∀ file ∈ listed, PlainPath file.1.caseKey) : Inv S (s.finishRun S p result) := by
  unfold State.finishRun
  cases hdepfile : p.request.depfile with
  | none =>
    refine h.storeExecArtifact (Or.inl ⟨p.material, ?_, rfl⟩)
    rw [Pending.fullKey, hp.deps hdepfile]
    rfl
  | some depfile =>
    by_cases hexit : result.exitCode ≠ 0
    · simp only [hexit, if_true, ne_eq, not_false_eq_true]
      exact h
    · simp only [hexit, if_false]
      cases hlist : listedFiles S s.files p.request depfile with
      | none => exact h
      | some listed =>
        have hfiles := hplain depfile hdepfile listed hlist
        have hside : ∀ key content, (s.sidecars.insert (p.primaryKey S)
            (persistDepfileSidecar (harvestPairs listed p.material.inputPairs))).lookup key =
            some content → ∀ path ∈ sidecarPaths content, PlainPath path := by
          intro key content hlook
          obtain ⟨-, rfl⟩ | ⟨-, hold⟩ := lookup_insert_eq_some.mp hlook
          · exact fun path => plainPath_of_mem_sidecarPaths fun pair =>
              plainPath_of_mem_harvestPairs hfiles
          · exact h.sidecars key content hold
        have hsaved : Inv S { s with
            sidecars := s.sidecars.insert (p.primaryKey S)
              (persistDepfileSidecar (harvestPairs listed p.material.inputPairs)) } :=
          ⟨h.known, h.pending, hside, h.artifacts⟩
        exact hsaved.storeExecArtifact (Or.inr ⟨p.material, _, listed, hp.bounded,
          fun pair => plainPath_of_mem_harvestPairs hfiles,
          withContents_eq fun file => currentHash_of_listed h.known hlist, rfl,
          fun file => hp.mem_of_listed h.known hlist hfiles⟩)

theorem State.storeExecArtifact_files (result : ToolResult) (key : D)
    (harvest : Option (List (NormalizedPath × D))) :
    (s.storeExecArtifact p result key harvest).files = s.files := by
  unfold State.storeExecArtifact
  split <;> rfl

theorem State.finishRun_files (result : ToolResult) :
    (s.finishRun S p result).files = s.files := by
  unfold State.finishRun
  split
  · exact State.storeExecArtifact_files result _ _
  · split
    · rfl
    · split
      · rfl
      · exact State.storeExecArtifact_files result _ _

theorem Inv.erase (h : Inv S s) {id : ℕ} {t : State D} (ht : Inv S t)
    (hfiles : t.files = s.files) : Inv S { t with pending := s.pending.erase id } := by
  refine ⟨ht.known, ?_, ht.sidecars, ht.artifacts⟩
  intro id' p hp
  rw [hfiles]
  exact h.pending id' p (lookup_of_erase hp)

theorem Inv.step (h : Inv S s) (event : Event D) (hregular : Regular S s event) :
    Inv S (step S s event) := by
  cases event with
  | edit path content sameStat =>
    obtain ⟨hunread, hcontent⟩ := hregular
    exact ⟨h.known.edit hcontent, fun id p hp =>
      (h.pending id p hp).edit (hunread ⟨id, p⟩ (AList.mem_lookup_iff.mp hp)),
      h.sidecars, h.artifacts⟩
  | remember path digest =>
    exact ⟨h.known.update hregular, h.pending, h.sidecars, h.artifacts⟩
  | begin id request =>
    simp only [Exec.step]
    cases hbegin : Exec.beginRequest S s request with
    | none => exact h
    | some p =>
      refine ⟨h.known, ?_, h.sidecars, h.artifacts⟩
      intro id' p' hp'
      obtain ⟨-, rfl⟩ | ⟨-, hold⟩ := lookup_insert_eq_some.mp hp'
      · exact h.beginRequest hregular hbegin
      · exact h.pending id' p' hold
  | answer id =>
    simp only [Exec.step]
    split
    · exact h
    · split
      · exact h.erase h rfl
      · exact h
  | finish id result =>
    simp only [Exec.step]
    split
    · exact h
    · next p hp =>
      exact h.erase (h.finishRun (h.pending id p hp) (hregular p hp))
        (State.finishRun_files result)

theorem inv_run {events : List (Event D)}
    (hregular : Along (step S) (Regular S) (.start contents) events) :
    Inv S (run (step S) (.start contents) events) :=
  run_invariant_along inv_start (fun _ event h hevent => h.step event hevent) hregular

end Invariant

section Answers

variable [DecidableEq D] {s : State D} {p : Pending D} {artifact : Artifact D}

theorem Pending.lookup_of_answer (h : p.answer S s = some artifact) :
    s.artifacts.lookup (p.fullKey S) = some artifact := by
  unfold Pending.answer at h
  split at h
  · exact h
  · cases h

theorem Inv.fresh_of_deps (hdigest : Function.Injective S.digest) (h : Inv S s)
    (hp : p.Current S s.files.contents) {deps : List (Text × D)} (hdeps : p.deps = some deps)
    (hanswer : p.answer S s = some artifact) : Fresh S s artifact := by
  have hkey : p.fullKey S = composeFullKey S.toHasher (p.primaryKey S) deps := by
    rw [Pending.fullKey, hdeps]
  have hread : p.readPairs = p.material.inputPairs ++ deps := by
    rw [Pending.readPairs, hdeps]
    rfl
  have hpairs := hp.pairs
  rw [hread] at hpairs
  rcases h.artifacts _ _ (Pending.lookup_of_answer hanswer) with
    ⟨material, hprim, -⟩ | ⟨material, pairs, listed, hbounded, hplain, hharvest, hfull, hcover⟩
  · rw [hkey] at hprim
    exact absurd hprim (composeFullKey_ne_composePrimaryKey hdigest _ _ _)
  · rw [hkey] at hfull
    obtain ⟨hprim, hmem⟩ := composeFullKey_inj hdigest
      (fun pair hpair => (hpairs pair (mem_append_right _ hpair)).1.2)
      (fun pair hpair => (hplain pair hpair).2) hfull
    have hins := inputPairs_of_composePrimaryKey hdigest hp.bounded hbounded hprim
    refine ⟨listed, hharvest, fun file hfile => ?_⟩
    have hcur : (file.1.caseKey, file.2) ∈ p.material.inputPairs ++ deps := by
      rcases hcover file hfile with hdep | hinp
      · exact mem_append_right _ ((hmem _).mpr hdep)
      · exact mem_append_left _ (hins ▸ hinp)
    have hhash := (hpairs _ hcur).2
    rwa [NormalizedPath.new_caseKey] at hhash

theorem Inv.harvest_eq_none (hdigest : Function.Injective S.digest) (h : Inv S s)
    (hdeps : p.deps = none) (hanswer : p.answer S s = some artifact) :
    artifact.harvest = none := by
  have hkey : p.fullKey S = composePrimaryKey S.toHasher p.material := by
    rw [Pending.fullKey, hdeps]
    rfl
  rcases h.artifacts _ _ (Pending.lookup_of_answer hanswer) with
    ⟨-, -, hnone⟩ | ⟨material, pairs, listed, -, -, -, hfull, -⟩
  · exact hnone
  · rw [hkey] at hfull
    exact absurd hfull.symm (composeFullKey_ne_composePrimaryKey hdigest _ _ _)

theorem isSome_loadDepfileSidecar {primary : D} :
    (loadDepfileSidecar S s primary).isSome = true ↔ SidecarUsable s primary := by
  unfold loadDepfileSidecar SidecarUsable
  cases s.sidecars.lookup primary with
  | none => simp
  | some content =>
    simp only [bind_some, isSome_map, isSome_mapM, hashPair, hashFileViaCache,
      Remembered.hashFile, currentHash, some.injEq, exists_eq_left']

end Answers

instance [DecidableEq D] (S : Services D) (s : State D) (artifact : Artifact D) :
    Decidable (Fresh S s artifact) :=
  decidable_of_iff (∃ listed ∈ artifact.harvest,
    ∀ file ∈ listed, currentHash S s.files.contents file.1 = some file.2) Iff.rfl

def sampleServices : Services Text :=
  { Hasher.transparent with regex := fun _ => none, includeScan := fun _ _ => some [] }

/-- A request of a tool in `/w`, with or without a depfile. -/
def sampleRequest (depfile : Option String) (inputs : List String) : Request Text where
  tool := components "/bin/t"
  toolHash := some "t"
  args := []
  keyArgsFilter := []
  cwd := components "/w"
  env := []
  inputFiles := inputs.map fun input => .new input.toList
  includeScanFiles := []
  includeDirs := []
  systemIncludeDirs := []
  iquoteDirs := []
  outputFiles := []
  inputExtra := []
  cwdInKey := true
  depfile := depfile.map fun path => components path.toList
  policy := .normal
  nonDeterministic := false

def sampleResult : ToolResult :=
  ⟨0, [], true⟩

def sampleEdit (path content : String) : Event Text :=
  .edit (.new path.toList) (some content.toList) false

/-- A run that reads `d.h`. -/
def sampleRun : List (Event Text) :=
  [sampleEdit "/w/d.h" "1", sampleEdit "/w/m.d" "m: d.h", .begin 0 (sampleRequest "m.d" []),
    .finish 0 sampleResult]

/-- A request with a depfile that the cache answers with something stale. -/
def AnsweredStale [DecidableEq D] (S : Services D) (s : State D) (id : ℕ) : Prop :=
  ∃ p ∈ s.pending.lookup id, p.request.depfile.isSome = true ∧
    ∃ artifact ∈ p.answer S s, ¬ Fresh S s artifact

instance [DecidableEq D] (S : Services D) (s : State D) (id : ℕ) :
    Decidable (AnsweredStale S s id) :=
  inferInstanceAs (Decidable (∃ p ∈ s.pending.lookup id, _))

/-- Histories with the request that is asked last: one that finds no sidecar, one whose listed file
is gone, one that lists a path with a backslash, one that waits while a file is edited, one with an
input that was edited during the run, and one with a file whose digest is remembered and that was
edited with its time and size kept. -/
def staleRuns : List (List (Event Text) × ℕ) :=
  [([.begin 0 (sampleRequest none []), .finish 0 sampleResult,
      .begin 1 (sampleRequest "m.d" [])], 1),
   (sampleRun ++ [.begin 1 (sampleRequest none []), .finish 1 sampleResult,
      .edit (.new "/w/d.h") none true, .begin 2 (sampleRequest "m.d" [])], 2),
   ([sampleEdit "/w/a\\b.h" "1", sampleEdit "/w/a/b.h" "1", sampleEdit "/w/m.d" "m: a\\b.h",
      .begin 0 (sampleRequest "m.d" []), .finish 0 sampleResult, sampleEdit "/w/a\\b.h" "2",
      .begin 1 (sampleRequest "m.d" [])], 1),
   (sampleRun ++ [sampleEdit "/w/d.h" "2", .begin 1 (sampleRequest "m.d" []),
      .begin 2 (sampleRequest "m.d" []), .finish 1 sampleResult, sampleEdit "/w/d.h" "3"], 2),
   ([sampleEdit "/w/i" "1", sampleEdit "/w/m.d" "m: i", .begin 0 (sampleRequest "m.d" ["/w/i"]),
      sampleEdit "/w/i" "2", .finish 0 sampleResult, sampleEdit "/w/i" "1",
      .begin 1 (sampleRequest "m.d" ["/w/i"])], 1),
   (sampleRun ++ [.remember (.new "/w/d.h") (some (sampleServices.hashText "1")),
      .edit (.new "/w/d.h") (some "2") true, .begin 1 (sampleRequest "m.d" [])], 1)]

end Zccache.Exec
