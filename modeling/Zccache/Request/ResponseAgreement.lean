import Zccache.Request.ResponseCache

/-! # The cached expansion agrees with the reference

The daemon and the compiler front end expand a response file by two recursions of
their own. Both follow one relation, which substitutes every reference by the
expansion of its file and lists the files that are read. An entry of the cache stays
right: the files that it lists determine the expansion.
-/

namespace Zccache.ResponseFile

open List Unix FinMap Checked Run

variable {B D : Type}

section Relation

variable (decode : B → Option Text) (hash : B → D) (here : Path) (F : FileMap B)

/-- A file that is expanded. -/
structure Opened (B : Type) where
  canonical : NormalizedPath
  file : B
  content : Text
  dir : Path

/-- A reference opens a file, while the files in `seen` are expanded. -/
structure Opens (seen : List NormalizedPath) (path : NormalizedPath) (o : Opened B) : Prop where
  canonicalize : canonicalize here F path = some o.canonical
  new : o.canonical ∉ seen
  lookup : F.files.lookup o.canonical = some o.file
  decode : decode o.file = some o.content
  parent : parent o.canonical.path = some o.dir

/-- The arguments, named in the directory `base`, become `r` when `left` levels may be opened
and the files in `seen` are expanded. The files that are read are listed with their hashes. -/
inductive Expands : ℕ → List NormalizedPath → Path → List Text → List Text →
    List (NormalizedPath × D) → Prop
  | nil (left : ℕ) (seen : List NormalizedPath) (base : Path) : Expands left seen base [] [] []
  | plain {left : ℕ} {seen : List NormalizedPath} {base : Path} {arg : Text} {rest r : List Text}
      {deps : List (NormalizedPath × D)} (hfile : fileArg arg = none)
      (hrest : Expands left seen base rest r deps) :
      Expands left seen base (arg :: rest) (arg :: r) deps
  | file {left : ℕ} {seen : List NormalizedPath} {base : Path} {arg name : Text}
      {rest r r' : List Text} {deps deps' : List (NormalizedPath × D)} {o : Opened B}
      (hfile : fileArg arg = some name) (ho : Opens decode here F seen (resolvePath base name) o)
      (hinner : Expands left (o.canonical :: seen) o.dir (parseResponseFileContent o.content) r
        deps) (hrest : Expands (left + 1) seen base rest r' deps') :
      Expands (left + 1) seen base (arg :: rest) (r ++ r')
        ((o.canonical, hash o.file) :: deps ++ deps')

/-- A recursion with a state: `seen` are the files that it expands, `enter` and `leave` say what it
does when it opens a file and after it, and `note` what is left of the files that it has read. -/
structure Follows {σ : Type} (expand : ℕ → Path → Expander σ) (seen : σ → List NormalizedPath)
    (enter : Opened B → σ → σ) (leave : NormalizedPath → σ → σ)
    (note : List (NormalizedPath × D) → σ → σ) : Prop where
  note_nil : ∀ s, note [] s = s
  note_append : ∀ deps deps' s, note (deps ++ deps') s = note deps' (note deps s)
  seen_note : ∀ deps s, seen (note deps s) = seen s
  seen_enter : ∀ o s, seen (enter o s) = o.canonical :: seen s
  leave_note : ∀ o deps s, leave o.canonical (note deps (enter o s)) =
    note ((o.canonical, hash o.file) :: deps) s
  ok_iff : ∀ left base path s r s', expand left base path s = .ok (r, s') ↔
    ∃ lower o nested, left = lower + 1 ∧ Opens decode here F (seen s) path o ∧
      expandEach (expand lower o.dir) o.dir (parseResponseFileContent o.content) (enter o s) =
        .ok (r, nested) ∧ s' = leave o.canonical nested

end Relation

variable {σ : Type} {decode : B → Option Text} {hash : B → D} {here base : Path} {F : FileMap B}
  {left : ℕ} {seen : List NormalizedPath} {arg : Text} {args r : List Text}
  {deps : List (NormalizedPath × D)} {path canonical : NormalizedPath}

theorem expandEach_cons_eq_ok {expand : Expander σ} {rest : List Text} {s s' : σ} :
    expandEach expand base (arg :: rest) s = .ok (r, s') ↔
      ∃ front middle tail, expandArg expand base arg s = .ok (front, middle) ∧
        expandEach expand base rest middle = .ok (tail, s') ∧ r = front ++ tail := by
  simp only [expandEach, bind_eq_ok, Except.ok.injEq, Prod.mk.injEq, Prod.exists]
  constructor
  · rintro ⟨front, middle, hfront, tail, s'', htail, rfl, rfl⟩
    exact ⟨front, middle, tail, hfront, htail, rfl⟩
  · rintro ⟨front, middle, tail, hfront, htail, rfl⟩
    exact ⟨front, middle, hfront, tail, s', htail, rfl, rfl⟩

namespace Follows

variable {expand : ℕ → Path → Expander σ} {seen : σ → List NormalizedPath}
  {enter : Opened B → σ → σ} {leave : NormalizedPath → σ → σ}
  {note : List (NormalizedPath × D) → σ → σ}
  (hF : Follows decode hash here F expand seen enter leave note)

include hF

theorem expands (base' : Path) {s s' : σ}
    (h : expandEach (expand left base') base args s = .ok (r, s')) :
    ∃ deps, Expands decode hash here F left (seen s) base args r deps ∧ s' = note deps s := by
  induction left using Nat.strong_induction_on generalizing base' base args s r s' with
  | _ left ih =>
    induction args generalizing s r with
    | nil =>
      obtain ⟨rfl, rfl⟩ := Prod.mk.inj (Except.ok.inj h)
      exact ⟨[], .nil .., (hF.note_nil s).symm⟩
    | cons arg rest ihrest =>
      obtain ⟨front, middle, tail, hfront, htail, rfl⟩ := expandEach_cons_eq_ok.mp h
      unfold expandArg at hfront
      cases hfile : fileArg arg with
      | none =>
        rw [hfile] at hfront
        obtain ⟨rfl, rfl⟩ := Prod.mk.inj (Except.ok.inj hfront)
        obtain ⟨deps, hrest, rfl⟩ := ihrest htail
        exact ⟨deps, .plain hfile hrest, rfl⟩
      | some name =>
        rw [hfile] at hfront
        obtain ⟨lower, o, nested, rfl, ho, hnest, rfl⟩ := (hF.ok_iff ..).mp hfront
        obtain ⟨deps, hinner, rfl⟩ := ih lower (Nat.lt_succ_self lower) _ hnest
        obtain ⟨deps', hrest, rfl⟩ := ihrest htail
        rw [hF.seen_enter] at hinner
        rw [hF.leave_note, hF.seen_note] at hrest
        refine ⟨_, .file hfile ho hinner hrest, ?_⟩
        rw [hF.leave_note, hF.note_append]

theorem expandEach_of_expands {files : List NormalizedPath} {s : σ}
    (h : Expands decode hash here F left files base args r deps) (hseen : seen s = files)
    (base' : Path) : expandEach (expand left base') base args s = .ok (r, note deps s) := by
  induction h generalizing s base' with
  | nil => rw [hF.note_nil, expandEach]
  | plain hfile _ ih =>
    refine expandEach_cons_eq_ok.mpr ⟨[_], s, _, ?_, ih hseen base', rfl⟩
    rw [expandArg, hfile]
  | @file _ _ _ _ _ _ _ _ deps _ o hfile ho _ _ ihinner ihrest =>
    subst hseen
    have hinner := ihinner (hF.seen_enter o s) o.dir
    refine expandEach_cons_eq_ok.mpr
      ⟨_, note ((o.canonical, hash o.file) :: deps) s, _, ?_, ?_, rfl⟩
    · rw [expandArg, hfile, ← hF.leave_note]
      exact (hF.ok_iff ..).mpr ⟨_, o, _, rfl, ho, hinner, rfl⟩
    · rw [hF.note_append]
      exact ihrest (hF.seen_note _ s) base'

end Follows

theorem canonicalize_eq_some :
    canonicalize here F path = some canonical ↔
      canonical = .ofPath (Unix.join here path.path) ∧ canonical ∈ F.files := by
  unfold canonicalize
  dsimp only
  split_ifs with h
  · constructor
    · intro heq
      obtain rfl := Option.some.inj heq
      exact ⟨rfl, h⟩
    · rintro ⟨rfl, -⟩
      rfl
  · simp only [false_iff, not_and]
    rintro rfl
    exact h

theorem canonicalize_canonical (h : canonicalize here F path = some canonical) :
    canonicalize here F canonical = some canonical := by
  obtain ⟨-, hmem⟩ := canonicalize_eq_some.mp h
  refine canonicalize_eq_some.mpr ⟨?_, hmem⟩
  rw [Unix.join, if_pos (F.absolute canonical hmem), NormalizedPath.ofPath_path]

theorem exists_parent (h : canonicalize here F path = some canonical) :
    ∃ dir, parent canonical.path = some dir :=
  Option.isSome_iff_exists.mp (F.parent canonical (canonicalize_eq_some.mp h).2)

theorem follows_expandFile (hash : B → D) :
    Follows decode hash here F (expandFile decode here F) id (fun o => cons o.canonical)
      (fun canonical seen => seen.erase canonical) (fun _ => id) where
  note_nil _ := rfl
  note_append _ _ _ := rfl
  seen_note _ _ := rfl
  seen_enter _ _ := rfl
  leave_note _ _ _ := erase_cons_head ..
  ok_iff left base path seen r seen' := by
    cases left with
    | zero => simp [expandFile]
    | succ left =>
      simp only [expandFile, bind_eq_ok, orFail_eq_ok, require_eq_ok,
        Except.ok.injEq, Prod.mk.injEq, exists_const, Prod.exists, Option.bind_eq_some_iff]
      constructor
      · rintro ⟨canonical, hcanon, hseen, content, ⟨file, hfile, hdec⟩, nested, state, hnest,
          rfl, rfl⟩
        obtain ⟨dir, hdir⟩ := exists_parent hcanon
        rw [hdir] at hnest
        exact ⟨left, ⟨canonical, file, content, dir⟩, state, rfl,
          ⟨hcanon, hseen, hfile, hdec, hdir⟩, hnest, rfl⟩
      · rintro ⟨_, ⟨canonical, file, content, dir⟩, state, ⟨⟩, ⟨hcanon, hseen, hfile, hdec, hdir⟩,
          hnest, rfl⟩
        refine ⟨canonical, hcanon, hseen, content, ⟨file, hfile, hdec⟩, r, state, ?_, rfl, rfl⟩
        rwa [hdir]

theorem follows_expandRspRecursive :
    Follows decode hash here F (fun left _ => expandRspRecursive decode hash here F left)
      Progress.seen (fun o p => ⟨o.canonical :: p.seen,
        p.dependencies ++ [(o.canonical, hash o.file)]⟩)
      (fun canonical p => { p with seen := p.seen.erase canonical })
      (fun deps p => { p with dependencies := p.dependencies ++ deps }) where
  note_nil _ := by simp
  note_append _ _ _ := by simp
  seen_note _ _ := rfl
  seen_enter _ _ := rfl
  leave_note _ _ _ := by simp
  ok_iff left base path p r p' := by
    cases left with
    | zero => simp [expandRspRecursive]
    | succ left =>
      simp only [expandRspRecursive, bind_eq_ok, orFail_eq_ok, require_eq_ok,
        Except.ok.injEq, Prod.mk.injEq, exists_const, Prod.exists, Option.map_eq_some_iff,
        Option.bind_eq_some_iff]
      constructor
      · rintro ⟨canonical, hcanon, hseen, _, ⟨file, hfile, rfl⟩, content, ⟨_, hfile', hdec⟩,
          nested, state, hnest, rfl, rfl⟩
        obtain rfl := Option.some.inj (hfile.symm.trans hfile')
        obtain ⟨dir, hdir⟩ := exists_parent hcanon
        rw [hdir] at hnest
        exact ⟨left, ⟨canonical, file, content, dir⟩, state, rfl,
          ⟨hcanon, hseen, hfile, hdec, hdir⟩, hnest, rfl⟩
      · rintro ⟨_, ⟨canonical, file, content, dir⟩, state, ⟨⟩, ⟨hcanon, hseen, hfile, hdec, hdir⟩,
          hnest, rfl⟩
        refine ⟨canonical, hcanon, hseen, _, ⟨file, hfile, rfl⟩, content, ⟨file, hfile, hdec⟩, r,
          state, ?_, rfl, rfl⟩
        rwa [hdir]

theorem expandEach_singleton {expand : Expander σ} {s s' : σ} :
    expandEach expand base [arg] s = .ok (r, s') ↔ expandArg expand base arg s = .ok (r, s') := by
  rw [expandEach_cons_eq_ok]
  constructor
  · rintro ⟨front, middle, tail, hfront, htail, rfl⟩
    obtain ⟨rfl, rfl⟩ := Prod.mk.inj (Except.ok.inj htail)
    rwa [append_nil]
  · intro hexp
    exact ⟨r, s', [], hexp, rfl, (append_nil r).symm⟩

theorem expandResponseFilesIn_eq_ok :
    expandResponseFilesIn decode here F args base = .ok r ↔
      expandEach (expandFile decode here F maxDepth base) base args [] = .ok (r, []) := by
  simp only [expandResponseFilesIn, expandRecursive, map_eq_ok, Prod.exists]
  constructor
  · rintro ⟨_, seen, hexp, rfl⟩
    obtain ⟨_, -, rfl⟩ := (follows_expandFile fun _ => ()).expands _ hexp
    exact hexp
  · intro hexp
    exact ⟨r, [], hexp, rfl⟩

/-- The result is the arguments with every reference substituted. -/
theorem expandResponseFilesIn_iff (hash : B → D) :
    expandResponseFilesIn decode here F args base = .ok r ↔
      ∃ deps, Expands decode hash here F maxDepth [] base args r deps := by
  rw [expandResponseFilesIn_eq_ok]
  constructor
  · intro hexp
    obtain ⟨deps, hdeps, -⟩ := (follows_expandFile hash).expands _ hexp
    exact ⟨deps, hdeps⟩
  · rintro ⟨deps, hdeps⟩
    exact (follows_expandFile hash).expandEach_of_expands hdeps rfl base

theorem expandResponseFilesIn_of_fileArg {name : Text} (hash : B → D)
    (hfile : fileArg arg = some name) :
    expandResponseFilesIn decode here F [arg] base = .ok r ↔
      ∃ progress, expandRspRecursive decode hash here F maxDepth (resolvePath base name) ⟨[], []⟩ =
        .ok (r, progress) := by
  have harg : ∀ s, expandArg (expandRspRecursive decode hash here F maxDepth) base arg s =
      expandRspRecursive decode hash here F maxDepth (resolvePath base name) s := by
    intro s
    rw [expandArg, hfile]
  rw [expandResponseFilesIn_iff hash]
  constructor
  · rintro ⟨deps, hdeps⟩
    have hexp := follows_expandRspRecursive.expandEach_of_expands (s := ⟨[], []⟩) hdeps rfl base
    exact ⟨_, (harg _).symm.trans (expandEach_singleton.mp hexp)⟩
  · rintro ⟨progress, hexp⟩
    have hone := expandEach_singleton.mpr ((harg _).trans hexp)
    obtain ⟨deps, hdeps, -⟩ := follows_expandRspRecursive.expands base hone
    exact ⟨deps, hdeps⟩

theorem expandResponseFilesIn_cons_eq_ok :
    expandResponseFilesIn decode here F (arg :: args) base = .ok r ↔
      ∃ front tail, expandResponseFilesIn decode here F [arg] base = .ok front ∧
        expandResponseFilesIn decode here F args base = .ok tail ∧ r = front ++ tail := by
  simp only [expandResponseFilesIn_eq_ok, expandEach_singleton]
  rw [expandEach_cons_eq_ok]
  constructor
  · rintro ⟨front, middle, tail, hfront, htail, rfl⟩
    obtain ⟨_, -, rfl⟩ := (follows_expandFile fun _ => ()).expands _
      (expandEach_singleton.mpr hfront)
    exact ⟨front, tail, hfront, htail, rfl⟩
  · rintro ⟨front, tail, hfront, htail, rfl⟩
    exact ⟨front, [], tail, hfront, htail, rfl⟩

/-- The reference, argument by argument: a reference that fails is passed on as it is. -/
def expandOne (decode : B → Option Text) (here : Path) (F : FileMap B) (base : Path) (arg : Text) :
    List Text :=
  (expandResponseFilesIn decode here F [arg] base).toOption.getD [arg]

theorem expandOne_of_none (hfile : fileArg arg = none) :
    expandOne decode here F base arg = [arg] := by
  have hone : expandResponseFilesIn decode here F [arg] base = .ok [arg] :=
    (expandResponseFilesIn_iff fun _ => ()).mpr ⟨[], .plain hfile (.nil ..)⟩
  rw [expandOne, hone]
  rfl

theorem flatMap_expandOne (h : expandResponseFilesIn decode here F args base = .ok r) :
    args.flatMap (expandOne decode here F base) = r := by
  induction args generalizing r with
  | nil =>
    obtain rfl := Except.ok.inj h
    rfl
  | cons arg args ih =>
    obtain ⟨front, tail, hfront, htail, rfl⟩ := expandResponseFilesIn_cons_eq_ok.mp h
    rw [flatMap_cons, ih htail, expandOne, hfront]
    rfl

section Failures

variable (decode here F)

/-- A reference to `path` is met while the files in `seen` are expanded and `left` levels may be
opened. -/
inductive Reaches : ℕ → List NormalizedPath → Path → List Text → ℕ → List NormalizedPath →
    NormalizedPath → Prop
  | here {left : ℕ} {seen : List NormalizedPath} {base : Path} {arg name : Text}
      (rest : List Text) (hfile : fileArg arg = some name) :
      Reaches left seen base (arg :: rest) left seen (resolvePath base name)
  | inside {left left' : ℕ} {seen seen' : List NormalizedPath} {base : Path} {arg name : Text}
      {path : NormalizedPath} {o : Opened B} (rest : List Text) (hfile : fileArg arg = some name)
      (ho : Opens decode here F seen (resolvePath base name) o)
      (hinner : Reaches left (o.canonical :: seen) o.dir (parseResponseFileContent o.content) left'
        seen' path) : Reaches (left + 1) seen base (arg :: rest) left' seen' path
  | later {left left' : ℕ} {seen seen' : List NormalizedPath} {base : Path} {rest : List Text}
      {path : NormalizedPath} (arg : Text) (hrest : Reaches left seen base rest left' seen' path) :
      Reaches left seen base (arg :: rest) left' seen' path

variable {decode here F}

theorem Opens.unique {o o' : Opened B} (h : Opens decode here F seen path o)
    (h' : Opens decode here F seen path o') : o' = o := by
  obtain ⟨canonical, file, content, dir⟩ := o
  obtain ⟨canonical', file', content', dir'⟩ := o'
  obtain rfl := Option.some.inj (h'.canonicalize.symm.trans h.canonicalize)
  obtain rfl := Option.some.inj (h'.lookup.symm.trans h.lookup)
  obtain rfl := Option.some.inj (h'.decode.symm.trans h.decode)
  obtain rfl := Option.some.inj (h'.parent.symm.trans h.parent)
  rfl

theorem Expands.opens {left' : ℕ} {seen' : List NormalizedPath}
    (h : Expands decode hash here F left seen base args r deps)
    (hreach : Reaches decode here F left seen base args left' seen' path) :
    left' ≠ 0 ∧ ∃ o, Opens decode here F seen' path o := by
  induction h with
  | nil => cases hreach
  | plain hfile _ ih =>
    cases hreach with
    | here _ hfile' | inside _ hfile' =>
      rw [hfile] at hfile'
      cases hfile'
    | later _ hrest => exact ih hrest
  | file hfile ho _ _ ihinner ihrest =>
    cases hreach with
    | here _ hfile' =>
      obtain rfl := Option.some.inj (hfile.symm.trans hfile')
      exact ⟨nofun, _, ho⟩
    | inside _ hfile' ho' hinner =>
      obtain rfl := Option.some.inj (hfile.symm.trans hfile')
      obtain rfl := ho.unique ho'
      exact ihinner hinner
    | later _ hrest => exact ihrest hrest

theorem exists_expands (hash : B → D) (h : ∀ left' seen' path,
    Reaches decode here F left seen base args left' seen' path →
      left' ≠ 0 ∧ ∃ o, Opens decode here F seen' path o) :
    ∃ r deps, Expands decode hash here F left seen base args r deps := by
  induction left using Nat.strong_induction_on generalizing seen base args with
  | _ left ih =>
    induction args with
    | nil => exact ⟨_, _, .nil ..⟩
    | cons arg rest ihrest =>
      obtain ⟨r', deps', hrest⟩ := ihrest fun _ _ _ hreach => h _ _ _ (.later arg hreach)
      cases hfile : fileArg arg with
      | none => exact ⟨_, _, .plain hfile hrest⟩
      | some name =>
        obtain ⟨hleft, o, ho⟩ := h _ _ _ (.here rest hfile)
        obtain ⟨lower, rfl⟩ := Nat.exists_eq_succ_of_ne_zero hleft
        obtain ⟨r, deps, hinner⟩ := ih lower (Nat.lt_succ_self lower) fun _ _ _ hreach =>
          h _ _ _ (.inside rest hfile ho hreach)
        exact ⟨_, _, .file hfile ho hinner hrest⟩

/-- The expansion is the arguments with every reference substituted. It fails exactly if a
reference is met that is nested too deep or opens no file, and each argument is expanded by
itself. -/
theorem expandResponseFilesIn_substitutes (decode : B → Option Text) (here : Path) (F : FileMap B)
    (args : List Text) (base : Path) :
    (∀ r, expandResponseFilesIn decode here F args base = .ok r ↔
      ∃ deps, Expands decode id here F maxDepth [] base args r deps) ∧
    ((∃ e, expandResponseFilesIn decode here F args base = .error e) ↔
      ∃ left seen path, Reaches decode here F maxDepth [] base args left seen path ∧
        (left = 0 ∨ ∀ o, ¬ Opens decode here F seen path o)) ∧
    ∀ r arg front, expandResponseFilesIn decode here F [arg] base = .ok front →
      expandResponseFilesIn decode here F args base = .ok r →
        expandResponseFilesIn decode here F (arg :: args) base = .ok (front ++ r) := by
  refine ⟨fun r => expandResponseFilesIn_iff id, ?_, fun r arg front hfront hargs => ?_⟩
  · constructor
    · rintro ⟨e, he⟩
      by_contra! hopen
      obtain ⟨r, hexp⟩ := exists_expands (id : B → B) hopen
      rw [(expandResponseFilesIn_iff id).mpr hexp] at he
      cases he
    · rintro ⟨left, seen, path, hreach, hstuck⟩
      cases hres : expandResponseFilesIn decode here F args base with
      | error e => exact ⟨e, rfl⟩
      | ok r =>
        obtain ⟨deps, hexp⟩ := (expandResponseFilesIn_iff id).mp hres
        obtain ⟨hleft, o, ho⟩ := hexp.opens hreach
        exact absurd ho (hstuck.resolve_left hleft o)
  · exact expandResponseFilesIn_cons_eq_ok.mpr ⟨front, r, hfront, hargs, rfl⟩

end Failures

section Stability

variable [DecidableEq D] {F' : FileMap B}

theorem isFresh_iff :
    isFresh hash F deps = true ↔
      ∀ dep ∈ deps, (F.files.lookup dep.1).map hash = some dep.2 := by
  simp [isFresh]

variable (hhash : Function.Injective hash)

include hhash

omit [DecidableEq D] in
theorem Opens.stable {o : Opened B} (h : Opens decode here F seen path o)
    (hfresh : (F'.files.lookup o.canonical).map hash = some (hash o.file)) :
    Opens decode here F' seen path o := by
  obtain ⟨file, hfile, heq⟩ := Option.map_eq_some_iff.mp hfresh
  obtain rfl := hhash heq
  refine { h with lookup := hfile, canonicalize := canonicalize_eq_some.mpr ⟨?_, ?_⟩ }
  · exact (canonicalize_eq_some.mp h.canonicalize).1
  · exact AList.lookup_isSome.mp (by rw [hfile]; rfl)

/-- An expansion is repeated wherever the files that were read have their contents. -/
theorem Expands.stable (h : Expands decode hash here F left seen base args r deps)
    (hfresh : isFresh hash F' deps = true) :
    Expands decode hash here F' left seen base args r deps := by
  rw [isFresh_iff] at hfresh
  induction h with
  | nil => exact .nil ..
  | plain hfile _ ih => exact .plain hfile (ih hfresh)
  | file hfile ho _ _ ihinner ihrest =>
    simp only [cons_append, forall_mem_cons, forall_mem_append] at hfresh
    exact .file hfile (ho.stable hhash hfresh.1) (ihinner hfresh.2.1) (ihrest hfresh.2.2)

theorem expandRspRecursive_stable {progress : Progress D}
    (h : expandRspRecursive decode hash here F left path ⟨[], []⟩ = .ok (r, progress))
    (hfresh : isFresh hash F' progress.dependencies = true) :
    expandRspRecursive decode hash here F' left path ⟨[], []⟩ = .ok (r, progress) := by
  obtain ⟨lower, o, nested, rfl, ho, hnest, rfl⟩ :=
    (follows_expandRspRecursive.ok_iff _ here ..).mp h
  obtain ⟨deps, hinner, rfl⟩ := follows_expandRspRecursive.expands o.dir hnest
  have hdeps := isFresh_iff.mp hfresh
  have hrest : isFresh hash F' deps = true :=
    isFresh_iff.mpr fun dep hdep => hdeps dep (mem_append_right _ hdep)
  exact (follows_expandRspRecursive.ok_iff _ here ..).mpr ⟨lower, o, _, rfl,
    ho.stable hhash (hdeps _ (mem_append_left _ mem_cons_self)),
    follows_expandRspRecursive.expandEach_of_expands (hinner.stable hhash hrest) rfl o.dir, rfl⟩

end Stability

variable [DecidableEq D] {cache : RspCache D}

/-- An entry is the expansion of its file wherever it is fresh. -/
def Sound (decode : B → Option Text) (hash : B → D) (here : Path) (cache : RspCache D) : Prop :=
  ∀ path entry, cache.lookup path = some entry →
    ∀ F : FileMap B, isFresh hash F entry.dependencies = true →
      ∃ progress, expandRspRecursive decode hash here F maxDepth path ⟨[], []⟩ =
        .ok (entry.expanded, progress)

variable {path : NormalizedPath} {r : List Text}

section

variable (h : Sound decode hash here cache) (hhash : Function.Injective hash)

include h hhash

theorem Sound.insert {progress : Progress D}
    (hexp : expandRspRecursive decode hash here F maxDepth path ⟨[], []⟩ = .ok (r, progress)) :
    Sound decode hash here (cache.insert path ⟨r, progress.dependencies⟩) := by
  intro path' entry hlook F' hfresh
  rw [lookup_insert_eq_ite] at hlook
  split_ifs at hlook with hpath
  · obtain rfl := Option.some.inj hlook
    exact ⟨progress, hpath ▸ expandRspRecursive_stable hhash hexp hfresh⟩
  · exact h path' entry hlook F' hfresh

theorem expandRspArgCached_spec (resolved : NormalizedPath) :
    (∀ r, (expandRspArgCached decode hash here F cache resolved).1 = .ok r ↔
        ∃ progress, expandRspRecursive decode hash here F maxDepth resolved ⟨[], []⟩ =
          .ok (r, progress)) ∧
      Sound decode hash here (expandRspArgCached decode hash here F cache resolved).2 := by
  unfold expandRspArgCached
  cases hcanon : canonicalize here F resolved with
  | none => exact ⟨fun r => by simp [maxDepth, expandRspRecursive, hcanon, orFail], h⟩
  | some canonical =>
    have hsame : expandRspRecursive decode hash here F maxDepth resolved ⟨[], []⟩ =
        expandRspRecursive decode hash here F maxDepth canonical ⟨[], []⟩ := by
      simp only [maxDepth, expandRspRecursive, hcanon, canonicalize_canonical hcanon]
      rfl
    simp only [hsame]
    split
    next cached hcached =>
      obtain ⟨hlook, hfresh⟩ := Option.filter_eq_some_iff.mp hcached
      obtain ⟨progress, hexp⟩ := h canonical cached hlook F hfresh
      exact ⟨fun r => by simp [hexp], h⟩
    next =>
      cases hexp : expandRspRecursive decode hash here F maxDepth canonical ⟨[], []⟩ with
      | error fault => exact ⟨fun r => by simp, h⟩
      | ok expanded => exact ⟨fun r => by simp [Prod.ext_iff], h.insert hhash hexp⟩

theorem expandEachCached_spec (cwd : Path) (args : List Text) :
    (expandEachCached decode hash here F cwd cache args).1 =
        args.flatMap (expandOne decode here F cwd) ∧
      Sound decode hash here (expandEachCached decode hash here F cwd cache args).2 := by
  induction args generalizing cache with
  | nil => exact ⟨rfl, h⟩
  | cons arg rest ih =>
    rw [flatMap_cons, expandEachCached]
    cases hfile : fileArg arg with
    | none =>
      obtain ⟨htail, hsound⟩ := ih h
      refine ⟨?_, hsound⟩
      rw [expandOne_of_none hfile]
      exact congrArg (arg :: ·) htail
    | some filename =>
      obtain ⟨hok, hcache⟩ :=
        expandRspArgCached_spec (F := F) h hhash (resolvePath cwd filename)
      obtain ⟨htail, hsound⟩ := ih hcache
      have hone : (expandRspArgCached decode hash here F cache
          (resolvePath cwd filename)).1.toOption =
            (expandResponseFilesIn decode here F [arg] cwd).toOption := by
        apply toOption_congr
        intro r
        rw [hok, expandResponseFilesIn_of_fileArg hash hfile]
      refine ⟨?_, hsound⟩
      rw [expandOne, ← hone, ← htail]

theorem expandArgsCached_spec (cwd : Path) (args : List Text) :
    (expandArgsCached decode hash here F cache args cwd).1 =
        args.flatMap (expandOne decode here F cwd) ∧
      Sound decode hash here (expandArgsCached decode hash here F cache args cwd).2 := by
  unfold expandArgsCached
  split_ifs with hany
  · exact expandEachCached_spec h hhash cwd args
  · -- Without a reference every argument is passed on as it is.
    refine ⟨?_, h⟩
    have hone : ∀ arg ∈ args, expandOne decode here F cwd arg = [arg] := by
      intro arg harg
      have hfile : fileArg arg = none := by
        simp only [any_eq_true, not_exists, not_and, Bool.not_eq_true,
          Option.isSome_eq_false_iff, Option.isNone_iff_eq_none] at hany
        exact hany arg harg
      exact expandOne_of_none hfile
    rw [flatMap_congr hone, flatMap_singleton']

end

def State.Sound (decode : B → Option Text) (hash : B → D) (here : Path) (s : State B D) : Prop :=
  ResponseFile.Sound decode hash here s.cache

theorem State.Sound.step (hhash : Function.Injective hash) (s : State B D) (event : Event B)
    (h : s.Sound decode hash here) : (s.step decode hash here event).Sound decode hash here := by
  cases event with
  | edit files => exact h
  | expand args cwd => exact (expandArgsCached_spec h hhash cwd args).2
  | trim keep =>
    intro path entry hlook
    simp only [State.step, lookup_filter, Option.filter_eq_some_iff] at hlook
    exact h path entry hlook.1

def after (decode : B → Option Text) (hash : B → D) (here : Path) (files : FileMap B)
    (events : List (Event B)) : State B D :=
  run (State.step decode hash here) ⟨files, ∅⟩ events

theorem sound_after (hhash : Function.Injective hash) (files : FileMap B)
    (events : List (Event B)) :
    (after decode hash here files events).Sound decode hash here :=
  run_invariant (fun path entry hlook => by simp at hlook) (State.Sound.step hhash) events

/-- After every history a request is expanded as the reference expands it now. -/
theorem expandArgsCached_agrees (hhash : Function.Injective hash) (files : FileMap B)
    (events : List (Event B)) (args : List Text) (cwd : Path) :
    let s := after decode hash here files events
    (expandArgsCached decode hash here s.files s.cache args cwd).1 =
        args.flatMap (fun arg =>
          (expandResponseFilesIn decode here s.files [arg] cwd).toOption.getD [arg]) ∧
      ∀ r, expandResponseFilesIn decode here s.files args cwd = .ok r →
        (expandArgsCached decode hash here s.files s.cache args cwd).1 = r := by
  intro s
  have hsound : s.Sound decode hash here := sound_after hhash files events
  have hspec := (expandArgsCached_spec (F := s.files) hsound hhash cwd args).1
  refine ⟨hspec, fun r hr => ?_⟩
  rw [hspec, flatMap_expandOne hr]

/-- Two files, the first of which refers to the second one twice. -/
def nestedFiles (flags : String) : FileMap Text where
  files :=
    (∅ : Map NormalizedPath Text) |>.insert (.new "/r/a.rsp") "@b.rsp -c @../r/b.rsp"
      |>.insert (.new "/r/b.rsp") flags.toList
  absolute p hp := by
    simp only [AList.mem_insert, AList.notMem_empty, or_false] at hp
    rcases hp with rfl | rfl <;> decide
  parent p hp := by
    simp only [AList.mem_insert, AList.notMem_empty, or_false] at hp
    rcases hp with rfl | rfl <;> decide

/-- The inner file is edited between two requests. -/
theorem expandArgsCached_agrees_nested :
    let s := after some id (components ['/']) (nestedFiles "-O0")
      [.expand (texts ["@/r/a.rsp"]) [], .edit (nestedFiles "-O2")]
    (expandArgsCached some id (components ['/']) s.files s.cache (texts ["@/r/a.rsp", "@"]) []).1 =
      texts ["-O2", "-c", "-O2", "@"] :=
  (expandArgsCached_agrees Function.injective_id (nestedFiles "-O0") _
    (texts ["@/r/a.rsp", "@"]) []).2 _ (by decide +kernel)

end Zccache.ResponseFile
