import Mathlib.Data.Multiset.Basic
import Zccache.Base.PrefixCode
import Zccache.Graph.Agreement

/-! # What an artifact key stands for

The inputs of an artifact key as data. With an injective digest the key
determines them, up to the order in which files and externs were listed.
-/

namespace Zccache

open List Unix StableSort PrefixCode

variable {D : Type}

def pathKey (p : NormalizedPath) (keyRoot : Option Path) : Name :=
  ⟨normalizeKeyPath p.path keyRoot, nul_notMem_normalizeKeyPath p.path keyRoot⟩

theorem pathKey_inj {p q : NormalizedPath} (hp : IsAbsolute p.path) (hq : IsAbsolute q.path)
    {keyRoot : Option Path} (h : pathKey p keyRoot = pathKey q keyRoot) : p = q := by
  have hkey : normalizeKeyPath p.path keyRoot = normalizeKeyPath q.path keyRoot :=
    congrArg Subtype.val h
  -- a path below the root and one outside of it have different texts
  have hclash : ∀ {p q : NormalizedPath} {root rest : Path}, IsAbsolute p.path →
      IsAbsolute q.path → p.path = root ++ rest → ¬ root <+: q.path →
      normalizeForKey rest ≠ normalizeForKey q.path := by
    intro p q root rest hp hq hrest hout heq
    have hnorm : isNormalForm rest = true := isNormalForm_of_append (hrest ▸ p.isNormal)
    rw [normalizeForKey, normalizeForKey, normalize_of_isNormalForm hnorm, q.normalize_path]
      at heq
    obtain rfl := toText_injective hnorm q.isNormal heq
    have hne : root ≠ [] := fun hroot => hout (hroot ▸ nil_prefix)
    obtain ⟨tail, htail, -⟩ := hq
    exact rootDir_notMem_of_append (hrest ▸ hp) hne (by rw [htail]; exact mem_cons_self)
  unfold normalizeKeyPath at hkey
  cases keyRoot with
  | none => exact NormalizedPath.caseKey_inj.mp hkey
  | some root =>
    simp only [Option.bind_some] at hkey
    cases hsp : stripPrefix p.path root with
    | none =>
      cases hsq : stripPrefix q.path root with
      | none =>
        rw [hsp, hsq] at hkey
        exact NormalizedPath.caseKey_inj.mp hkey
      | some rest =>
        rw [hsp, hsq] at hkey
        exact absurd hkey.symm (hclash hq hp (stripPrefix_eq_some.mp hsq)
          (stripPrefix_eq_none.mp hsp))
    | some rest =>
      cases hsq : stripPrefix q.path root with
      | none =>
        rw [hsp, hsq] at hkey
        exact absurd hkey (hclash hp hq (stripPrefix_eq_some.mp hsp) (stripPrefix_eq_none.mp hsq))
      | some rest' =>
        rw [hsp, hsq] at hkey
        have hpath := stripPrefix_eq_some.mp hsp
        have hpath' := stripPrefix_eq_some.mp hsq
        have hnorm : isNormalForm rest = true := isNormalForm_of_append (hpath ▸ p.isNormal)
        have hnorm' : isNormalForm rest' = true := isNormalForm_of_append (hpath' ▸ q.isNormal)
        dsimp only at hkey
        rw [normalizeForKey, normalizeForKey, normalize_of_isNormalForm hnorm,
          normalize_of_isNormalForm hnorm'] at hkey
        exact NormalizedPath.ext (by rw [hpath, hpath', toText_injective hnorm hnorm' hkey])

/-- What a rustc key adds: the externs, and the environment sorted by name. -/
structure RustcInputs (D : Type) where
  externs : List (Name × D)
  env : List (Name × Option D)

/-- Everything an artifact key is computed from. -/
structure KeyInputs (D : Type) where
  logicalKey : ContextKey D
  files : List (Name × D)
  rustc : Option (RustcInputs D)

/-- The same inputs, with files and externs as multisets. -/
structure KeyInputs.Same (i j : KeyInputs D) : Prop where
  logicalKey : i.logicalKey = j.logicalKey
  files : (i.files : Multiset (Name × D)) = j.files
  externs : i.rustc.map (fun r => (r.externs : Multiset (Name × D))) =
    j.rustc.map (fun r => (r.externs : Multiset (Name × D)))
  env : i.rustc.map RustcInputs.env = j.rustc.map RustcInputs.env

section Fields

variable (l : List (Name × D))

def namedFields : List (Field D) :=
  fileFields (l.map fun f => (f.1.val, f.2))

theorem externFields_eq : externFields l = namedFields l := by
  rw [externFields, namedFields, fileFields, flatMap_map]

theorem namedFields_nulFree :
    ∀ f ∈ namedFields l, Atom.ch nul ∉ f := by
  intro f hf
  rw [← externFields_eq] at hf
  obtain ⟨x, -, hf⟩ := mem_flatMap.mp hf
  rcases mem_cons.mp hf with rfl | hf
  · exact nul_notMem_text.mpr x.1.property
  · rw [mem_singleton.mp hf]
    exact nul_notMem_raw x.2

theorem delimits_named :
    Delimits (fun _ => True) fun f : Name × D => [text f.1.val, raw f.2] := by
  refine delimits_of_length (n := 2) (fun _ => rfl) fun f g _ _ h => ?_
  obtain ⟨hname, htail⟩ := cons.inj h
  exact Prod.ext (Subtype.ext (text_injective hname)) (raw_injective (cons.inj htail).1)

theorem namedFields_injective {l l' : List (Name × D)} (h : namedFields l = namedFields l') :
    l = l' := by
  rw [← externFields_eq, ← externFields_eq] at h
  exact delimits_named.flatMap_inj (by simp) (by simp) (by simp) h

/-- The tag between the files and the externs cannot be taken for a file: a file's name is
followed by a raw digest, the tag by a text or by nothing. -/
theorem filesThenExterns_injective {t : Text} {fs fs' xs xs' : List (Name × D)}
    (h : namedFields fs ++ text t :: namedFields xs =
      namedFields fs' ++ text t :: namedFields xs') : fs = fs' ∧ xs = xs' := by
  have hclash : ∀ {f : Name × D} {fs xs xs' : List (Name × D)},
      text t :: namedFields xs ≠ namedFields (f :: fs) ++ text t :: namedFields xs' := by
    intro f fs xs xs' h
    have htail := (cons.inj h).2
    cases xs with
    | nil => cases htail
    | cons x xs => exact text_ne_raw _ _ (cons.inj htail).1
  induction fs generalizing fs' with
  | nil =>
    cases fs' with
    | nil => exact ⟨rfl, namedFields_injective (cons.inj h).2⟩
    | cons f fs' => exact absurd h hclash
  | cons f fs ih =>
    cases fs' with
    | nil => exact absurd h.symm hclash
    | cons f' fs' =>
      obtain ⟨rfl, htail⟩ := delimits_named trivial trivial h
      obtain ⟨rfl, rfl⟩ := ih htail
      exact ⟨rfl, rfl⟩

theorem envFields_nulFree (l : List (Name × Option D)) :
    ∀ f ∈ envFields l, Atom.ch nul ∉ f := by
  intro f hf
  obtain ⟨⟨name, value⟩, -, hf⟩ := mem_flatMap.mp hf
  rcases mem_cons.mp hf with rfl | hf
  · exact nul_notMem_text.mpr name.property
  · rw [mem_singleton.mp hf]
    cases value with
    | none => exact nul_notMem_text.mpr (by decide)
    | some h => exact nul_notMem_raw h

theorem envFields_injective {l l' : List (Name × Option D)} (h : envFields l = envFields l') :
    l = l' := by
  refine (delimits_of_length (n := 2) (P := fun _ => True) (fun _ => rfl)
    fun e e' _ _ heq => ?_).flatMap_inj (by simp) (by simp) (by simp) h
  obtain ⟨hname, htail⟩ := cons.inj heq
  have hvalue := (cons.inj htail).1
  have hval : e.2 = e'.2 := by
    cases he : e.2 <;> cases he' : e'.2 <;> simp only [he, he'] at hvalue
    · rfl
    · exact absurd hvalue (text_ne_raw _ _)
    · exact absurd hvalue.symm (text_ne_raw _ _)
    · rw [raw_injective hvalue]
  exact Prod.ext (Subtype.ext (text_injective hname)) hval

end Fields

section Injective

def sortByName (l : List (Name × D)) : List (Name × D) :=
  sortBy (fun f => f.1.val) l

theorem sortBy_values (l : List (Name × D)) :
    sortBy Prod.fst (l.map fun f => (f.1.val, f.2)) =
      (sortByName l).map fun f => (f.1.val, f.2) :=
  (map_sortBy (fun _ => rfl) l).symm

/-- The key of a domain tag, a raw digest and further fields. -/
def taggedKey (H : Hasher D) (tag : Text) (d : D) (fs : List (Field D)) : ArtifactKey D :=
  ⟨H.digest (framed (text tag :: raw d :: fs))⟩

def rustcFields (fs xs : List (Name × D)) : List (Field D) :=
  namedFields fs ++ text "externs" :: namedFields xs

def RustcInputs.base (H : Hasher D) (logicalKey : ContextKey D) (files : List (Name × D))
    (r : RustcInputs D) : ArtifactKey D :=
  taggedKey H "zccache-rustc-artifact-key-v1" logicalKey.hash
    (rustcFields (sortByName files) (sortByName r.externs))

def KeyInputs.artifactKey (H : Hasher D) (i : KeyInputs D) : ArtifactKey D :=
  match i.rustc with
  | none => taggedKey H "zccache-artifact-key-v1" i.logicalKey.hash
      (namedFields (sortByName i.files))
  | some r =>
    let base := r.base H i.logicalKey i.files
    if r.env.isEmpty then base
    else taggedKey H "zccache-rustc-env-deps-v1" base.hash (envFields r.env)

theorem rustcFields_nulFree (fs xs : List (Name × D)) :
    ∀ f ∈ rustcFields fs xs, Atom.ch nul ∉ f := by
  intro f hf
  rw [rustcFields, mem_append, mem_cons] at hf
  rcases hf with hf | rfl | hf
  · exact namedFields_nulFree fs f hf
  · exact nul_notMem_text.mpr (by decide)
  · exact namedFields_nulFree xs f hf

variable {H : Hasher D} (hinj : Function.Injective H.digest)

include hinj

theorem taggedKey_injective {tag tag' : Text} {d d' : D} {fs fs' : List (Field D)}
    (htag : nul ∉ tag) (htag' : nul ∉ tag') (hfs : ∀ f ∈ fs, Atom.ch nul ∉ f)
    (hfs' : ∀ f ∈ fs', Atom.ch nul ∉ f) (h : taggedKey H tag d fs = taggedKey H tag' d' fs') :
    tag = tag' ∧ d = d' ∧ fs = fs' := by
  have hfree : ∀ {tag : Text} {d : D} {fs : List (Field D)}, nul ∉ tag →
      (∀ f ∈ fs, Atom.ch nul ∉ f) → ∀ f ∈ text tag :: raw d :: fs, Atom.ch nul ∉ f := by
    intro tag d fs htag hfs f hf
    rw [mem_cons, mem_cons] at hf
    rcases hf with rfl | rfl | hf
    · exact nul_notMem_text.mpr htag
    · exact nul_notMem_raw d
    · exact hfs f hf
  have hflds := framed_injective (hfree htag hfs) (hfree htag' hfs')
    (hinj (ArtifactKey.mk.inj h))
  obtain ⟨htext, htail⟩ := cons.inj hflds
  obtain ⟨hraw, hrest⟩ := cons.inj htail
  exact ⟨text_injective htext, raw_injective hraw, hrest⟩

variable {r r' : RustcInputs D}

theorem base_injective {k k' : ContextKey D} {fs fs' : List (Name × D)}
    (h : r.base H k fs = r'.base H k' fs') :
    k = k' ∧ sortByName fs = sortByName fs' ∧ sortByName r.externs = sortByName r'.externs := by
  obtain ⟨-, hkey, hflds⟩ := taggedKey_injective hinj (by decide) (by decide)
    (rustcFields_nulFree _ _) (rustcFields_nulFree _ _) h
  obtain ⟨hfiles, hexts⟩ := filesThenExterns_injective hflds
  cases k; cases k'; cases hkey
  exact ⟨rfl, hfiles, hexts⟩

omit hinj in
theorem coe_eq_of_sortByName_eq {l l' : List (Name × D)} (h : sortByName l = sortByName l') :
    (l : Multiset (Name × D)) = l' :=
  Multiset.coe_eq_coe.mpr (perm_of_sortBy_eq h)

variable {i j : KeyInputs D}

omit hinj in
theorem KeyInputs.same_of_parts (hi : i.rustc = some r) (hj : j.rustc = some r')
    (hparts : i.logicalKey = j.logicalKey ∧ sortByName i.files = sortByName j.files ∧
      sortByName r.externs = sortByName r'.externs) (henv : r.env = r'.env) : i.Same j := by
  obtain ⟨hkey, hfiles, hexts⟩ := hparts
  refine ⟨hkey, coe_eq_of_sortByName_eq hfiles, ?_, ?_⟩
  · rw [hi, hj, Option.map_some, Option.map_some, coe_eq_of_sortByName_eq hexts]
  · rw [hi, hj, Option.map_some, Option.map_some, henv]

theorem KeyInputs.same_of_artifactKey_eq (h : i.artifactKey H = j.artifactKey H) : i.Same j := by
  unfold artifactKey at h
  cases hi : i.rustc with
  | none =>
    cases hj : j.rustc with
    | none =>
      simp only [hi, hj] at h
      obtain ⟨-, hkey, hflds⟩ := taggedKey_injective hinj (by decide) (by decide)
        (namedFields_nulFree _) (namedFields_nulFree _) h
      refine ⟨?_, coe_eq_of_sortByName_eq (namedFields_injective hflds), ?_, ?_⟩
      · rw [← ContextKey.mk.injEq] at hkey
        exact hkey
      all_goals rw [hi, hj]
    | some r' =>
      simp only [hi, hj] at h
      split at h
      · exact absurd (taggedKey_injective hinj (by decide) (by decide) (namedFields_nulFree _)
          (rustcFields_nulFree _ _) h).1 (by decide)
      · exact absurd (taggedKey_injective hinj (by decide) (by decide) (namedFields_nulFree _)
          (envFields_nulFree _) h).1 (by decide)
  | some r =>
    cases hj : j.rustc with
    | none =>
      simp only [hi, hj] at h
      split at h
      · exact absurd (taggedKey_injective hinj (by decide) (by decide)
          (rustcFields_nulFree _ _) (namedFields_nulFree _) h).1 (by decide)
      · exact absurd (taggedKey_injective hinj (by decide) (by decide)
          (envFields_nulFree _) (namedFields_nulFree _) h).1 (by decide)
    | some r' =>
      simp only [hi, hj] at h
      split at h <;> split at h
      · next hr hr' =>
        exact same_of_parts hi hj (base_injective hinj h)
          ((isEmpty_iff.mp hr).trans (isEmpty_iff.mp hr').symm)
      · exact absurd (taggedKey_injective hinj (by decide) (by decide)
          (rustcFields_nulFree _ _) (envFields_nulFree _) h).1 (by decide)
      · exact absurd (taggedKey_injective hinj (by decide) (by decide)
          (envFields_nulFree _) (rustcFields_nulFree _ _) h).1 (by decide)
      · obtain ⟨-, hbase, henv⟩ := taggedKey_injective hinj (by decide) (by decide)
          (envFields_nulFree _) (envFields_nulFree _) h
        rw [← ArtifactKey.mk.injEq] at hbase
        exact same_of_parts hi hj (base_injective hinj hbase) (envFields_injective henv)

end Injective

variable {H : Host D} {getHash : NormalizedPath → Option D} {envValue : Name → Option Text}
variable {e : ContextEntry D} {externs : Option Externs} {k : ArtifactKey D}

namespace ContextEntry

def inputsOf (getHash : NormalizedPath → Option D) (e : ContextEntry D)
    (externs : Option Externs) (env : List (Name × Option D))
    (fileHashes : List (NormalizedPath × D)) : Option (KeyInputs D) :=
  let files := fileHashes.map fun f => (pathKey f.1 e.keyRootPath, f.2)
  match externs with
  | none => some ⟨e.logicalKey, files, none⟩
  | some externs =>
    (collectRustcExternHashes getHash externs).map fun externHashes =>
      ⟨e.logicalKey, files, some ⟨externHashes, sortBy (fun v => v.1.val) env⟩⟩

/-- The inputs of an entry's key under the given contents, externs and environment. -/
def keyInputs (getHash : NormalizedPath → Option D) (e : ContextEntry D)
    (externs : Option Externs) (env : List (Name × Option D)) : Option (KeyInputs D) :=
  (hashFiles getHash e.inputFiles).bind (e.inputsOf getHash externs env)

theorem mem_keyInputs_files {env : List (Name × Option D)} {i : KeyInputs D}
    (h : e.keyInputs getHash externs env = some i) {name : Name} {d : D} :
    (name, d) ∈ i.files ↔
      ∃ p ∈ e.inputFiles, getHash p = some d ∧ pathKey p e.keyRootPath = name := by
  obtain ⟨fileHashes, hfiles, hins⟩ := Option.bind_eq_some_iff.mp h
  have hi : i.files = fileHashes.map fun f => (pathKey f.1 e.keyRootPath, f.2) := by
    cases externs with
    | none =>
      cases hins
      rfl
    | some externs =>
      obtain ⟨externHashes, -, rfl⟩ := Option.map_eq_some_iff.mp hins
      rfl
  rw [hi, mem_map]
  constructor
  · rintro ⟨f, hf, heq⟩
    obtain ⟨rfl, rfl⟩ := Prod.mk.inj heq
    exact ⟨f.1, (mem_of_hashFiles hfiles hf).1, (mem_of_hashFiles hfiles hf).2, rfl⟩
  · rintro ⟨p, hp, hd, rfl⟩
    obtain ⟨d', hd', hmem⟩ := mem_hashFiles hfiles hp
    rw [hd, Option.some.injEq] at hd'
    exact ⟨(p, d), hd' ▸ hmem, rfl⟩

end ContextEntry

theorem fileFields_sortBy (fileHashes : List (NormalizedPath × D)) (keyRoot : Option Path) :
    fileFields (sortBy Prod.fst
      (fileHashes.map fun f => (normalizeKeyPath f.1.path keyRoot, f.2))) =
      namedFields (sortByName (fileHashes.map fun f => (pathKey f.1 keyRoot, f.2))) := by
  have hsort := sortBy_values (fileHashes.map fun f => (pathKey f.1 keyRoot, f.2))
  rw [map_map] at hsort
  rw [namedFields, ← hsort]
  rfl

theorem computeArtifactKeyWith_eq (H : Hasher D) (key : ContextKey D)
    (fileHashes : List (NormalizedPath × D)) (keyRoot : Option Path) :
    computeArtifactKeyWith H key fileHashes keyRoot normalizeKeyPath =
      (KeyInputs.mk key (fileHashes.map fun f => (pathKey f.1 keyRoot, f.2)) none).artifactKey
        H := by
  simp only [computeArtifactKeyWith, KeyInputs.artifactKey, taggedKey, artifactFields,
    fileFields_sortBy]

theorem computeRustcArtifactKey_eq (H : Hasher D) (key : ContextKey D)
    (fileHashes : List (NormalizedPath × D)) (externHashes : List (Name × D))
    (env : List (Name × Option D)) (keyRoot : Option Path) :
    computeRustcArtifactKeyWithRootWith H key fileHashes externHashes keyRoot normalizeKeyPath =
      RustcInputs.base H key (fileHashes.map fun f => (pathKey f.1 keyRoot, f.2))
        ⟨externHashes, env⟩ := by
  simp only [computeRustcArtifactKeyWithRootWith, RustcInputs.base, taggedKey,
    rustcArtifactFields, rustcFields, externFields_eq, fileFields_sortBy, sortByName]

theorem foldRustcEnvDeps_fst (H : Hasher D) (key : ContextKey D) (files externs : List (Name × D))
    (env : List (Name × Option D)) :
    (foldRustcEnvDepsIntoArtifactKey H
      (RustcInputs.base H key files ⟨externs, sortBy (fun v => v.1.val) env⟩) env).1 =
      (KeyInputs.mk key files (some ⟨externs, sortBy (fun v => v.1.val) env⟩)).artifactKey H := by
  have hempty : (sortBy (fun v : Name × Option D => v.1.val) env).isEmpty = env.isEmpty := by
    rw [Bool.eq_iff_iff, List.isEmpty_iff, List.isEmpty_iff, sortBy_eq_nil]
  simp only [foldRustcEnvDepsIntoArtifactKey, KeyInputs.artifactKey, hempty]
  split <;> rfl

namespace ContextEntry

variable {fileHashes : List (NormalizedPath × D)}

theorem readKey_eq {key : ReadKey D} [DecidableEq D]
    (h : e.readKey H getHash envValue externs fileHashes = some key) :
    ∃ i, e.inputsOf getHash externs (collectRustcEnvHashes envValue H.toHasher e.rustcEnvDeps)
        fileHashes = some i ∧ key.artifactKey = i.artifactKey H.toHasher := by
  cases externs with
  | none =>
    cases h
    exact ⟨_, rfl, computeArtifactKeyWith_eq ..⟩
  | some externs =>
    obtain ⟨externHashes, hexts, rfl⟩ := Option.map_eq_some_iff.mp h
    refine ⟨_, by rw [inputsOf, hexts]; rfl, ?_⟩
    rw [← foldRustcEnvDeps_fst, ← computeRustcArtifactKey_eq]

theorem writeKey_eq {envHashes envHashes' : List (Name × Option D)}
    (h : e.writeKey H getHash externs fileHashes envHashes = some (k, envHashes')) :
    ∃ i, e.inputsOf getHash externs envHashes fileHashes = some i ∧
      k = i.artifactKey H.toHasher := by
  cases externs with
  | none =>
    obtain ⟨rfl, -⟩ := Prod.mk.inj (Option.some.inj h)
    refine ⟨_, rfl, ?_⟩
    rw [computeArtifactKeyNormalizedWithRoot_eq, computeArtifactKeyWith_eq]
  | some externs =>
    obtain ⟨externHashes, hexts, hfold⟩ := Option.map_eq_some_iff.mp h
    refine ⟨_, by rw [inputsOf, hexts]; rfl, ?_⟩
    rw [← foldRustcEnvDeps_fst, ← computeRustcArtifactKey_eq, hfold]

end ContextEntry

end Zccache
