import Zccache.Base.Utf8
import Zccache.Context.ArtifactKeys
import Zccache.Core.HashBytes

/-! # The artifact key as a digest of a set

The byte string that an artifact key hashes, over paths as the operating system
has them. A path enters it as text, and bytes that are no UTF-8 are read as
replacement characters. The byte string stands for a context key and a set of
files as long as the paths can be told apart by what is read of them.
-/

namespace Zccache

open List Unix Component Utf8 PrefixCode StableSort

def byteString (t : Text) : List UInt8 :=
  t.map fun c => UInt8.ofNat c.toNat

/-- An absolute path in normal form. A character of a name stands for one byte. -/
structure OsPath where
  path : Path
  isNormal : isNormalForm path = true
  isAbsolute : IsAbsolute path
  isBytes : ∀ c ∈ path, ∀ x ∈ c.segment, x.toNat < 256

@[ext] theorem OsPath.ext {p q : OsPath} (h : p.path = q.path) : p = q := by
  cases p; cases q; cases h; rfl

instance : DecidableEq OsPath := fun p q =>
  decidable_of_iff (p.path = q.path) ⟨OsPath.ext, congrArg OsPath.path⟩

/-- `normalize_for_key` over bytes. -/
def normalizeForKeyLossy (p : Path) : Text :=
  fromUtf8Lossy (byteString (toText (normalize p)))

/-- `normalize_key_path` over bytes. -/
def normalizeKeyPathLossy (path : Path) (keyRoot : Option Path) : Text :=
  match keyRoot.bind (stripPrefix path) with
  | some stripped => normalizeForKeyLossy stripped
  | none => normalizeForKeyLossy path

namespace OsPath

def bytes (p : OsPath) : List UInt8 :=
  byteString (toText p.path)

def caseKey (p : OsPath) : Text :=
  normalizeForKeyLossy p.path

def Under (keyRoot : Option Path) (p : OsPath) : Prop :=
  ∃ root, keyRoot = some root ∧ root <+: p.path

end OsPath

abbrev OsFiles := List (OsPath × ContentHash)

def fileRecord (f : Text × ContentHash) : List UInt8 :=
  utf8 f.1 ++ [0] ++ (f.2.val ++ [0])

variable (contextKey : ContentHash) (fileHashes : OsFiles) (keyRoot : Option Path)

/-- What both key functions hash once the paths have their key texts. -/
def indexedBytes (indexed : List (Text × ContentHash)) : List UInt8 :=
  utf8 "zccache-artifact-key-v1" ++ [0] ++ (contextKey.val ++ [0]) ++
    (sortBy Prod.fst indexed).flatMap fileRecord

/-- The byte string that `compute_artifact_key_with` hashes. -/
def artifactKeyBytesWith (normalize : Path → Option Path → Text) : List UInt8 :=
  indexedBytes contextKey (fileHashes.map fun f => (normalize f.1.path keyRoot, f.2))

/-- The byte string that `compute_artifact_key_normalized_with_root` hashes. -/
def artifactKeyBytesNormalizedWithRoot : List UInt8 :=
  indexedBytes contextKey (fileHashes.map fun f =>
    (match keyRoot with
      | some root =>
        if Unix.startsWith f.1.path root then normalizeKeyPathLossy f.1.path (some root)
        else f.1.caseKey
      | none => f.1.caseKey, f.2))

theorem eq_of_ofNat_toNat_eq {x y : Char} (hx : x.toNat < 256) (hy : y.toNat < 256)
    (h : UInt8.ofNat x.toNat = UInt8.ofNat y.toNat) : x = y := by
  have hbs : x.toNat % 256 = y.toNat % 256 := by
    simpa [← UInt8.toNat_inj] using h
  rw [Nat.mod_eq_of_lt hx, Nat.mod_eq_of_lt hy] at hbs
  exact Char.toNat_inj.mp hbs

theorem mem_of_mem_byteString {t : Text} (ht : ∀ x ∈ t, x.toNat < 256) {x : Char}
    (hx : x.toNat < 256) (h : UInt8.ofNat x.toNat ∈ byteString t) : x ∈ t := by
  obtain ⟨y, hy, heq⟩ := mem_map.mp h
  rwa [← eq_of_ofNat_toNat_eq (ht y hy) hx heq]

theorem byteString_inj {t t' : Text} (ht : ∀ x ∈ t, x.toNat < 256)
    (ht' : ∀ x ∈ t', x.toNat < 256) (h : byteString t = byteString t') : t = t' := by
  induction t generalizing t' with
  | nil => exact (map_eq_nil_iff.mp h.symm).symm
  | cons x t ih =>
    obtain ⟨y, rest, rfl, hxy, hrest⟩ := map_eq_cons_iff.mp h.symm
    rw [eq_of_ofNat_toNat_eq (ht' y mem_cons_self) (ht x mem_cons_self) hxy,
      ih (fun z hz => ht z (mem_cons_of_mem _ hz)) (fun z hz => ht' z (mem_cons_of_mem _ hz))
        hrest.symm]

def lossySegment (c : Component) : Text :=
  fromUtf8Lossy (byteString c.segment)

theorem encode_sep : String.utf8EncodeChar sep = [0x2F] := by decide

theorem fromUtf8Lossy_intercalate (segments : List Text) :
    fromUtf8Lossy (byteString ([sep].intercalate segments)) =
      [sep].intercalate (segments.map fun s => fromUtf8Lossy (byteString s)) := by
  induction segments with
  | nil => rfl
  | cons s rest ih =>
    cases rest with
    | nil => simp [intercalate]
    | cons s' rest =>
      have hcut : [sep].intercalate (s :: s' :: rest) =
          s ++ sep :: [sep].intercalate (s' :: rest) := by
        simp [intercalate]
      have hbs : byteString (s ++ sep :: [sep].intercalate (s' :: rest)) =
          byteString s ++ 0x2F :: byteString ([sep].intercalate (s' :: rest)) := by
        simp [byteString]
        decide
      rw [hcut, hbs, fromUtf8Lossy_append_ascii encode_sep (by decide), ih]
      simp [intercalate]

theorem intercalate_inj {l l' : List Text} (hl : ∀ s ∈ l, s ≠ [] ∧ sep ∉ s)
    (hl' : ∀ s ∈ l', s ≠ [] ∧ sep ∉ s) (h : [sep].intercalate l = [sep].intercalate l') :
    l = l' := by
  have hne : ∀ {l : List Text}, (∀ s ∈ l, s ≠ [] ∧ sep ∉ s) → l ≠ [] →
      [sep].intercalate l ≠ [] := by
    intro l hl hnil hempty
    obtain ⟨s, rest, rfl⟩ := exists_cons_of_ne_nil hnil
    apply (hl s mem_cons_self).1
    cases rest with
    | nil => simpa [intercalate] using hempty
    | cons s' rest => simp [intercalate] at hempty
  by_cases hnil : l = []
  · by_cases hnil' : l' = []
    · rw [hnil, hnil']
    · rw [hnil] at h
      exact absurd h.symm (hne hl' hnil')
  · by_cases hnil' : l' = []
    · rw [hnil'] at h
      exact absurd h (hne hl hnil)
    · rw [← splitOn_intercalate sep (fun s hs => (hl s hs).2) hnil, h,
        splitOn_intercalate sep (fun s hs => (hl' s hs).2) hnil']

section Keys

variable {p q : Path}

theorem lossySegment_proper {c : Component} (hinner : Inner c)
    (hbs : ∀ x ∈ c.segment, x.toNat < 256) :
    lossySegment c ≠ [] ∧ sep ∉ lossySegment c := by
  obtain ⟨x, rest, hseg, -⟩ := head_segment hinner
  constructor
  · intro hnil
    have hempty := fromUtf8Lossy_eq_nil.mp hnil
    rw [hseg] at hempty
    cases hempty
  · intro hsep
    have hmem := mem_of_mem_fromUtf8Lossy encode_sep hsep
    exact sep_notMem_segment c (mem_of_mem_byteString hbs (by decide) hmem)

theorem lossy_inner_eq_iff (hp : ∀ c ∈ p, Inner c ∧ ∀ x ∈ c.segment, x.toNat < 256)
    (hq : ∀ c ∈ q, Inner c ∧ ∀ x ∈ c.segment, x.toNat < 256) :
    fromUtf8Lossy (byteString ([sep].intercalate (p.map segment))) =
        fromUtf8Lossy (byteString ([sep].intercalate (q.map segment))) ↔
      p.map lossySegment = q.map lossySegment := by
  have hproper : ∀ {p : Path}, (∀ c ∈ p, Inner c ∧ ∀ x ∈ c.segment, x.toNat < 256) →
      ∀ s ∈ p.map lossySegment, s ≠ [] ∧ sep ∉ s := by
    intro p hp s hs
    obtain ⟨c, hc, rfl⟩ := mem_map.mp hs
    exact lossySegment_proper (hp c hc).1 (hp c hc).2
  rw [fromUtf8Lossy_intercalate, fromUtf8Lossy_intercalate, map_map, map_map]
  constructor
  · exact intercalate_inj (hproper hp) (hproper hq)
  · intro h
    exact congrArg _ h

theorem fromUtf8Lossy_rooted (rest : Path) :
    fromUtf8Lossy (byteString (toText (rootDir :: rest))) =
      sep :: fromUtf8Lossy (byteString ([sep].intercalate (rest.map segment))) := by
  have hbs : byteString (toText (rootDir :: rest)) =
      [] ++ 0x2F :: byteString ([sep].intercalate (rest.map segment)) := by
    congr 1
  rw [hbs, fromUtf8Lossy_append_ascii encode_sep (by decide)]
  rfl

theorem head_lossy_inner (hp : ∀ c ∈ p, Inner c ∧ ∀ x ∈ c.segment, x.toNat < 256) :
    (fromUtf8Lossy (byteString (toText p))).head? ≠ some sep := by
  intro hhead
  have hbyte := head_of_head_fromUtf8Lossy encode_sep hhead
  rw [toText_inner fun c hc => (hp c hc).1] at hbyte
  cases p with
  | nil => cases hbyte
  | cons c rest =>
    obtain ⟨hinner, hbs⟩ := hp c mem_cons_self
    obtain ⟨x, hx, hne, hfirst⟩ := head?_segments hinner rest
    rw [byteString, head?_map, hfirst, Option.map_some] at hbyte
    apply hne
    have hmem : UInt8.ofNat sep.toNat ∈ byteString [x] := by
      rw [show UInt8.ofNat sep.toNat = 0x2F by decide, ← Option.some.inj hbyte]
      exact mem_singleton_self _
    have hsingle : ∀ y ∈ [x], y.toNat < 256 := by
      intro y hy
      rw [mem_singleton.mp hy]
      exact hbs x hx
    exact (mem_singleton.mp (mem_of_mem_byteString hsingle (by decide) hmem)).symm

end Keys

namespace OsPath

variable {p q : OsPath} {keyRoot : Option Path}

theorem caseKey_eq (p : OsPath) : p.caseKey = fromUtf8Lossy p.bytes := by
  rw [caseKey, normalizeForKeyLossy, normalize_of_isNormalForm p.isNormal, bytes]

theorem exists_rest (p : OsPath) : ∃ rest, p.path = rootDir :: rest ∧
    ∀ c ∈ rest, Inner c ∧ ∀ x ∈ c.segment, x.toNat < 256 := by
  obtain ⟨rest, hpath, hinner⟩ := p.isAbsolute
  refine ⟨rest, hpath, fun c hc => ⟨hinner c hc, p.isBytes c ?_⟩⟩
  rw [hpath]
  exact mem_cons_of_mem _ hc

theorem head_bytes (p : OsPath) : (fromUtf8Lossy p.bytes).head? = some sep := by
  obtain ⟨rest, hpath, -⟩ := p.exists_rest
  rw [bytes, hpath, fromUtf8Lossy_rooted]
  rfl

theorem normalizeForKeyLossy_stripped {c : Component} {base rest : Path}
    (h : p.path = c :: base ++ rest) :
    normalizeForKeyLossy rest = fromUtf8Lossy (byteString (toText rest)) ∧
      ∀ c ∈ rest, Inner c ∧ ∀ x ∈ c.segment, x.toNat < 256 := by
  obtain ⟨tail, htail, hinner⟩ := p.exists_rest
  have hnorm : isNormalForm rest = true := isNormalForm_of_append (h ▸ p.isNormal)
  constructor
  · rw [normalizeForKeyLossy, normalize_of_isNormalForm hnorm]
  · rw [h] at htail
    obtain ⟨-, rfl⟩ := cons.inj htail
    exact fun c hc => hinner c (mem_append_right _ hc)

section Root

variable {root rest rest' : Path}

theorem key_outside (h : ¬ root <+: p.path) :
    normalizeKeyPathLossy p.path (some root) = fromUtf8Lossy p.bytes := by
  rw [normalizeKeyPathLossy, Option.bind_some, stripPrefix_eq_none.mpr h]
  exact p.caseKey_eq

theorem key_below (h : root ++ rest = p.path) :
    normalizeKeyPathLossy p.path (some root) = normalizeForKeyLossy rest := by
  rw [normalizeKeyPathLossy, Option.bind_some, stripPrefix_eq_some.mpr h.symm]

theorem key_below_ne_outside (hp : root <+: p.path) (hq : ¬ root <+: q.path) :
    normalizeKeyPathLossy p.path (some root) ≠ normalizeKeyPathLossy q.path (some root) := by
  intro heq
  obtain ⟨rest, hrest⟩ := hp
  cases root with
  | nil => exact hq nil_prefix
  | cons c base =>
    obtain ⟨hkey, hinner⟩ := normalizeForKeyLossy_stripped hrest.symm
    rw [key_below hrest, key_outside hq, hkey] at heq
    exact head_lossy_inner hinner (by rw [heq]; exact q.head_bytes)

theorem key_below_eq_iff (hp : root ++ rest = p.path) (hq : root ++ rest' = q.path) :
    normalizeKeyPathLossy p.path (some root) = normalizeKeyPathLossy q.path (some root) ↔
      fromUtf8Lossy p.bytes = fromUtf8Lossy q.bytes := by
  rw [key_below hp, key_below hq]
  cases root with
  | nil =>
    rw [← p.caseKey_eq, ← q.caseKey_eq, caseKey, caseKey, ← hp, ← hq, nil_append,
      nil_append]
  | cons c base =>
    obtain ⟨hkey, hinner⟩ := normalizeForKeyLossy_stripped hp.symm
    obtain ⟨hkey', hinner'⟩ := normalizeForKeyLossy_stripped hq.symm
    obtain ⟨tail, htail, htailInner⟩ := p.exists_rest
    obtain ⟨tail', htail', htailInner'⟩ := q.exists_rest
    rw [bytes, bytes, htail, htail', fromUtf8Lossy_rooted, fromUtf8Lossy_rooted,
      cons.injEq, hkey, hkey', toText_inner fun c hc => (hinner c hc).1,
      toText_inner fun c hc => (hinner' c hc).1, lossy_inner_eq_iff hinner hinner',
      lossy_inner_eq_iff htailInner htailInner']
    obtain ⟨-, rfl⟩ := cons.inj (hp.trans htail)
    obtain ⟨-, rfl⟩ := cons.inj (hq.trans htail')
    simp

end Root

theorem under_some (p : OsPath) (root : Path) : p.Under (some root) ↔ root <+: p.path := by
  constructor
  · rintro ⟨root', hroot, hp⟩
    rwa [Option.some.inj hroot]
  · intro hp
    exact ⟨root, rfl, hp⟩

/-- Under one root, two paths have one key text exactly when they are on the same side of the
root and the same text is read of them. -/
theorem normalizeKeyPathLossy_eq_iff (p q : OsPath) (keyRoot : Option Path) :
    normalizeKeyPathLossy p.path keyRoot = normalizeKeyPathLossy q.path keyRoot ↔
      (p.Under keyRoot ↔ q.Under keyRoot) ∧ fromUtf8Lossy p.bytes = fromUtf8Lossy q.bytes := by
  cases keyRoot with
  | none =>
    have hkey : ∀ p : OsPath, normalizeKeyPathLossy p.path none = fromUtf8Lossy p.bytes :=
      fun p => p.caseKey_eq
    have hnone : ∀ p : OsPath, ¬ p.Under none := by
      rintro p ⟨root, hroot, -⟩
      cases hroot
    simp only [hkey, hnone, true_and]
  | some root =>
    rw [under_some, under_some]
    by_cases hp : root <+: p.path <;> by_cases hq : root <+: q.path
    · obtain ⟨rest, hrest⟩ := hp
      obtain ⟨rest', hrest'⟩ := hq
      rw [key_below_eq_iff hrest hrest', ← hrest, ← hrest']
      simp
    · have hne := key_below_ne_outside hp hq
      simp [hp, hq, hne]
    · have hne := (key_below_ne_outside hq hp).symm
      simp [hp, hq, hne]
    · rw [key_outside hp, key_outside hq]
      simp [hp, hq]

end OsPath

theorem OsPath.toNat_lt (p : OsPath) {path : Path} (hpath : ∀ c ∈ path, c ∈ p.path) :
    ∀ x ∈ toText path, x.toNat < 256 := by
  intro x hx
  rcases mem_toText hx with rfl | ⟨c, hc, hxc⟩
  · decide
  · exact p.isBytes c (hpath c hc) x hxc

theorem zero_notMem_key (p : OsPath) (keyRoot : Option Path) :
    0 ∉ utf8 (normalizeKeyPathLossy p.path keyRoot) := by
  have hbs : ∀ rest : Path, (∀ c ∈ rest, c ∈ p.path) → nul ∉ normalizeForKeyLossy rest := by
    intro rest hrest hnul
    have hzero := mem_of_mem_fromUtf8Lossy (b := 0) (by decide) hnul
    have hchars := p.toNat_lt fun c hc => hrest c (mem_of_mem_normalize hc)
    exact nul_notMem_toText _ (mem_of_mem_byteString hchars (by decide) hzero)
  rw [zero_mem_utf8]
  unfold normalizeKeyPathLossy
  split
  · next stripped hstripped =>
    obtain ⟨root, -, hstrip⟩ := Option.bind_eq_some_iff.mp hstripped
    apply hbs
    intro c hc
    rw [stripPrefix_eq_some.mp hstrip]
    exact mem_append_right root hc
  · exact hbs p.path fun _ hc => hc

/-- The record of a file is told from what follows it: the name ends at its NUL, and the digest
has its length, whatever bytes it holds. -/
theorem delimits_fileRecord : Delimits (fun f => 0 ∉ utf8 f.1) fileRecord := by
  have hname : Delimits (fun t => 0 ∉ utf8 t) fun t : Text => utf8 t ++ [0] := by
    intro t t' ht ht' r r' h
    obtain ⟨hutf8, hrest⟩ := delimits_terminated 0 ht ht' h
    exact ⟨utf8_injective hutf8, hrest⟩
  have hdig : Delimits (fun _ => True) fun d : ContentHash => d.val ++ [0] := by
    refine delimits_of_length (n := 33) ?_ ?_
    · intro d
      rw [length_append, d.property]
      rfl
    · intro d d' _ _ h
      exact Subtype.ext (append_cancel_right h)
  exact (hname.pair hdig).mono fun f hf => ⟨hf, trivial⟩

theorem indexedBytes_inj {k k' : ContentHash} {l l' : List (Text × ContentHash)}
    (hl : ∀ f ∈ l, 0 ∉ utf8 f.1) (hl' : ∀ f ∈ l', 0 ∉ utf8 f.1)
    (h : indexedBytes k l = indexedBytes k' l') :
    k = k' ∧ sortBy Prod.fst l = sortBy Prod.fst l' := by
  simp only [indexedBytes, append_assoc] at h
  have hrest := append_cancel_left (append_cancel_left h)
  obtain ⟨hkey, hterminated⟩ := append_inj hrest (k.property.trans k'.property.symm)
  have hrecs := append_cancel_left hterminated
  refine ⟨Subtype.ext hkey, ?_⟩
  refine delimits_fileRecord.flatMap_inj ?_ ?_ ?_ hrecs
  · intro f
    simp [fileRecord]
  · intro f hf
    exact hl f (mem_sortBy.mp hf)
  · intro f hf
    exact hl' f (mem_sortBy.mp hf)

/-- Files with different paths, all from `U`. -/
structure OsFiles.From (U : Set OsPath) (l : OsFiles) : Prop where
  mem : ∀ f ∈ l, f.1 ∈ U
  nodup : (l.map Prod.fst).Nodup

/-- The hashed byte string stands for a context key and a set of files with paths from `U`. -/
structure DigestsSets (U : Set OsPath) (keyRoot : Option Path) : Prop where
  perm : ∀ (k : ContentHash) (l l' : OsFiles), l.From U → l.Perm l' →
    artifactKeyBytesWith k l keyRoot normalizeKeyPathLossy =
      artifactKeyBytesWith k l' keyRoot normalizeKeyPathLossy
  normalized : ∀ (k : ContentHash) (l : OsFiles), l.From U →
    artifactKeyBytesWith k l keyRoot normalizeKeyPathLossy =
      artifactKeyBytesNormalizedWithRoot k l keyRoot
  inj : ∀ (k k' : ContentHash) (l l' : OsFiles), l.From U → l'.From U →
    artifactKeyBytesWith k l keyRoot normalizeKeyPathLossy =
      artifactKeyBytesWith k' l' keyRoot normalizeKeyPathLossy →
    k = k' ∧ ∀ f, f ∈ l ↔ f ∈ l'

/-- No two paths of `U` on one side of the root are read as the same text. -/
def ReadApart (U : Set OsPath) (keyRoot : Option Path) : Prop :=
  ∀ p ∈ U, ∀ q ∈ U, (p.Under keyRoot ↔ q.Under keyRoot) →
    fromUtf8Lossy p.bytes = fromUtf8Lossy q.bytes → p = q

/-- Paths that are UTF-8 are read apart, whatever the root. -/
theorem readApart_of_utf8 {U : Set OsPath} (h : ∀ p ∈ U, ∃ t, p.bytes = utf8 t)
    (keyRoot : Option Path) : ReadApart U keyRoot := by
  intro p hp q hq _ hread
  obtain ⟨t, ht⟩ := h p hp
  obtain ⟨t', ht'⟩ := h q hq
  rw [ht, ht', fromUtf8Lossy_utf8, fromUtf8Lossy_utf8] at hread
  have hbs : p.bytes = q.bytes := by rw [ht, ht', hread]
  have htext := byteString_inj (p.toNat_lt fun _ hc => hc) (q.toNat_lt fun _ hc => hc) hbs
  exact OsPath.ext (toText_injective p.isNormal q.isNormal htext)

theorem artifactKeyBytesNormalizedWithRoot_eq (k : ContentHash) (l : OsFiles)
    (keyRoot : Option Path) :
    artifactKeyBytesNormalizedWithRoot k l keyRoot =
      artifactKeyBytesWith k l keyRoot normalizeKeyPathLossy := by
  unfold artifactKeyBytesNormalizedWithRoot artifactKeyBytesWith
  congr 2
  funext f
  cases keyRoot with
  | none => rfl
  | some root =>
    dsimp only
    split
    · rfl
    · next hout =>
      rw [f.1.key_outside fun h => hout (startsWith_iff.mpr h), f.1.caseKey_eq]

/-- The key digests sets of files exactly when their paths are read apart. -/
theorem digestsSets_iff (U : Set OsPath) (keyRoot : Option Path) :
    DigestsSets U keyRoot ↔ ReadApart U keyRoot := by
  have hfree : ∀ l : OsFiles, ∀ f ∈ l.map fun f => (normalizeKeyPathLossy f.1.path keyRoot, f.2),
      0 ∉ utf8 f.1 := by
    intro l f hf
    obtain ⟨file, -, rfl⟩ := mem_map.mp hf
    exact zero_notMem_key file.1 keyRoot
  constructor
  · intro h p hp q hq hside hread
    have hkey := (OsPath.normalizeKeyPathLossy_eq_iff p q keyRoot).mpr ⟨hside, hread⟩
    let digest : ContentHash := ⟨replicate 32 0, length_replicate⟩
    have hsingle : ∀ p ∈ U, OsFiles.From U [(p, digest)] := by
      intro p hp
      refine ⟨fun f hf => ?_, nodup_singleton p⟩
      rwa [mem_singleton.mp hf]
    have hbs : artifactKeyBytesWith digest [(p, digest)] keyRoot normalizeKeyPathLossy =
        artifactKeyBytesWith digest [(q, digest)] keyRoot normalizeKeyPathLossy := by
      simp only [artifactKeyBytesWith, map_cons, map_nil, hkey]
    obtain ⟨-, hmem⟩ := h.inj _ _ _ _ (hsingle p hp) (hsingle q hq) hbs
    have hpair := mem_singleton.mp ((hmem (p, digest)).mp (mem_singleton_self _))
    exact congrArg Prod.fst hpair
  · intro h
    have hkey : ∀ p ∈ U, ∀ q ∈ U,
        normalizeKeyPathLossy p.path keyRoot = normalizeKeyPathLossy q.path keyRoot → p = q := by
      intro p hp q hq heq
      obtain ⟨hside, hread⟩ := (OsPath.normalizeKeyPathLossy_eq_iff p q keyRoot).mp heq
      exact h p hp q hq hside hread
    refine ⟨?_, ?_, ?_⟩
    · intro k l l' hl hperm
      unfold artifactKeyBytesWith indexedBytes
      rw [sortBy_eq_of_perm_of_nodup _ (hperm.map _)]
      rw [map_map]
      apply List.Nodup.map_on _ (List.Nodup.of_map _ hl.nodup)
      intro f hf f' hf' heq
      exact inj_on_of_nodup_map hl.nodup hf hf'
        (hkey f.1 (hl.mem f hf) f'.1 (hl.mem f' hf') heq)
    · intro k l _
      exact (artifactKeyBytesNormalizedWithRoot_eq k l keyRoot).symm
    · intro k k' l l' hl hl' heq
      obtain ⟨rfl, hsort⟩ := indexedBytes_inj (hfree l) (hfree l') heq
      have hperm := perm_of_sortBy_eq hsort
      have hsubset : ∀ {l l' : OsFiles}, l.From U → l'.From U →
          (l.map fun f => (normalizeKeyPathLossy f.1.path keyRoot, f.2)).Perm
            (l'.map fun f => (normalizeKeyPathLossy f.1.path keyRoot, f.2)) →
          ∀ f ∈ l, f ∈ l' := by
        intro l l' hl hl' hperm f hf
        obtain ⟨f', hf', heq⟩ := mem_map.mp (hperm.mem_iff.mp (mem_map_of_mem hf))
        obtain ⟨hpath, hdig⟩ := Prod.mk.inj heq
        have hsame := hkey f'.1 (hl'.mem f' hf') f.1 (hl.mem f hf) hpath
        rwa [← Prod.ext hsame hdig]
      exact ⟨rfl, fun f => ⟨hsubset hl hl' hperm f, hsubset hl' hl hperm.symm f⟩⟩

/-- A header in the root directory whose name begins with a byte that is no UTF-8. -/
def strayHeader (second : Bool) : OsPath where
  path := [rootDir, normal ⟨[if second then 'þ' else 'ÿ', '.', 'h'], by cases second <;> decide⟩]
  isNormal := by cases second <;> decide
  isAbsolute := by
    refine ⟨_, rfl, fun c hc => ?_⟩
    rw [mem_singleton.mp hc]
    exact .inr ⟨_, rfl⟩
  isBytes := by cases second <;> simp [Component.segment]

def constantHash (b : UInt8) : ContentHash :=
  ⟨replicate 32 b, length_replicate⟩

/-- Two such headers have one key, and the order in which they are listed shows in the key. -/
theorem strayHeaders_collide :
    let key := fun l => artifactKeyBytesWith (constantHash 0) l none normalizeKeyPathLossy
    let first := strayHeader false
    let second := strayHeader true
    first ≠ second ∧ key [(first, constantHash 1)] = key [(second, constantHash 1)] ∧
      key [(first, constantHash 1), (second, constantHash 2)] ≠
        key [(second, constantHash 2), (first, constantHash 1)] := by
  decide +kernel

end Zccache
