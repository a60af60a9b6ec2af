import Mathlib.Algebra.Group.Int.Defs
import Mathlib.Algebra.GroupWithZero.Nat
import Mathlib.Data.List.Infix
import Mathlib.Data.Char
import Mathlib.Data.List.Lex

/-! # Unix paths

Paths as lists of components, read from text and rendered back, with the
lexical normalisation that resolves `.` and `..` without the filesystem.
-/

namespace Unix

abbrev Text := List Char

instance : LawfulBEq Text :=
  List.instLawfulBEq

instance : Coe String Text :=
  ⟨String.toList⟩

def sep : Char := '/'

def nul : Char := Char.ofNat 0

/-- A component that is not empty, `.` or `..` and holds no separator and no NUL. -/
def FileName : Type := {t : Text // t ≠ [] ∧ t ≠ ['.'] ∧ t ≠ ['.', '.'] ∧ sep ∉ t ∧ nul ∉ t}
  deriving DecidableEq

inductive Component where
  | rootDir
  | curDir
  | parentDir
  | normal (name : FileName)
  deriving DecidableEq

abbrev Path := List Component

namespace Component

def ofSegment (s : Text) : Option Component :=
  if h : s ≠ [] ∧ s ≠ ['.'] ∧ s ≠ ['.', '.'] ∧ sep ∉ s ∧ nul ∉ s then some (.normal ⟨s, h⟩)
  else if s = ['.', '.'] then some .parentDir
  else none

def segment : Component → Text
  | rootDir => []
  | curDir => ['.']
  | parentDir => ['.', '.']
  | normal name => name.val

def isNormal : Component → Bool
  | normal _ => true
  | _ => false

@[simp] theorem ofSegment_parentDir : ofSegment (segment parentDir) = some parentDir := by decide

@[simp] theorem ofSegment_normal (name : FileName) :
    ofSegment (segment (normal name)) = some (normal name) := by
  exact dif_pos name.property

theorem sep_notMem_segment (c : Component) : sep ∉ c.segment := by
  cases c with
  | rootDir | curDir | parentDir => decide
  | normal name => exact name.property.2.2.2.1

theorem nul_notMem_segment (c : Component) : nul ∉ c.segment := by
  cases c with
  | rootDir | curDir | parentDir => decide
  | normal name => exact name.property.2.2.2.2

end Component

open List Component

/-- Whether a text is an absolute path, or starts with a `.` that is kept as a component. -/
def leadingComponent (t : Text) : Path :=
  if t.head? = some sep then [rootDir]
  else if (t.splitOn sep).head? = some ['.'] then [curDir]
  else []

/-- The components of a path text: empty segments and inner `.` segments are dropped. -/
def components (t : Text) : Path :=
  leadingComponent t ++ (t.splitOn sep).filterMap ofSegment

def isAbsolute (t : Text) : Bool :=
  t.head? = some sep

def toText : Path → Text
  | rootDir :: rest => sep :: [sep].intercalate (rest.map segment)
  | p => [sep].intercalate (p.map segment)

/-- The remainder of a path after a prefix, compared component by component. -/
def stripPrefix (p base : Path) : Option Path :=
  p.dropPrefix? base

def startsWith (p base : Path) : Bool :=
  (stripPrefix p base).isSome

def join (p rest : Path) : Path :=
  if rest.head? = some rootDir then rest
  else if p = [] then rest
  else p ++ rest.filter (· ≠ curDir)

theorem dropPrefix?_eq_some {α : Type} [BEq α] [LawfulBEq α] {l pre rest : List α} :
    l.dropPrefix? pre = some rest ↔ l = pre ++ rest := by
  rw [dropPrefix?_eq_some_iff]
  constructor
  · rintro ⟨q, rfl, hq⟩
    rw [eq_of_beq hq]
  · rintro rfl
    exact ⟨pre, rfl, beq_self_eq_true pre⟩

variable {p base : Path}

theorem stripPrefix_eq_some {rest : Path} : stripPrefix p base = some rest ↔ p = base ++ rest :=
  dropPrefix?_eq_some

@[simp] theorem stripPrefix_append (base rest : Path) :
    stripPrefix (base ++ rest) base = some rest :=
  stripPrefix_eq_some.mpr rfl

theorem startsWith_iff : startsWith p base = true ↔ base <+: p := by
  simp only [startsWith, Option.isSome_iff_exists, stripPrefix_eq_some, List.IsPrefix,
    eq_comm (b := p)]

theorem stripPrefix_eq_none : stripPrefix p base = none ↔ ¬ base <+: p := by
  rw [← startsWith_iff, startsWith]
  simp

section Normalize

/-- One component pushed onto a normalised path: `.` is dropped and `..` removes a name. -/
def normalStep (acc : Path) : Component → Path
  | curDir => acc
  | parentDir =>
    match acc.getLast? with
    | some (normal _) => acc.dropLast
    | _ => acc ++ [parentDir]
  -- collecting components into a path starts again at a root
  | rootDir => [rootDir]
  | normal name => acc ++ [normal name]

def normalize (p : Path) : Path :=
  p.foldl normalStep []

def dotsThenNames : Path → Bool
  | parentDir :: rest => dotsThenNames rest
  | rest => rest.all isNormal

/-- An optional root, then `..` components, then names. -/
def isNormalForm : Path → Bool
  | rootDir :: rest => dotsThenNames rest
  | rest => dotsThenNames rest

variable {p : Path}

theorem all_isNormal_iff :
    p.all isNormal = true ↔ ∃ names : List FileName, p = names.map normal := by
  constructor
  · intro h
    induction p with
    | nil => exact ⟨[], rfl⟩
    | cons c rest ih =>
      rw [all_cons, Bool.and_eq_true] at h
      obtain ⟨names, rfl⟩ := ih h.2
      cases c with
      | normal name => exact ⟨name :: names, rfl⟩
      | _ => exact absurd h.1 (by decide)
  · rintro ⟨names, rfl⟩
    simp [isNormal]

theorem dotsThenNames_iff :
    dotsThenNames p = true ↔
      ∃ n, ∃ names : List FileName, p = replicate n parentDir ++ names.map normal := by
  induction p using dotsThenNames.induct with
  | case1 rest ih =>
    rw [dotsThenNames, ih]
    constructor
    · rintro ⟨n, names, rfl⟩
      exact ⟨n + 1, names, rfl⟩
    · rintro ⟨_ | n, names, h⟩
      · cases names <;> simp at h
      · exact ⟨n, names, by simpa [replicate_succ] using h⟩
  | case2 rest hne =>
    rw [dotsThenNames.eq_2 _ hne, all_isNormal_iff]
    constructor
    · rintro ⟨names, rfl⟩
      exact ⟨0, names, rfl⟩
    · rintro ⟨_ | n, names, rfl⟩
      · exact ⟨names, rfl⟩
      · exact (hne _ rfl).elim

/-- The shape of a normalised path, with its root as a list of at most one component. -/
theorem isNormalForm_iff :
    isNormalForm p = true ↔
      ∃ root, (root = [] ∨ root = [rootDir]) ∧ ∃ n, ∃ names : List FileName,
        p = root ++ (replicate n parentDir ++ names.map normal) := by
  constructor
  · intro h
    unfold isNormalForm at h
    split at h
    · obtain ⟨n, names, rfl⟩ := dotsThenNames_iff.mp h
      exact ⟨[rootDir], .inr rfl, n, names, rfl⟩
    · obtain ⟨n, names, rfl⟩ := dotsThenNames_iff.mp h
      exact ⟨[], .inl rfl, n, names, rfl⟩
  · rintro ⟨root, rfl | rfl, n, names, rfl⟩
    · rw [nil_append, isNormalForm.eq_2]
      · exact dotsThenNames_iff.mpr ⟨n, names, rfl⟩
      · cases n <;> cases names <;> simp [replicate_succ]
    · exact dotsThenNames_iff.mpr ⟨n, names, rfl⟩

theorem normalStep_parentDir_of_name (acc : Path) (name : FileName) :
    normalStep (acc ++ [normal name]) parentDir = acc := by
  simp [normalStep]

theorem normalStep_isNormalForm {acc : Path} (h : isNormalForm acc = true) (c : Component) :
    isNormalForm (normalStep acc c) = true := by
  cases c with
  | rootDir => rfl
  | curDir => exact h
  | normal name =>
    obtain ⟨root, hroot, n, names, rfl⟩ := isNormalForm_iff.mp h
    exact isNormalForm_iff.mpr ⟨root, hroot, n, names ++ [name], by simp [normalStep]⟩
  | parentDir =>
    obtain ⟨root, hroot, n, names, rfl⟩ := isNormalForm_iff.mp h
    rcases eq_nil_or_concat names with rfl | ⟨init, last, rfl⟩
    · refine isNormalForm_iff.mpr ⟨root, hroot, n + 1, [], ?_⟩
      rcases hroot with rfl | rfl <;> cases n <;>
        simp [normalStep, getLast?_replicate, replicate_succ', getLast?_cons]
    · refine isNormalForm_iff.mpr ⟨root, hroot, n, init, ?_⟩
      rw [concat_eq_append, map_append, ← append_assoc, ← append_assoc]
      exact (normalStep_parentDir_of_name _ last).trans (append_assoc ..)

theorem normalize_isNormalForm (p : Path) : isNormalForm (normalize p) = true := by
  suffices h : ∀ acc, isNormalForm acc = true → isNormalForm (p.foldl normalStep acc) = true from
    h [] rfl
  induction p with
  | nil => exact fun acc h => h
  | cons c rest ih => exact fun acc h => ih _ (normalStep_isNormalForm h c)

theorem foldl_normalStep_names (acc : Path) (names : List FileName) :
    (names.map normal).foldl normalStep acc = acc ++ names.map normal := by
  induction names generalizing acc with
  | nil => simp
  | cons name rest ih => simp [normalStep, ih]

theorem foldl_normalStep_dots {root : Path} (hroot : root = [] ∨ root = [rootDir]) (n : ℕ) :
    (replicate n parentDir).foldl normalStep root =
      root ++ replicate n parentDir := by
  induction n with
  | zero => simp
  | succ n ih =>
    rw [replicate_succ', foldl_append, ih]
    rcases hroot with rfl | rfl <;> cases n <;>
      simp [normalStep, getLast?_replicate, replicate_succ', getLast?_cons]

theorem normalize_of_isNormalForm (h : isNormalForm p = true) : normalize p = p := by
  obtain ⟨root, hroot, n, names, rfl⟩ := isNormalForm_iff.mp h
  have hstart : root.foldl normalStep [] = root := by
    rcases hroot with rfl | rfl <;> rfl
  rw [normalize, foldl_append, hstart, foldl_append, foldl_normalStep_dots hroot,
    foldl_normalStep_names, append_assoc]

@[simp] theorem normalize_normalize (p : Path) : normalize (normalize p) = normalize p :=
  normalize_of_isNormalForm (normalize_isNormalForm p)

theorem isNormalForm_of_cons {c : Component} (h : isNormalForm (c :: p) = true) :
    isNormalForm p = true := by
  obtain ⟨root, rfl | rfl, n, names, hp⟩ := isNormalForm_iff.mp h
  · refine isNormalForm_iff.mpr ⟨[], .inl rfl, ?_⟩
    cases n with
    | zero =>
      cases names with
      | nil => simp at hp
      | cons name rest => exact ⟨0, rest, (cons.inj hp).2⟩
    | succ n => exact ⟨n, names, (cons.inj hp).2⟩
  · exact isNormalForm_iff.mpr ⟨[], .inl rfl, n, names, (cons.inj hp).2⟩

theorem isNormalForm_of_append {q : Path} (h : isNormalForm (p ++ q) = true) :
    isNormalForm q = true := by
  induction p with
  | nil => exact h
  | cons c p ih => exact ih (isNormalForm_of_cons h)

theorem isNormalForm_append_names (h : isNormalForm p = true) (names : List FileName) :
    isNormalForm (p ++ names.map normal) = true := by
  obtain ⟨root, hroot, n, init, rfl⟩ := isNormalForm_iff.mp h
  exact isNormalForm_iff.mpr ⟨root, hroot, n, init ++ names, by simp⟩

theorem foldl_normalStep_normalize (p acc : Path) :
    (normalize p).foldl normalStep acc = p.foldl normalStep acc := by
  induction p using reverseRecOn with
  | nil => rfl
  | append_singleton q c ih =>
    have hstep : normalize (q ++ [c]) = normalStep (normalize q) c := by
      simp [normalize]
    rw [hstep, foldl_append, ← ih, foldl_cons, foldl_nil]
    cases c with
    | rootDir | curDir => rfl
    | normal name => simp [normalStep]
    | parentDir =>
      rcases eq_nil_or_concat (normalize q) with hnil | ⟨init, last, hlast⟩
      · rw [hnil]
        rfl
      · rw [hlast, concat_eq_append]
        cases last with
        | normal name =>
          rw [normalStep_parentDir_of_name, foldl_append]
          exact (normalStep_parentDir_of_name _ name).symm
        | _ => simp [normalStep]

theorem foldl_normalStep_filter (p acc : Path) :
    (p.filter (· ≠ curDir)).foldl normalStep acc = p.foldl normalStep acc := by
  induction p generalizing acc with
  | nil => rfl
  | cons c rest ih =>
    cases c with
    | curDir => exact ih acc
    | _ => exact ih _

theorem foldl_normalStep_join (p q acc : Path) :
    (join p q).foldl normalStep acc = q.foldl normalStep (p.foldl normalStep acc) := by
  unfold join
  split_ifs with hroot hnil
  · obtain ⟨rest, rfl⟩ := head?_eq_some_iff.mp hroot
    rfl
  · rw [hnil, foldl_nil]
  · rw [foldl_append, foldl_normalStep_filter]

theorem normalize_join (p q : Path) : normalize (join p q) = q.foldl normalStep (normalize p) :=
  foldl_normalStep_join p q []

theorem normalize_normalize_join (p q : Path) :
    normalize (join (normalize p) q) = normalize (join p q) := by
  rw [normalize_join, normalize_join, normalize_normalize]

theorem normalize_join_normalize (p q : Path) :
    normalize (join p (normalize q)) = normalize (join p q) := by
  rw [normalize_join, normalize_join, foldl_normalStep_normalize]

theorem normalize_join_assoc (p q r : Path) :
    normalize (join p (join q r)) = normalize (join (join p q) r) := by
  rw [normalize_join, normalize_join, normalize_join, foldl_normalStep_join]

theorem mem_of_mem_normalize {c : Component} (h : c ∈ normalize p) : c ∈ p := by
  suffices hacc : ∀ acc, c ∈ p.foldl normalStep acc → c ∈ acc ∨ c ∈ p by
    simpa using hacc [] h
  clear h
  induction p with
  | nil => exact fun acc h => .inl h
  | cons d rest ih =>
    intro acc h
    have hstep : c ∈ normalStep acc d → c ∈ acc ∨ c = d := by
      cases d with
      | rootDir => exact fun hmem => .inr (mem_singleton.mp hmem)
      | curDir => exact fun hmem => .inl hmem
      | normal name => simp [normalStep]
      | parentDir =>
        rw [normalStep]
        split
        · exact fun hmem => .inl (mem_of_mem_dropLast hmem)
        · simp
    rcases ih _ h with hmem | hmem
    · rcases hstep hmem with hmem | rfl
      · exact .inl hmem
      · exact .inr mem_cons_self
    · exact .inr (mem_cons_of_mem _ hmem)

end Normalize

def Inner (c : Component) : Prop :=
  c = parentDir ∨ ∃ name, c = normal name

variable {c : Component}

theorem inner_of_mem_dotsThenNames {n : ℕ} {names : List FileName}
    (h : c ∈ replicate n parentDir ++ names.map normal) : Inner c := by
  rcases mem_append.mp h with h | h
  · exact .inl (eq_of_mem_replicate h)
  · obtain ⟨name, -, rfl⟩ := mem_map.mp h
    exact .inr ⟨name, rfl⟩

theorem ofSegment_segment (h : Inner c) : ofSegment c.segment = some c := by
  rcases h with rfl | ⟨name, rfl⟩ <;> simp

variable {p : Path}

theorem filterMap_ofSegment (h : ∀ c ∈ p, Inner c) : (p.map segment).filterMap ofSegment = p := by
  rw [filterMap_map]
  exact (filterMap_congr fun c hc => ofSegment_segment (h c hc)).trans filterMap_some

theorem splitOn_segments (h : p ≠ []) :
    ([sep].intercalate (p.map segment)).splitOn sep = p.map segment := by
  refine splitOn_intercalate sep ?_ (by simpa using h)
  intro s hs
  obtain ⟨c, -, rfl⟩ := mem_map.mp hs
  exact sep_notMem_segment c

theorem splitOn_sep_cons (t : Text) : (sep :: t).splitOn sep = [] :: t.splitOn sep :=
  splitOn_append_cons_self [] t

theorem components_append_sep {t : Text} (ht : t ≠ []) (q : Text) :
    components (t ++ sep :: q) = components t ++ (q.splitOn sep).filterMap ofSegment := by
  have hhead : (t ++ sep :: q).head? = t.head? := head?_append_of_ne_nil _ ht
  have hleading : leadingComponent (t ++ sep :: q) = leadingComponent t := by
    rw [leadingComponent, leadingComponent, hhead, splitOn_append_cons_self,
      head?_append_of_ne_nil _ (splitOn_ne_nil sep t)]
  rw [components, components, hleading, splitOn_append_cons_self, filterMap_append,
    append_assoc]

theorem segment_ne_dot (h : Inner c) : c.segment ≠ ['.'] := by
  rcases h with rfl | ⟨name, rfl⟩
  · decide
  · exact name.property.2.1

theorem head_segment (h : Inner c) : ∃ x rest, c.segment = x :: rest ∧ x ≠ sep := by
  rcases h with rfl | ⟨name, rfl⟩
  · exact ⟨'.', ['.'], rfl, by decide⟩
  · obtain ⟨x, rest, hx⟩ := exists_cons_of_ne_nil name.property.1
    exact ⟨x, rest, hx, fun e => name.property.2.2.2.1 (by rw [hx, e]; exact mem_cons_self)⟩

theorem head?_segments (h : Inner c) (rest : Path) :
    ∃ x ∈ c.segment, x ≠ sep ∧ ([sep].intercalate ((c :: rest).map segment)).head? = some x := by
  obtain ⟨x, tail, hx, hne⟩ := head_segment h
  refine ⟨x, by simp [hx], hne, ?_⟩
  cases rest <;> simp [intercalate, hx]

theorem leadingComponent_segments (h : ∀ c ∈ p, Inner c) :
    leadingComponent ([sep].intercalate (p.map segment)) = [] := by
  cases p with
  | nil => rfl
  | cons c rest =>
    have hc := h c mem_cons_self
    obtain ⟨x, -, hne, hhead⟩ := head?_segments hc rest
    rw [leadingComponent, hhead, if_neg (by simpa using hne), splitOn_segments (by simp),
      if_neg (by simpa using segment_ne_dot hc)]

theorem toText_inner (h : ∀ c ∈ p, Inner c) : toText p = [sep].intercalate (p.map segment) := by
  cases p with
  | nil => rfl
  | cons c rest => rcases h c mem_cons_self with rfl | ⟨name, rfl⟩ <;> rfl

theorem components_toText (h : isNormalForm p = true) : components (toText p) = p := by
  obtain ⟨root, hroot, n, names, rfl⟩ := isNormalForm_iff.mp h
  have hinner := fun c => @inner_of_mem_dotsThenNames c n names
  generalize hrest : replicate n parentDir ++ names.map normal = rest at hinner ⊢
  have hsplit : (([sep].intercalate (rest.map segment)).splitOn sep).filterMap ofSegment =
      rest := by
    by_cases hnil : rest = []
    · subst hnil; decide
    · rw [splitOn_segments hnil, filterMap_ofSegment hinner]
  rcases hroot with rfl | rfl
  · rw [nil_append, toText_inner hinner, components, leadingComponent_segments hinner, hsplit,
      nil_append]
  · have hlead : leadingComponent (sep :: [sep].intercalate (rest.map segment)) = [rootDir] := rfl
    rw [singleton_append, toText, components, hlead, splitOn_sep_cons,
      filterMap_cons_none (by decide), hsplit, singleton_append]

theorem toText_injective {q : Path} (hp : isNormalForm p = true) (hq : isNormalForm q = true)
    (h : toText p = toText q) : p = q := by
  rw [← components_toText hp, h, components_toText hq]

/-- A rooted path whose other components may follow one another. -/
def IsAbsolute (p : Path) : Prop :=
  ∃ rest, p = rootDir :: rest ∧ ∀ c ∈ rest, Inner c

theorem rootDir_notMem_of_inner (h : ∀ c ∈ p, Inner c) : rootDir ∉ p := by
  intro hmem
  rcases h _ hmem with h | ⟨name, h⟩ <;> cases h

variable {s : Text}

theorem inner_of_ofSegment (h : ofSegment s = some c) : Inner c ∧ c.segment = s := by
  unfold ofSegment at h
  split at h
  · cases h
    exact ⟨.inr ⟨_, rfl⟩, rfl⟩
  · split at h
    · next hs =>
      cases h
      exact ⟨.inl rfl, hs.symm⟩
    · cases h

/-- Without `..` the segments of a text are names. -/
theorem exists_names {t : Text} (h : parentDir ∉ components t) :
    ∃ names : List FileName, (t.splitOn sep).filterMap ofSegment = names.map normal := by
  refine all_isNormal_iff.mp (all_eq_true.mpr fun c hc => ?_)
  obtain ⟨s, -, hs⟩ := mem_filterMap.mp hc
  rcases (inner_of_ofSegment hs).1 with rfl | ⟨name, rfl⟩
  · exact absurd (mem_append_right _ hc) h
  · rfl

variable {t : Text}

theorem isAbsolute_components (h : t.head? = some sep) : IsAbsolute (components t) := by
  refine ⟨(t.splitOn sep).filterMap ofSegment, by simp [components, leadingComponent, h], ?_⟩
  intro c hc
  obtain ⟨s, -, hs⟩ := mem_filterMap.mp hc
  exact (inner_of_ofSegment hs).1

theorem rootDir_notMem_of_append {base rest : Path} (h : IsAbsolute (base ++ rest))
    (hne : base ≠ []) : rootDir ∉ rest := by
  obtain ⟨tail, heq, htail⟩ := h
  obtain ⟨c, base, rfl⟩ := exists_cons_of_ne_nil hne
  have hrest : rest <:+ tail := by
    rw [← (cons.inj heq).2]
    exact suffix_append ..
  exact rootDir_notMem_of_inner fun c hc => htail c (hrest.mem hc)

theorem IsAbsolute.normalize (h : IsAbsolute p) : ∃ rest, normalize p = rootDir :: rest := by
  obtain ⟨rest, rfl, hrest⟩ := h
  have hroot := rootDir_notMem_of_inner hrest
  have hshape := normalize_isNormalForm rest
  obtain ⟨root, rfl | rfl, n, names, hnorm⟩ := isNormalForm_iff.mp hshape
  · refine ⟨Unix.normalize rest, ?_⟩
    change rest.foldl normalStep [rootDir] = _
    rw [← foldl_normalStep_normalize rest, hnorm, nil_append, foldl_append,
      foldl_normalStep_dots (.inr rfl), foldl_normalStep_names]
    simp
  · exact absurd (mem_of_mem_normalize (by rw [hnorm]; simp)) hroot

theorem IsAbsolute.join_components (h : IsAbsolute p) (t : Text) :
    IsAbsolute (join p (components t)) := by
  by_cases ht : t.head? = some sep
  · obtain ⟨rest, hrest, hinner⟩ := isAbsolute_components ht
    rw [join, if_pos (by rw [hrest]; rfl)]
    exact ⟨rest, hrest, hinner⟩
  · have hinner : ∀ c ∈ components t, c = curDir ∨ Inner c := by
      intro c hc
      rcases mem_append.mp hc with hc | hc
      · unfold leadingComponent at hc
        split_ifs at hc
        · exact .inl (mem_singleton.mp hc)
        · exact nomatch hc
      · obtain ⟨s, -, hs⟩ := mem_filterMap.mp hc
        exact .inr (inner_of_ofSegment hs).1
    have hroot : (components t).head? ≠ some rootDir := by
      intro hhead
      rcases hinner _ (mem_of_head? hhead) with h | h | ⟨name, h⟩ <;> cases h
    obtain ⟨rest, rfl, hrest⟩ := h
    rw [join, if_neg hroot, if_neg (by simp)]
    refine ⟨_, rfl, fun c hc => ?_⟩
    rcases mem_append.mp hc with hc | hc
    · exact hrest c hc
    · obtain ⟨hmem, hne⟩ := mem_filter.mp hc
      exact (hinner c hmem).resolve_left (of_decide_eq_true hne)

theorem isAbsolute_of_isNormalForm (h : isNormalForm p = true) (hhead : p.head? = some rootDir) :
    IsAbsolute p := by
  obtain ⟨root, rfl | rfl, n, names, rfl⟩ := isNormalForm_iff.mp h
  · have hroot : rootDir ∉ replicate n parentDir ++ names.map normal :=
      rootDir_notMem_of_inner fun c hc => inner_of_mem_dotsThenNames hc
    exact absurd (mem_of_head? hhead) hroot
  · exact ⟨_, rfl, fun c hc => inner_of_mem_dotsThenNames hc⟩

theorem IsAbsolute.isAbsolute_normalize (h : IsAbsolute p) : IsAbsolute (Unix.normalize p) := by
  obtain ⟨rest, hrest⟩ := h.normalize
  exact isAbsolute_of_isNormalForm (normalize_isNormalForm p) (by rw [hrest]; rfl)

variable {x y : Char}

theorem mem_intercalate {ls : List Text} (h : x ∈ [y].intercalate ls) :
    x = y ∨ ∃ s ∈ ls, x ∈ s := by
  induction ls with
  | nil => simp [intercalate] at h
  | cons s rest ih =>
    cases rest with
    | nil => exact .inr ⟨s, mem_cons_self, by simpa [intercalate] using h⟩
    | cons s' rest =>
      rw [intercalate_cons_cons, mem_append, mem_append] at h
      rcases h with (hx | hx) | hx
      · exact .inr ⟨s, mem_cons_self, hx⟩
      · exact .inl (by simpa using hx)
      · rcases ih hx with hx | ⟨e, he, hx⟩
        · exact .inl hx
        · exact .inr ⟨e, mem_cons_of_mem _ he, hx⟩

theorem mem_toText (h : x ∈ toText p) : x = sep ∨ ∃ c ∈ p, x ∈ c.segment := by
  have hjoin : ∀ q : Path, x ∈ [sep].intercalate (q.map segment) →
      x = sep ∨ ∃ c ∈ q, x ∈ c.segment := by
    intro q hq
    rcases mem_intercalate hq with h | ⟨s, hs, hx⟩
    · exact .inl h
    · obtain ⟨c, hc, rfl⟩ := mem_map.mp hs
      exact .inr ⟨c, hc, hx⟩
  unfold toText at h
  split at h
  · rcases mem_cons.mp h with h | h
    · exact .inl h
    · rcases hjoin _ h with h | ⟨c, hc, h⟩
      · exact .inl h
      · exact .inr ⟨c, mem_cons_of_mem _ hc, h⟩
  · exact hjoin p h

theorem sublist_intercalate_of_mem {ls : List Text} (hs : s ∈ ls) :
    s.Sublist ([y].intercalate ls) := by
  induction ls with
  | nil => cases hs
  | cons s' rest ih =>
    cases rest with
    | nil =>
      rw [mem_singleton] at hs
      simp [intercalate, ← hs]
    | cons s'' rest =>
      rcases mem_cons.mp hs with rfl | hs
      · exact sublist_append_left s _
      · exact ((ih hs).trans (sublist_append_right _ _)).trans (sublist_append_right _ _)

theorem sublist_of_mem_splitOn (hs : s ∈ t.splitOn y) : s.Sublist t := by
  have hjoin : [y].intercalate (t.splitOn y) = t := intercalate_splitOn y
  have hsub := sublist_intercalate_of_mem (y := y) hs
  rwa [hjoin] at hsub

theorem mem_of_mem_splitOn (hs : s ∈ t.splitOn y) (hx : x ∈ s) : x ∈ t :=
  (sublist_of_mem_splitOn hs).subset hx

theorem exists_mem_splitOn (hx : x ∈ t) (hne : x ≠ y) : ∃ s ∈ t.splitOn y, x ∈ s := by
  have hjoin : [y].intercalate (t.splitOn y) = t := intercalate_splitOn y
  rw [← hjoin] at hx
  exact (mem_intercalate hx).resolve_left hne

theorem notMem_of_mem_splitOn (hs : s ∈ t.splitOn y) : y ∉ s := by
  induction t generalizing s with
  | nil =>
    rw [splitOn_nil, mem_singleton] at hs
    rw [hs]
    exact not_mem_nil
  | cons c t ih =>
    rw [splitOn_cons_eq_if_modifyHead] at hs
    split at hs
    · rcases mem_cons.mp hs with rfl | hs
      · exact not_mem_nil
      · exact ih hs
    · next hc =>
      obtain ⟨first, rest, hsplit⟩ := exists_cons_of_ne_nil (splitOn_ne_nil y t)
      rw [hsplit, modifyHead_cons] at hs
      rcases mem_cons.mp hs with rfl | hs
      · rw [mem_cons, not_or]
        refine ⟨fun h => hc (by simp [h]), ih ?_⟩
        rw [hsplit]
        exact mem_cons_self
      · refine ih ?_
        rw [hsplit]
        exact mem_cons_of_mem _ hs

theorem mem_of_mem_components (hc : c ∈ components t) (hx : x ∈ c.segment) : x ∈ t := by
  rcases mem_append.mp hc with hlead | hmem
  · unfold leadingComponent at hlead
    split at hlead
    · rw [mem_singleton.mp hlead] at hx
      cases hx
    · split at hlead
      · next hdot =>
        rw [mem_singleton.mp hlead] at hx
        exact mem_of_mem_splitOn (mem_of_head? hdot) hx
      · cases hlead
  · obtain ⟨s, hs, hseg⟩ := mem_filterMap.mp hmem
    exact mem_of_mem_splitOn hs ((inner_of_ofSegment hseg).2 ▸ hx)

theorem nul_notMem_toText (p : Path) : nul ∉ toText p := by
  intro h
  rcases mem_toText h with h | ⟨c, -, h⟩
  · exact absurd h (by decide)
  · exact nul_notMem_segment c h

end Unix
