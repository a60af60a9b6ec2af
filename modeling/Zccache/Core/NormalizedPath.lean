import Zccache.Base.Path

/-! # Normalised paths

Paths held in lexical normal form and compared by their key text.
-/

namespace Zccache

open Unix

def normalizeForKey (p : Path) : Text :=
  toText (normalize p)

/-- A path in normal form. Equality of keys is equality of paths (`caseKey_inj`). -/
structure NormalizedPath where
  path : Path
  isNormal : isNormalForm path = true
  deriving DecidableEq

namespace NormalizedPath

def ofPath (p : Path) : NormalizedPath :=
  ⟨normalize p, normalize_isNormalForm p⟩

def new (t : Text) : NormalizedPath :=
  ofPath (components t)

variable (p : NormalizedPath)

def caseKey : Text :=
  normalizeForKey p.path

def join (p : NormalizedPath) (rest : Path) : NormalizedPath :=
  ofPath (Unix.join p.path rest)

def startsWith (p base : NormalizedPath) : Bool :=
  Unix.startsWith (components p.caseKey) (components base.caseKey)

def stripPrefix (p base : NormalizedPath) : Option Path :=
  Unix.stripPrefix (components p.caseKey) (components base.caseKey)

@[ext] theorem ext {p q : NormalizedPath} (h : p.path = q.path) : p = q := by
  cases p; cases q; cases h; rfl

@[simp] theorem normalize_path : normalize p.path = p.path :=
  normalize_of_isNormalForm p.isNormal

@[simp] theorem ofPath_path : ofPath p.path = p :=
  ext p.normalize_path

theorem caseKey_eq : p.caseKey = toText p.path := by
  rw [caseKey, normalizeForKey, normalize_path]

@[simp] theorem components_caseKey : components p.caseKey = p.path := by
  rw [caseKey_eq, components_toText p.isNormal]

theorem caseKey_inj {p q : NormalizedPath} : p.caseKey = q.caseKey ↔ p = q := by
  constructor
  · intro h
    exact ext (by rw [← components_caseKey p, h, components_caseKey])
  · rintro rfl
    rfl

@[simp] theorem new_caseKey : new p.caseKey = p := by
  rw [new, components_caseKey, ofPath_path]

theorem stripPrefix_eq (base : NormalizedPath) :
    p.stripPrefix base = Unix.stripPrefix p.path base.path := by
  simp only [stripPrefix, components_caseKey]

end NormalizedPath

/-- The metadata of a file. The modification time counts nanoseconds from the epoch. -/
structure FileStat where
  mtime : ℤ
  size : ℕ
  deriving DecidableEq

end Zccache
