import Zccache.Core.Host
import Zccache.Context.ArtifactKeys

/-! # Compile contexts

The inputs that define a C or C++ compilation, and the key computed from them.
-/

namespace Zccache

open Unix List

variable {D : Type}

/-- Include directories in their search order. -/
structure IncludeSearchPaths where
  iquote : List NormalizedPath
  user : List NormalizedPath
  system : List NormalizedPath
  after : List NormalizedPath
  deriving DecidableEq

structure CompileContext (D : Type) where
  sourceFile : NormalizedPath
  includeSearch : IncludeSearchPaths
  defines : List Text
  undefines : List Text
  flags : List Text
  forceIncludes : List NormalizedPath
  unknownFlags : List Text
  compilerHash : D
  deriving DecidableEq

/-- Split at the first occurrence of `c`. -/
def splitOnce (c : Char) : Text → Option (Text × Text)
  | [] => none
  | x :: rest =>
    if x = c then some ([], rest)
    else (splitOnce c rest).map fun parts => (x :: parts.1, parts.2)

theorem splitOnce_eq_some_iff {c : Char} {t a b : Text} :
    splitOnce c t = some (a, b) ↔ t = a ++ c :: b ∧ c ∉ a := by
  induction t generalizing a with
  | nil => simp [splitOnce]
  | cons x t ih =>
    rw [splitOnce]
    split
    · next hx =>
      subst hx
      constructor
      · rintro h
        cases h
        exact ⟨rfl, not_mem_nil⟩
      · rintro ⟨h, hmem⟩
        cases a with
        | nil => rw [(cons.inj h).2]
        | cons y a => exact absurd ((cons.inj h).1 ▸ mem_cons_self) hmem
    · next hx =>
      rw [Option.map_eq_some_iff]
      constructor
      · rintro ⟨⟨a', b'⟩, hsplit, hparts⟩
        cases hparts
        obtain ⟨rfl, hmem⟩ := ih.mp hsplit
        refine ⟨rfl, ?_⟩
        rintro (_ | ⟨_, h⟩)
        · exact hx rfl
        · exact hmem h
      · rintro ⟨h, hmem⟩
        cases a with
        | nil => exact absurd (cons.inj h).1 hx
        | cons y a =>
          obtain ⟨rfl, htail⟩ := cons.inj h
          exact ⟨(a, b), ih.mpr ⟨htail, fun h => hmem (mem_cons_of_mem _ h)⟩, rfl⟩

theorem splitOnce_eq_none_iff {c : Char} {t : Text} : splitOnce c t = none ↔ c ∉ t := by
  induction t with
  | nil => simp [splitOnce]
  | cons x t ih =>
    rw [splitOnce]
    split
    · next hx => simp [hx]
    · next hx => simp [ih, Ne.symm hx]

def normalizeRemapPathPrefixForKey (remap : Text) (keyRoot : Option Path) : Text :=
  match keyRoot, splitOnce '=' remap with
  | some root, some (old, new) =>
    if (stripPrefix (components old) root).isSome then
      normalizeKeyPath (components old) keyRoot ++ '=' :: new
    else remap
  | _, _ => remap

def prefixMapFlags : List Text :=
  ["-ffile-prefix-map=", "-fdebug-prefix-map=", "-fmacro-prefix-map=",
    "-fcoverage-prefix-map=", "-fprofile-prefix-map="]

/-- The first prefix-map flag that `flag` starts with, and the remap that follows it. -/
def splitPrefixMapFlag (flag : Text) : Option (Text × Text) :=
  prefixMapFlags.findSome? fun pre => (flag.dropPrefix? pre).map fun remap => (pre, remap)

def normalizeCxxPrefixMapFlagForKey (flag : Text) (keyRoot : Option Path) : Text :=
  match splitPrefixMapFlag flag with
  | some (pre, remap) => pre ++ normalizeRemapPathPrefixForKey remap keyRoot
  | none => flag

namespace CompileContext

def plain (sourceFile : NormalizedPath) (compilerHash : D) : CompileContext D where
  sourceFile := sourceFile
  includeSearch := ⟨[], [], [], []⟩
  defines := []
  undefines := []
  flags := []
  forceIncludes := []
  unknownFlags := []
  compilerHash := compilerHash

def hasNativeCpuFlag (ctx : CompileContext D) : Bool :=
  (ctx.flags ++ ctx.unknownFlags).any isCxxNativeCpuFlag

/-- The tagged sections that follow the source file in the key's fields. -/
def sections (ctx : CompileContext D) (keyRoot : Option Path)
    (normalize : Path → Option Path → Text) : List (Text × List Text) :=
  let paths := map fun p : NormalizedPath => normalize p.path keyRoot
  let flags := map fun f : Text => normalizeCxxPrefixMapFlagForKey f keyRoot
  [("iquote", paths ctx.includeSearch.iquote),
    ("user", paths ctx.includeSearch.user),
    ("system", paths ctx.includeSearch.system),
    ("after", paths ctx.includeSearch.after),
    ("defines", ctx.defines),
    ("undefines", ctx.undefines),
    ("flags", flags ctx.flags),
    ("force-include", paths ctx.forceIncludes),
    ("unknown", flags ctx.unknownFlags)]

end CompileContext

variable (H : Host D) (ctx : CompileContext D) (keyRoot worktreeSalt : Option Path)
variable (nativeCpuSalt : Option Text) (normalize : Path → Option Path → Text)

def contextKeyFields : List (Field D) :=
  [text "zccache-context-key-v1", text "compiler", raw ctx.compilerHash] ++
    (if ctx.hasNativeCpuFlag then
      [text "native-cpu-host", text (nativeCpuSalt.getD (hostCpuIdentitySalt H))]
    else []) ++
    (match worktreeSalt with
    | some salt => [text "worktree-salt", text (normalizeForKey salt)]
    | none => []) ++
    text (normalize ctx.sourceFile.path keyRoot) ::
      (ctx.sections keyRoot normalize).flatMap fun s => text s.1 :: s.2.map text

def computeContextKeyWithNativeCpuSalt : ContextKey D :=
  ⟨H.digest (framed (contextKeyFields H ctx keyRoot worktreeSalt nativeCpuSalt normalize))⟩

def computeContextKeyWith :
    ContextKey D :=
  computeContextKeyWithNativeCpuSalt H ctx keyRoot worktreeSalt none normalize

def computeContextKey : ContextKey D :=
  computeContextKeyWith H ctx keyRoot worktreeSalt normalizeKeyPath

end Zccache
