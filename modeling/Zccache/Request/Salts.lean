import Mathlib.Data.List.ReduceOption
import Zccache.Context.CompileContext
import Zccache.Depfile.Root
import Zccache.Exec.Key

/-! # Salts of a request

What a request adds to its context before the context is registered: the arguments
that shape a dependency file of the user, and for a precompiled header the invocation.
-/

namespace Zccache

open List Unix Framing Templates

variable {D : Type}

/-- Whether a path can start here. What is before is given backwards. -/
def argStartsToken (before : Text) : Bool :=
  before.isEmpty || before.head? ∈ [some '=', some ','] ||
    (1 < before.length && before.getLast? = some '-' && before.dropLast.all Char.isAlpha)

def argEndsRoot (after : Text) : Bool :=
  after.head? ∈ [none, some '=', some ',', some '/']

def saltDepfileArg (arg : Text) (keyRoot : Option Text) : Text :=
  match keyRoot.bind rootSpelling with
  | none => arg
  | some root =>
    fill depfileWorktreeRootMarker
      (cut root (fun before after => argStartsToken before && argEndsRoot after) [] 0 arg)

/-- The arguments that shape the bytes of a dependency file. Where the file goes does not, unless
it is the standard output, for which `none` stands. -/
def depfileArgs : List Text → List (Option Text)
  | [] => []
  | arg :: rest =>
    if arg = "-MF" then
      match rest with
      | [] => []
      | next :: rest => (if next = "-" then [none] else []) ++ depfileArgs rest
    else if arg = "-MF-" then none :: depfileArgs rest
    else if "-MF".toList.isPrefixOf arg then depfileArgs rest
    else some arg :: depfileArgs rest

def depfileArgMarker (index : ℕ) : Option Text → Text
  | none => "zccache:user-depfile-output=stdout"
  | some arg =>
    "zccache:user-depfile-argv=" ++ Nat.toDigits 10 index ++
      ':' :: (Nat.toDigits 10 (byteLength arg) ++ ':' :: arg)

/-- The argv that shapes a dependency file, the root of the request replaced by a marker. -/
def userDepfileContent (hasMd : Bool) (args : List Text) (keyRoot : Option Text) : List Text :=
  if hasMd then
    (depfileArgs args).mapIdx fun i arg => depfileArgMarker i (arg.map (saltDepfileArg · keyRoot))
  else []

def exactInvocationKeyFlag (H : Hasher D) (cwd : Path) (args : List Text) : Text :=
  "zccache-pch-invocation=" ++
    H.toHex (H.hashText (toText cwd ++ args.flatMap (nul :: ·)))

section Markers

variable {arg arg' : Text} {hasMd : Bool} {args : List Text} {keyRoot : Option Text}

/-- The salts are spelled unlike any option. -/
def IsSalt (flag : Text) : Prop :=
  "zccache".toList <+: flag

theorem isSalt_depfileArgMarker (index : ℕ) (arg : Option Text) :
    IsSalt (depfileArgMarker index arg) := by
  cases arg with
  | none | some => exact ⟨_, rfl⟩

theorem isSalt_exactInvocationKeyFlag (H : Hasher D) (cwd : Path) (args : List Text) :
    IsSalt (exactInvocationKeyFlag H cwd args) :=
  ⟨_, rfl⟩

theorem mem_userDepfileContent {flag : Text} (h : flag ∈ userDepfileContent hasMd args keyRoot) :
    ∃ i arg, arg ∈ depfileArgs args ∧
      depfileArgMarker i (arg.map (saltDepfileArg · keyRoot)) = flag := by
  unfold userDepfileContent at h
  split at h
  · obtain ⟨i, hi, rfl⟩ := mem_mapIdx.mp h
    exact ⟨i, _, getElem_mem hi, rfl⟩
  · cases h

theorem isSalt_userDepfileContent {flag : Text} (h : flag ∈ userDepfileContent hasMd args keyRoot) :
    IsSalt flag := by
  obtain ⟨i, arg, -, rfl⟩ := mem_userDepfileContent h
  exact isSalt_depfileArgMarker i _

theorem notMem_toDigits {c : Char} (hc : c.isDigit = false) (n : ℕ) : c ∉ Nat.toDigits 10 n := by
  intro hmem
  rw [Nat.isDigit_of_mem_toDigits (by decide) (by decide) hmem] at hc
  cases hc

theorem nul_notMem_depfileArgMarker (index : ℕ) {arg : Option Text} (h : ∀ t ∈ arg, nul ∉ t) :
    nul ∉ depfileArgMarker index arg := by
  cases arg with
  | none => exact (by decide : nul ∉ "zccache:user-depfile-output=stdout".toList)
  | some arg =>
    have hlit : nul ∉ "zccache:user-depfile-argv=".toList := by decide
    have hdigits : ∀ n, nul ∉ Nat.toDigits 10 n := notMem_toDigits (by decide)
    have hcolon : nul ≠ ':' := by decide
    change nul ∉ "zccache:user-depfile-argv=".toList ++ Nat.toDigits 10 index ++
      ':' :: (Nat.toDigits 10 (byteLength arg) ++ ':' :: arg)
    simp only [mem_append, mem_cons, not_or]
    exact ⟨⟨hlit, hdigits index⟩, hcolon, hdigits _, hcolon, h arg rfl⟩

theorem depfileArgMarker_inj {index : ℕ}
    (h : depfileArgMarker index (some arg) = depfileArgMarker index (some arg')) : arg = arg' := by
  have hrest := (cons.inj (append_cancel_left h)).2
  have hdigits : ∀ n, ':' ∉ Nat.toDigits 10 n := notMem_toDigits (by decide)
  exact (append_terminator_inj (hdigits _) (hdigits _) hrest).2

theorem mem_of_mem_depfileArgs (h : some arg ∈ depfileArgs args) : arg ∈ args := by
  fun_induction depfileArgs args with
  | case1 | case2 => simp at h
  | case3 => grind
  | case4 | case5 | case6 => grind

theorem nul_notMem_userDepfileContent (h : ∀ arg ∈ args, nul ∉ arg) :
    ∀ flag ∈ userDepfileContent hasMd args none, nul ∉ flag := by
  intro flag hflag
  obtain ⟨i, arg, harg, rfl⟩ := mem_userDepfileContent hflag
  refine nul_notMem_depfileArgMarker i fun t ht => ?_
  obtain ⟨arg, rfl, rfl⟩ := Option.map_eq_some_iff.mp ht
  exact h arg (mem_of_mem_depfileArgs harg)

theorem length_userDepfileContent (hasMd : Bool) (args : List Text)
    (keyRoot keyRoot' : Option Text) :
    (userDepfileContent hasMd args keyRoot).length =
      (userDepfileContent hasMd args keyRoot').length := by
  unfold userDepfileContent
  split
  · rw [length_mapIdx, length_mapIdx]
  · rfl

/-- No argument that goes into a dependency file is spelled below the root. -/
def UnsaltedArgs (hasMd : Bool) (args : List Text) (root : Text) : Prop :=
  hasMd = true → ∀ arg ∈ (depfileArgs args).reduceOption, saltDepfileArg arg (some root) = arg

instance (hasMd : Bool) (args : List Text) (root : Text) :
    Decidable (UnsaltedArgs hasMd args root) :=
  inferInstanceAs (Decidable (_ → _))

theorem userDepfileContent_eq_iff {root : Text} :
    userDepfileContent hasMd args (some root) = userDepfileContent hasMd args none ↔
      UnsaltedArgs hasMd args root := by
  unfold userDepfileContent UnsaltedArgs
  cases hasMd with
  | false => simp
  | true =>
    simp only [if_pos, mapIdx_eq_mapIdx_iff, reduceOption_mem_iff, forall_const]
    constructor
    · intro h arg harg
      obtain ⟨i, hi, hget⟩ := getElem_of_mem harg
      have hmark := h i hi
      rw [hget] at hmark
      exact depfileArgMarker_inj hmark
    · intro h i hi
      cases hget : (depfileArgs args)[i] with
      | none => rfl
      | some arg =>
        rw [Option.map_some, h arg (hget ▸ getElem_mem hi)]
        rfl

end Markers

section Key

variable (H : Host D) (ctx : CompileContext D) (keyRoot worktreeSalt : Option Path)
  {flags flags' : List Text}

def withSalts (flags : List Text) : CompileContext D :=
  { ctx with unknownFlags := ctx.unknownFlags ++ flags }

theorem withSalts_withSalts :
    withSalts (withSalts ctx flags) flags' = withSalts ctx (flags ++ flags') := by
  simp [withSalts]

variable {ctx}

theorem IsSalt.normalize_eq {flag : Text} (h : IsSalt flag) :
    normalizeCxxPrefixMapFlagForKey flag keyRoot = flag := by
  obtain ⟨rest, rfl⟩ := h
  rfl

theorem IsSalt.not_native {flag : Text} (h : IsSalt flag) : isCxxNativeCpuFlag flag = false := by
  obtain ⟨rest, rfl⟩ := h
  rfl

theorem contextKeyFields_withSalts (h : ∀ flag ∈ flags, IsSalt flag) (nativeCpuSalt : Option Text)
    (normalize : Path → Option Path → Text) :
    contextKeyFields H (withSalts ctx flags) keyRoot worktreeSalt nativeCpuSalt normalize =
      contextKeyFields H ctx keyRoot worktreeSalt nativeCpuSalt normalize ++ flags.map text := by
  have hnative : (withSalts ctx flags).hasNativeCpuFlag = ctx.hasNativeCpuFlag := by
    have hany : flags.any isCxxNativeCpuFlag = false := by
      simpa using fun flag hflag => (h flag hflag).not_native
    simp [CompileContext.hasNativeCpuFlag, withSalts, any_append, hany]
  have hflags : flags.map (normalizeCxxPrefixMapFlagForKey · keyRoot) = flags :=
    (map_congr_left fun flag hflag => (h flag hflag).normalize_eq keyRoot).trans (map_id' flags)
  unfold contextKeyFields
  rw [hnative]
  simp only [CompileContext.sections, withSalts, map_append, hflags, flatMap_cons, flatMap_nil,
    append_assoc, cons_append, append_nil]

/-- Salts without a terminator have a key of their own among all that are not fewer. -/
theorem salts_eq_of_contextKey (hH : Function.Injective H.digest)
    (hflags : ∀ flag ∈ flags, IsSalt flag) (hflags' : ∀ flag ∈ flags', IsSalt flag)
    (hnul : ∀ flag ∈ flags', nul ∉ flag) (hlen : flags'.length ≤ flags.length)
    (h : computeContextKey H (withSalts ctx flags) keyRoot worktreeSalt =
      computeContextKey H (withSalts ctx flags') keyRoot worktreeSalt) : flags = flags' := by
  have hframed := hH (ContextKey.mk.inj h)
  rw [contextKeyFields_withSalts H keyRoot worktreeSalt hflags,
    contextKeyFields_withSalts H keyRoot worktreeSalt hflags', framed, framed, frame_append,
    frame_append] at hframed
  have hfields := frame_inj_of_length_le (by simpa using hnul) (by simpa using hlen)
    (append_cancel_left hframed)
  exact map_injective_iff.mpr (fun _ _ => text_injective) hfields

/-- A context with further salts and those of a root has the key of one with the salts of no root
only if they are the same salts. -/
theorem contextKey_withSalts_eq_iff {hasMd : Bool} {args : List Text} {root : Text}
    (hH : Function.Injective H.digest) (hflags : ∀ flag ∈ flags, IsSalt flag)
    (hnul : ∀ arg ∈ args, nul ∉ arg) :
    computeContextKey H (withSalts ctx (flags ++ userDepfileContent hasMd args (some root)))
        keyRoot worktreeSalt =
      computeContextKey H (withSalts ctx (userDepfileContent hasMd args none))
        keyRoot worktreeSalt ↔ flags = [] ∧ UnsaltedArgs hasMd args root := by
  have hlen := length_userDepfileContent hasMd args (some root) none
  rw [← userDepfileContent_eq_iff]
  constructor
  · intro h
    have hsalts := salts_eq_of_contextKey H keyRoot worktreeSalt hH
      (fun flag hflag => (mem_append.mp hflag).elim (hflags flag) isSalt_userDepfileContent)
      (fun flag => isSalt_userDepfileContent) (nul_notMem_userDepfileContent hnul)
      (by simp [hlen]) h
    have hnil : flags = [] := by
      have := congrArg length hsalts
      rw [length_append, hlen] at this
      exact length_eq_zero_iff.mp (by omega)
    rw [hnil, nil_append] at hsalts
    exact ⟨hnil, hsalts⟩
  · rintro ⟨rfl, heq⟩
    rw [heq, nil_append]

end Key

end Zccache
