import Zccache.Request.GnuArgs

/-! # Arguments read one by one

What the readers of an argument list see of the arguments that follow, and the one
source that an invocation stands for.
-/

namespace Zccache

open List Unix NormalizedPath

variable {fs : FileSystem} {cwd : Path}

theorem readArg_next {n n' : Text} (hhead : n.head? = n'.head?)
    (hsrc : n.head? ≠ some '-' →
      isSourceFile (resolvePath cwd n) = isSourceFile (resolvePath cwd n'))
    (arg : Text) : readArg fs cwd arg (some n) = readArg fs cwd arg (some n') := by
  have hunk : unknownFlag cwd arg (some n) = unknownFlag cwd arg (some n') := by
    unfold unknownFlag
    by_cases hdash : n.head? = some '-'
    · simp [← hhead, hdash]
    · simp only [← hhead, hsrc hdash]
  unfold readArg
  rw [hunk]
  rfl

theorem GnuScan.operand_eq (s : GnuScan) (arg : Text) :
    s.operand arg = { s with
      sources := s.sources ++
        if hasExtension sourceExtensions arg || s.mode ≠ .normal then
          [(arg, if s.mode ≠ .normal then s.mode else sourceModeFromExtension arg)]
        else [] } := by
  unfold GnuScan.operand
  by_cases hsrc : (hasExtension sourceExtensions arg || s.mode ≠ .normal) = true
  · simp only [hsrc, if_true]
  · simp only [hsrc, Bool.false_eq_true, if_false, append_nil]

/-- Induction for readers that take one argument or two at once. -/
@[elab_as_elim]
theorem args_induction {P : List Text → Prop} (nil : P [])
    (cons : ∀ arg rest, P rest → P rest.tail → P (arg :: rest)) (args : List Text) : P args := by
  have hboth : P args ∧ P args.tail := by
    induction args with
    | nil => exact ⟨nil, nil⟩
    | cons arg rest ih => exact ⟨cons arg rest ih.1 ih.2, ih.1⟩
  exact hboth.1

variable (compiler : Text)

/-- The source of the compilation that an invocation stands for. -/
def invocationSource (args : List Text) : Option NormalizedPath :=
  match parseGnuInvocation compiler args true with
  | .cacheable compilation => some compilation.sourceFile
  | _ => none

theorem invocationSource_eq (args : List Text) :
    invocationSource compiler args =
      match scanGnu .start args with
      | .error _ => none
      | .ok s =>
        if !s.hasC && !s.hasPrecompile && !s.mode.impliesCompilation then none
        else
          match s.sources.map (fun e => new e.1), unmodeledSideOutputFlag args with
          | [source], none => some source
          | _, _ => none := by
  unfold invocationSource parseGnuInvocation
  cases scanGnu .start args with
  | error reason => rfl
  | ok s =>
    dsimp only
    by_cases hlink : (!s.hasC && !s.hasPrecompile && !s.mode.impliesCompilation) = true
    · rw [if_pos hlink, if_pos hlink]
    · rw [if_neg hlink, if_neg hlink]
      cases unmodeledSideOutputFlag args with
      | some flag => rcases s.sources with _ | ⟨e, _ | ⟨e', rest⟩⟩ <;> rfl
      | none =>
        rcases s.sources with _ | ⟨e, _ | ⟨e', rest⟩⟩
        · rfl
        · rfl
        · simp only [Option.filter_none, map_cons]
          by_cases hout : s.output.isSome = true
          · rw [if_pos hout]
          · rw [if_neg hout]
            split
            · next heq => split at heq <;> cases heq
            · rfl

end Zccache
