import Zccache.Request.Segments

/-! # Options as the compiler reads them

A compiler obeys the last option of a family. The options that it sees are those
that the key parser appends, unless the key parser misreads an argument or does
not know that the compiler takes a value after it.
-/

namespace Zccache

open List Unix Option GnuAction

def argOptions (arg : Text) : List GnuAction :=
  match arg.dropPrefix? "-D", arg.dropPrefix? "-U" with
  | some t, _ => [.define t]
  | none, some t => [.undefine t]
  | none, none => if (flagFamily arg).isSome then [.flag arg] else []

def valueOptions (option value : Text) : List GnuAction :=
  if option = "-D" then [.define value]
  else if option = "-U" then [.undefine value]
  else if option = "-std" then [.flag ("-std=" ++ value)]
  else []

/-- The arguments as the compiler reads them: by themselves, or a flag with its value. A flag that
takes a value takes whatever follows, and after `--` there are only files. `more` are the flags with
a value that the table of zccache does not have. -/
def driverUnits (more : List Text) : List Text → List (Text × Option Text)
  | [] => []
  | arg :: rest =>
    if arg = "--" then []
    else if arg ∈ gnuFlagsWithValue ∨ arg ∈ more then
      match rest with
      | [] => []
      | value :: rest => (arg, some value) :: driverUnits more rest
    else (arg, none) :: driverUnits more rest

def unitOptions : Text × Option Text → List GnuAction
  | (arg, none) => argOptions arg
  | (option, some value) => valueOptions option value

def driverOptions (more args : List Text) : List GnuAction :=
  (driverUnits more args).flatMap unitOptions

def lastOption (more : List Text) (family : OptionFamily) (args : List Text) : Option GnuAction :=
  ((driverOptions more args).filter fun x => x.family = some family).getLast?

def OrderFree (more args : List Text) : Prop :=
  ∀ x ∈ driverOptions more args, ∀ y ∈ driverOptions more args, x.family = y.family → x = y
  deriving Decidable

/-- The key parser does not know that `-mllvm` takes a value and that `--` ends the options, and
none of the other flags. -/
def PlainlyRead (more args : List Text) : Prop :=
  ∀ arg ∈ args, arg ≠ "-mllvm".toList ∧ arg ≠ "--".toList ∧ arg ∉ more
  deriving Decidable

theorem driverUnits_eq {more args : List Text} (h : ∀ arg ∈ args, arg ∉ more) :
    driverUnits more args = driverUnits [] args := by
  fun_induction driverUnits more args with
  | case1 => rfl
  | case2 rest =>
    unfold driverUnits
    exact (if_pos rfl).symm
  | case3 arg hdash hval | case4 arg hdash hval value rest ih | case5 arg rest hdash hval ih =>
    obtain ⟨harg, hrest⟩ := forall_mem_cons.mp h
    conv_rhs => unfold driverUnits
    simp_all

variable {fs : FileSystem} {cwd : Path} {arg value : Text} {args rest : List Text}
variable {x : GnuAction} {b : Segment} {segs : List Segment}

theorem IsOption.family_isSome {tokens : List Text} (h : IsOption tokens x) :
    x.family.isSome = true := by
  cases h with
  | flag hfam => exact isSome_iff_ne_none.mpr hfam
  | _ => rfl

theorem Appends.isOption {tokens : List Text} (h : Appends tokens x)
    (hfam : x.family.isSome = true) : IsOption tokens x := by
  cases h with
  | define hne => exact .define hne
  | defineValue t => exact .defineValue t
  | undefine hne => exact .undefine hne
  | undefineValue t => exact .undefineValue t
  | flag t => exact .flag (isSome_iff_ne_none.mp hfam)
  | @flagValue option hopt t =>
    have hother : ∀ option ∈ gnuFlagsWithValue, option = "-std" ∨
        ("-O".toList.isPrefixOf (option ++ '=' :: t) = false ∧
          ("-std=".toList.isPrefixOf (option ++ '=' :: t) ||
            "--std=".toList.isPrefixOf (option ++ '=' :: t)) = false) := by
      simp only [gnuFlagsWithValue, texts, map_cons, map_nil, forall_mem_cons]
      and_intros
      all_goals first | exact .inl trivial | exact .inr ⟨rfl, rfl⟩ | exact forall_mem_nil _
    rcases hother option hopt with rfl | ⟨hO, hstd⟩
    · exact .standardValue t
    · rw [family, flagFamily, hO, hstd] at hfam
      simp at hfam
  | languageValue t =>
    have hnone : flagFamily ("-x " ++ t) = none := by
      simp [flagFamily, isPrefixOf, dropPrefix?]
    rw [family, hnone] at hfam
    cases hfam
  | unknown | unknownValue => cases hfam
  | path tokens htext =>
    cases x with
    | define | undefine | flag => cases htext
    | _ => cases hfam

theorem notMem_gnuFlagsWithValue {t : Text} (hne : t ≠ []) :
    "-D" ++ t ∉ gnuFlagsWithValue ∧ "-U" ++ t ∉ gnuFlagsWithValue := by
  simp [gnuFlagsWithValue, texts, hne]

theorem IsOption.single (h : IsOption [arg] x) :
    arg ∉ gnuFlagsWithValue ∧ argOptions arg = [x] := by
  cases h with
  | define hne =>
    refine ⟨(notMem_gnuFlagsWithValue hne).1, ?_⟩
    simp [argOptions, dropPrefix?]
  | undefine hne =>
    refine ⟨(notMem_gnuFlagsWithValue hne).2, ?_⟩
    simp [argOptions, dropPrefix?]
  | flag hfam =>
    have htable : ∀ t ∈ gnuFlagsWithValue, flagFamily t = none := by decide
    refine ⟨fun hmem => hfam (htable arg hmem), ?_⟩
    have hsome := isSome_iff_ne_none.mpr hfam
    have hother : arg.dropPrefix? "-D" = none ∧ arg.dropPrefix? "-U" = none := by
      rcases flagFamily_cases hfam with ⟨u, rfl⟩ | ⟨u, rfl⟩ | ⟨u, rfl⟩ | ⟨u, rfl, -⟩ <;>
        exact ⟨rfl, rfl⟩
    rw [argOptions, hother.1, hother.2]
    exact if_pos hsome

theorem IsOption.double (h : IsOption [arg, value] x) :
    arg ∈ gnuFlagsWithValue ∧ valueOptions arg value = [x] := by
  cases h with
  | defineValue | undefineValue | standardValue => exact ⟨by decide, rfl⟩

theorem isOption_of_mem_argOptions (hval : arg ∉ gnuFlagsWithValue) (h : x ∈ argOptions arg) :
    IsOption [arg] x := by
  unfold argOptions at h
  split at h
  · next t _ hdrop =>
    obtain rfl := mem_singleton.mp h
    rw [dropPrefix?_eq_some.mp hdrop] at hval ⊢
    refine .define ?_
    rintro rfl
    exact hval (by decide)
  · next t _ hdrop =>
    obtain rfl := mem_singleton.mp h
    rw [dropPrefix?_eq_some.mp hdrop] at hval ⊢
    refine .undefine ?_
    rintro rfl
    exact hval (by decide)
  · split at h
    · next hfam =>
      obtain rfl := mem_singleton.mp h
      exact .flag (isSome_iff_ne_none.mp hfam)
    · cases h

theorem isOption_of_mem_valueOptions (h : x ∈ valueOptions arg value) :
    IsOption [arg, value] x := by
  unfold valueOptions at h
  split at h
  · next harg =>
    obtain rfl := mem_singleton.mp h
    exact harg ▸ .defineValue value
  split at h
  · next harg =>
    obtain rfl := mem_singleton.mp h
    exact harg ▸ .undefineValue value
  split at h
  · next harg =>
    obtain rfl := mem_singleton.mp h
    exact harg ▸ .standardValue value
  · cases h

theorem argOptions_eq_nil (hdash : arg.head? ≠ some '-') : argOptions arg = [] := by
  rw [eq_nil_iff_forall_not_mem]
  intro x hx
  have htable : ∀ t ∈ gnuFlagsWithValue, t.head? = some '-' := by decide
  obtain ⟨token, tokens, htoks, htok⟩ :=
    (isOption_of_mem_argOptions (fun hmem => hdash (htable arg hmem)) hx).head
  cases htoks
  exact hdash htok

theorem driverOptions_alone (hdashes : arg ≠ "--") (hval : arg ∉ gnuFlagsWithValue)
    (rest : List Text) :
    driverOptions [] (arg :: rest) = argOptions arg ++ driverOptions [] rest := by
  conv_lhs => unfold driverOptions driverUnits
  rw [if_neg hdashes, if_neg (by simpa using hval)]
  rfl

theorem driverOptions_value (hdashes : arg ≠ "--") (hval : arg ∈ gnuFlagsWithValue)
    (value : Text) (rest : List Text) :
    driverOptions [] (arg :: value :: rest) = valueOptions arg value ++ driverOptions [] rest := by
  conv_lhs => unfold driverOptions driverUnits
  rw [if_neg hdashes, if_pos (.inl hval)]
  rfl

theorem driverOptions_last (hval : arg ∈ gnuFlagsWithValue) : driverOptions [] [arg] = [] := by
  unfold driverOptions driverUnits
  split
  · rfl
  · rw [if_pos (.inl hval)]
    rfl

/-- The first argument of a segment is none that the key parser misreads. -/
def Segment.PlainHead (b : Segment) : Prop :=
  ∀ token ∈ b.tokens.head?, token ≠ "-mllvm" ∧ token ≠ "--"

section

variable (hb : segments fs cwd (b.tokens ++ rest) = b :: segs)

include hb

/-- What a segment appends to the families is what its arguments spell. -/
theorem filter_actions_eq (options : List GnuAction)
    (hopts : ∀ x, IsOption b.tokens x → options = [x])
    (hsp : ∀ x ∈ options, IsOption b.tokens x) :
    b.actions.filter (fun x => x.family.isSome) = options := by
  cases hopt : options with
  | nil =>
    rw [filter_eq_nil_iff]
    intro x hx hfam
    have hmem : b ∈ segments fs cwd (b.tokens ++ rest) := hb ▸ mem_cons_self
    have hnil := hopts x ((appends_of_mem hmem x hx).isOption hfam)
    rw [hopt] at hnil
    cases hnil
  | cons x tail =>
    have hx : IsOption b.tokens x := hsp x (hopt ▸ mem_cons_self)
    rw [hx.segments_append] at hb
    have hacts : b.actions = [x] := by rw [← (cons.inj hb).1]
    rw [← hopt, hopts x hx, hacts]
    simp [hx.family_isSome]

theorem driverOptions_cons (hplain : b.PlainHead) :
    driverOptions [] (b.tokens ++ rest) =
      b.actions.filter (fun x => x.family.isSome) ++ driverOptions [] rest := by
  have hdash : ∀ t ∈ gnuFlagsWithValue, t.head? = some '-' := by decide
  rcases segments_eq_cons hb with ⟨arg, htoks, rfl, -⟩ |
    ⟨arg, actions, next, tail, rfl, rfl, hread, -⟩ | ⟨arg, value, operand, rfl, hread, -⟩
  · obtain ⟨-, hdashes⟩ := hplain arg (by rw [htoks]; rfl)
    by_cases hval : arg ∈ gnuFlagsWithValue
    · rw [filter_actions_eq hb [] ?_ (forall_mem_nil _), htoks]
      · exact driverOptions_last hval
      · rw [htoks]
        exact fun x hx => absurd hval hx.single.1
    · rw [filter_actions_eq hb (argOptions arg) ?_ ?_, htoks]
      · exact driverOptions_alone hdashes hval []
      · rw [htoks]
        exact fun x hx => hx.single.2
      · rw [htoks]
        exact fun x hx => isOption_of_mem_argOptions hval hx
  · obtain ⟨hmllvm, hdashes⟩ := hplain arg rfl
    have hval : arg ∉ gnuFlagsWithValue := by
      intro hmem
      obtain ⟨operand, htwo⟩ := readArg_value hmem hmllvm next
      rw [hread] at htwo
      cases htwo
    rw [filter_actions_eq hb _ (fun x hx => hx.single.2)
      (fun x hx => isOption_of_mem_argOptions hval hx)]
    exact driverOptions_alone hdashes hval _
  · obtain ⟨-, hdashes⟩ := hplain arg rfl
    by_cases hval : arg ∈ gnuFlagsWithValue
    · rw [filter_actions_eq hb _ (fun x hx => hx.double.2)
        (fun x hx => isOption_of_mem_valueOptions hx)]
      exact driverOptions_value hdashes hval value rest
    · -- an unknown flag keeps an argument that is no flag
      have hvalueDash : value.head? ≠ some '-' :=
        ((readArg_sound arg (some value)).value operand value hread rfl).resolve_left hval
      have halone : argOptions arg = [] := by
        rw [eq_nil_iff_forall_not_mem]
        intro x hx
        have hsegments : segments fs cwd ([arg] ++ value :: rest) = _ :=
          (isOption_of_mem_argOptions hval hx).segments_append (value :: rest)
        have heq := (cons.inj (hsegments.symm.trans hb)).1
        cases congrArg (length ∘ Segment.tokens) heq
      rw [filter_actions_eq hb [] (fun x hx => absurd hx.double.1 hval)
        (forall_mem_nil _)]
      calc driverOptions [] (arg :: value :: rest)
          = argOptions arg ++ (argOptions value ++ driverOptions [] rest) := by
            rw [driverOptions_alone hdashes hval, driverOptions_alone]
            · rintro rfl
              exact hvalueDash rfl
            · exact fun hmem => hvalueDash (hdash value hmem)
        _ = driverOptions [] rest := by rw [halone, argOptions_eq_nil hvalueDash]; rfl

end

theorem driverOptions_tokensOf (hsegs : Chained fs cwd segs) (hplain : ∀ b ∈ segs, b.PlainHead) :
    driverOptions [] (tokensOf segs) =
      (segs.flatMap Segment.actions).filter fun x => x.family.isSome := by
  induction segs with
  | nil => rfl
  | cons b segs ih =>
    obtain ⟨hb, hplain⟩ := forall_mem_cons.mp hplain
    rw [flatMap_cons, filter_append, ← ih hsegs.tail hplain, tokensOf_cons]
    exact driverOptions_cons hsegs hb

/-- The compiler and the key parser see the same options of the families. -/
theorem driverOptions_eq_filter (fs : FileSystem) (cwd : Path) {more : List Text}
    (h : PlainlyRead more args) :
    driverOptions more args = (gnuActions fs cwd args).filter fun x => x.family.isSome := by
  have hplain : ∀ b ∈ segments fs cwd args, b.PlainHead := by
    intro b hb token htok
    obtain ⟨hmllvm, hdashes, -⟩ := h token ((mem_segments hb).1 (mem_of_mem_head? htok))
    exact ⟨hmllvm, hdashes⟩
  have hopts := driverOptions_tokensOf (chained_segments args) hplain
  rw [tokensOf_segments, flatMap_actions_segments] at hopts
  rw [← hopts, driverOptions, driverUnits_eq fun arg harg => (h arg harg).2.2]
  rfl

end Zccache
