import Zccache.Link.Parse

/-! # What the parse of a driver link keeps

The parser sorts the arguments of a driver link into inputs and flags. What it
loses is where the inputs stand among the flags, how they are spelled and which
operands it passes over. Together with these the command line can be rebuilt.
-/

namespace Zccache

open List Unix

/-- Options of the driver that are kept together with their value. -/
def driverValueFlags : List Text :=
  texts ["-L", "-target", "--target", "-isysroot"]

/-- A place in a command line. -/
inductive LinkSlot where
  | flag
  | object
  | passedOver (operand : Text)
  deriving DecidableEq

def linkSlot (arg : Text) : LinkSlot :=
  if arg.head? = some '-' then .flag else if isLinkerInput arg then .object else .passedOver arg

/-- The command line without `-o` and its value. -/
def withoutOutput : List Text → List Text
  | [] => []
  | [arg] => if arg = "-o" then [] else [arg]
  | arg :: next :: rest =>
    if arg = "-o" then withoutOutput rest
    else if arg ∈ driverValueFlags then arg :: next :: withoutOutput rest
    else arg :: withoutOutput (next :: rest)

/-- The places of the arguments that are left without `-o`. -/
def linkLayout : List Text → List LinkSlot
  | [] => []
  | [arg] => if arg = "-o" then [] else [linkSlot arg]
  | arg :: next :: rest =>
    if arg = "-o" then linkLayout rest
    else if arg ∈ driverValueFlags then .flag :: .flag :: linkLayout rest
    else linkSlot arg :: linkLayout (next :: rest)

def objectTexts (args : List Text) : List Text :=
  (linkParts readDriverArg args).flatMap LinkPart.inputs

def fillLayout : List LinkSlot → List Text → List Text → List Text
  | [], _, _ => []
  | .passedOver t :: slots, objects, flags => t :: fillLayout slots objects flags
  | .object :: slots, objects, flags => objects.take 1 ++ fillLayout slots (objects.drop 1) flags
  | .flag :: slots, objects, flags => flags.take 1 ++ fillLayout slots objects (flags.drop 1)

variable {arg : Text} {args args' : List Text} {link link' : CacheableLink}

theorem readDriverArg_valued (h : arg ∈ driverValueFlags) : readDriverArg arg = valuedFlag arg := by
  revert h arg
  simp only [driverValueFlags, texts, map_cons, map_nil, forall_mem_cons]
  exact ⟨rfl, rfl, rfl, rfl, forall_mem_nil _⟩

theorem readDriverArg_single (hout : arg ≠ "-o") (hval : arg ∉ driverValueFlags) :
    ∃ part, readDriverArg arg = .one part ∧ (part.compileOnly = false →
      (linkSlot arg = .flag ∧ part.flags = [arg] ∧ part.inputs = []) ∨
      (linkSlot arg = .object ∧ part.flags = [] ∧ part.inputs = [arg]) ∨
      (linkSlot arg = .passedOver arg ∧ part.flags = [] ∧ part.inputs = [])) := by
  have hdash : arg.head? = some '-' → linkSlot arg = .flag := fun h => if_pos h
  unfold readDriverArg
  split_ifs with hshared hcompile hwl hdir hsearch htgt hflag hobject
  · have hhead : ∀ t ∈ texts ["-shared", "--shared"], t.head? = some '-' := by decide
    exact ⟨_, rfl, fun _ => .inl ⟨hdash (hhead arg hshared), rfl, rfl⟩⟩
  · exact ⟨_, rfl, fun h => nomatch h⟩
  · obtain ⟨rest, rfl⟩ := isPrefixOf_iff_prefix.mp hwl
    exact ⟨_, rfl, fun _ => .inl ⟨rfl, rfl, rfl⟩⟩
  · exact absurd (hdir ▸ by decide) hval
  · obtain ⟨lead, hlead, hpre⟩ := any_eq_true.mp hsearch
    obtain ⟨rest, rfl⟩ := isPrefixOf_iff_prefix.mp hpre
    have hhead : ∀ t ∈ texts ["-L", "-l"], ∀ rest : Text, (t ++ rest).head? = some '-' := by
      simp [texts]
    exact ⟨_, rfl, fun _ => .inl ⟨hdash (hhead lead hlead rest), rfl, rfl⟩⟩
  · have hsub : texts ["-target", "--target", "-isysroot"] ⊆ driverValueFlags := by decide
    exact absurd (hsub htgt) hval
  · exact ⟨_, rfl, fun _ => .inl ⟨hdash hflag, rfl, rfl⟩⟩
  · exact ⟨_, rfl, fun _ => .inr (.inl ⟨by rw [linkSlot, if_neg hflag, if_pos hobject], rfl, rfl⟩)⟩
  · exact ⟨_, rfl, fun _ => .inr (.inr ⟨by rw [linkSlot, if_neg hflag, if_neg hobject], rfl, rfl⟩)⟩

theorem linkLayout_cons (hout : arg ≠ "-o") (hval : arg ∉ driverValueFlags) :
    linkLayout (arg :: args) = linkSlot arg :: linkLayout args := by
  cases args with
  | nil => exact if_neg hout
  | cons next rest => rw [linkLayout, if_neg hout, if_neg hval]

theorem linkLayout_withoutOutput (args : List Text) :
    linkLayout (withoutOutput args) = linkLayout args := by
  fun_induction withoutOutput args with
  | case1 | case2 | case3 => rfl
  | case4 next rest ih => rw [linkLayout, if_pos rfl, ih]
  | case5 arg next rest hout hval ih =>
    rw [linkLayout, if_neg hout, if_pos hval, linkLayout, if_neg hout, if_pos hval, ih]
  | case6 arg next rest hout hval ih =>
    rw [linkLayout_cons hout hval, linkLayout_cons hout hval, ih]

theorem linkParts_single (hout : arg ≠ "-o") (hval : arg ∉ driverValueFlags)
    (args : List Text) :
    linkParts readDriverArg (arg :: args) =
      linkParts readDriverArg [arg] ++ linkParts readDriverArg args := by
  obtain ⟨part, hread, -⟩ := readDriverArg_single hout hval
  cases args with
  | nil => simp [linkParts]
  | cons next rest => simp [linkParts, hread]

theorem linkParts_valued (hval : arg ∈ driverValueFlags) (next : Text) (rest : List Text) :
    linkParts readDriverArg (arg :: next :: rest) =
      { flags := [arg, next] } :: linkParts readDriverArg rest := by
  rw [linkParts, readDriverArg_valued hval]
  rfl

theorem linkParts_output (next : Text) (rest : List Text) :
    linkParts readDriverArg ("-o" :: next :: rest) =
      { output := some next } :: linkParts readDriverArg rest :=
  rfl

theorem objectTexts_withoutOutput (args : List Text) :
    objectTexts (withoutOutput args) = objectTexts args := by
  unfold objectTexts
  fun_induction withoutOutput args with
  | case1 | case2 | case3 => rfl
  | case4 next rest ih => rw [linkParts_output, flatMap_cons, ih, nil_append]
  | case5 arg next rest hout hval ih =>
    rw [linkParts_valued hval, linkParts_valued hval, flatMap_cons, flatMap_cons, ih]
  | case6 arg next rest hout hval ih =>
    rw [linkParts_single hout hval, linkParts_single hout hval (next :: rest),
      flatMap_append, flatMap_append, ih]

/-- What is rebuilt from the layout, the objects and the flags of a command line. -/
def rebuildLink (args : List Text) : List Text :=
  fillLayout (linkLayout args) (objectTexts args)
    ((linkParts readDriverArg args).flatMap LinkPart.flags)

theorem rebuildLink_single (hout : arg ≠ "-o") (hval : arg ∉ driverValueFlags)
    (h : ∀ part ∈ linkParts readDriverArg (arg :: args), part.compileOnly = false) :
    rebuildLink (arg :: args) = arg :: rebuildLink args := by
  obtain ⟨part, hread, hpart⟩ := readDriverArg_single hout hval
  have hsingle : linkParts readDriverArg [arg] = [part] := by
    simp [linkParts, hread]
  rw [linkParts_single hout hval, hsingle] at h
  rw [rebuildLink, rebuildLink, linkLayout_cons hout hval, objectTexts, objectTexts,
    linkParts_single hout hval, hsingle, flatMap_append, flatMap_append]
  rcases hpart (h part (mem_cons_self)) with ⟨hslot, hflags, hins⟩ |
    ⟨hslot, hflags, hins⟩ | ⟨hslot, hflags, hins⟩
  all_goals simp [hslot, hflags, hins, fillLayout]

/-- The layout, the objects and the flags give back the command line without `-o`. -/
theorem rebuildLink_eq (h : ∀ part ∈ linkParts readDriverArg args, part.compileOnly = false) :
    rebuildLink args = withoutOutput args := by
  fun_induction withoutOutput args with
  | case1 | case2 => rfl
  | case3 arg hout =>
    by_cases hval : arg ∈ driverValueFlags
    · have halone : ∀ t ∈ driverValueFlags, rebuildLink [t] = [t] := by decide +kernel
      exact halone arg hval
    · exact rebuildLink_single hout hval h
  | case4 next rest ih =>
    exact ih fun part hpart => h part (mem_cons_of_mem _ hpart)
  | case5 arg next rest hout hval ih =>
    rw [linkParts_valued hval] at h
    have hrest := ih fun part hpart => h part (mem_cons_of_mem _ hpart)
    rw [rebuildLink, linkLayout, if_neg hout, if_pos hval, objectTexts, linkParts_valued hval,
      ← hrest]
    rfl
  | case6 arg next rest hout hval ih =>
    rw [rebuildLink_single hout hval h, ih]
    rw [linkParts_single hout hval] at h
    exact fun part hpart => h part (mem_append_right _ hpart)

theorem CacheableLink.ofParts_eq_ok {parts : List LinkPart} (h : ofParts parts = .ok link) :
    link.inputFiles = (parts.flatMap LinkPart.inputs).map .new ∧
      link.cacheRelevantFlags = parts.flatMap LinkPart.flags := by
  unfold ofParts at h
  split at h
  · exact nomatch h
  · split_ifs at h
    cases h
    exact ⟨rfl, rfl⟩

theorem parseCompilerDriverLink_eq_ok (h : parseCompilerDriverLink args = .ok link) :
    (∀ part ∈ linkParts readDriverArg args, part.compileOnly = false) ∧
      link.inputFiles = (objectTexts args).map .new ∧
      link.cacheRelevantFlags = (linkParts readDriverArg args).flatMap LinkPart.flags := by
  unfold parseCompilerDriverLink at h
  dsimp only at h
  split_ifs at h with hempty hcompile
  rw [any_eq_true, not_exists] at hcompile
  exact ⟨fun part hpart => Bool.eq_false_iff.mpr fun h => hcompile part ⟨hpart, h⟩,
    CacheableLink.ofParts_eq_ok h⟩

/-- Two cacheable command lines with the same flags are the same up to `-o` exactly if their
objects are spelled alike and stand in the same places among the flags and the operands that the
parser passes over. -/
theorem driverLink_recoverable_iff (hlink : parseCompilerDriverLink args = .ok link)
    (hlink' : parseCompilerDriverLink args' = .ok link')
    (hflags : link.cacheRelevantFlags = link'.cacheRelevantFlags) :
    withoutOutput args = withoutOutput args' ↔
      objectTexts args = objectTexts args' ∧ linkLayout args = linkLayout args' := by
  obtain ⟨hparts, -, hkept⟩ := parseCompilerDriverLink_eq_ok hlink
  obtain ⟨hparts', -, hkept'⟩ := parseCompilerDriverLink_eq_ok hlink'
  constructor
  · intro h
    constructor
    · rw [← objectTexts_withoutOutput args, h, objectTexts_withoutOutput]
    · rw [← linkLayout_withoutOutput args, h, linkLayout_withoutOutput]
  · rintro ⟨hobjects, hlayout⟩
    rw [← rebuildLink_eq hparts, ← rebuildLink_eq hparts', rebuildLink, rebuildLink, hobjects,
      hlayout, ← hkept, ← hkept', hflags]

/-- The output may move and change its name. -/
theorem driverLink_recoverable_iff_outputMoved :
    withoutOutput (texts ["-o", "app", "main.o", "-L", "lib", "-lm"]) =
      withoutOutput (texts ["main.o", "-L", "lib", "-o", "out/app", "-lm"]) :=
  (driverLink_recoverable_iff rfl rfl (by rfl)).mpr (by decide +kernel)

/-- A source, a versioned library, the order of the operands and the spelling of an object are not
in the parse. -/
theorem driverLink_arguments_lost :
    [(texts ["-o", "m", "a.o"], texts ["-o", "m", "./a.o"]),
      (texts ["-o", "m", "a.o"], texts ["-o", "m", "a.o", "x.c"]),
      (texts ["-o", "m", "a.o"], texts ["-o", "m", "a.o", "libx.so.1"]),
      (texts ["-o", "m", "a.o", "-lx"], texts ["-o", "m", "-lx", "a.o"]),
      (texts ["-o", "m", "-Wl,--start-group", "a.a", "b.a", "-Wl,--end-group"],
        texts ["-o", "m", "a.a", "b.a", "-Wl,--start-group", "-Wl,--end-group"]),
      (texts ["-o", "m", "-Wl,--whole-archive", "a.a", "-Wl,--no-whole-archive", "b.a"],
        texts ["-o", "m", "a.a", "-Wl,--whole-archive", "b.a",
          "-Wl,--no-whole-archive"])].Forall fun pair =>
      (parseCompilerDriverLink pair.1).toOption ≠ none ∧
        (parseCompilerDriverLink pair.1).toOption = (parseCompilerDriverLink pair.2).toOption ∧
        withoutOutput pair.1 ≠ withoutOutput pair.2 := by
  decide +kernel

end Zccache
