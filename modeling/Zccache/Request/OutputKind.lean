import Zccache.Request.FlagOrder

/-! # The kind of output

A driver stops after preprocessing with `-E` and before assembling with `-S`. The
classifier refuses the first option and lists the second one, and the key parser
drops both. So an object and its assembly have one key.
-/

namespace Zccache

open List Unix

variable {D : Type} {fs : FileSystem} {cwd : Path} {compiler arg : Text}
variable {more args args' : List Text} {source : NormalizedPath}

inductive OutputKind where
  | object
  | assembly
  | preprocessed
  deriving DecidableEq

/-- The arguments that a driver reads by themselves. -/
def driverFlags (more args : List Text) : List Text :=
  (driverUnits more args).filterMap fun u => if u.2.isNone then some u.1 else none

def outputKind (more args : List Text) : OutputKind :=
  if "-E".toList ∈ driverFlags more args then .preprocessed
  else if "-S".toList ∈ driverFlags more args then .assembly
  else .object

/-- The arguments with `-v` for every `-S` that is read by itself. -/
def withoutAssembly : List Text → List Text
  | [] => []
  | arg :: rest =>
    if arg ∈ gnuFlagsWithValue then
      match rest with
      | [] => [arg]
      | value :: rest => arg :: value :: withoutAssembly rest
    else (if arg = "-S" then "-v" else arg) :: withoutAssembly rest

theorem withoutAssembly_value (hval : arg ∈ gnuFlagsWithValue) (value : Text) (rest : List Text) :
    withoutAssembly (arg :: value :: rest) = arg :: value :: withoutAssembly rest := by
  conv_lhs => unfold withoutAssembly
  rw [if_pos hval]

theorem withoutAssembly_cons (hval : arg ∉ gnuFlagsWithValue) (rest : List Text) :
    withoutAssembly (arg :: rest) =
      (if arg = "-S".toList then "-v".toList else arg) :: withoutAssembly rest := by
  conv_lhs => unfold withoutAssembly
  rw [if_neg hval]

section Driver

theorem driverFlags_cons (hdash : arg ≠ "--") (hval : arg ∉ gnuFlagsWithValue) (hmore : arg ∉ more)
    (args : List Text) : driverFlags more (arg :: args) = arg :: driverFlags more args := by
  unfold driverFlags
  conv_lhs => unfold driverUnits
  rw [if_neg hdash, if_neg (by simp [hval, hmore])]
  rfl

theorem driverFlags_value (hdash : arg ≠ "--") (hval : arg ∈ gnuFlagsWithValue)
    (value : Text) (args : List Text) :
    driverFlags more (arg :: value :: args) = driverFlags more args := by
  unfold driverFlags
  conv_lhs => unfold driverUnits
  rw [if_neg hdash, if_pos (.inl hval)]
  rfl

theorem notMem_driverFlags_withoutAssembly (hv : "-v".toList ∉ more)
    (hplain : PlainlyRead more args) : "-S".toList ∉ driverFlags more (withoutAssembly args) := by
  fun_induction withoutAssembly args with
  | case1 => simp [driverFlags, driverUnits]
  | case2 arg hval => simp [driverFlags, driverUnits, hval]
  | case3 arg hval value rest ih =>
    obtain ⟨⟨-, hdash, -⟩, hrest⟩ := forall_mem_cons.mp hplain
    rw [driverFlags_value hdash hval]
    exact ih fun arg harg => hrest arg (mem_cons_of_mem _ harg)
  | case4 arg rest hval ih =>
    obtain ⟨⟨-, hdash, hmore⟩, hrest⟩ := forall_mem_cons.mp hplain
    split
    · rw [driverFlags_cons (by decide) (by decide) hv]
      simpa using ih hrest
    · next hne =>
      rw [driverFlags_cons hdash hval hmore]
      exact not_mem_cons_of_ne_of_not_mem (Ne.symm hne) (ih hrest)

/-- The classifier reads the same arguments by themselves, and refuses `-E` among them. -/
theorem notMem_driverFlags_of_scanGnu {s u : GnuScan} (hplain : PlainlyRead more args)
    (hpos : s.positionalOnly = false) (h : scanGnu s args = .ok u) :
    "-E".toList ∉ driverFlags more args := by
  induction args using args_induction generalizing s with
  | nil => simp [driverFlags, driverUnits]
  | cons arg rest ih ihtail =>
    obtain ⟨⟨-, hdash, hmore⟩, hrest⟩ := forall_mem_cons.mp hplain
    rw [scanGnu_cons hpos hdash] at h
    cases hstep : scanStep arg with
    | reject reason =>
      rw [hstep] at h
      cases h
    | alone update =>
      rw [hstep] at h
      have hval : arg ∉ gnuFlagsWithValue := by
        intro hmem
        obtain ⟨update', hvalued⟩ := scanStep_of_mem hmem
        rw [hstep] at hvalued
        cases hvalued
      have hne : "-E".toList ≠ arg := by
        rintro rfl
        cases hstep
      rw [driverFlags_cons hdash hval hmore]
      exact not_mem_cons_of_ne_of_not_mem hne
        (ih hrest ((scanStep_frames hstep s []).1.trans hpos) h)
    | valued update =>
      rw [hstep] at h
      have hval := scanStep_eq_valued hstep
      cases rest with
      | nil => simp [driverFlags, driverUnits, hval]
      | cons value rest =>
        rw [driverFlags_value hdash hval]
        exact ihtail (fun arg harg => hrest arg (mem_cons_of_mem _ harg))
          ((scanStep_frames hstep value s []).1.trans hpos) h

end Driver

section Classifier

theorem mem_withoutAssembly (h : arg ∈ withoutAssembly args) : arg ∈ args ∨ arg = "-v" := by
  fun_induction withoutAssembly args with
  | case1 | case2 => exact .inl h
  | case3 option hval value rest ih =>
    rcases mem_cons.mp h with rfl | h
    · exact .inl mem_cons_self
    rcases mem_cons.mp h with rfl | h
    · simp
    · exact (ih h).imp_left fun h => mem_cons_of_mem _ (mem_cons_of_mem _ h)
  | case4 first rest hval ih =>
    rcases mem_cons.mp h with rfl | h
    · split <;> simp
    · exact (ih h).imp_left (mem_cons_of_mem _)

/-- The classifier lists `-v` as it lists `-S`. -/
theorem scanGnu_withoutAssembly {s u : GnuScan} (hplain : PlainlyRead more args)
    (hpos : s.positionalOnly = false) (h : scanGnu s args = .ok u) (k : List Text) :
    ∃ l, scanGnu { s with unknownFlags := k } (withoutAssembly args) =
      .ok { u with unknownFlags := l } := by
  fun_induction withoutAssembly args generalizing s k with
  | case1 | case2 => exact scanGnu_unknownFlags h k
  | case3 arg hval value rest ih =>
    obtain ⟨⟨-, hdash, -⟩, hrest⟩ := forall_mem_cons.mp hplain
    obtain ⟨update, hstep⟩ := scanStep_of_mem hval
    have hcons := scanGnu_cons (s := { s with unknownFlags := k }) hpos hdash
      (value :: withoutAssembly rest)
    rw [scanGnu_cons hpos hdash, hstep] at h
    rw [hcons, hstep]
    obtain ⟨hkept, l, hl⟩ := scanStep_frames hstep value s k
    dsimp only at h ⊢
    rw [hl]
    exact ih (fun arg harg => hrest arg (mem_cons_of_mem _ harg)) (hkept.trans hpos) h l
  | case4 arg rest hval ih =>
    obtain ⟨⟨-, hdash, -⟩, hrest⟩ := forall_mem_cons.mp hplain
    rw [scanGnu_cons hpos hdash] at h
    by_cases hS : arg = "-S"
    · subst hS
      have hverbose : "-v".toList ≠ "--".toList := by decide
      have hcons := scanGnu_cons (s := { s with unknownFlags := k }) hpos hverbose
        (withoutAssembly rest)
      rw [if_pos rfl, hcons]
      exact ih (s := { s with unknownFlags := s.unknownFlags ++ ["-S".toList] }) hrest hpos h
        (k ++ ["-v".toList])
    · have hcons := scanGnu_cons (s := { s with unknownFlags := k }) hpos hdash
        (withoutAssembly rest)
      rw [if_neg hS, hcons]
      cases hstep : scanStep arg with
      | reject reason =>
        rw [hstep] at h
        cases h
      | alone update =>
        rw [hstep] at h
        obtain ⟨hkept, l, hl⟩ := scanStep_frames hstep s k
        dsimp only at h ⊢
        rw [hl]
        exact ih hrest (hkept.trans hpos) h l
      | valued update => exact absurd (scanStep_eq_valued hstep) hval

end Classifier

section KeyParser

theorem readArg_dropped (h : arg ∈ texts ["-S", "-v"]) (next : Option Text) :
    readArg fs cwd arg next = .one [] := by
  rcases mem_cons.mp h with rfl | h
  · simp [readArg, gnuRules, valued, joined, spelled, startsWithAny, texts, gnuFlagsWithValue,
      dropPrefix?]
  · obtain rfl := mem_singleton.mp h
    simp [readArg, gnuRules, valued, joined, spelled, startsWithAny, texts, gnuFlagsWithValue,
      dropPrefix?]

theorem gnuActions_dropped (h : arg ∈ texts ["-S", "-v"]) (args : List Text) :
    gnuActions fs cwd (arg :: args) = gnuActions fs cwd args := by
  cases args with
  | nil => simp only [gnuActions, readArg_dropped h]
  | cons next rest => simp only [gnuActions, readArg_dropped h, nil_append]

/-- To the argument before it, what stands for `-S` looks the same. -/
theorem readArg_withoutAssembly (fs : FileSystem) (cwd : Path) (next : Text) (rest : List Text) :
    ∃ next' rest', withoutAssembly (next :: rest) = next' :: rest' ∧
      (next.head? ≠ some '-' → next' = next ∧ rest' = withoutAssembly rest) ∧
      ∀ arg, readArg fs cwd arg (some next') = readArg fs cwd arg (some next) := by
  have htable : ∀ t ∈ gnuFlagsWithValue, t.head? = some '-' := by decide
  by_cases hval : next ∈ gnuFlagsWithValue
  · have hdash := htable next hval
    cases rest with
    | nil =>
      exact ⟨next, [], by simp [withoutAssembly, hval], fun h => absurd hdash h, fun _ => rfl⟩
    | cons value rest =>
      exact ⟨next, _, withoutAssembly_value hval value rest, fun h => absurd hdash h, fun _ => rfl⟩
  refine ⟨_, _, withoutAssembly_cons hval rest, fun h => ⟨if_neg ?_, rfl⟩, fun arg => ?_⟩
  · rintro rfl
    exact h rfl
  · split
    · next hS => exact readArg_next (hS ▸ rfl) (fun hne => absurd rfl hne) arg
    · rfl

theorem gnuActions_withoutAssembly (hplain : PlainlyRead more args) :
    gnuActions fs cwd (withoutAssembly args) = gnuActions fs cwd args := by
  induction args using args_induction with
  | nil => rfl
  | cons arg rest ih ihtail =>
    obtain ⟨⟨hmllvm, -, -⟩, hrest⟩ := forall_mem_cons.mp hplain
    have hacts := ih hrest
    by_cases hval : arg ∈ gnuFlagsWithValue
    · cases rest with
      | nil => simp [withoutAssembly, hval]
      | cons value rest =>
        obtain ⟨operand, hread⟩ : ∃ operand, readArg fs cwd arg (some value) = .two operand :=
          readArg_value hval hmllvm value
        have htail := ihtail fun arg harg => hrest arg (mem_cons_of_mem _ harg)
        rw [tail_cons] at htail
        simp only [withoutAssembly_value hval, gnuActions, hread, htail]
    rw [withoutAssembly_cons hval]
    by_cases hS : arg = "-S"
    · rw [if_pos hS, hS, gnuActions_dropped (by decide : "-v".toList ∈ _),
        gnuActions_dropped (by decide : "-S".toList ∈ _), hacts]
    · rw [if_neg hS]
      cases rest with
      | nil => rfl
      | cons next rest =>
        obtain ⟨next', rest', hnext, hoperand, hread⟩ :=
          readArg_withoutAssembly fs cwd next rest
        rw [hnext] at hacts ⊢
        simp only [gnuActions, hread arg]
        cases hcase : readArg fs cwd arg (some next) with
        | one actions => rw [hacts]
        | two operand =>
          -- only an operand is taken by a flag that is not in the table
          have hdash := ((readArg_sound arg (some next)).value operand next hcase rfl).resolve_left
            hval
          obtain ⟨rfl, rfl⟩ := hoperand hdash
          have htail := ihtail fun arg harg => hrest arg (mem_cons_of_mem _ harg)
          rw [tail_cons] at htail
          rw [htail]

end KeyParser

theorem argvContextKey_congr (h : gnuActions fs cwd args = gnuActions fs cwd args') (H : Host D)
    (compilerHash : D) (keyRoot worktreeSalt : Option Path) (nativeCpuSalt : Option Text) :
    argvContextKey H fs cwd compilerHash keyRoot worktreeSalt nativeCpuSalt args =
      argvContextKey H fs cwd compilerHash keyRoot worktreeSalt nativeCpuSalt args' := by
  simp only [argvContextKey, argvContext, parseGnuArgs, h]

theorem scanGnu_of_invocationSource (h : invocationSource compiler args = some source) :
    ∃ u, scanGnu .start args = .ok u := by
  rw [invocationSource_eq] at h
  cases hscan : scanGnu .start args with
  | error reason =>
    rw [hscan] at h
    cases h
  | ok u => exact ⟨u, rfl⟩

/-- Every cacheable argument list without a misread flag shares its key with one of the same source
and another kind of output. -/
theorem outputKind_unkeyed (more args : List Text) (compiler : Text)
    (hS : "-S".toList ∉ more) (hv : "-v".toList ∉ more)
    (hplain : PlainlyRead more args) (hsource : invocationSource compiler args = some source) :
    ∃ args', PlainlyRead more args' ∧ invocationSource compiler args' = some source ∧
      outputKind more args ≠ outputKind more args' ∧
      ∀ (D : Type) (H : Host D) (fs : FileSystem) (cwd : Path) (compilerHash : D)
        (keyRoot worktreeSalt : Option Path) (nativeCpuSalt : Option Text),
        argvContextKey H fs cwd compilerHash keyRoot worktreeSalt nativeCpuSalt args =
          argvContextKey H fs cwd compilerHash keyRoot worktreeSalt nativeCpuSalt args' := by
  obtain ⟨u, hscan⟩ := scanGnu_of_invocationSource hsource
  have hE := notMem_driverFlags_of_scanGnu hplain rfl hscan
  by_cases hassembly : "-S".toList ∈ driverFlags more args
  · obtain ⟨l, hscan'⟩ := scanGnu_withoutAssembly hplain rfl hscan []
    have hplain' : PlainlyRead more (withoutAssembly args) := by
      intro arg harg
      rcases mem_withoutAssembly harg with hmem | rfl
      · exact hplain arg hmem
      · exact ⟨by decide, by decide, hv⟩
    refine ⟨withoutAssembly args, hplain', invocationSource_congr hscan hscan' ?_ hsource, ?_, ?_⟩
    · intro arg harg
      refine (mem_withoutAssembly harg).imp_right ?_
      rintro rfl
      decide
    · rw [outputKind, outputKind, if_neg hE, if_pos hassembly,
        if_neg (notMem_driverFlags_of_scanGnu hplain' rfl hscan'),
        if_neg (notMem_driverFlags_withoutAssembly hv hplain)]
      decide
    · intro D H fs cwd
      exact argvContextKey_congr (gnuActions_withoutAssembly hplain).symm H
  · obtain ⟨l, hscan'⟩ := scanGnu_unknownFlags hscan ["-S"]
    have hplain' : PlainlyRead more ("-S".toList :: args) :=
      forall_mem_cons.mpr ⟨⟨by decide, by decide, hS⟩, hplain⟩
    have hcons : scanGnu .start ("-S".toList :: args) = .ok { u with unknownFlags := l } := by
      rw [scanGnu_cons rfl (by decide)]
      exact hscan'
    refine ⟨"-S".toList :: args, hplain', invocationSource_congr hscan hcons ?_ hsource, ?_, ?_⟩
    · intro arg harg
      refine (mem_cons.mp harg).symm.imp_right ?_
      rintro rfl
      decide
    · have hflags : driverFlags more ("-S".toList :: args) = "-S".toList :: driverFlags more args :=
        driverFlags_cons (by decide) (by decide) hS args
      rw [outputKind, outputKind, if_neg hE, if_neg hassembly,
        if_neg (notMem_driverFlags_of_scanGnu hplain' rfl hcons), hflags, if_pos mem_cons_self]
      decide
    · intro D H fs cwd
      exact argvContextKey_congr (gnuActions_dropped (by decide) args).symm H

theorem outputKind_unkeyed_compileArgs :
    (∃ args', PlainlyRead gccFlagsWithValue args' ∧
      invocationSource "gcc" args' = some (.new "m.c") ∧
      .object ≠ outputKind gccFlagsWithValue args' ∧
      sampleKey (compileArgs []) = sampleKey args') ∧
    ∃ args', PlainlyRead gccFlagsWithValue args' ∧
      invocationSource "gcc" args' = some (.new "m.c") ∧
      .assembly ≠ outputKind gccFlagsWithValue args' ∧
      sampleKey (compileArgs ["-S", "-DX"]) = sampleKey args' := by
  constructor
  · obtain ⟨args', hplain, hsource, hkind, hkey⟩ := outputKind_unkeyed gccFlagsWithValue
      (compileArgs []) "gcc" (by decide) (by decide) (by decide)
      (by decide +kernel : _ = some (.new "m.c"))
    exact ⟨args', hplain, hsource, hkind, hkey ..⟩
  · obtain ⟨args', hplain, hsource, hkind, hkey⟩ := outputKind_unkeyed gccFlagsWithValue
      (compileArgs ["-S", "-DX"]) "gcc" (by decide) (by decide) (by decide)
      (by decide +kernel : _ = some (.new "m.c"))
    exact ⟨args', hplain, hsource, hkind, hkey ..⟩

/-- With and without `-S`, and with an `-S` that is for the linker and one that is not. -/
theorem object_and_assembly_share_key :
    [(compileArgs [], compileArgs ["-S"]),
      (compileArgs ["-Xlinker", "-S"], compileArgs ["-S", "-Xlinker", "-c"])].Forall fun e =>
      invocationSource "gcc" e.1 = some (.new "m.c") ∧
      invocationSource "gcc" e.2 = some (.new "m.c") ∧
      outputKind gccFlagsWithValue e.1 = .object ∧ outputKind gccFlagsWithValue e.2 = .assembly ∧
      sampleKey e.1 = sampleKey e.2 := by
  decide +kernel

end Zccache
