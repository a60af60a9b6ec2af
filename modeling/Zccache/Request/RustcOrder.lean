import Zccache.Request.RustcSections

/-! # Order and loss in rustc command lines

The key sorts the lint flags and the remapped prefixes. Command lines with one
key mean the same to rustc when their lint flags and remapped prefixes do not
contradict each other, and otherwise another order gives the same key.
-/

namespace Zccache

open List Unix StableSort LastWins Option RustcAction RustcCompileContext RustcScan RustcOption

variable {D Lint : Type}

section Scan

variable {s : RustcScan} {u args : List Text} {us : List (List Text)}

def RustcScan.withoutUnknown (s : RustcScan) : RustcScan :=
  { s with unknownFlags := [] }

theorem withoutUnknown_flagValue (s : RustcScan) (flag value : Text) :
    (s.flagValue flag value).withoutUnknown =
      (s.withoutUnknown.flagValue flag value).withoutUnknown := by
  unfold RustcScan.flagValue
  split_ifs <;> rfl

theorem withoutUnknown_argument (s : RustcScan) (arg : Text) :
    (s.argument arg).withoutUnknown = (s.withoutUnknown.argument arg).withoutUnknown := by
  unfold RustcScan.argument
  split_ifs
  · cases splitOnce '=' arg with
    | none => rfl
    | some parts =>
      dsimp only
      split_ifs
      · rfl
      · exact withoutUnknown_flagValue s _ _
  · exact withoutUnknown_flagValue s _ _
  all_goals rfl

theorem scanRustc_congr {s' : RustcScan} (h : s.withoutUnknown = s'.withoutUnknown) :
    (scanRustc s args).withoutUnknown = (scanRustc s' args).withoutUnknown := by
  fun_induction scanRustc s args generalizing s' with
  | case1 s => exact h
  | case2 s arg hflag => rwa [scanRustc, if_pos hflag]
  | case3 s arg hflag =>
    rw [scanRustc, if_neg hflag, withoutUnknown_argument, h, ← withoutUnknown_argument]
  | case4 s arg next rest hflag ih =>
    rw [scanRustc, if_pos hflag]
    refine ih ?_
    rw [withoutUnknown_flagValue, h, ← withoutUnknown_flagValue]
  | case5 s arg next rest hflag ih =>
    rw [scanRustc, if_neg hflag]
    refine ih ?_
    rw [withoutUnknown_argument, h, ← withoutUnknown_argument]

theorem scanRustc_single {arg : Text} (h : arg ∉ rustcFlagsWithValue) (rest : List Text) :
    scanRustc s (arg :: rest) = scanRustc (s.argument arg) rest := by
  cases rest with
  | nil | cons => exact if_neg h

/-- A pass that reads the flags with a value in pairs and all else alone reads a unit apart. -/
theorem pass_append {σ : Type} {pass : σ → List Text → σ} {argument : σ → Text → σ}
    {flagValue : σ → Text → Text → σ} (hnil : ∀ s, pass s [] = s)
    (hsingle : ∀ s arg rest, arg ∉ rustcFlagsWithValue →
      pass s (arg :: rest) = pass (argument s arg) rest)
    (hpair : ∀ s flag value rest, flag ∈ rustcFlagsWithValue →
      pass s (flag :: value :: rest) = pass (flagValue s flag value) rest)
    (h : isPlainUnit u = true) (s : σ) (rest : List Text) :
    pass s (u ++ rest) = pass (pass s u) rest := by
  have hsub : ∀ arg ∈ rustcFlagsWithValue, arg ∈ pairedFlags := by decide
  rcases isPlainUnit_cases h with ⟨arg, rfl, hpaired, -⟩ | ⟨flag, hflag, value, rfl, hval⟩
  · have harg : arg ∉ rustcFlagsWithValue := fun hmem => hpaired (hsub arg hmem)
    rw [singleton_append, hsingle _ _ _ harg, hsingle _ _ _ harg, hnil]
  · rw [cons_append, cons_append, nil_append]
    by_cases hmem : flag ∈ rustcFlagsWithValue
    · rw [hpair _ _ _ _ hmem, hpair _ _ _ _ hmem, hnil]
    · have htable : ∀ flag ∈ pairedFlags, flag ∉ rustcFlagsWithValue →
          flag ∈ texts ["-l", "-Z"] := by
        decide
      have hval : value ∉ rustcFlagsWithValue := by
        have hdash : ∀ arg ∈ rustcFlagsWithValue, arg.head? = some '-' := by decide
        exact fun hin => hval (htable flag hflag hmem) (hdash value hin)
      rw [hsingle _ _ _ hmem, hsingle _ _ _ hval, hsingle _ _ _ hmem, hsingle _ _ _ hval, hnil]

theorem scanRustc_append (h : isPlainUnit u = true) (rest : List Text) :
    scanRustc s (u ++ rest) = scanRustc (scanRustc s u) rest :=
  pass_append (fun _ => rfl) (fun _ _ rest hmem => scanRustc_single hmem rest)
    (fun _ _ _ _ hmem => if_pos hmem) h s rest

variable {o : RustcOption}

theorem flagValue_of_option {flag value : Text} (h : valueOption flag value = some o) :
    s.flagValue flag value = s := by
  unfold flagValue
  split_ifs with h₁ h₂ h₃ h₄ h₅
  any_goals
    subst_vars
    cases h
  · rcases h₅ with rfl | rfl <;> cases h
  · rfl

/-- A unit with an option tells the classifier nothing. -/
theorem scanRustc_option (hu : isPlainUnit u = true) (h : unitOption u = some o) :
    (scanRustc s u).withoutUnknown = s.withoutUnknown := by
  have hsub : ∀ arg ∈ rustcFlagsWithValue, arg ∈ pairedFlags := by decide
  rcases isPlainUnit_cases hu with ⟨arg, rfl, hpaired, -⟩ | ⟨flag, hflag, value, rfl, -⟩
  · rw [scanRustc_single fun hmem => hpaired (hsub arg hmem), scanRustc]
    change joinedOption arg = some o at h
    unfold joinedOption at h
    split at h
    · next hlong =>
      obtain ⟨⟨flag, value⟩, hsplit, hopt⟩ := bind_eq_some_iff.mp h
      have heq : arg.contains '=' = true := by
        rw [(splitOnce_eq_some_iff.mp hsplit).1]
        simp
      rw [argument, if_pos (by rw [hlong, heq]; rfl), hsplit]
      dsimp only
      split_ifs
      · rfl
      · rw [flagValue_of_option hopt]
    · obtain ⟨level, hlevel, -⟩ := map_eq_some_iff.mp h
      have hshort : ∀ flag ∈ lintNames, flag.length ≤ 2 →
          flag ∈ texts ["-A", "-W", "-D", "-F"] := by
        decide
      have hflag := hshort _ (mem_of_lintLevelOf hlevel) (by simp)
      rw [← take_append_drop 2 arg]
      generalize arg.take 2 = flag at hflag
      revert hflag flag
      simp only [texts, map_cons, map_nil, forall_mem_cons]
      exact ⟨rfl, rfl, rfl, rfl, forall_mem_nil _⟩
  · have hval : ∀ flag ∈ pairedFlags, flag ∈ rustcFlagsWithValue ∨ flag = "-l" ∨
        flag = "-Z" := by decide
    rcases hval flag hflag with hmem | rfl | rfl
    · have hread : scanRustc s [flag, value] = s.flagValue flag value := if_pos hmem
      rw [hread, flagValue_of_option h]
    all_goals cases h

theorem scanRustc_flatten (h : ∀ u ∈ us, isPlainUnit u = true) (rest : List Text) :
    scanRustc s (us.flatten ++ rest) = scanRustc (scanRustc s us.flatten) rest := by
  induction us generalizing s with
  | nil => rfl
  | cons u us ih =>
    obtain ⟨hu, hus⟩ := forall_mem_cons.mp h
    rw [flatten_cons, append_assoc, scanRustc_append hu, scanRustc_append hu, ih hus]

theorem isCacheableRustc_congr {args' : List Text} (cacheTestBins : Bool)
    (h : (scanRustc .start args').withoutUnknown = (scanRustc .start args).withoutUnknown) :
    isCacheableRustc cacheTestBins args' = isCacheableRustc cacheTestBins args := by
  have hscan : ∀ {s s' : RustcScan}, s'.withoutUnknown = s.withoutUnknown →
      s' = { s with unknownFlags := s'.unknownFlags } := by
    rintro ⟨⟩ ⟨⟩ h
    simp only [RustcScan.withoutUnknown, RustcScan.mk.injEq, true_and] at h ⊢
    exact h
  unfold isCacheableRustc parseRustcPlan
  rw [hscan h]
  dsimp only
  cases (scanRustc .start args).source with
  | none => rfl
  | some source =>
    split_ifs
    · rfl
    all_goals
      generalize List.find? _ _ = refused
      cases refused <;> rfl

end Scan

section Move

theorem perm_last {α : Type} (a : α) (front back : List α) :
    (front ++ (back ++ [a])).Perm (front ++ a :: back) :=
  (perm_append_singleton a back).append_left front

variable {cwd : Path} {env : Env} {compilerHash : D} {plainRustc cacheTestBins : Bool}
variable {u args : List Text} {front back : List (List Text)} {o : RustcOption} {a : RustcAction}

/-- The parsed arguments keep the place of a sorted action in the list of remaps only. -/
theorem ofActions_move (ha : a.isSorted = true) (front back : List RustcAction) :
    RustcParsedArgs.ofActions cwd (front ++ (back ++ [a])) =
      { RustcParsedArgs.ofActions cwd (front ++ a :: back) with
        remapPathPrefixes := (front ++ (back ++ [a])).filterMap remapOf } := by
  have hsort : ∀ f : RustcAction → Option Text,
      sortTexts ((front ++ (back ++ [a])).filterMap f) =
        sortTexts ((front ++ a :: back).filterMap f) := fun f =>
    sortBy_id_eq_of_perm ((perm_last a front back).filterMap f)
  have hsame : ∀ {β : Type} (f : RustcAction → Option β), f a = none →
      (front ++ (back ++ [a])).filterMap f = (front ++ a :: back).filterMap f := by
    intro β f hf
    simp [hf]
  have hflat : ∀ f : RustcAction → List Text, f a = [] →
      (front ++ (back ++ [a])).flatMap f = (front ++ a :: back).flatMap f := by
    intro f hf
    simp [hf]
  simp only [RustcParsedArgs.ofActions]
  rw [hsame sourceOf, hsame crateNameOf, hflat crateTypesOf,
    hsame editionOf, hflat emitTypesOf, hsort cfgOf,
    hsort checkCfgOf, hsame codegenOf, hsame targetOf,
    hsame capLintsOf, hsame (externOf cwd), hsort lintOf,
    hsort unknownOf]
  all_goals cases a <;> first | rfl | cases ha

theorem fromParsedArgs_move (ha : a.isSorted = true) (front back : List RustcAction) :
    fromParsedArgsWithDriver
        (.ofActions cwd (front ++ (back ++ [a]))) env compilerHash plainRustc =
      fromParsedArgsWithDriver
        (.ofActions cwd (front ++ a :: back)) env compilerHash plainRustc := by
  have hremaps : sortTexts ((front ++ (back ++ [a])).filterMap remapOf) =
      sortTexts ((front ++ a :: back).filterMap remapOf) :=
    sortBy_id_eq_of_perm ((perm_last a front back).filterMap remapOf)
  rw [ofActions_move ha]
  exact congrArg (fun remaps =>
    { fromParsedArgsWithDriver
        (.ofActions cwd (front ++ a :: back)) env compilerHash plainRustc with
      remapPathPrefixes := remaps }) hremaps

theorem rustcActions_of_option (hu : isPlainUnit u = true) (ho : unitOption u = some o) :
    ∃ a, rustcActions u = [a] ∧ a.option = some o := by
  have hlen : (rustcActions u).length ≤ 1 := by
    rcases isPlainUnit_cases hu with ⟨arg, rfl, -⟩ | ⟨flag, hflag, value, rfl, -⟩
    · obtain ⟨actions, hread, hsingle⟩ := readRustcArg_none arg
      rw [rustcActions, hread]
      cases hsingle <;> simp
    · rw [(rustcActions_paired hflag _ _).1, rustcActions, length_singleton]
  have hopt := (rustcActions_append hu).2.1
  rw [ho] at hopt
  rcases hacts : rustcActions u with _ | ⟨a, _ | ⟨b, rest⟩⟩
  · rw [hacts] at hopt
    cases hopt
  · refine ⟨a, rfl, ?_⟩
    rw [hacts] at hopt
    cases hao : a.option with
    | none => simp [hao] at hopt
    | some o' => simpa [hao] using hopt
  · simp [hacts] at hlen

/-- The command line with one unit put last. -/
structure Moved (front back : List (List Text)) (u args args' : List Text) : Prop where
  units : rustcUnits args = front ++ u :: back
  moved : args' = (front ++ (back ++ [u])).flatten
  plain : ∀ v ∈ front ++ u :: back, isPlainUnit v = true

variable {args' : List Text}

section

variable (h : Moved front back u args args')

include h

theorem Moved.args_eq : args = (front ++ u :: back).flatten := by
  rw [← h.units, flatten_rustcUnits]

theorem Moved.plain' : ∀ v ∈ front ++ (back ++ [u]), isPlainUnit v = true :=
  fun v hv => h.plain v ((perm_last u front back).mem_iff.mp hv)

theorem Moved.mem (arg : Text) : arg ∈ args' ↔ arg ∈ args := by
  rw [h.moved, h.args_eq]
  exact (perm_last u front back).flatten.mem_iff

theorem Moved.actions : rustcActions args = (front ++ u :: back).flatMap rustcActions ∧
    rustcActions args' = (front ++ (back ++ [u])).flatMap rustcActions := by
  rw [h.args_eq, h.moved]
  exact ⟨rustcActions_flatten h.plain, rustcActions_flatten h.plain'⟩

theorem Moved.options (ho : unitOption u = some o) :
    rustcOptions args' = (front ++ back).filterMap unitOption ++ [o] ∧
      ∀ o', o' ∈ rustcOptions args' ↔ o' ∈ rustcOptions args := by
  rw [rustcOptions, rustcOptions, h.units, h.moved, rustcUnits_flatten h.plain']
  exact ⟨by simp [ho], fun o' => ((perm_last u front back).filterMap unitOption).mem_iff⟩

theorem Moved.cacheable (ho : unitOption u = some o)
    (hargs : isCacheableRustc cacheTestBins args = true) :
    isCacheableRustc cacheTestBins args' = true := by
  have hplain := forall_mem_append.mp h.plain
  obtain ⟨hu, hback⟩ := forall_mem_cons.mp hplain.2
  rw [← hargs]
  refine isCacheableRustc_congr cacheTestBins ?_
  rw [h.args_eq, h.moved, flatten_append, flatten_append, flatten_append,
    flatten_singleton, flatten_cons, scanRustc_flatten hplain.1,
    scanRustc_flatten hplain.1, scanRustc_flatten hback, scanRustc_append hu,
    scanRustc_option hu ho]
  exact (scanRustc_congr (scanRustc_option hu ho)).symm

end

variable {keyRoot : Option Path}

theorem Moved.plainlyGiven (h : Moved front back u args args') (ho : unitOption u = some o)
    (hargs : PlainlyGiven keyRoot args) : PlainlyGiven keyRoot args' := by
  have hopts := (h.options ho).2
  refine ⟨?_, ?_, ?_, ?_, ?_⟩
  · intro v hv
    rw [h.moved, rustcUnits_flatten h.plain'] at hv
    exact h.plain' v hv
  · intro t ht
    exact hargs.noEnvSet t ((hopts _).mp ht)
  · intro t ht
    exact hargs.externs t ((hopts _).mp ht)
  · intro hroot t ht
    exact hargs.remaps hroot t ((hopts _).mp ht)
  · intro a ha
    refine hargs.untagged a ?_
    obtain ⟨hacts, hacts'⟩ := h.actions
    rw [hacts'] at ha
    rw [hacts]
    exact ((perm_last u front back).flatMap_right _).mem_iff.mp ha

theorem Moved.context_eq (h : Moved front back u args args') (hu : isPlainUnit u = true)
    (ho : unitOption u = some o)
    (hsort : ∀ a, option a = some o → a.isSorted = true) :
    rustcContext cwd env compilerHash plainRustc args' =
      rustcContext cwd env compilerHash plainRustc args := by
  obtain ⟨a, ha, hao⟩ := rustcActions_of_option hu ho
  obtain ⟨hacts, hacts'⟩ := h.actions
  rw [rustcContext, rustcContext, parseRustcArgs, parseRustcArgs, hacts, hacts']
  simp only [flatMap_append, flatMap_cons, flatMap_nil, append_nil, ha, singleton_append]
  exact fromParsedArgs_move (hsort a hao) _ _

/-- An option can be put last without a change of the key. -/
theorem exists_moved (hargs : PlainlyGiven keyRoot args)
    (hcacheable : isCacheableRustc cacheTestBins args = true) (ho : o ∈ rustcOptions args)
    (hsort : ∀ a, option a = some o → a.isSorted = true) (cwd : Path) (env : Env)
    (compilerHash : D) (plainRustc : Bool) :
    ∃ args' front, (∀ arg, arg ∈ args' ↔ arg ∈ args) ∧
      isCacheableRustc cacheTestBins args' = true ∧ PlainlyGiven keyRoot args' ∧
      rustcContext cwd env compilerHash plainRustc args' =
        rustcContext cwd env compilerHash plainRustc args ∧
      rustcOptions args' = front ++ [o] := by
  obtain ⟨u, hmem, hunit⟩ := mem_filterMap.mp ho
  obtain ⟨front, back, hunits⟩ := append_of_mem hmem
  have hmoved : Moved front back u args (front ++ (back ++ [u])).flatten :=
    ⟨hunits, rfl, hunits ▸ hargs.written⟩
  exact ⟨_, _, hmoved.mem, hmoved.cacheable hunit hcacheable, hmoved.plainlyGiven hunit hargs,
    hmoved.context_eq (hargs.written u hmem) hunit hsort, (hmoved.options hunit).1⟩

end Move

/-- A plainly given command line means the same to rustc as every other one with its key, exactly
when its lint flags and remapped prefixes do not contradict each other. -/
theorem sameMeaning_of_contextKey_iff (H : Host D) (hH : Function.Injective H.digest)
    (covers : Text → Lint → Bool) (cwd : Path) (env : Env) (henv : ∀ e ∈ env, '=' ∉ e.1.val)
    (compilerHash : D) (plainRustc cacheTestBins : Bool) (keyRoot : Option Path)
    (nativeCpuSalt : Option Text) (hnul : nul ∉ nativeCpuSalt.getD (hostCpuIdentitySalt H))
    (hsalt : nativeCpuSalt.getD (hostCpuIdentitySalt H) ∉ texts ["crate-name", "crate-types"])
    {args : List Text} (hargs : ∀ arg ∈ args, nul ∉ arg)
    (hcacheable : isCacheableRustc cacheTestBins args = true) (hplain : PlainlyGiven keyRoot args) :
    (∀ args' : List Text, (∀ arg ∈ args', nul ∉ arg) →
      isCacheableRustc cacheTestBins args' = true → PlainlyGiven keyRoot args' →
      rustcContextKey H cwd env compilerHash plainRustc keyRoot nativeCpuSalt args =
        rustcContextKey H cwd env compilerHash plainRustc keyRoot nativeCpuSalt args' →
      SameMeaning covers args args') ↔ OrderFreeRustc covers args := by
  constructor
  · intro hall
    have hmove : ∀ o ∈ rustcOptions args, (∀ a, option a = some o → a.isSorted = true) →
        ∃ args' front, rustcOptions args' = front ++ [o] ∧ SameMeaning covers args args' := by
      intro o ho hsort
      obtain ⟨args', front, hmem, hcache', hplain', hctx, hopts⟩ :=
        exists_moved hplain hcacheable ho hsort cwd env compilerHash plainRustc
      refine ⟨args', front, hopts, hall args' ?_ hcache' hplain' ?_⟩
      · exact fun arg harg => hargs arg ((hmem arg).mp harg)
      · rw [rustcContextKey, rustcContextKey, hctx]
    constructor
    · intro lint
      by_contra hne
      obtain ⟨o, ho, level, hlevel, hlast⟩ := exists_overruled hne
      obtain ⟨args', front, hopts, hsame⟩ := hmove o ho (by
        cases o with
        | lint level name => exact fun _ => isSorted_of_lint
        | _ => cases hlevel)
      have hlint := hsame.lints lint
      rw [lintLevel, lintLevel, hopts, lastBy_concat hlevel] at hlint
      exact hlast hlint
    · intro path
      by_contra hne
      obtain ⟨o, ho, value, hval, hlast⟩ := exists_overruled hne
      obtain ⟨args', front, hopts, hsame⟩ := hmove o ho (by
        cases o with
        | remap t => exact fun _ => isSorted_of_remap
        | _ => cases hval)
      have hpath := hsame.paths path
      rw [remapPath, remapPath, hopts, lastBy_concat hval, getD_some] at hpath
      cases hfirst : lastBy (remapped path) (rustcOptions args) with
      | none =>
        rw [lastBy_eq_none_iff.mp hfirst o ho] at hval
        cases hval
      | some value' =>
        rw [hfirst, getD_some] at hpath
        exact hlast (hfirst.trans (congrArg some hpath))
  · intro hfree args' hargs' hcache' hplain' hkey
    have hctx : ∀ {args : List Text}, (∀ arg ∈ args, nul ∉ arg) → PlainlyGiven keyRoot args →
        (rustcContext cwd env compilerHash plainRustc args).NulFree ∧
          (rustcContext cwd env compilerHash plainRustc args).Delimited := by
      intro args hargs hplain
      exact ⟨nulFree_rustcContext fun a ha => (wellFormed_of_mem hplain.written ha).2 hargs,
        delimited_rustcContext henv (fun a ha => (wellFormed_of_mem hplain.written ha).1)
          hplain.untagged⟩
    obtain ⟨hfree₁, hdelim⟩ := hctx hargs hplain
    obtain ⟨hfree₂, hdelim'⟩ := hctx hargs' hplain'
    have hpreimage := hH (ContextKey.mk.inj hkey)
    have hflds := framed_injective (keyFields_nulFree hfree₁ hnul)
      (keyFields_nulFree hfree₂ hnul) hpreimage
    exact sameMeaning_of_sections hplain hplain'
      (sameSections_of_keyItems hdelim hdelim' (keyItems_of_keyFields hsalt hflds)) hfree

def crateArgs (options : List String) : List Text :=
  texts (["--crate-type", "lib", "--emit", "dep-info,link"] ++ options ++ ["lib.rs"])

def sampleCrateKey (args : List Text) : ContextKey Text :=
  rustcContextKey Host.transparent (components "/w") [] "rustc" true
    (some (components "/w")) (some "00") args

def ownName (name lint : Text) : Bool :=
  name = lint

/-- Options in two orders, and options that the key leaves out or changes. -/
def lossyPairs : List (List String × List String) :=
  [(["-A", "dead_code", "-D", "dead_code"], ["-D", "dead_code", "-A", "dead_code"]),
    (["--allow", "dead_code"], ["--allow", "unused"]),
    (["--remap-path-prefix", "/a=/x", "--remap-path-prefix", "/a=/y"],
      ["--remap-path-prefix", "/a=/y", "--remap-path-prefix", "/a=/x"]),
    (["--env-set", "A=1"], []),
    (["--extern", "b"], []),
    (["--extern", "noprelude:b=/l/libb.rlib"], ["--extern", "b=/l/libb.rlib"])]

theorem rustc_meaning_lost :
    lossyPairs.Forall fun e =>
      isCacheableRustc false (crateArgs e.1) = true ∧
        isCacheableRustc false (crateArgs e.2) = true ∧
      sampleCrateKey (crateArgs e.1) = sampleCrateKey (crateArgs e.2) ∧
      ¬ SameMeaning ownName (crateArgs e.1) (crateArgs e.2) := by
  have hlost : ∀ e ∈ lossyPairs,
      lintLevel ownName (crateArgs e.1) "dead_code" ≠
          lintLevel ownName (crateArgs e.2) "dead_code" ∨
        remapPath (crateArgs e.1) (components "/a/m.rs") ≠
          remapPath (crateArgs e.2) (components "/a/m.rs") ∨
        (∃ t ∈ envSets (crateArgs e.1), t ∉ envSets (crateArgs e.2)) ∨
        ∃ name ∈ externNames (crateArgs e.1), name ∉ externNames (crateArgs e.2) := by
    decide +kernel
  have hkeys : ∀ e ∈ lossyPairs,
      isCacheableRustc false (crateArgs e.1) = true ∧
        isCacheableRustc false (crateArgs e.2) = true ∧
      sampleCrateKey (crateArgs e.1) = sampleCrateKey (crateArgs e.2) := by
    decide +kernel
  rw [forall_iff_forall_mem]
  intro e he
  obtain ⟨hcacheable, hcache', hkey⟩ := hkeys e he
  refine ⟨hcacheable, hcache', hkey, fun hsame => ?_⟩
  rcases hlost e he with hlint | hpath | ⟨t, ht, ht'⟩ | ⟨name, hname, hname'⟩
  · exact hlint (hsame.lints _)
  · exact hpath (hsame.paths _)
  · exact ht' ((hsame.envSets t).mp ht)
  · exact hname' ((hsame.externs name).mp hname)

/-- A level and a remap, after an option that repeats the level or contradicts it. -/
def leveledArgs (level : String) : List Text :=
  crateArgs [level, "dead_code", "-A", "dead_code", "--remap-path-prefix", "/a=/x"]

theorem rustcOptions_leveledArgs :
    rustcOptions (leveledArgs "-A") =
        [.lint .allow "dead_code", .lint .allow "dead_code", .remap "/a=/x"] ∧
      rustcOptions (leveledArgs "-D") =
        [.lint .deny "dead_code", .lint .allow "dead_code",
          .remap "/a=/x"] := by
  decide +kernel

theorem plainlyGiven_leveledArgs :
    PlainlyGiven (some (components "/w")) (leveledArgs "-A") ∧
      PlainlyGiven (some (components "/w")) (leveledArgs "-D") := by
  have hremap : IsNormalRemap "/a=/x" := by
    intro parts hparts
    cases hparts
    decide +kernel
  obtain ⟨hallow, hdeny⟩ := rustcOptions_leveledArgs
  constructor
  · refine ⟨by decide +kernel, by simp [hallow], by simp [hallow], ?_, by decide +kernel⟩
    simpa [hallow] using hremap
  · refine ⟨by decide +kernel, by simp [hdeny], by simp [hdeny], ?_, by decide +kernel⟩
    simpa [hdeny] using hremap

theorem orderFree_leveledArgs :
    OrderFreeRustc ownName (leveledArgs "-A") ∧ ¬ OrderFreeRustc ownName (leveledArgs "-D") := by
  obtain ⟨hallow, hdeny⟩ := rustcOptions_leveledArgs
  refine ⟨⟨?_, ?_⟩, fun hfree => ?_⟩
  · intro lint
    have hlevel : ∀ o ∈ rustcOptions (leveledArgs "-A"), ∀ level,
        o.levelOf ownName lint = some level → level = .allow := by
      rw [hallow]
      simp [levelOf]
    intro o ho o' ho' level level' hlint hlint'
    rw [hlevel o ho level hlint, hlevel o' ho' level' hlint']
  · intro path
    have hremap : ∀ o ∈ rustcOptions (leveledArgs "-A"), ∀ value,
        o.remapped path = some value → o = .remap "/a=/x" := by
      rw [hallow]
      simp [remapped]
    intro o ho o' ho' value value' hval hval'
    rw [hremap o ho value hval] at hval
    rw [hremap o' ho' value' hval'] at hval'
    exact some.inj (hval.symm.trans hval')
  · have hlevels := hfree.lints "dead_code" (.lint .deny "dead_code")
      (by simp [hdeny]) (.lint .allow "dead_code") (by simp [hdeny]) .deny .allow rfl rfl
    cases hlevels

theorem sameMeaning_of_contextKey_iff_leveledArgs :
    (∀ args' : List Text, (∀ arg ∈ args', nul ∉ arg) → isCacheableRustc false args' = true →
      PlainlyGiven (some (components "/w")) args' →
      sampleCrateKey (leveledArgs "-A") = sampleCrateKey args' →
      SameMeaning ownName (leveledArgs "-A") args') ∧
    ¬ ∀ args' : List Text, (∀ arg ∈ args', nul ∉ arg) → isCacheableRustc false args' = true →
      PlainlyGiven (some (components "/w")) args' →
      sampleCrateKey (leveledArgs "-D") = sampleCrateKey args' →
      SameMeaning ownName (leveledArgs "-D") args' := by
  constructor
  · refine (sameMeaning_of_contextKey_iff Host.transparent transparent_injective ownName _ []
      ?_ _ true false _ _ ?_ ?_ ?_ ?_ plainlyGiven_leveledArgs.1).mpr orderFree_leveledArgs.1
    all_goals decide +kernel
  · refine (sameMeaning_of_contextKey_iff Host.transparent transparent_injective ownName _ []
      ?_ _ true false _ _ ?_ ?_ ?_ ?_ plainlyGiven_leveledArgs.2).not.mpr orderFree_leveledArgs.2
    all_goals decide +kernel

end Zccache
