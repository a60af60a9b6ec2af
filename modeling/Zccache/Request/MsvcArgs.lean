import Zccache.Base.Units
import Zccache.Request.GnuArgs

/-! # Arguments of cl and clang-cl

The key parser for slash style arguments. Like the GNU one it takes an argument
alone or with the one after it, by rules of its own.
-/

namespace Zccache

open List Unix Units

/-- How much a caller asked the compiler to list. -/
inductive ShowIncludesMode where
  | all
  | userOnly
  deriving DecidableEq

/-- The rest of an argument that starts like a flag, in either spelling. -/
def flagRest : Text → Option Text
  | [] => none
  | mark :: rest => if mark = '/' ∨ mark = '-' then some rest else none

def parseShowIncludesArg (arg : Text) : Option ShowIncludesMode :=
  (flagRest arg).bind fun body =>
    let head := ((splitOnce ':' body).map Prod.fst).getD body
    if eqIgnoreAsciiCase head "showIncludes" then
      some (if (splitOnce ':' body).isSome then .userOnly else .all)
    else none

def msvcShowIncludesMode (args : List Text) : Option ShowIncludesMode :=
  args.findSome? parseShowIncludesArg

section Rules

variable (cwd : Path) (arg : Text) (next : Option Text)

/-- The rules of the parser in their order; the first that applies is taken. -/
def msvcRules : List (Option Reading) :=
  [valued arg next "/I" (.path fun p => [.includeDir .user p]),
    joined arg "/I" fun dir => [.includeDir .user (resolvePath cwd dir)],
    valued arg next "-I" (.path fun p => [.includeDir .user p]),
    joined arg "-I" fun dir => [.includeDir .user (resolvePath cwd dir)],
    valued arg next "/D" (.text fun t => [.define t]),
    joined arg "/D" fun t => [.define t],
    valued arg next "/U" (.text fun t => [.undefine t]),
    joined arg "/U" fun t => [.undefine t],
    valued arg next "/Fo" .output,
    joined arg "/Fo" fun t => [.output (resolvePath cwd t)],
    valued arg next "/FI" (.path fun p => [.forceInclude p]),
    joined arg "/FI" fun t => [.forceInclude (resolvePath cwd t)],
    startsWithAny arg ["/std:", "/O", "/W", "/Yu", "/Yc"] [.flag arg],
    spelled arg ["/MD", "/MDd", "/MT", "/MTd"] (.one [.flag arg]),
    startsWithAny arg ["/EH", "/Z"] [.flag arg],
    spelled arg ["/c", "/nologo"] (.one []),
    if (parseShowIncludesArg arg).isSome then some (.one []) else none,
    startsWithAny arg ["/Fp"] [.flag arg],
    startsWithAny arg ["/Fe", "/Fd"] [],
    startsWithAny arg ["/", "-"] [.unknown arg]]

def readMsvcArg : Reading :=
  ((msvcRules cwd arg next).findSome? id).getD (.one [.source (resolvePath cwd arg)])

end Rules

/-- Everything that the parser appends, in the order of the arguments. -/
def msvcActions (cwd : Path) : List Text → List GnuAction
  | [] => []
  | [arg] =>
    match readMsvcArg cwd arg none with
    | .one actions => actions
    | .two _ => []
  | arg :: next :: rest =>
    match readMsvcArg cwd arg (some next) with
    | .one actions => actions ++ msvcActions cwd (next :: rest)
    | .two operand => operand.actions cwd next ++ msvcActions cwd rest

def parseMsvcArgs (args : List Text) (cwd : Path) : ParsedArgs :=
  .ofActions (msvcActions cwd args)

/-- The options whose value the parser finds in the next argument. -/
def msvcValuedOptions : List Text :=
  texts ["/I", "-I", "/D", "/U", "/Fo", "/FI"]

def keyTakesValue (arg : Text) : Bool :=
  arg ∈ msvcValuedOptions

def msvcUnitActions (cwd : Path) : Text × Option Text → List GnuAction
  | (arg, none) =>
    match readMsvcArg cwd arg none with
    | .one actions => actions
    | .two _ => []
  | (arg, some value) =>
    match readMsvcArg cwd arg (some value) with
    | .one _ => []
    | .two operand => operand.actions cwd value

variable {cwd : Path} {arg : Text}

theorem keyTakesValue_iff : keyTakesValue arg = true ↔ arg ∈ msvcValuedOptions :=
  decide_eq_true_iff

theorem valued_none (name : String) (operand : Operand) : valued arg none name operand = none :=
  if_neg fun h => nomatch h.2

theorem valued_of_ne {name : String} (hne : arg ≠ name.toList) (next : Option Text)
    (operand : Operand) : valued arg next name operand = none :=
  if_neg fun h => hne h.1

/-- An argument alone is the text of an option, a flag, a trace or an operand. -/
inductive ReadsAlone (cwd : Path) (arg : Text) : List GnuAction → Prop where
  | includeDir {t : Text} (hne : t ≠ [])
      (hsp : arg = "/I" ++ t ∨ arg = "-I" ++ t) :
      ReadsAlone cwd arg [.includeDir .user (resolvePath cwd t)]
  | define {t : Text} (hne : t ≠ []) (hsp : arg = "/D" ++ t) :
      ReadsAlone cwd arg [.define t]
  | undefine {t : Text} (hne : t ≠ []) (hsp : arg = "/U" ++ t) :
      ReadsAlone cwd arg [.undefine t]
  | output {t : Text} : ReadsAlone cwd arg [.output (resolvePath cwd t)]
  | forceInclude {t : Text} (hne : t ≠ []) (hsp : arg = "/FI" ++ t) :
      ReadsAlone cwd arg [.forceInclude (resolvePath cwd t)]
  | flag : ReadsAlone cwd arg [.flag arg]
  | dropped : ReadsAlone cwd arg []
  | unknown : ReadsAlone cwd arg [.unknown arg]
  | source : ReadsAlone cwd arg [.source (resolvePath cwd arg)]

theorem readMsvcArg_none (cwd : Path) (arg : Text) :
    ∃ actions, readMsvcArg cwd arg none = .one actions ∧ ReadsAlone cwd arg actions := by
  unfold readMsvcArg
  cases hfind : (msvcRules cwd arg none).findSome? id with
  | none => exact ⟨_, rfl, .source⟩
  | some r =>
    obtain ⟨rule, hrule, hr⟩ := exists_of_findSome?_eq_some hfind
    obtain rfl : rule = some r := hr
    simp only [msvcRules, valued_none, mem_cons, not_mem_nil, or_false, false_or,
      reduceCtorEq] at hrule
    rcases hrule with h | h | h | h | h | h | h | h | h | h | h | h | h | h
    · obtain ⟨t, hne, harg, rfl⟩ := joined_eq_some h.symm
      exact ⟨_, rfl, .includeDir hne (.inl harg)⟩
    · obtain ⟨t, hne, harg, rfl⟩ := joined_eq_some h.symm
      exact ⟨_, rfl, .includeDir hne (.inr harg)⟩
    · obtain ⟨t, hne, harg, rfl⟩ := joined_eq_some h.symm
      exact ⟨_, rfl, .define hne harg⟩
    · obtain ⟨t, hne, harg, rfl⟩ := joined_eq_some h.symm
      exact ⟨_, rfl, .undefine hne harg⟩
    · obtain ⟨t, hne, harg, rfl⟩ := joined_eq_some h.symm
      exact ⟨_, rfl, .output⟩
    · obtain ⟨t, hne, harg, rfl⟩ := joined_eq_some h.symm
      exact ⟨_, rfl, .forceInclude hne harg⟩
    · exact ⟨_, startsWithAny_eq_some h.symm, .flag⟩
    · exact ⟨_, (spelled_eq_some h.symm).2, .flag⟩
    · exact ⟨_, startsWithAny_eq_some h.symm, .flag⟩
    · exact ⟨_, (spelled_eq_some h.symm).2, .dropped⟩
    · split at h
      · exact ⟨_, Option.some.inj h, .dropped⟩
      · cases h
    · exact ⟨_, startsWithAny_eq_some h.symm, .flag⟩
    · exact ⟨_, startsWithAny_eq_some h.symm, .dropped⟩
    · exact ⟨_, startsWithAny_eq_some h.symm, .unknown⟩

theorem readMsvcArg_of_notMem (h : arg ∉ msvcValuedOptions) (next : Option Text) :
    readMsvcArg cwd arg next = readMsvcArg cwd arg none := by
  have hne : ∀ name : String, name.toList ∈ msvcValuedOptions → arg ≠ name.toList := by
    rintro name hname rfl
    exact h hname
  have hvalued : ∀ (name : String) (operand : Operand), name.toList ∈ msvcValuedOptions →
      valued arg next name operand = valued arg none name operand := by
    intro name operand hname
    rw [valued_of_ne (hne name hname), valued_none]
  simp only [readMsvcArg, msvcRules]
  rw [hvalued "/I" _ (by decide), hvalued "-I" _ (by decide), hvalued "/D" _ (by decide),
    hvalued "/U" _ (by decide), hvalued "/Fo" _ (by decide), hvalued "/FI" _ (by decide)]

/-- What the value of an option is read as. -/
inductive ReadsValue (cwd : Path) (value : Text) : Text → List GnuAction → Prop where
  | includeDir {arg : Text} (hsp : arg = "/I" ∨ arg = "-I") :
      ReadsValue cwd value arg [.includeDir .user (resolvePath cwd value)]
  | define : ReadsValue cwd value "/D" [.define value]
  | undefine : ReadsValue cwd value "/U" [.undefine value]
  | output : ReadsValue cwd value "/Fo" [.output (resolvePath cwd value)]
  | forceInclude : ReadsValue cwd value "/FI" [.forceInclude (resolvePath cwd value)]

theorem readMsvcArg_of_mem (cwd : Path) (h : arg ∈ msvcValuedOptions) (value : Text) :
    ∃ operand, readMsvcArg cwd arg (some value) = .two operand ∧
      ReadsValue cwd value arg (operand.actions cwd value) := by
  simp only [msvcValuedOptions, texts, map_cons, map_nil, mem_cons,
    not_mem_nil, or_false] at h
  rcases h with rfl | rfl | rfl | rfl | rfl | rfl
  · exact ⟨_, rfl, .includeDir (.inl rfl)⟩
  · exact ⟨_, rfl, .includeDir (.inr rfl)⟩
  · exact ⟨_, rfl, .define⟩
  · exact ⟨_, rfl, .undefine⟩
  · exact ⟨_, rfl, .output⟩
  · exact ⟨_, rfl, .forceInclude⟩

theorem msvcActions_eq_flatMap (cwd : Path) (args : List Text) :
    msvcActions cwd args = (units keyTakesValue args).flatMap (msvcUnitActions cwd) := by
  fun_induction units keyTakesValue args with
  | case1 => rfl
  | case2 arg =>
    obtain ⟨actions, hread, -⟩ := readMsvcArg_none cwd arg
    simp [msvcActions, msvcUnitActions, hread]
  | case3 arg next rest htakes ih =>
    obtain ⟨operand, hread, -⟩ := readMsvcArg_of_mem cwd (keyTakesValue_iff.mp htakes) next
    simp [msvcActions, msvcUnitActions, hread, ih]
  | case4 arg next rest htakes ih =>
    obtain ⟨actions, hread, -⟩ := readMsvcArg_none cwd arg
    have hread' : readMsvcArg cwd arg (some next) = .one actions := by
      rw [readMsvcArg_of_notMem fun h => htakes (keyTakesValue_iff.mpr h), hread]
    simp [msvcActions, msvcUnitActions, hread, hread', ih]

end Zccache
