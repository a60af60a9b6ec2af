import Zccache.Request.Fingerprint

/-! # The cursor over a request fingerprint

The bytes of a request fingerprint are given out in fragments by a cursor that
goes through the fields of the request. Every field is ended by a NUL and no
list by anything, so that the bytes determine the fields only together with the
numbers of arguments and of variables.
-/

namespace Zccache.RequestFingerprint

open List Unix Framing Cursor

inductive Phase where
  | tag
  | compiler
  | compilerEnd
  | argument
  | argumentEnd
  | rawTag
  | rawArgument
  | rawEnd
  | cwd
  | cwdEnd
  | envKey
  | envEquals
  | envValue
  | envEnd
  | done

/-- The lists hold what is still to be given out. -/
structure Cursor where
  compiler : Text
  arguments : List Text
  raw : List Text
  cwd : Text
  env : List (Text × Text)
  phase : Phase

/-- What one turn of the loop of `nextFragment` does. -/
inductive Turn where
  | fragment (bytes : Text) (next : Cursor)
  | again (next : Cursor)
  | exhausted

namespace Cursor

def turn (c : Cursor) : Turn :=
  match c.phase with
  | .tag => .fragment ("zccache-request-v2" ++ [nul]) { c with phase := .compiler }
  | .compiler => .fragment c.compiler { c with phase := .compilerEnd }
  | .compilerEnd => .fragment [nul] { c with phase := .argument }
  | .argument =>
    match c.arguments with
    | arg :: rest => .fragment arg { c with arguments := rest, phase := .argumentEnd }
    | [] => .again { c with phase := .rawTag }
  | .argumentEnd => .fragment [nul] { c with phase := .argument }
  | .rawTag =>
    if wantsDepfile c.raw then .fragment (rawArgvTag ++ [nul]) { c with phase := .rawArgument }
    else .again { c with phase := .cwd }
  | .rawArgument =>
    match c.raw with
    | [] => .again { c with phase := .cwd }
    | arg :: rest =>
      if arg = "-MF" then
        if rest.head? = some "-".toList then
          .fragment ("-MF-stdout" ++ [nul]) { c with raw := rest.tail }
        else .again { c with raw := rest.tail }
      else if arg = "-MF-" then
        .fragment ("-MF-stdout" ++ [nul]) { c with raw := rest }
      else if "-MF".toList.isPrefixOf arg then .again { c with raw := rest }
      else .fragment arg { c with raw := rest, phase := .rawEnd }
  | .rawEnd => .fragment [nul] { c with phase := .rawArgument }
  | .cwd => .fragment c.cwd { c with phase := .cwdEnd }
  | .cwdEnd => .fragment [nul] { c with phase := .envKey }
  | .envKey =>
    match c.env with
    | e :: _ => .fragment e.1 { c with phase := .envEquals }
    | [] => .again { c with phase := .done }
  | .envEquals =>
    match c.env with
    | _ :: _ => .fragment ['='] { c with phase := .envValue }
    | [] => .exhausted
  | .envValue =>
    match c.env with
    | e :: _ => .fragment e.2 { c with phase := .envEnd }
    | [] => .exhausted
  | .envEnd =>
    match c.env with
    | _ :: rest => .fragment [nul] { c with env := rest, phase := .envKey }
    | [] => .exhausted
  | .done => .exhausted

def work (c : Cursor) : ℕ :=
  let env := 4 * c.env.length
  let raw := env + 2 * c.raw.length + 4
  let arguments := raw + 2 * c.arguments.length + 2
  match c.phase with
  | .tag => arguments + 3
  | .compiler => arguments + 2
  | .compilerEnd => arguments + 1
  | .argument => arguments
  | .argumentEnd => arguments + 1
  | .rawTag => raw + 1
  | .rawArgument => raw
  | .rawEnd => raw + 1
  | .cwd => env + 3
  | .cwdEnd => env + 2
  | .envKey => env + 1
  | .envEquals => env
  | .envValue => env - 1
  | .envEnd => env - 2
  | .done => 0

def envItems (env : List (Text × Text)) : List Text :=
  env.map fun e => e.1 ++ '=' :: e.2

def remaining (c : Cursor) : Text :=
  let cwd := c.cwd :: envItems c.env
  let arguments := c.arguments ++ rawSection c.raw ++ cwd
  match c.phase with
  | .tag => frame nul ("zccache-request-v2" :: c.compiler :: arguments)
  | .compiler => frame nul (c.compiler :: arguments)
  | .compilerEnd => nul :: frame nul arguments
  | .argument => frame nul arguments
  | .argumentEnd => nul :: frame nul arguments
  | .rawTag => frame nul (rawSection c.raw ++ cwd)
  | .rawArgument => frame nul (rawArgv c.raw ++ cwd)
  | .rawEnd => nul :: frame nul (rawArgv c.raw ++ cwd)
  | .cwd => frame nul cwd
  | .cwdEnd => nul :: frame nul (envItems c.env)
  | .envKey => frame nul (envItems c.env)
  | .envEquals =>
    match c.env with
    | e :: rest => '=' :: e.2 ++ nul :: frame nul (envItems rest)
    | [] => []
  | .envValue =>
    match c.env with
    | e :: rest => e.2 ++ nul :: frame nul (envItems rest)
    | [] => []
  | .envEnd =>
    match c.env with
    | _ :: rest => nul :: frame nul (envItems rest)
    | [] => []
  | .done => []

end Cursor

/-- A turn gives out the next bytes of those that remain, and less work is left. -/
def Accounts (c : Cursor) : Turn → Prop
  | .fragment bytes next => c.remaining = bytes ++ next.remaining ∧ next.work < c.work
  | .again next => c.remaining = next.remaining ∧ next.work < c.work
  | .exhausted => c.remaining = []

theorem rawArgv_cons (arg : Text) (rest : List Text) :
    rawArgv (arg :: rest) =
      if arg = "-MF".toList then
        if rest.head? = some "-".toList then "-MF-stdout".toList :: rawArgv rest.tail
        else rawArgv rest.tail
      else if arg = "-MF-".toList then "-MF-stdout".toList :: rawArgv rest
      else if "-MF".toList.isPrefixOf arg then rawArgv rest
      else arg :: rawArgv rest := by
  cases rest with
  | nil => rfl
  | cons next rest =>
    simp only [rawArgv, head?_cons, tail_cons, Option.some.injEq]

theorem accounts_rawArgument {c : Cursor} (h : c.phase = .rawArgument) : Accounts c c.turn := by
  obtain ⟨compiler, arguments, raw, cwd, env, phase⟩ := c
  obtain rfl : phase = .rawArgument := h
  cases raw with
  | nil =>
    refine ⟨rfl, ?_⟩
    simp [Cursor.work]
  | cons arg rest =>
    simp only [Cursor.turn, Accounts, Cursor.remaining, Cursor.work, rawArgv_cons, length_cons]
    -- The branches are those of `rawArgv`, each with the argument it gives out.
    split_ifs <;> simp
    all_goals omega

theorem accounts_turn (c : Cursor) : Accounts c c.turn := by
  obtain ⟨compiler, arguments, raw, cwd, env, phase⟩ := c
  cases phase
  case argument =>
    cases arguments <;> simp [Cursor.turn, Accounts, Cursor.remaining, Cursor.work]
    omega
  case rawTag =>
    by_cases h : wantsDepfile raw <;>
      simp [Cursor.turn, Accounts, Cursor.remaining, Cursor.work, h, rawSection]
    omega
  case rawArgument => exact accounts_rawArgument rfl
  case envKey =>
    cases env <;> simp [Cursor.turn, Accounts, Cursor.remaining, Cursor.work, Cursor.envItems]
  case envEquals =>
    cases env with
    | nil => simp [Cursor.turn, Accounts, Cursor.remaining]
    | cons e env =>
      refine ⟨by simp [Cursor.remaining], ?_⟩
      simp only [Cursor.work, length_cons]
      omega
  case envValue =>
    cases env <;> simp [Cursor.turn, Accounts, Cursor.remaining, Cursor.work]
    omega
  case envEnd =>
    cases env <;> simp [Cursor.turn, Accounts, Cursor.remaining, Cursor.work]
    omega
  -- The other phases give out a fixed field or its end.
  all_goals simp [Cursor.turn, Accounts, Cursor.remaining, Cursor.work]

namespace Cursor

def nextFragment (c : Cursor) : Option (Text × Cursor) :=
  match _h : c.turn with
  | .fragment bytes next => some (bytes, next)
  | .again next => nextFragment next
  | .exhausted => none
termination_by c.work
decreasing_by
  have haccs := accounts_turn c
  rw [_h] at haccs
  exact haccs.2

/-- A call gives out the next bytes, or nothing remains. -/
theorem nextFragment_accounts (c : Cursor) :
    match c.nextFragment with
    | some (bytes, next) => c.remaining = bytes ++ next.remaining ∧ next.work < c.work
    | none => c.remaining = [] := by
  have haccs := accounts_turn c
  fun_induction nextFragment c with
  | case1 c bytes next h | case3 c h =>
    rw [h] at haccs
    exact haccs
  | case2 c next h ih =>
    rw [h] at haccs
    have hnext := ih (accounts_turn next)
    rw [haccs.1]
    split at hnext
    · exact ⟨hnext.1, hnext.2.trans haccs.2⟩
    · exact hnext

theorem work_nextFragment {c next : Cursor} {bytes : Text}
    (h : c.nextFragment = some (bytes, next)) : next.work < c.work := by
  have haccs := nextFragment_accounts c
  rw [h] at haccs
  exact haccs.2

/-- The fragments of all calls until the cursor is exhausted. -/
def fragments (c : Cursor) : List Text :=
  match _h : c.nextFragment with
  | some (bytes, next) => bytes :: fragments next
  | none => []
termination_by c.work
decreasing_by exact work_nextFragment _h

theorem flatten_fragments (c : Cursor) : c.fragments.flatten = c.remaining := by
  fun_induction fragments c with
  | case1 c bytes next h ih =>
    have haccs := nextFragment_accounts c
    rw [h] at haccs
    rw [flatten_cons, ih, haccs.1]
  | case2 c h =>
    have haccs := nextFragment_accounts c
    rw [h] at haccs
    exact haccs.symm

end Cursor

/-- What a request fingerprint is taken of. The variables are sorted by their names. -/
structure Fields where
  compiler : Name
  arguments : List Name
  raw : List Name
  cwd : Name
  env : Env
  names : ∀ e ∈ env, '=' ∉ e.1.val
  sorted : env.Pairwise fun e next => e.1.val ≤ next.1.val

namespace Fields

def rawArgs (f : Fields) : List Text :=
  f.raw.map Subtype.val

def cursor (f : Fields) : Cursor where
  compiler := f.compiler.val
  arguments := f.arguments.map Subtype.val
  raw := f.rawArgs
  cwd := f.cwd.val
  env := f.env.map fun e => (e.1.val, e.2.val)
  phase := .tag

def bytes (f : Fields) : Text :=
  f.cursor.fragments.flatten

variable {f g : Fields}

def items (f : Fields) : List Text :=
  f.compiler.val :: (f.arguments.map Subtype.val ++
    (rawSection f.rawArgs ++ f.cwd.val :: Cursor.envItems f.cursor.env))

theorem bytes_eq_frame (f : Fields) :
    f.bytes = frame nul ("zccache-request-v2" :: f.items) := by
  rw [bytes, Cursor.flatten_fragments, items]
  simp only [Cursor.remaining, cursor, append_assoc]

theorem nul_notMem_items (f : Fields) : ∀ t ∈ f.items, nul ∉ t := by
  have hnames : ∀ names : List Name, ∀ t ∈ names.map Subtype.val, nul ∉ t := by
    intro names t ht
    obtain ⟨name, -, rfl⟩ := mem_map.mp ht
    exact name.property
  intro t ht
  simp only [items, mem_cons, mem_append] at ht
  rcases ht with rfl | harg | hraw | rfl | henv
  · exact f.compiler.property
  · exact hnames f.arguments t harg
  · exact nul_notMem_rawSection (hnames f.raw) t hraw
  · exact f.cwd.property
  · simp only [Cursor.envItems, cursor, map_map, mem_map] at henv
    obtain ⟨e, -, rfl⟩ := henv
    have hname := e.1.property
    have hval := e.2.property
    have heq : nul ≠ '=' := by decide
    simp [hname, hval, heq]

theorem separated (f : Fields) : ∀ e ∈ f.cursor.env, '=' ∉ e.1 := by
  intro e he
  obtain ⟨pair, hpair, rfl⟩ := mem_map.mp he
  exact f.names pair hpair

theorem items_of_bytes (h : f.bytes = g.bytes) : f.items = g.items := by
  have hnul : ∀ f : Fields, ∀ t ∈ "zccache-request-v2".toList :: f.items, nul ∉ t := by
    intro f t ht
    rcases mem_cons.mp ht with rfl | ht
    · decide
    · exact f.nul_notMem_items t ht
  rw [bytes_eq_frame, bytes_eq_frame] at h
  exact (cons.inj (PrefixCode.frame_injective (hnul f) (hnul g) h)).2

theorem rawArgv_of_rawSection {args args' : List Text} (h : rawSection args = rawSection args')
    (hwants : wantsDepfile args ∨ wantsDepfile args') : rawArgv args = rawArgv args' := by
  unfold rawSection at h
  split_ifs at h with hargs hargs' hargs'
  · exact (cons.inj h).2
  · exact absurd hwants (by simp [hargs, hargs'])

theorem fields_of_items (h : f.items = g.items)
    (harguments : f.arguments.length = g.arguments.length) (henv : f.env.length = g.env.length) :
    f.compiler = g.compiler ∧ f.arguments = g.arguments ∧ f.cwd = g.cwd ∧ f.env = g.env ∧
      rawSection f.rawArgs = rawSection g.rawArgs := by
  obtain ⟨hcomp, hrest⟩ := cons.inj h
  obtain ⟨hargs, hrest⟩ := append_inj hrest (by simpa using harguments)
  obtain ⟨hraw, hrest⟩ := append_inj' hrest (by simpa [Cursor.envItems, cursor] using henv)
  obtain ⟨hcwd, hitems⟩ := cons.inj hrest
  have hpairs := map_separated_inj f.separated g.separated hitems
  refine ⟨Subtype.ext hcomp, Subtype.val_injective.list_map hargs, Subtype.ext hcwd, ?_, hraw⟩
  refine map_injective_iff.mpr (fun e e' he => ?_) hpairs
  obtain ⟨hname, hval⟩ := Prod.mk.inj he
  exact Prod.ext (Subtype.ext hname) (Subtype.ext hval)

theorem fragments_inj_iff (h : f.bytes = g.bytes) :
    (f.compiler = g.compiler ∧ f.arguments = g.arguments ∧ f.cwd = g.cwd ∧ f.env = g.env ∧
        (wantsDepfile f.rawArgs ∨ wantsDepfile g.rawArgs → rawArgv f.rawArgs = rawArgv g.rawArgs)) ↔
      f.arguments.length = g.arguments.length ∧ f.env.length = g.env.length := by
  constructor
  · rintro ⟨-, harguments, -, henv, -⟩
    exact ⟨congrArg length harguments, congrArg length henv⟩
  · rintro ⟨harguments, henv⟩
    obtain ⟨hcomp, hargs, hcwd, hvars, hraw⟩ :=
      fields_of_items (items_of_bytes h) harguments henv
    exact ⟨hcomp, hargs, hcwd, hvars, rawArgv_of_rawSection hraw⟩

def ccName : Name := ⟨"cc", by decide⟩

def workName : Name := ⟨"/w", by decide⟩

/-- An argument before a directory that reads like a variable. -/
def argumentFields : Fields where
  compiler := ccName
  arguments := [workName]
  raw := []
  cwd := ⟨"A=B", by decide⟩
  env := []
  names := by decide
  sorted := by decide

def variableFields : Fields where
  compiler := ccName
  arguments := []
  raw := []
  cwd := workName
  env := [(⟨"A", by decide⟩, ⟨"B", by decide⟩)]
  names := by decide
  sorted := by decide

/-- Arguments that read like a raw section. -/
def taggedFields : Fields where
  compiler := ccName
  arguments := [⟨rawArgvTag, by decide⟩, ⟨"-MD", by decide⟩]
  raw := []
  cwd := workName
  env := []
  names := by decide
  sorted := by decide

def rawFields : Fields where
  compiler := ccName
  arguments := []
  raw := [⟨"-MD", by decide⟩]
  cwd := workName
  env := []
  names := by decide
  sorted := by decide

theorem bytes_of_items (h : f.items = g.items) : f.bytes = g.bytes := by
  rw [bytes_eq_frame, h, bytes_eq_frame]

theorem boundaries_shift :
    (argumentFields.bytes = variableFields.bytes ∧ argumentFields.cwd ≠ variableFields.cwd) ∧
      taggedFields.bytes = rawFields.bytes ∧ wantsDepfile rawFields.rawArgs ∧
        taggedFields.arguments ≠ rawFields.arguments ∧
        rawArgv taggedFields.rawArgs ≠ rawArgv rawFields.rawArgs := by
  refine ⟨⟨bytes_of_items ?_, ?_⟩, bytes_of_items ?_, ?_, ?_, ?_⟩ <;> decide

theorem fragments_inj_iff_argumentFields :
    (argumentFields.compiler = variableFields.compiler ∧
        argumentFields.arguments = variableFields.arguments ∧
        argumentFields.cwd = variableFields.cwd ∧ argumentFields.env = variableFields.env ∧
        (wantsDepfile argumentFields.rawArgs ∨ wantsDepfile variableFields.rawArgs →
          rawArgv argumentFields.rawArgs = rawArgv variableFields.rawArgs)) ↔
      argumentFields.arguments.length = variableFields.arguments.length ∧
        argumentFields.env.length = variableFields.env.length :=
  fragments_inj_iff (bytes_of_items (by decide))

end Fields

end Zccache.RequestFingerprint
