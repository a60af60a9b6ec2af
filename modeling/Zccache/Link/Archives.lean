import Zccache.Link.Key

/-! # Keys of archives

What ar builds depends on its operation with the arguments of the modifiers, on
the names and contents of the members and on an archive that is already there, if
the run is not staged. The key determines the operation and the contents in their
order. The names, the arguments of the modifiers and the earlier archive are not in it.
-/

namespace Zccache

open List Unix Framing StableSort LinkSearchAnalysis

variable {C D : Type}

/-- A cacheable run of ar on the files of a machine. -/
structure ArchiveJob (C : Type) where
  request : LinkRequest
  tree : FileTree C
  args : List Text
  command : ArCommand
  accepted : splitArCommand args = .ok command
  nul_notMem : ∀ arg ∈ args, nul ∉ arg
  nul_notMem_root : ∀ root ∈ request.keyRoot, nul ∉ normalizeForKey root
  /-- The lane for staged archives, which is on by default. -/
  lane : Bool

/-- Everything that the result of ar depends on. -/
@[ext] structure ArchiveRun (C : Type) where
  longFlags : List Text
  operation : Text
  positional : List Text
  /-- The names in the archive and the contents, in the order of the command line. -/
  members : List (Text × Option C)
  /-- The archive that ar finds already there. -/
  previous : Option C
  deriving DecidableEq

/-- The way from a directory to a file. -/
def relativeFrom : Path → Path → Path
  | a :: base, b :: path =>
    if a = b then relativeFrom base path
    else (a :: base).map (fun _ => .parentDir) ++ b :: path
  | base, path => base.map (fun _ => .parentDir) ++ path

/-- The operation is neither an assignment nor an option with a slash. -/
def PlainOperation (op : Text) : Prop :=
  '=' ∉ op ∧ op.head? ≠ some '/'

namespace ArchiveJob

variable (job : ArchiveJob C)

def key (H : Hasher D) (hashOf : C → D) : Option D :=
  job.request.key job.command.toLink job.tree H hashOf

def absolute (t : Text) : NormalizedPath :=
  job.request.absolute (.new t)

def content (member : Text) : Option C :=
  job.tree (job.absolute member)

/-- Whether ar writes to a place of its own, where no archive is. The plan replaces the argument of
the archive only if it is the whole path or the file name alone. It takes other arguments of that
spelling for it too; then ar or the delivery fails, and nothing is stored. -/
def staged : Bool :=
  let requested := (job.absolute job.command.archive).path
  job.lane && (job.command.archive = toText requested ||
    some job.command.archive = fileName requested)

def previous : Option C :=
  if job.staged then none else job.content job.command.archive

/-- A thin archive has the members outside. -/
def isThin : Bool :=
  job.command.operation.contains 'T' || job.command.longFlags.contains "--thin"

/-- The file name of the member, or with the modifier `P` its path. A thin archive has the path,
from the place of the archive if both arguments are relative. -/
def memberName (member : Text) : Text :=
  if job.isThin then
    if isAbsolute member || isAbsolute job.command.archive || job.staged then member
    else toText (relativeFrom (job.absolute job.command.archive).path.dropLast
      (job.absolute member).path)
  else if job.command.operation.contains 'P' then member
  else (fileName (components member)).getD []

def run : ArchiveRun C where
  longFlags := job.command.longFlags
  operation := job.command.operation
  positional := job.command.positional
  members := job.command.members.map fun member => (job.memberName member, job.content member)
  previous := job.previous

end ArchiveJob

section Parsing

variable {args : List Text} {command : ArCommand} {op : Text}

theorem arLongFlags_spec (args : List Text) :
    (∀ flag ∈ (arLongFlags args).1, "--" <+: flag ∨ flag.head? ≠ some '-') ∧
      (∀ arg ∈ (arLongFlags args).2.head?, ¬ "--" <+: arg) ∧
      (arLongFlags args).2 ⊆ args := by
  fun_induction arLongFlags args with
  | case1 => simp
  | case2 arg hlong => simpa using Or.inl <| isPrefixOf_iff_prefix.mp hlong
  | case3 arg hlong => simpa using fun h => hlong <| isPrefixOf_iff_prefix.mpr h
  | case4 arg next rest hlong hvalue more ih =>
    refine ⟨?_, ih.2.1, List.Subset.trans ih.2.2 fun a ha => by simp [ha]⟩
    rw [forall_mem_cons, forall_mem_cons]
    exact ⟨.inl <| isPrefixOf_iff_prefix.mp hlong, .inr hvalue.1, ih.1⟩
  | case5 arg next rest hlong hvalue more ih =>
    refine ⟨?_, ih.2.1, List.Subset.trans ih.2.2 fun a ha => mem_cons_of_mem _ ha⟩
    rw [forall_mem_cons]
    exact ⟨.inl <| isPrefixOf_iff_prefix.mp hlong, ih.1⟩
  | case6 arg next rest hlong =>
    simpa using fun h => hlong <| isPrefixOf_iff_prefix.mpr h

theorem splitArCommand_eq_ok (h : splitArCommand args = .ok command) :
    ∃ arg operands, arLongFlags args = (command.longFlags, arg :: operands) ∧
      command.operation = (arg.dropPrefix? ['-']).getD arg ∧ 'p' ∉ command.operation := by
  unfold splitArCommand at h
  split_ifs at h
  rcases hflags : arLongFlags args with ⟨long, rest⟩
  rw [hflags] at h
  cases rest with
  | nil => exact nomatch h
  | cons arg operands =>
    dsimp only at h
    generalize (_ + _ : ℕ) = skipped at h
    split_ifs at h with hx ht hd hp hr
    split at h
    · exact nomatch h
    · split_ifs at h
      cases h
      exact ⟨arg, operands, rfl, rfl, by simpa using hp⟩

theorem libNames_ofFlag {flag : Text} (h : "--" <+: flag ∨ flag.head? ≠ some '-') :
    (ofFlag flag).libNames = [] := by
  have hnone : ∀ c : Char, c ≠ '-' → ∀ lead : Text, flag.dropPrefix? ('-' :: c :: lead) = none := by
    intro c hc lead
    rw [Option.eq_none_iff_forall_ne_some]
    intro rest hrest
    obtain rfl := dropPrefix?_eq_some.mp hrest
    rcases h with ⟨more, hmore⟩ | hhead
    · exact hc (List.cons.inj (List.cons.inj hmore).2).1.symm
    · exact hhead rfl
  unfold ofFlag
  rw [show flag.dropPrefix? "-L" = none from hnone 'L' (by decide) [],
    show flag.dropPrefix? "-l" = none from hnone 'l' (by decide) [],
    show flag.dropPrefix? "-Wl," = none from hnone 'W' (by decide) ['l', ',']]
  cases flag.dropPrefix? "--library-path=" <;> rfl

theorem libNames_analyzeLinkSearchFlags {flags : List Text}
    (h : ∀ flag ∈ flags, "--" <+: flag ∨ flag.head? ≠ some '-') :
    (analyzeLinkSearchFlags flags).libNames = [] := by
  fun_induction analyzeLinkSearchFlags flags with
  | case1 | case2 => rfl
  | case3 flag hdir => exact libNames_ofFlag (h flag mem_cons_self)
  | case4 flag value rest hdir ih =>
    rw [forall_mem_cons, forall_mem_cons] at h
    rw [append, ih h.2.2]
    rfl
  | case5 flag value rest hdir ih =>
    rw [forall_mem_cons] at h
    rw [append, ih h.2, libNames_ofFlag h.1]
    rfl

theorem toLower_eq_slash {c : Char} (h : c.toLower = '/') : c = '/' := by
  unfold Char.toLower at h
  split at h
  · have hval : c.val + 32 = 47 := congrArg Char.val h
    grind
  · exact h

theorem normalizeCaselessJoinedPath_eq_none (hslash : op.head? ≠ some '/') (option : String)
    (hopt : option.toList.head? = some '/') (keyRoot : Option Path) :
    normalizeCaselessJoinedPath option op keyRoot = none := by
  refine if_neg fun h => hslash ?_
  have hlower : (op.take option.length).map Char.toLower = option.toList.map Char.toLower :=
    of_decide_eq_true h
  obtain ⟨rest, hrest⟩ := head?_eq_some_iff.mp hopt
  rw [hrest] at hlower
  cases op with
  | nil => simp at hlower
  | cons c op =>
    have hlen : option.length = rest.length + 1 := by
      rw [← String.length_toList, hrest, length_cons]
    rw [hlen, take_succ_cons, map_cons, map_cons, List.cons.injEq] at hlower
    rw [toLower_eq_slash hlower.1]
    rfl

theorem normalizeLinkCacheFlagForKey_plain (hplain : PlainOperation op)
    (hdash : op.head? ≠ some '-') (keyRoot : Option Path) :
    normalizeLinkCacheFlagForKey op keyRoot = op := by
  have hnoDash : ∀ lead : Text, op.dropPrefix? ('-' :: lead) = none := by
    intro lead
    rw [Option.eq_none_iff_forall_ne_some]
    intro rest hrest
    obtain rfl := dropPrefix?_eq_some.mp hrest
    exact hdash rfl
  have hmap : normalizeCcPrefixMapArgForKey op keyRoot = none := by
    have hflags : ∀ flag ∈ ccPrefixMapFlags, flag.head? = some '-' := by decide
    have hsplit : splitCcPrefixMapArg op = none := by
      refine findSome?_eq_none_iff.mpr fun flag hflag => ?_
      obtain ⟨lead, rfl⟩ := head?_eq_some_iff.mp (hflags flag hflag)
      rw [hnoDash lead]
      rfl
    rw [normalizeCcPrefixMapArgForKey, hsplit]
    rfl
  have hjoin : ∀ option : String, option.toList.head? = some '-' →
      normalizeJoinedPath option op keyRoot = none := by
    intro option hopt
    obtain ⟨lead, hlead⟩ := head?_eq_some_iff.mp hopt
    rw [normalizeJoinedPath, hlead, hnoDash lead]
    rfl
  have hwl : ¬ "-Wl,".toList.isPrefixOf op := by
    intro h
    obtain ⟨rest, rfl⟩ := isPrefixOf_iff_prefix.mp h
    exact hdash rfl
  rw [normalizeLinkCacheFlagForKey, if_neg hwl, normalizeLinkFlagAtomForKey]
  split_ifs
  · rfl
  · rw [hmap, hjoin "-L" rfl, splitOnce_eq_none_iff.mpr hplain.1]
    simp only [findSome?_cons, findSome?_nil, hjoin "--library-path=" rfl,
      hjoin "--version-script=" rfl, hjoin "--script=" rfl, hjoin "--sysroot=" rfl,
      normalizeCaselessJoinedPath_eq_none hplain.2 "/LIBPATH:" rfl,
      normalizeCaselessJoinedPath_eq_none hplain.2 "/DEF:" rfl, Option.bind_none,
      Option.or_none, Option.getD_none]

end Parsing

/-- The first item without a `p` is found behind the markers, which have one. -/
theorem framed_first_inj {markers markers' rest rest' : List Text} {op op' : Text}
    {more more' : List (Atom D)} (hmarks : ∀ m ∈ markers, nul ∉ m ∧ 'p' ∈ m)
    (hmarks' : ∀ m ∈ markers', nul ∉ m ∧ 'p' ∈ m) (hop : nul ∉ op ∧ 'p' ∉ op)
    (hop' : nul ∉ op' ∧ 'p' ∉ op')
    (h : framed ((markers ++ op :: rest).map text) ++ more =
      framed ((markers' ++ op' :: rest').map text) ++ more') : op = op' := by
  have hitem : ∀ {t t' : Text} {ts ts' : List Text}, nul ∉ t → nul ∉ t' →
      framed ((t :: ts).map text) ++ more = framed ((t' :: ts').map text) ++ more' →
      t = t' ∧ framed (ts.map text) ++ more = framed (ts'.map text) ++ more' := by
    intro t t' ts ts' ht ht' h
    simp only [framed, map_cons, frame_cons, append_assoc, cons_append] at h
    obtain ⟨htext, hrest⟩ := append_terminator_inj (by simpa using ht) (by simpa using ht') h
    exact ⟨text_injective htext, hrest⟩
  induction markers generalizing markers' with
  | nil =>
    cases markers' with
    | nil => exact (hitem hop.1 hop'.1 h).1
    | cons m' markers' =>
      rw [forall_mem_cons] at hmarks'
      exact absurd ((hitem hop.1 hmarks'.1.1 h).1 ▸ hmarks'.1.2) hop.2
  | cons m markers ih =>
    rw [forall_mem_cons] at hmarks
    cases markers' with
    | nil => exact absurd ((hitem hmarks.1.1 hop'.1 h).1 ▸ hmarks.1.2) hop'.2
    | cons m' markers' =>
      rw [forall_mem_cons] at hmarks'
      exact ih hmarks.2 hmarks'.2 (hitem hmarks.1.1 hmarks'.1.1 h).2

namespace ArchiveJob

variable {job job' : ArchiveJob C} {H : Hasher D} {hashOf : C → D} {d : D}

theorem operation_spec (job : ArchiveJob C) :
    'p' ∉ job.command.operation ∧ nul ∉ job.command.operation ∧
      job.command.operation.head? ≠ some '-' := by
  obtain ⟨arg, operands, hflags, hop, hp⟩ := splitArCommand_eq_ok job.accepted
  obtain ⟨-, hlong, hsub⟩ := arLongFlags_spec job.args
  rw [hflags] at hlong hsub
  have hnul := job.nul_notMem arg (hsub mem_cons_self)
  have hlong := hlong arg rfl
  refine ⟨hp, ?_⟩
  rw [hop]
  cases hdash : arg.dropPrefix? ['-'] with
  | none =>
    refine ⟨hnul, fun hhead => ?_⟩
    obtain ⟨rest, rfl⟩ := head?_eq_some_iff.mp hhead
    exact absurd hdash (by simp [List.dropPrefix?])
  | some rest =>
    obtain rfl := dropPrefix?_eq_some.mp hdash
    refine ⟨fun h => hnul (mem_append_right _ h), fun hhead => hlong ?_⟩
    obtain ⟨more, rfl⟩ := head?_eq_some_iff.mp hhead
    exact ⟨more, rfl⟩

theorem libNames_eq_nil (job : ArchiveJob C) :
    (analyzeLinkSearchFlags job.command.toLink.cacheRelevantFlags).libNames = [] := by
  obtain ⟨arg, operands, hflags, -⟩ := splitArCommand_eq_ok job.accepted
  obtain ⟨hlong, -⟩ := arLongFlags_spec job.args
  rw [hflags] at hlong
  exact libNames_analyzeLinkSearchFlags
    (forall_mem_cons.mpr ⟨.inr job.operation_spec.2.2, hlong⟩)

theorem inputs_eq (job : ArchiveJob C) :
    job.request.inputs job.command.toLink job.tree =
      job.command.members.map fun member => job.request.absolute (.new member) := by
  have hextra : (job.request.plan job.command.toLink job.tree).extraInputFiles = [] := by
    unfold LinkRequest.plan
    cases job.request.keyRoot with
    | none => rfl
    | some root =>
      rw [buildLinkPathRemapKeyPlan]
      rw [job.libNames_eq_nil]
      rfl
  rw [LinkRequest.inputs, hextra, append_nil, ArCommand.toLink, map_map]
  rfl

/-- The flags of the key are markers, the operation and the rest. -/
theorem keyFlags_eq (job : ArchiveJob C) (hplain : PlainOperation job.command.operation) :
    ∃ markers rest, job.request.keyFlags job.command.toLink job.tree =
      markers ++ job.command.operation :: rest ∧ ∀ m ∈ markers, nul ∉ m ∧ 'p' ∈ m := by
  have hflags : ∃ rest, (job.request.plan job.command.toLink job.tree).flags =
      job.command.operation :: rest := by
    have hnorm : ∀ keyRoot, ∃ rest, normalizeLinkCacheFlagsForKey keyRoot false
        (job.command.operation :: job.command.longFlags) = job.command.operation :: rest := by
      intro keyRoot
      rw [normalizeLinkCacheFlagsForKey, if_neg (by decide),
        normalizeLinkCacheFlagForKey_plain hplain job.operation_spec.2.2]
      exact ⟨_, rfl⟩
    unfold LinkRequest.plan
    cases job.request.keyRoot with
    | none => exact hnorm none
    | some root => exact hnorm (some root)
  obtain ⟨rest, hrest⟩ := hflags
  refine ⟨_, rest, by rw [LinkRequest.keyFlags, hrest], fun m hm => ?_⟩
  rcases mem_append.mp hm with hm | hm
  · split_ifs at hm
    · rw [mem_singleton.mp hm]
      decide
    · exact nomatch hm
  · split_ifs at hm
    · rw [mem_singleton.mp hm]
      have hroot : nul ∉ (job.request.keyRoot.map normalizeForKey).getD [] := by
        cases hkeyRoot : job.request.keyRoot with
        | none => exact not_mem_nil
        | some root => exact job.nul_notMem_root root hkeyRoot
      refine ⟨fun h => ?_, mem_append_left _ (by decide)⟩
      rcases mem_append.mp h with h | h
      · exact absurd h (by decide)
      · rcases mem_cons.mp h with h | h
        · exact absurd h (by decide)
        · exact hroot h
    · exact nomatch hm

theorem content_eq_of_key (hdigest : Function.Injective H.digest)
    (hhash : Function.Injective hashOf) (h : job.key H hashOf = some d)
    (h' : job'.key H hashOf = some d) :
    job.command.members.map job.content = job'.command.members.map job'.content := by
  obtain ⟨toolContent, -, hall, hd⟩ := (job.request.key_eq_some_iff _ _).mp h
  obtain ⟨toolContent', -, hall', hd'⟩ := (job'.request.key_eq_some_iff _ _).mp h'
  obtain ⟨-, hhashes⟩ := LinkCacheKeyBuilder.hashes_inj hdigest (hd.trans hd'.symm)
  have hmap : ∀ job : ArchiveJob C, job.command.members.map job.content =
      (job.request.inputs job.command.toLink job.tree).map job.tree := by
    intro job
    rw [job.inputs_eq, map_map]
    rfl
  rw [hmap, hmap, LinkRequest.map_tree_eq hall, LinkRequest.map_tree_eq hall',
    map_injective_iff.mpr hhash hhashes]

theorem operation_eq_of_key (hdigest : Function.Injective H.digest)
    (h : job.key H hashOf = some d) (h' : job'.key H hashOf = some d)
    (hplain : PlainOperation job.command.operation)
    (hplain' : PlainOperation job'.command.operation) :
    job.command.operation = job'.command.operation := by
  obtain ⟨markers, rest, hflags, hmarks⟩ := job.keyFlags_eq hplain
  obtain ⟨markers', rest', hflags', hmarks'⟩ := job'.keyFlags_eq hplain'
  obtain ⟨toolContent, -, -, hd⟩ := (job.request.key_eq_some_iff _ _).mp h
  obtain ⟨toolContent', -, -, hd'⟩ := (job'.request.key_eq_some_iff _ _).mp h'
  have hpre := hdigest (hd.trans hd'.symm)
  simp only [LinkCacheKeyBuilder.preimage, hflags, hflags', raw, append_assoc,
    append_cancel_left_eq, cons_append] at hpre
  obtain ⟨-, hframed⟩ := List.cons.inj hpre
  exact framed_first_inj hmarks hmarks' ⟨job.operation_spec.2.1, job.operation_spec.1⟩
    ⟨job'.operation_spec.2.1, job'.operation_spec.1⟩ hframed

/-- A run of ar in the directory `/w`. -/
def inDir (args : List String) (files : List (String × String)) : Option (ArchiveJob Text) :=
  match h : splitArCommand (texts args) with
  | .error _ => none
  | .ok command =>
    if hnul : ∀ arg ∈ texts args, nul ∉ arg then
      some
        { request := ⟨.new "/usr/bin/ar", components "/w", none, []⟩
          tree := .ofList (("/usr/bin/ar", "ar") :: files)
          args := texts args
          command
          accepted := h
          nul_notMem := hnul
          nul_notMem_root := fun _ h => nomatch h
          lane := true }
    else none

def SharesKey (job job' : Option (ArchiveJob Text)) : Bool :=
  (job.bind (·.key .transparent id)).isSome ∧
    job.bind (·.key .transparent id) = job'.bind (·.key .transparent id) ∧
    job.map run ≠ job'.map run

/-- The way between relative arguments in a thin archive, and an archive that ar does not see. -/
example :
    (inDir ["rcsT", "lib/a.a", "obj/m.o"] [("/w/obj/m.o", "1")]).map (·.run.members) =
      some [("../obj/m.o".toList, some "1".toList)] ∧
    (inDir ["rcs", "a.a", "m.o"] [("/w/m.o", "1"), ("/w/a.a", "0")]).map (·.run.previous) =
      some none := by
  decide +kernel

def archived (args : List String) (files : List (String × String))
    (h : (inDir args files).isSome) : ArchiveJob Text :=
  (inDir args files).get h

end ArchiveJob

end Zccache
