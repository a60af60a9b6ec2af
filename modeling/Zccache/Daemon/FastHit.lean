import Zccache.Fscache.Journal
import Zccache.Graph.History

/-! # Hits without hashing

A fast-hit entry is served when the journal shows no change of the files that the
graph lists now. It vouches for the files recorded when the entry was stored only
as far as the graph still lists them.
-/

namespace Zccache

open Unix FinMap ChangeJournal

variable {D : Type} [DecidableEq D]

structure IgnoreFilter where
  patterns : List Text

def IgnoreFilter.defaultPatterns : List Text :=
  [".git", "target", "node_modules", ".hg", "__pycache__",
    ".mypy_cache", "build", ".cache"]

def IgnoreFilter.default : IgnoreFilter :=
  ⟨defaultPatterns⟩

/-- A path is ignored if one of its names is a pattern. -/
def IgnoreFilter.shouldIgnore (f : IgnoreFilter) (path : Path) : Bool :=
  path.any fun
    | .normal name => f.patterns.any (· == name.val)
    | _ => false

/-- The watcher drops events of these paths. -/
def watchIgnored (path : NormalizedPath) : Bool :=
  IgnoreFilter.default.shouldIgnore path.path

/-- Silence of the journal is evidence only for paths that are watched. -/
def journalProvesFresh (journal : ChangeJournal) (path : NormalizedPath) (since : Clock) : Bool :=
  !watchIgnored path && !journal.changedSince path since

theorem journalProvesFresh_iff {journal : ChangeJournal} {path : NormalizedPath} {since : Clock} :
    journalProvesFresh journal path since = true ↔
      watchIgnored path = false ∧ journal.changedSince path since = false := by
  simp [journalProvesFresh]

def contextFilesFresh (g : DepGraph D) (journal : ChangeJournal) (contextKey : ContextKey D)
    (sourcePath : NormalizedPath) (since : Clock) : Bool :=
  let fresh path := journalProvesFresh journal path since
  if !fresh sourcePath then false
  else
    (match g.getIncludes contextKey with
      | some includes => includes.all fresh
      | none => true) &&
    (match g.getForceIncludes contextKey with
      | some forceIncludes => forceIncludes.all fresh
      | none => true) &&
    match g.getRustcExterns contextKey with
      | some externs => externs.all fun e => fresh e.2
      | none => true

def DepGraph.listedInputs (g : DepGraph D) (key : ContextKey D) : List NormalizedPath :=
  (g.getIncludes key).getD [] ++ (g.getForceIncludes key).getD [] ++
    ((g.getRustcExterns key).getD []).map Prod.snd

theorem contextFilesFresh_iff {g : DepGraph D} {journal : ChangeJournal} {key : ContextKey D}
    {source : NormalizedPath} {since : Clock} :
    contextFilesFresh g journal key source since = true ↔
      ∀ p ∈ source :: g.listedInputs key, journalProvesFresh journal p since = true := by
  simp only [contextFilesFresh, DepGraph.listedInputs, List.forall_mem_cons,
    List.forall_mem_append, List.forall_mem_map]
  cases g.getIncludes key <;> cases g.getForceIncludes key <;> cases g.getRustcExterns key <;>
    simp [and_assoc]

section Vouching

variable {since : Clock} {files : List NormalizedPath} {p : NormalizedPath}

/-- A journal that shows a change of `p` after `since`, and of no other file. -/
def changedOnly (since : Clock) (files : List NormalizedPath) (p : NormalizedPath) :
    ChangeJournal :=
  ((⟨since, ∅, 0⟩ : ChangeJournal).registerTracked files |>.advance [p]).1

theorem changedSince_changedOnly (q : NormalizedPath) (hq : q ∈ files) :
    (changedOnly since files p).changedSince q since = decide (q = p) := by
  have hoverflow : (changedOnly since files p).lastOverflow = 0 :=
    lastOverflow_registerTracked _ _
  have hcur : ((⟨since, ∅, 0⟩ : ChangeJournal).registerTracked files).current = since :=
    current_registerTracked _ _
  rw [changedSince, hoverflow, if_neg (by simp), changedOnly,
    lookup_advance, lookup_registerTracked, hcur]
  by_cases hp : q = p <;> simp [hp, hq]

end Vouching

/-- For every journal a fresh context means that the recorded files are unchanged, exactly if
the graph still lists all of them or lists a file that is not watched. -/
theorem contextFilesFresh_vouches_iff (g₀ g : DepGraph D) (key : ContextKey D)
    (source₀ source : NormalizedPath) (since : Clock) :
    (∀ journal, contextFilesFresh g journal key source since = true →
      ∀ p ∈ source₀ :: g₀.listedInputs key, journal.changedSince p since = false) ↔
    (∀ p ∈ source₀ :: g₀.listedInputs key, p ∈ source :: g.listedInputs key) ∨
      ∃ p ∈ source :: g.listedInputs key, watchIgnored p = true := by
  constructor
  · intro h
    by_contra hnot
    rw [not_or] at hnot
    obtain ⟨hmiss, hwatch⟩ := hnot
    push Not at hmiss hwatch
    obtain ⟨p, hp, hlost⟩ := hmiss
    have hfresh : contextFilesFresh g (changedOnly since (p :: source :: g.listedInputs key) p)
        key source since = true := by
      refine contextFilesFresh_iff.mpr fun q hq => journalProvesFresh_iff.mpr ⟨?_, ?_⟩
      · exact Bool.eq_false_iff.mpr (hwatch q hq)
      · rw [changedSince_changedOnly q (List.mem_cons_of_mem _ hq)]
        exact decide_eq_false fun heq => hlost (heq ▸ hq)
    have hchg := h _ hfresh p hp
    rw [changedSince_changedOnly p List.mem_cons_self, decide_eq_true rfl] at hchg
    cases hchg
  · rintro (hlist | ⟨q, hq, hign⟩) journal hfresh p hp
    · exact (journalProvesFresh_iff.mp (contextFilesFresh_iff.mp hfresh p (hlist p hp))).2
    · have hwatch := (journalProvesFresh_iff.mp (contextFilesFresh_iff.mp hfresh q hq)).1
      rw [hign] at hwatch
      cases hwatch

open DepGraph

def registerAt (root : Text) : GraphOp Text :=
  .registerWithKey ⟨"key"⟩ (.plain (.new (root ++ "/m.c")) "cc")
    (some (.new root)) 0

/-- A context with one header, as it is when its fast-hit entry is stored. -/
def storedHistory : List (GraphOp Text) :=
  [registerAt "/a",
    .updateWithEnv ⟨"key"⟩ ⟨[.new "/a/m.h"], [], false⟩ (fun _ => some "1") []
      (fun _ => none) 1]

def evictStored : GraphOp Text :=
  .evictContexts [(ContextInstanceKey.new Hasher.transparent ⟨"key"⟩
    (.new "/a/m.c") (some (.new "/a"))).mapKey]

/-- The entry is stored at clock 1 and the header changes at clock 2. Once the context is
evicted, or registered again, or shares its key with a second checkout, this goes unnoticed. -/
theorem changed_header_unnoticed :
    let journal := (((new.advance
      [.new "/a/m.c", .new "/a/m.h"]).1).advance [.new "/a/m.h"]).1
    NormalizedPath.new "/a/m.h" ∈
        (after Host.transparent storedHistory).listedInputs ⟨"key"⟩ ∧
      journal.changedSince (.new "/a/m.h") 1 = true ∧
      ∀ later ∈ [[evictStored], [evictStored, registerAt "/a"],
          [registerAt "/b"]],
        contextFilesFresh (after Host.transparent (storedHistory ++ later)) journal
          ⟨"key"⟩ (.new "/a/m.c") 1 = true := by
  decide +kernel

end Zccache
