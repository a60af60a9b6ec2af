import Zccache.Base.Map
import Zccache.Base.Run
import Zccache.Core.NormalizedPath

/-! # The lists of system include directories

The list of a compiler is kept with the metadata that its binary has when the list is stored, which
is later than when it was found. A probe that finds nothing leaves the list of an earlier binary,
and that list is returned.
-/

namespace Zccache

open List FinMap Run

structure SystemIncludeEntry where
  stat : FileStat
  paths : List NormalizedPath

abbrev SystemIncludeCache := Map NormalizedPath SystemIncludeEntry

namespace SystemIncludeCache

variable (cache : SystemIncludeCache) (compiler : NormalizedPath)

def get (stat : Option FileStat) : Option (List NormalizedPath) :=
  (cache.lookup compiler).bind fun entry => stat.bind fun stat =>
    if entry.paths ≠ [] ∧ entry.stat = stat then some entry.paths else none

def insert (paths : List NormalizedPath) (stat : Option FileStat) : SystemIncludeCache :=
  if paths = [] then cache
  else stat.elim cache fun stat => AList.insert compiler ⟨stat, paths⟩ cache

/-- The metadata at first, what the probe finds, and the metadata at the insertion. -/
def getOrDiscover (stat : Option FileStat) (discovered : List NormalizedPath)
    (stat' : Option FileStat) : SystemIncludeCache × List NormalizedPath :=
  let cache := if (cache.get compiler stat).isSome then cache
    else cache.insert compiler discovered stat'
  (cache, ((cache.lookup compiler).map (·.paths)).getD [])

end SystemIncludeCache

/-- A probe of a binary that has the metadata `found` then, and `left` when its list is stored. -/
structure Probe where
  compiler : NormalizedPath
  found : FileStat
  left : FileStat
  failed : Bool

inductive IncludeEvent where
  | replace (compiler : NormalizedPath) (stat : FileStat)
  | get (compiler : NormalizedPath)
  | insert (probe : Probe)
  | getOrDiscover (probe : Probe)

structure IncludeWorld where
  binaries : NormalizedPath → FileStat
  cache : SystemIncludeCache

namespace IncludeWorld

variable (discover : NormalizedPath → FileStat → List NormalizedPath) (w : IncludeWorld)

def result (p : Probe) : List NormalizedPath :=
  if p.failed then [] else discover p.compiler p.found

def replace (compiler : NormalizedPath) (stat : FileStat) : IncludeWorld :=
  { w with binaries := Function.update w.binaries compiler stat }

/-- The list that is kept for the binary as it is. -/
def cached (compiler : NormalizedPath) : Option (List NormalizedPath) :=
  w.cache.get compiler (some (w.binaries compiler))

def discovered (p : Probe) : SystemIncludeCache × List NormalizedPath :=
  w.cache.getOrDiscover p.compiler (some (w.binaries p.compiler)) (result discover p) (some p.left)

def step : IncludeEvent → IncludeWorld
  | .replace compiler stat => w.replace compiler stat
  | .get _ => w
  | .insert p =>
    { w.replace p.compiler p.left with
      cache := w.cache.insert p.compiler (result discover p) (some p.left) }
  | .getOrDiscover p =>
    { (if (w.cached p.compiler).isSome then w else w.replace p.compiler p.left) with
      cache := (w.discovered discover p).1 }

/-- A list that a call returns is that of the binary at some moment of the call. -/
def Current : IncludeEvent → Prop
  | .replace .. | .insert _ => True
  | .get compiler => ∀ paths ∈ w.cached compiler, paths = discover compiler (w.binaries compiler)
  | .getOrDiscover p => (w.discovered discover p).2 ≠ [] →
      (w.discovered discover p).2 = discover p.compiler (w.binaries p.compiler) ∨
        w.cached p.compiler = none ∧
          (w.discovered discover p).2 ∈ [p.found, p.left].map (discover p.compiler)

/-- What a probe finds is also the list of the binary it is stored for. -/
def Steady (p : Probe) : Prop :=
  result discover p ≠ [] → discover p.compiler p.left = result discover p

/-- Probes are steady, and one that finds nothing meets no list of another binary. -/
def Regular : IncludeEvent → Prop
  | .replace .. | .get _ => True
  | .insert p => Steady discover p
  | .getOrDiscover p => w.cached p.compiler = none → Steady discover p ∧
      (result discover p = [] → w.cache.lookup p.compiler = none)

/-- Every list is that of the binary it is kept for. -/
def Kept : Prop :=
  ∀ compiler entry, w.cache.lookup compiler = some entry →
    entry.paths ≠ [] ∧ entry.paths = discover compiler entry.stat

variable {discover w} {p : Probe}

theorem Kept.insert (h : w.Kept discover) (hp : Steady discover p) {w' : IncludeWorld}
    (hw' : w'.cache = w.cache.insert p.compiler (result discover p) (some p.left)) :
    w'.Kept discover := by
  unfold SystemIncludeCache.insert at hw'
  split_ifs at hw' with hres
  · rwa [Kept, hw']
  · intro compiler entry hentry
    rw [hw'] at hentry
    obtain ⟨rfl, rfl⟩ | ⟨-, hold⟩ := lookup_insert_eq_some.mp hentry
    · exact ⟨hres, (hp hres).symm⟩
    · exact h compiler entry hold

theorem cached_eq_some {compiler : NormalizedPath} {paths : List NormalizedPath}
    (h : w.cached compiler = some paths) :
    w.cache.lookup compiler = some ⟨w.binaries compiler, paths⟩ := by
  simp only [cached, SystemIncludeCache.get, Option.bind_some, Option.bind_eq_some_iff,
    Option.ite_none_right_eq_some, Option.some.injEq] at h
  obtain ⟨⟨_, _⟩, hentry, ⟨-, rfl⟩, rfl⟩ := h
  exact hentry

theorem discovered_of_cached {paths : List NormalizedPath}
    (h : w.cached p.compiler = some paths) : w.discovered discover p = (w.cache, paths) := by
  have hhit : (w.cache.get p.compiler (some (w.binaries p.compiler))).isSome = true :=
    Option.isSome_iff_exists.mpr ⟨paths, h⟩
  simp [discovered, SystemIncludeCache.getOrDiscover, hhit, cached_eq_some h]

theorem discovered_of_none (h : w.cached p.compiler = none) :
    w.discovered discover p =
      (w.cache.insert p.compiler (result discover p) (some p.left),
        if result discover p = [] then ((w.cache.lookup p.compiler).map (·.paths)).getD []
        else result discover p) := by
  have hmiss : ¬ (w.cache.get p.compiler (some (w.binaries p.compiler))).isSome = true := by
    rw [← cached, h]
    simp
  simp only [discovered, SystemIncludeCache.getOrDiscover, if_neg hmiss,
    SystemIncludeCache.insert]
  split_ifs <;> simp

theorem kept_step {event : IncludeEvent} (h : w.Kept discover)
    (hevent : w.Regular discover event) : (w.step discover event).Kept discover := by
  cases event with
  | replace | get => exact h
  | insert p => exact h.insert hevent rfl
  | getOrDiscover p =>
    obtain hnone | ⟨paths, hcached⟩ := Option.eq_none_or_eq_some (w.cached p.compiler)
    · exact h.insert (hevent hnone).1 (by simp [step, discovered_of_none hnone])
    · simpa [step, Kept, discovered_of_cached hcached] using h

theorem current_of_regular {event : IncludeEvent} (h : w.Kept discover)
    (hevent : w.Regular discover event) : w.Current discover event := by
  have hcur : ∀ compiler, ∀ paths ∈ w.cached compiler,
      paths = discover compiler (w.binaries compiler) :=
    fun compiler paths hpaths => (h _ _ (cached_eq_some hpaths)).2
  cases event with
  | replace | insert => trivial
  | get compiler => exact hcur compiler
  | getOrDiscover p =>
    intro hne
    obtain hnone | ⟨paths, hcached⟩ := Option.eq_none_or_eq_some (w.cached p.compiler)
    · rw [discovered_of_none hnone] at hne ⊢
      split_ifs at hne ⊢ with hres
      · simp [(hevent hnone).2 hres] at hne
      · refine .inr ⟨hnone, ?_⟩
        simp [(hevent hnone).1 hres]
    · rw [discovered_of_cached hcached]
      exact .inl (hcur _ _ hcached)

/-- Along every run of steady probes in which none that finds nothing meets another list, a list
that is returned is that of the binary. -/
theorem lists_current (binaries : NormalizedPath → FileStat) {events : List IncludeEvent}
    (h : Along (step discover) (Regular discover) ⟨binaries, ∅⟩ events) :
    Along (step discover) (Current discover) ⟨binaries, ∅⟩ events := by
  have hinit : Kept discover ⟨binaries, ∅⟩ := by simp [Kept]
  exact along_mono hinit (fun w event => kept_step) (fun w event => current_of_regular) h

def compiler : NormalizedPath := .new "/bin/cc"

def listOf (_ : NormalizedPath) (stat : FileStat) : List NormalizedPath :=
  [if stat = ⟨0, 0⟩ then .new "/old" else .new "/new"]

def probe (found left : ℤ) (failed : Bool) : IncludeEvent :=
  .getOrDiscover ⟨compiler, ⟨found, 0⟩, ⟨left, 0⟩, failed⟩

theorem lists_current_upgrade :
    Along (step listOf) (Current listOf) ⟨fun _ => ⟨0, 0⟩, ∅⟩
      [probe 0 0 false, .replace compiler ⟨1, 0⟩, probe 1 1 false, .get compiler] :=
  lists_current _ (by simp [Along, Regular, probe, Steady, result, listOf])

/-- A probe of the new compiler fails, and a compiler is replaced while it is probed: the list of
another binary is returned. -/
theorem stale_list_returned :
    ¬ Along (step listOf) (Current listOf) ⟨fun _ => ⟨0, 0⟩, ∅⟩
        [probe 0 0 false, .replace compiler ⟨1, 0⟩, probe 1 1 true] ∧
      ¬ Along (step listOf) (Current listOf) ⟨fun _ => ⟨0, 0⟩, ∅⟩
        [probe 0 1 false, .get compiler] := by
  constructor
  · rintro ⟨-, -, hlist, -⟩
    exact absurd (hlist (by decide)) (by decide)
  · rintro ⟨-, hlist, -⟩
    exact absurd (hlist _ rfl) (by decide)

end IncludeWorld

end Zccache
