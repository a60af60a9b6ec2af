import Zccache.Graph.Basic

/-! # Maintenance of the graph

Invalidation of artifact keys, trimming, eviction and the accessors that go
through a public key.
-/

namespace Zccache

open Unix FinMap ContextEntry

variable {D : Type} [DecidableEq D]

namespace ContextEntry

def clearIfEvicted (H : Hasher D) (evictedHex : List Text) (e : ContextEntry D) :
    ContextEntry D :=
  match e.artifactKey with
  | some key => if H.toHex key.hash ∈ evictedHex then { e with artifactKey := none } else e
  | none => e

def namesEvicted (H : Hasher D) (evictedHex : List Text) (e : ContextEntry D) : Bool :=
  match e.artifactKey with
  | some key => H.toHex key.hash ∈ evictedHex
  | none => false

end ContextEntry

namespace DepGraph

def invalidateArtifactKeys (H : Hasher D) (g : DepGraph D) (evictedHex : List Text) :
    DepGraph D × ℕ :=
  if evictedHex.isEmpty then (g, 0)
  else
    let cleared := g.contexts.entries.countP fun s => s.2.namesEvicted H evictedHex
    ({ g with
        contexts := filterMap (fun _ e => some (e.clearIfEvicted H evictedHex)) g.contexts
        dirty := g.dirty || 0 < cleared }, cleared)

variable (g : DepGraph D) (key : ContextKey D) (path : NormalizedPath)

def isLive : Bool :=
  (g.contexts.lookup key).isSome

def referencedFiles : List NormalizedPath :=
  g.contexts.entries.flatMap fun s => s.2.inputFiles

def evictContexts (keys : List (ContextKey D)) : DepGraph D × ℕ :=
  let live := { g with contexts := filter (fun k _ => k ∉ keys) g.contexts }
  let removed := g.contexts.entries.countP fun s => s.1 ∈ keys
  ({ live with
      dirty := g.dirty || 0 < removed
      equivalentContexts :=
        filterMap
          (fun _ instances =>
            let instances := instances.filter live.isLive
            if instances.isEmpty then none else some instances)
          g.equivalentContexts
      rustcExterns := filter (fun k _ => live.isLive k) g.rustcExterns
      rustcCheckMetadataCompat :=
        filter (fun _ target => live.isLive target) g.rustcCheckMetadataCompat
      files := filter (fun path _ => path ∈ live.referencedFiles) g.files }, removed)

/-- `maxAge` is in nanoseconds; a zero age expires every entry. -/
def trimAt (maxAge nowMs : ℕ) : DepGraph D × ℕ :=
  let maxAgeMs := min (maxAge / 1000000) (2 ^ 64 - 1)
  let expired := g.contexts.entries.filter fun s =>
    maxAge = 0 ∨ maxAgeMs < nowMs - s.2.lastAccessedUnixMs
  g.evictContexts (expired.map Sigma.fst)

def clear (_ : DepGraph D) : DepGraph D :=
  { DepGraph.new with dirty := true }

def markStale : DepGraph D × Bool :=
  match g.resolveInstanceKey key with
  | none => (g, false)
  | some key =>
    match g.contexts.lookup key with
    | none => (g, false)
    | some entry =>
      ({ g with
          contexts := g.contexts.insert key { entry with state := .stale }
          dirty := true }, true)

def logicalContextKey : Option (ContextKey D) :=
  (g.entryFor key).map logicalKey

def getIncludes : Option (List NormalizedPath) :=
  (g.entryFor key).map resolvedIncludes

def getForceIncludes : Option (List NormalizedPath) :=
  (g.entryFor key).map fun e => e.context.forceIncludes

def getRustcExterns : Option Externs :=
  (g.resolveInstanceKey key).bind g.rustcExterns.lookup

def setRustcEnvDeps (deps : List (Name × Option D)) :
    DepGraph D :=
  match g.resolveInstanceKey key with
  | none => g
  | some key =>
    match g.contexts.lookup key with
    | none => g
    | some entry =>
      { g with
        contexts := g.contexts.insert key { entry with rustcEnvDeps := deps }
        dirty := true }

def storeFileIncludes
    (includes : List IncludeDirective) : DepGraph D :=
  { g with files := g.files.insert path includes, dirty := true }

variable {g : DepGraph D} {k : ContextKey D} {e : ContextEntry D}

theorem lookup_evictContexts {keys : List (ContextKey D)} :
    (g.evictContexts keys).1.contexts.lookup k =
      if k ∈ keys then none else g.contexts.lookup k := by
  change (filter (fun k _ => decide (k ∉ keys)) g.contexts).lookup k = _
  rw [lookup_filter]
  split <;> cases g.contexts.lookup k <;> simp [*]

theorem lookup_of_evictContexts {keys : List (ContextKey D)}
    (h : (g.evictContexts keys).1.contexts.lookup k = some e) :
    g.contexts.lookup k = some e := by
  rw [lookup_evictContexts] at h
  split at h
  · cases h
  · exact h

theorem markStale_cases (g : DepGraph D) (key : ContextKey D) :
    (g.markStale key).1 = g ∨
    ∃ instanceKey entry, g.contexts.lookup instanceKey = some entry ∧
      (g.markStale key).1 = { g with
        contexts := g.contexts.insert instanceKey { entry with state := .stale }
        dirty := true } := by
  unfold markStale
  split
  · exact .inl rfl
  · split
    · exact .inl rfl
    · next entry hentry => exact .inr ⟨_, entry, hentry, rfl⟩

omit [DecidableEq D] in
theorem clearIfEvicted_eq (H : Hasher D) (evictedHex : List Text) (e : ContextEntry D) :
    e.clearIfEvicted H evictedHex =
      if e.namesEvicted H evictedHex then { e with artifactKey := none } else e := by
  unfold clearIfEvicted namesEvicted
  split <;> simp

omit [DecidableEq D] in
theorem namesEvicted_nil (H : Hasher D) (e : ContextEntry D) : e.namesEvicted H [] = false := by
  unfold namesEvicted
  split <;> simp

omit [DecidableEq D] in
theorem invalidateArtifactKeys_frame (H : Hasher D) (g : DepGraph D) (evictedHex : List Text) :
    SameIndexes g (g.invalidateArtifactKeys H evictedHex).1 := by
  unfold invalidateArtifactKeys
  split <;> exact ⟨rfl, rfl, rfl⟩

theorem lookup_invalidateArtifactKeys (H : Hasher D) (g : DepGraph D) (evictedHex : List Text)
    (k : ContextKey D) :
    (g.invalidateArtifactKeys H evictedHex).1.contexts.lookup k =
      (g.contexts.lookup k).map (clearIfEvicted H evictedHex) := by
  unfold invalidateArtifactKeys
  split
  · next hempty =>
    have hid : clearIfEvicted H evictedHex = id := funext fun e => by
      simp [clearIfEvicted_eq, List.isEmpty_iff.mp hempty, namesEvicted_nil]
    rw [hid, Option.map_id, id]
  · simp only [lookup_filterMap]
    cases g.contexts.lookup k <;> rfl

end DepGraph

end Zccache
