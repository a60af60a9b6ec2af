import Zccache.Graph.History

/-! # The index of instances

In every reachable graph the index lists, under each logical key, exactly the
live instances of that key.
-/

namespace Zccache

open List Unix FinMap Option

variable {D : Type} [DecidableEq D] {H : Host D}

namespace ContextEntry

variable {isFresh : NormalizedPath → Bool} {getHash : NormalizedPath → Option D}
variable {envValue : Name → Option Text}

omit [DecidableEq D] in
theorem update_logicalKey (e : ContextEntry D) (externs : Option Externs) (scan : ScanResult)
    (names : List Name) (now : ℕ) :
    (e.update H getHash envValue externs scan names now).1.logicalKey = e.logicalKey := by
  rcases update_cases H getHash envValue e externs scan names now with
      h | ⟨_, _, _, _, _, h⟩ <;> rw [h] <;> rfl

theorem check_logicalKey (e : ContextEntry D) (externs : Option Externs) :
    (e.check H isFresh getHash envValue externs).1.logicalKey = e.logicalKey := by
  rcases check_cases H isFresh getHash envValue e externs with
      ⟨_, -, h, -⟩ | ⟨_, _, _, _, _, _, ⟨h, -⟩ | ⟨h, -⟩⟩ <;> rw [h]

end ContextEntry

namespace DepGraph

variable {g g' : DepGraph D} {key k : ContextKey D}

def logicalAt (g : DepGraph D) (k : ContextKey D) : Option (ContextKey D) :=
  (g.contexts.lookup k).map ContextEntry.logicalKey

def instancesOf (g : DepGraph D) (key : ContextKey D) : List (ContextKey D) :=
  (g.equivalentContexts.lookup key).getD []

theorem resolveInstanceKey_eq (g : DepGraph D) (key : ContextKey D) :
    g.resolveInstanceKey key =
      if (g.contexts.lookup key).isSome then some key
      else match g.instancesOf key with
        | [instanceKey] => some instanceKey
        | _ => none := by
  rw [resolveInstanceKey, instancesOf]
  rcases g.equivalentContexts.lookup key with _ | (_ | ⟨_, _ | _⟩) <;> rfl

structure IndexInv (g : DepGraph D) : Prop where
  mem_iff : ∀ key k, k ∈ g.instancesOf key ↔ g.logicalAt k = some key
  nodup : ∀ key, (g.instancesOf key).Nodup

theorem indexInv_of_empty (hctxs : g.contexts = ∅) (hidx : g.equivalentContexts = ∅) :
    IndexInv g := by
  refine ⟨fun key k => ?_, fun key => ?_⟩
  · rw [instancesOf, logicalAt, hctxs, hidx]
    simp
  · rw [instancesOf, hidx]
    exact nodup_nil

theorem IndexInv.congr (h : IndexInv g) (hlog : ∀ k, g'.logicalAt k = g.logicalAt k)
    (hidx : g'.equivalentContexts = g.equivalentContexts) : IndexInv g' := by
  have hinsts : ∀ key, g'.instancesOf key = g.instancesOf key := fun key => by
    rw [instancesOf, hidx, instancesOf]
  refine ⟨fun key k => ?_, fun key => ?_⟩
  · rw [hinsts, hlog]
    exact h.mem_iff key k
  · rw [hinsts]
    exact h.nodup key

section Register

variable {instanceKey : ContextKey D}

theorem pushInstance_eq (g : DepGraph D) (key : ContextKey D)
    (h : instanceKey ∉ g.instancesOf key) :
    pushInstance (g.equivalentContexts.lookup key) instanceKey =
      g.instancesOf key ++ [instanceKey] := by
  unfold pushInstance
  split
  · next instances hinsts =>
    rw [instancesOf, hinsts, getD_some] at h ⊢
    rw [if_neg h]
  · next hnone =>
    rw [instancesOf, hnone]
    rfl

theorem IndexInv.logicalKey_freshEntry (h : IndexInv g) (key : ContextKey D)
    (ctx : CompileContext D)
    (keyRoot : Option NormalizedPath) (now : ℕ) :
    (g.freshEntry key ctx keyRoot now).logicalKey = key := by
  unfold freshEntry
  split
  · next candidate hcand =>
    obtain ⟨instances, hinsts, hfind⟩ := bind_eq_some_iff.mp hcand
    obtain ⟨k, hk, hlook⟩ := exists_of_findSome?_eq_some hfind
    have hlog := (h.mem_iff key k).mp (by rwa [instancesOf, hinsts])
    rw [logicalAt, hlook] at hlog
    exact some.inj hlog
  · rfl

theorem IndexInv.push (h : IndexInv g) {e : ContextEntry D}
    (hnew : g.contexts.lookup instanceKey = none) (hkey : e.logicalKey = key)
    (hctxs : g'.contexts = g.contexts.insert instanceKey e)
    (hidx : g'.equivalentContexts =
      g.equivalentContexts.insert key (g.instancesOf key ++ [instanceKey])) : IndexInv g' := by
  have hlog : ∀ k, g'.logicalAt k = if k = instanceKey then some key else g.logicalAt k := by
    intro k
    rw [logicalAt, hctxs, lookup_insert_eq_ite]
    split
    · rw [map_some, hkey]
    · rfl
  have hinsts : ∀ key', g'.instancesOf key' =
      if key' = key then g.instancesOf key ++ [instanceKey] else g.instancesOf key' := by
    intro key'
    rw [instancesOf, hidx, lookup_insert_eq_ite]
    split <;> rfl
  have habsent : ∀ key', instanceKey ∉ g.instancesOf key' := by
    intro key' hmem
    have := (h.mem_iff key' instanceKey).mp hmem
    rw [logicalAt, hnew] at this
    cases this
  refine ⟨fun key' k => ?_, fun key' => ?_⟩
  · rw [hlog, hinsts]
    by_cases hk : k = instanceKey <;> by_cases hkey' : key' = key
    · simp [hk, hkey']
    · simp [hk, hkey', habsent key', Ne.symm hkey']
    all_goals simp [hk, hkey', h.mem_iff]
  · rw [hinsts]
    split
    · exact nodup_append.mpr ⟨h.nodup key, nodup_singleton _, fun a ha b hb hab =>
        habsent key (by rwa [← mem_singleton.mp hb, ← hab])⟩
    · exact h.nodup key'

theorem IndexInv.pop (h : IndexInv g) {first : ContextKey D} {rest : List (ContextKey D)}
    (hlist : g.instancesOf key = first :: rest)
    (hctxs : g'.contexts = g.contexts.erase first)
    (hinsts : ∀ key', g'.instancesOf key' = if key' = key then rest else g.instancesOf key') :
    IndexInv g' := by
  have hlog : ∀ k, g'.logicalAt k = if k = first then none else g.logicalAt k := by
    intro k
    rw [logicalAt, hctxs, lookup_erase_eq_ite]
    split <;> rfl
  have hfirst : g.logicalAt first = some key :=
    (h.mem_iff key first).mp (hlist ▸ mem_cons_self)
  have hnodup := h.nodup key
  rw [hlist, nodup_cons] at hnodup
  refine ⟨fun key' k => ?_, fun key' => ?_⟩
  · rw [hlog, hinsts]
    by_cases hk : k = first <;> by_cases hkey' : key' = key
    · simp [hk, hkey', hnodup.1]
    · simp [hk, hkey', h.mem_iff, hfirst, Ne.symm hkey']
    · have := h.mem_iff key k
      rw [hlist, mem_cons] at this
      simpa [hk, hkey'] using this
    · simp [hk, hkey', h.mem_iff]
  · rw [hinsts]
    split
    · exact hnodup.2
    · exact h.nodup key'

end Register

theorem IndexInv.evictContexts (h : IndexInv g) (keys : List (ContextKey D)) :
    IndexInv (g.evictContexts keys).1 := by
  have hlog : ∀ k, (g.evictContexts keys).1.logicalAt k =
      if k ∈ keys then none else g.logicalAt k := by
    intro k
    rw [logicalAt, lookup_evictContexts]
    split <;> rfl
  have hinsts : ∀ key, (g.evictContexts keys).1.instancesOf key =
      (g.instancesOf key).filter fun k => ((g.evictContexts keys).1.logicalAt k).isSome := by
    intro key
    have hlive : ∀ k, (g.evictContexts keys).1.isLive k =
        ((g.evictContexts keys).1.logicalAt k).isSome := fun k => by
      rw [isLive, logicalAt, isSome_map]
    simp only [← hlive, instancesOf]
    change (AList.lookup key (filterMap _ g.equivalentContexts)).getD [] = _
    rw [lookup_filterMap]
    cases g.equivalentContexts.lookup key with
    | none => rfl
    | some instances =>
      simp only [bind_some, getD_some]
      split
      · next hempty => exact (isEmpty_iff.mp hempty).symm
      · rfl
  refine ⟨fun key k => ?_, fun key => ?_⟩
  · rw [hinsts, mem_filter, h.mem_iff, hlog]
    split
    · simp
    · constructor
      · exact fun hk => hk.1
      · exact fun hk => ⟨hk, by rw [hk]; rfl⟩
  · rw [hinsts]
    exact (h.nodup key).filter _

end DepGraph

end Zccache
