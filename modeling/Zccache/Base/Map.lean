import Mathlib.Data.List.AList

/-! # Finite maps

Maps with computable lookup, and the one operation that rewrites or drops every
entry at once.
-/

namespace FinMap

open List AList

variable {K V W : Type}

abbrev Map (K V : Type) := AList (fun _ : K => V)

def mapEntry (f : K → V → Option W) (s : Sigma fun _ : K => V) : Option (Sigma fun _ : K => W) :=
  (f s.1 s.2).map fun w => ⟨s.1, w⟩

theorem mapEntry_eq_some {f : K → V → Option W} {s : Sigma fun _ : K => V} {k : K} {w : W} :
    mapEntry f s = some ⟨k, w⟩ ↔ s.1 = k ∧ f s.1 s.2 = some w := by
  constructor
  · intro h
    obtain ⟨w', hw, he⟩ := Option.map_eq_some_iff.mp h
    cases he
    exact ⟨rfl, hw⟩
  · rintro ⟨rfl, h⟩
    rw [mapEntry, h]
    rfl

theorem keys_mapEntry_sublist (f : K → V → Option W) (l : List (Sigma fun _ : K => V)) :
    (l.filterMap (mapEntry f)).keys.Sublist l.keys := by
  induction l with
  | nil => exact List.Sublist.slnil
  | cons s rest ih =>
    cases h : f s.1 s.2 with
    | none =>
      rw [filterMap_cons_none (by simp [mapEntry, h])]
      exact ih.cons s.1
    | some w =>
      rw [filterMap_cons_some (b := ⟨s.1, w⟩) (by simp [mapEntry, h])]
      exact ih.cons_cons s.1

/-- Keep the entries that `f` maps to a value, under that value. -/
def filterMap (f : K → V → Option W) (m : Map K V) : Map K W :=
  ⟨m.entries.filterMap (mapEntry f), (keys_mapEntry_sublist f m.entries).nodup m.nodupKeys⟩

def filter (p : K → V → Bool) (m : Map K V) : Map K V :=
  filterMap (fun k v => if p k v then some v else none) m

variable (f : K → V → W) (m : Map K V)

def map : Map K W :=
  filterMap (fun k v => some (f k v)) m

theorem entries_map :
    (map f m).entries = m.entries.map fun s => ⟨s.1, f s.1 s.2⟩ := by
  rw [← filterMap_eq_map]
  rfl

theorem map_map {X : Type} (g : K → W → X) (f : K → V → W) (m : Map K V) :
    map g (map f m) = map (fun k v => g k (f k v)) m := by
  apply ext
  rw [entries_map, entries_map, entries_map, List.map_map]
  rfl

theorem keys_map : (map f m).keys = m.keys := by
  rw [AList.keys, AList.keys, entries_map, List.keys, List.map_map]
  rfl

variable [DecidableEq K]

@[simp] theorem lookup_filterMap (f : K → V → Option W) (m : Map K V) (k : K) :
    (filterMap f m).lookup k = (m.lookup k).bind (f k) := by
  ext w
  rw [← Option.mem_def, mem_lookup_iff, Option.bind_eq_some_iff]
  change _ ∈ m.entries.filterMap (mapEntry f) ↔ _
  rw [mem_filterMap]
  constructor
  · rintro ⟨⟨k', v⟩, hmem, h⟩
    obtain ⟨rfl, hw⟩ := mapEntry_eq_some.mp h
    exact ⟨v, mem_lookup_iff.mpr hmem, hw⟩
  · rintro ⟨v, hv, hw⟩
    exact ⟨⟨k, v⟩, mem_lookup_iff.mp hv, mapEntry_eq_some.mpr ⟨rfl, hw⟩⟩

@[simp] theorem lookup_map (f : K → V → W) (m : Map K V) (k : K) :
    (map f m).lookup k = (m.lookup k).map (f k) := by
  rw [map, lookup_filterMap]
  cases m.lookup k <;> rfl

variable {m : Map K V}

theorem map_congr_lookup {f g : K → V → W} (h : ∀ k v, m.lookup k = some v → f k v = g k v) :
    map f m = map g m := by
  apply ext
  rw [entries_map, entries_map]
  apply map_congr_left
  rintro ⟨k, v⟩ hmem
  rw [h k v (mem_lookup_iff.mpr hmem)]

@[simp] theorem lookup_filter (p : K → V → Bool) (m : Map K V) (k : K) :
    (filter p m).lookup k = (m.lookup k).filter (p k) := by
  rw [filter, lookup_filterMap]
  cases m.lookup k <;> rfl

theorem filter_eq_self {p : K → V → Bool} (h : ∀ k v, m.lookup k = some v → p k v = true) :
    filter p m = m := by
  apply ext
  change m.entries.filterMap (mapEntry _) = m.entries
  rw [filterMap_congr, filterMap_some]
  rintro ⟨k, v⟩ hmem
  simp [mapEntry, h k v (mem_lookup_iff.mpr hmem)]

theorem lookup_insert_eq_ite (m : Map K V) (k k' : K) (v : V) :
    (m.insert k v).lookup k' = if k' = k then some v else m.lookup k' := by
  by_cases h : k' = k
  · rw [if_pos h, h, lookup_insert]
  · rw [if_neg h, lookup_insert_ne h]

theorem lookup_insert_eq_some {k k' : K} {v v' : V} : (m.insert k v).lookup k' = some v' ↔
    k' = k ∧ v = v' ∨ k' ≠ k ∧ m.lookup k' = some v' := by
  rw [lookup_insert_eq_ite]
  split <;> simp [*]

theorem lookup_singleton (k k' : K) (v : V) :
    (singleton k v : Map K V).lookup k' = if k' = k then some v else none :=
  lookup_insert_eq_ite ∅ k k' v

theorem lookup_erase_eq_ite (m : Map K V) (k k' : K) :
    (m.erase k).lookup k' = if k' = k then none else m.lookup k' := by
  by_cases h : k' = k
  · rw [if_pos h, h, lookup_erase]
  · rw [if_neg h, lookup_erase_ne h]

theorem lookup_of_erase {k k' : K} {v : V} (h : (m.erase k).lookup k' = some v) :
    m.lookup k' = some v := by
  rw [lookup_erase_eq_ite] at h
  split at h
  · cases h
  · exact h

theorem lookup_union_eq_or (m m' : Map K V) (k : K) :
    (m ∪ m').lookup k = (m.lookup k).or (m'.lookup k) := by
  cases h : m.lookup k with
  | none =>
    rw [lookup_union_right (lookup_eq_none.mp h)]
    rfl
  | some v =>
    rw [lookup_union_left (lookup_isSome.mp (by rw [h]; rfl)), h]
    rfl

theorem lookup_foldl_insert (m m' : Map K V) (k : K) :
    (m'.entries.foldl (fun m e => m.insert e.1 e.2) m).lookup k =
      (m'.lookup k).or (m.lookup k) := by
  have hfold : ∀ (l : List (Sigma fun _ : K => V)) (m : Map K V), l.NodupKeys →
      (l.foldl (fun m e => m.insert e.1 e.2) m).lookup k =
        (l.dlookup k).or (m.lookup k) := by
    intro l
    induction l with
    | nil => exact fun m _ => rfl
    | cons e l ih =>
      intro m hnodup
      obtain ⟨hfresh, hnodup⟩ := nodupKeys_cons.mp hnodup
      rw [foldl_cons, ih _ hnodup, lookup_insert_eq_ite]
      by_cases hk : k = e.1
      · have hnone : l.dlookup k = none := dlookup_eq_none.mpr (hk ▸ hfresh)
        rw [hnone, if_pos hk, hk, dlookup_cons_eq]
        rfl
      · rw [if_neg hk, dlookup_cons_ne l e hk]
  exact hfold m'.entries m m'.nodupKeys

/-- Two maps written out as records that hold their key give the same records, in some order,
exactly when they look up the same records. -/
theorem perm_map_entries_iff {X : Type} (key : X → K) (f : K → V → X) (f' : K → W → X)
    (hf : ∀ k v, key (f k v) = k) (hf' : ∀ k w, key (f' k w) = k) {m' : Map K W} :
    (m.entries.map fun s => f s.1 s.2).Perm (m'.entries.map fun s => f' s.1 s.2) ↔
      ∀ k, (m.lookup k).map (f k) = (m'.lookup k).map (f' k) := by
  simp only [← lookup_map]
  constructor
  · intro hperm k
    apply perm_lookup
    rw [entries_map, entries_map]
    have hkeyed := hperm.map fun x => (⟨key x, x⟩ : Sigma fun _ : K => X)
    simpa only [List.map_map, Function.comp_def, hf, hf'] using hkeyed
  · intro hlook
    have hentries : (map f m).entries.Perm (map f' m').entries := by
      apply lookup_ext (map f m).nodupKeys (map f' m').nodupKeys
      intro k x
      exact iff_of_eq (congrArg (x ∈ ·) (hlook k))
    rw [entries_map, entries_map] at hentries
    simpa only [List.map_map, Function.comp_def] using hentries.map Sigma.snd

theorem length_insert_le (m : Map K V) (k : K) (v : V) :
    (m.insert k v).entries.length ≤ m.entries.length + 1 := by
  rw [entries_insert, length_cons]
  have hle := (kerase_sublist k m.entries).length_le
  omega

variable {f : ℕ → K}

theorem lookup_foldl_zipIdx (hf : Function.Injective f) (l : List V) (n : ℕ) (m : Map K V)
    (i : ℕ) :
    ((l.zipIdx n).foldl (fun m e => m.insert (f e.2) e.1) m).lookup (f i) =
      (if i < n then none else l[i - n]?).or (m.lookup (f i)) := by
  induction l generalizing n m with
  | nil => simp
  | cons v l ih =>
    rw [zipIdx_cons, foldl_cons, ih, lookup_insert_eq_ite]
    rcases Nat.lt_trichotomy i n with hlt | rfl | hgt
    · have hne : f i ≠ f n := fun h => absurd (hf h) (by omega)
      rw [if_pos (by omega), if_pos hlt, if_neg hne]
    · simp
    · have hne : f i ≠ f n := fun h => absurd (hf h) (by omega)
      have hsub : i - n = i - (n + 1) + 1 := by omega
      have hsucc : ¬ i < n + 1 := by omega
      rw [if_neg hne, if_neg hsucc, if_neg (Nat.lt_asymm hgt), hsub, getElem?_cons_succ]

theorem lookup_foldl_zipIdx_ne {k : K} (hk : ∀ i, k ≠ f i) (l : List V) (n : ℕ) (m : Map K V) :
    ((l.zipIdx n).foldl (fun m e => m.insert (f e.2) e.1) m).lookup k = m.lookup k := by
  induction l generalizing n m with
  | nil => rfl
  | cons v l ih => rw [zipIdx_cons, foldl_cons, ih, lookup_insert_ne (hk n)]

end FinMap
