import Zccache.Base.Framing

/-! # Tagged sections

Sections written one after the other, each behind its tag. The tags are ordinary
symbols, so the sections can be read back only if no section holds its own tag or
the tag that follows it (`encode_injective`, `exists_reframing`).
-/

namespace TaggedSections

open List

variable {τ : Type}

def encode (ss : List (τ × List τ)) : List τ :=
  ss.flatMap fun s => s.1 :: s.2

def tags (ss : List (τ × List τ)) : List τ :=
  ss.map Prod.fst

/-- No section holds the next tag, and none but the first holds its own. -/
def Separated : List (τ × List τ) → Prop
  | s :: s' :: rest => s'.1 ∉ s.2 ∧ s'.1 ∉ s'.2 ∧ Separated (s' :: rest)
  | _ => True

instance decidableSeparated [DecidableEq τ] : (ss : List (τ × List τ)) → Decidable (Separated ss)
  | s :: s' :: rest =>
    have := decidableSeparated (s' :: rest)
    inferInstanceAs (Decidable (s'.1 ∉ s.2 ∧ s'.1 ∉ s'.2 ∧ Separated (s' :: rest)))
  | [_] => isTrue trivial
  | [] => isTrue trivial

@[simp] theorem encode_cons (s : τ × List τ) (ss : List (τ × List τ)) :
    encode (s :: ss) = s.1 :: (s.2 ++ encode ss) := rfl

variable {ss : List (τ × List τ)}

theorem mem_encode {x : τ} : x ∈ encode ss ↔ x ∈ tags ss ∨ ∃ s ∈ ss, x ∈ s.2 := by
  simp only [encode, tags, mem_flatMap, mem_map, mem_cons]
  constructor
  · rintro ⟨s, hs, rfl | hx⟩
    · exact .inl ⟨s, hs, rfl⟩
    · exact .inr ⟨s, hs, hx⟩
  · rintro (⟨s, hs, rfl⟩ | ⟨s, hs, hx⟩)
    · exact ⟨s, hs, .inl rfl⟩
    · exact ⟨s, hs, .inr hx⟩

def optional (tag : τ) : Option τ → List τ
  | some x => [tag, x]
  | none => []

/-- The list begins with one of the tags. -/
def Begins (ts l : List τ) : Prop :=
  ∃ t ∈ ts, ∃ rest, l = t :: rest

variable {tag : τ} {v v' : Option τ} {ts r r' : List τ}

theorem Begins.optional (h : Begins ts r) (tag : τ) (v : Option τ) :
    Begins (tag :: ts) (optional tag v ++ r) := by
  cases v with
  | none =>
    obtain ⟨t, ht, rest, hr⟩ := h
    exact ⟨t, mem_cons_of_mem _ ht, rest, hr⟩
  | some x => exact ⟨tag, mem_cons_self, x :: r, rfl⟩

theorem append_begins_inj {l l' : List τ} (hr : Begins ts r) (hr' : Begins ts r')
    (hl : ∀ y ∈ l, y ∉ ts) (hl' : ∀ y ∈ l', y ∉ ts) (h : l ++ r = l' ++ r') : l = l' ∧ r = r' := by
  obtain ⟨t, ht, rest, rfl⟩ := hr
  obtain ⟨t', ht', rest', rfl⟩ := hr'
  obtain ⟨rfl, rfl, rfl⟩ := Framing.append_first_inj (p := (· ∈ ts)) ht ht' hl hl' h
  exact ⟨rfl, rfl⟩

theorem optional_append_inj (hr : Begins ts r) (hr' : Begins ts r') (htag : tag ∉ ts)
    (h : optional tag v ++ r = optional tag v' ++ r') : v = v' ∧ r = r' := by
  obtain ⟨t, ht, rest, rfl⟩ := hr
  obtain ⟨t', ht', rest', rfl⟩ := hr'
  cases v with
  | none =>
    cases v' with
    | none => exact ⟨rfl, h⟩
    | some x => exact absurd ((cons.inj h).1 ▸ ht) htag
  | some x =>
    cases v' with
    | none => exact absurd ((cons.inj h).1 ▸ ht') htag
    | some x' =>
      obtain ⟨rfl, hrest⟩ := cons.inj (cons.inj h).2
      exact ⟨rfl, hrest⟩

theorem forall_mem_optional {p : τ → Prop} (htag : p tag) (hv : ∀ x ∈ v.toList, p x) :
    ∀ x ∈ optional tag v, p x := by
  cases v with
  | none => exact fun _ h => nomatch h
  | some y => simpa [TaggedSections.optional, htag] using hv

variable {t : τ}

theorem beyond_of_notMem {u : τ} {s w z w' : List τ} (ht : t ∉ s) (hne : t ≠ u)
    (h : s ++ u :: w = z ++ t :: w') : ∃ z', w = z' ++ t :: w' := by
  rcases append_eq_append_iff.mp h with ⟨a, rfl, ha⟩ | ⟨a, rfl, ha⟩
  · cases a with
    | nil => exact absurd (cons.inj ha).1.symm hne
    | cons b a =>
      obtain ⟨-, rfl⟩ := cons.inj ha
      exact ⟨a, rfl⟩
  · cases a with
    | nil => exact absurd (cons.inj ha).1 hne
    | cons b a =>
      obtain ⟨rfl, -⟩ := cons.inj ha
      exact absurd (mem_append_right _ mem_cons_self) ht

/-- A second reading cannot run behind the first one: it would never catch up. -/
theorem not_behind {s z s' : List τ} {ss' : List (τ × List τ)} (ht : t ∉ s)
    (hsep : Separated ((t, s) :: ss)) (hnodup : (t :: tags ss).Nodup) (htags : tags ss' = tags ss) :
    s ++ encode ss ≠ z ++ t :: (s' ++ encode ss') := by
  -- `z` collects what the second reading has taken for entries so far
  induction ss generalizing t s z s' ss' with
  | nil =>
    intro h
    rw [encode, flatMap_nil, append_nil] at h
    exact ht (h ▸ mem_append_right _ mem_cons_self)
  | cons u ss ih =>
    intro h
    obtain ⟨u', ss', rfl, hu, htags⟩ := map_eq_cons_iff.mp htags
    rw [nodup_cons] at hnodup
    have hne : t ≠ u.1 := fun heq => hnodup.1 (heq ▸ mem_cons_self)
    rw [encode_cons, encode_cons, hu] at h
    obtain ⟨z', hz'⟩ := beyond_of_notMem ht hne h
    have hshift : u.2 ++ encode ss = (z' ++ t :: s') ++ u.1 :: (u'.2 ++ encode ss') := by
      rw [hz', append_assoc, cons_append]
    exact ih hsep.2.1 hsep.2.2 hnodup.2 htags hshift

theorem encode_injective {ss' : List (τ × List τ)} (hsep : Separated ss) (hnodup : (tags ss).Nodup)
    (htags : tags ss' = tags ss) (h : encode ss = encode ss') : ss = ss' := by
  induction ss generalizing ss' with
  | nil => exact (map_eq_nil_iff.mp htags).symm
  | cons s ss ih =>
    obtain ⟨s', ss', rfl, htag, htags⟩ := map_eq_cons_iff.mp htags
    rw [tags, map_cons, nodup_cons] at hnodup
    rw [encode_cons, encode_cons] at h
    have hbody := (cons.inj h).2
    have htail : s.2 = s'.2 → s :: ss = s' :: ss' := by
      intro hitems
      rw [hitems] at hbody
      have hsep' : Separated ss := by
        cases ss with
        | nil => trivial
        | cons u ss => exact hsep.2.2
      rw [ih hsep' hnodup.2 htags (append_cancel_left hbody),
        show s = s' from Prod.ext htag.symm hitems]
    cases ss with
    | nil =>
      have hnil : ss' = [] := map_eq_nil_iff.mp htags
      exact htail (by simpa [encode, hnil] using hbody)
    | cons u ss =>
      obtain ⟨u', ss', rfl, hu, htags⟩ := map_eq_cons_iff.mp htags
      rw [encode_cons, encode_cons, hu] at hbody
      rcases append_eq_append_iff.mp hbody with ⟨a, ha, hrest⟩ | ⟨a, ha, hrest⟩
      · cases a with
        | nil => exact htail (by simp [ha])
        | cons b a =>
          obtain ⟨rfl, hbehind⟩ := cons.inj hrest
          exact absurd hbehind (not_behind hsep.2.1 hsep.2.2 hnodup.2 htags)
      · cases a with
        | nil => exact htail (by simp [ha])
        | cons b a =>
          obtain ⟨rfl, -⟩ := cons.inj hrest
          exact absurd (ha ▸ mem_append_right _ mem_cons_self) hsep.1

/-- A tag inside its own or the preceding section gives a second reading. -/
theorem exists_reframing (h : ¬ Separated ss) :
    ∃ ss', tags ss' = tags ss ∧ encode ss' = encode ss ∧ ss' ≠ ss := by
  induction ss with
  | nil => exact absurd trivial h
  | cons s ss ih =>
    cases ss with
    | nil => exact absurd trivial h
    | cons u ss =>
      by_cases hnext : u.1 ∈ s.2
      · obtain ⟨a, b, hab⟩ := append_of_mem hnext
        refine ⟨(s.1, a) :: (u.1, b ++ u.1 :: u.2) :: ss, rfl, by simp [hab], fun heq => ?_⟩
        have hlen := congrArg (length ∘ Prod.snd) (cons.inj heq).1
        simp [hab] at hlen
      by_cases hown : u.1 ∈ u.2
      · obtain ⟨a, b, hab⟩ := append_of_mem hown
        refine ⟨(s.1, s.2 ++ u.1 :: a) :: (u.1, b) :: ss, rfl, by simp [hab], fun heq => ?_⟩
        have hlen := congrArg (length ∘ Prod.snd) (cons.inj heq).1
        simp at hlen
      · obtain ⟨ss', htags, henc, hne⟩ := ih fun hsep => h ⟨hnext, hown, hsep⟩
        refine ⟨s :: ss', congrArg (s.1 :: ·) htags, ?_, fun heq => hne (cons.inj heq).2⟩
        rw [encode_cons, henc, encode_cons s]

end TaggedSections
