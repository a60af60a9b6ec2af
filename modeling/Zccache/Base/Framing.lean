import Mathlib.Data.List.Basic

/-! # Terminated fields

A sequence of fields written one after the other, each followed by a
terminator. Fields that do not hold the terminator are read back uniquely.
-/

namespace Framing

open List

variable {α β : Type}

def frame (z : α) (fields : List (List α)) : List α :=
  fields.flatMap (· ++ [z])

variable {z : α}

@[simp] theorem frame_nil : frame z [] = [] := rfl

@[simp] theorem frame_cons (f : List α) (fs : List (List α)) :
    frame z (f :: fs) = f ++ z :: frame z fs := by
  simp [frame]

@[simp] theorem frame_append (fs gs : List (List α)) :
    frame z (fs ++ gs) = frame z fs ++ frame z gs :=
  flatMap_append

variable {p : α → Prop} {l l' e e' : List α} {x x' : α}

/-- A list is split uniquely at the first element of a kind. -/
theorem append_first_inj (hx : p x) (hx' : p x') (hl : ∀ y ∈ l, ¬ p y) (hl' : ∀ y ∈ l', ¬ p y)
    (h : l ++ x :: e = l' ++ x' :: e') : l = l' ∧ x = x' ∧ e = e' := by
  induction l generalizing l' with
  | nil =>
    cases l' with
    | nil => exact ⟨rfl, cons.inj h⟩
    | cons y l' =>
      obtain ⟨rfl, -⟩ := cons.inj h
      exact absurd hx (hl' x mem_cons_self)
  | cons y l ih =>
    cases l' with
    | nil =>
      obtain ⟨rfl, -⟩ := cons.inj h
      exact absurd hx' (hl y mem_cons_self)
    | cons y' l' =>
      obtain ⟨rfl, htail⟩ := cons.inj h
      obtain ⟨rfl, hrest⟩ := ih (fun z hz => hl z (mem_cons_of_mem _ hz))
        (fun z hz => hl' z (mem_cons_of_mem _ hz)) htail
      exact ⟨rfl, hrest⟩

theorem append_terminator_inj {f g s t : List α} (hf : z ∉ f) (hg : z ∉ g)
    (h : f ++ z :: s = g ++ z :: t) : f = g ∧ s = t := by
  obtain ⟨hfg, -, hst⟩ := append_first_inj (p := (· = z)) rfl rfl
    (fun y hy hyz => hf (hyz ▸ hy)) (fun y hy hyz => hg (hyz ▸ hy)) h
  exact ⟨hfg, hst⟩

/-- Fields that are at least as many as fields without a terminator are the same fields, if they
are written alike. -/
theorem frame_inj_of_length_le {fs gs : List (List α)} (hg : ∀ g ∈ gs, z ∉ g)
    (hlen : gs.length ≤ fs.length) (h : frame z fs = frame z gs) : fs = gs := by
  induction gs generalizing fs with
  | nil =>
    cases fs with
    | nil => rfl
    | cons f fs => simp at h
  | cons g gs ih =>
    obtain ⟨f, fs, rfl⟩ := exists_cons_of_length_pos (Nat.lt_of_lt_of_le (Nat.succ_pos _) hlen)
    rw [forall_mem_cons] at hg
    rw [frame_cons, frame_cons] at h
    by_cases hz : z ∈ f
    · -- The rest of `f` would be a field too many.
      obtain ⟨f₁, f₂, rfl, hf₁⟩ := eq_append_cons_of_mem hz
      rw [append_assoc, cons_append] at h
      obtain ⟨-, hrest⟩ := append_terminator_inj hf₁ hg.1 h
      have heq : f₂ :: fs = gs := ih hg.2 (Nat.le_of_succ_le hlen) (by rw [frame_cons, hrest])
      rw [← heq] at hlen
      exact absurd hlen (by simp)
    · obtain ⟨rfl, hrest⟩ := append_terminator_inj hz hg.1 h
      rw [ih hg.2 (Nat.le_of_succ_le_succ hlen) hrest]

theorem map_separated_inj {ps qs : List (List α × List α)} (hp : ∀ p ∈ ps, z ∉ p.1)
    (hq : ∀ q ∈ qs, z ∉ q.1)
    (h : ps.map (fun p => p.1 ++ z :: p.2) = qs.map fun q => q.1 ++ z :: q.2) : ps = qs := by
  induction ps generalizing qs with
  | nil => exact (map_eq_nil_iff.mp h.symm).symm
  | cons p ps ih =>
    obtain ⟨q, qs, rfl, hhead, htail⟩ := map_eq_cons_iff.mp h.symm
    obtain ⟨hfst, hsnd⟩ := append_terminator_inj (hp p mem_cons_self)
      (hq q mem_cons_self) hhead.symm
    rw [ih (fun r hr => hp r (mem_cons_of_mem p hr))
      (fun r hr => hq r (mem_cons_of_mem q hr)) htail.symm, Prod.ext hfst hsnd]

theorem append_last_inj (hx : p x) (hx' : p x') (he : ∀ y ∈ e, ¬ p y) (he' : ∀ y ∈ e', ¬ p y)
    (h : l ++ x :: e = l' ++ x' :: e') : l = l' ∧ x = x' ∧ e = e' := by
  have hrev := congrArg reverse h
  simp only [reverse_append, reverse_cons, append_assoc, singleton_append] at hrev
  obtain ⟨hends, hxs, hls⟩ := append_first_inj hx hx' (by simpa using he) (by simpa using he') hrev
  exact ⟨reverse_injective hls, hxs, reverse_injective hends⟩

/-- Records of a name, the separator and a body, written one after the other. -/
def records (z : α) (rs : List (List α × List α)) : List α :=
  rs.flatMap fun r => r.1 ++ z :: r.2

/-- The body has no separator and ends in `y`, unless it is empty, and the name holds neither. -/
def Delimited (y z : α) (r : List α × List α) : Prop :=
  z ∉ r.1 ∧ y ∉ r.1 ∧ z ∉ r.2 ∧ ∀ x ∈ r.2.getLast?, x = y

instance [DecidableEq α] (y z : α) (r : List α × List α) : Decidable (Delimited y z r) :=
  inferInstanceAs (Decidable (_ ∧ _))

variable {y : α} {b b' : List α}

theorem append_closed_inj {n n' : List α} (hb : ∀ x ∈ b.getLast?, x = y)
    (hb' : ∀ x ∈ b'.getLast?, x = y) (hn : y ∉ n) (hn' : y ∉ n') (h : b ++ n = b' ++ n') :
    b = b' ∧ n = n' := by
  rcases eq_nil_or_concat b with rfl | ⟨l, x, rfl⟩ <;>
    rcases eq_nil_or_concat b' with rfl | ⟨l', x', rfl⟩
  · exact ⟨rfl, h⟩
  · obtain rfl := hb' x' (by simp)
    rw [nil_append] at h
    exact absurd (by simp [h]) hn
  · obtain rfl := hb x (by simp)
    rw [nil_append] at h
    exact absurd (by simp [← h]) hn'
  · obtain rfl := hb x (by simp)
    obtain rfl := hb' x' (by simp)
    simp only [concat_eq_append, append_assoc, singleton_append] at h
    obtain ⟨rfl, -, rfl⟩ := append_last_inj (p := (· = x')) rfl rfl
      (fun z hz hzx => hn (hzx ▸ hz)) (fun z hz hzx => hn' (hzx ▸ hz)) h
    exact ⟨rfl, rfl⟩

@[simp] theorem records_cons (r : List α × List α) (rs : List (List α × List α)) :
    records z (r :: rs) = r.1 ++ z :: (r.2 ++ records z rs) := by
  simp [records]

variable {rs rs' : List (List α × List α)}

theorem append_records_inj (hb : z ∉ b ∧ ∀ x ∈ b.getLast?, x = y)
    (hb' : z ∉ b' ∧ ∀ x ∈ b'.getLast?, x = y) (hrs : ∀ r ∈ rs, Delimited y z r)
    (hrs' : ∀ r ∈ rs', Delimited y z r) (h : b ++ records z rs = b' ++ records z rs') :
    b = b' ∧ records z rs = records z rs' := by
  cases rs with
  | nil =>
    cases rs' with
    | nil => exact ⟨by simpa [records] using h, rfl⟩
    | cons r' rs' =>
      have hz : z ∈ b := by
        have : b = b' ++ records z (r' :: rs') := by simpa [records] using h
        rw [this]
        simp
      exact absurd hz hb.1
  | cons r rs =>
    cases rs' with
    | nil =>
      have hz : z ∈ b' := by
        have : b' = b ++ records z (r :: rs) := by simpa [records] using h.symm
        rw [this]
        simp
      exact absurd hz hb'.1
    | cons r' rs' =>
      obtain ⟨hr, hr', -, -⟩ := hrs r mem_cons_self
      obtain ⟨ht, ht', -, -⟩ := hrs' r' mem_cons_self
      rw [records_cons, records_cons, ← append_assoc, ← append_assoc] at h
      obtain ⟨hnames, hrest⟩ := append_terminator_inj
        (by simp only [mem_append, not_or]; exact ⟨hb.1, hr⟩)
        (by simp only [mem_append, not_or]; exact ⟨hb'.1, ht⟩) h
      obtain ⟨hbody, hname⟩ := append_closed_inj hb.2 hb'.2 hr' ht' hnames
      exact ⟨hbody, by rw [records_cons, records_cons, hname, hrest]⟩

theorem records_injective (hrs : ∀ r ∈ rs, Delimited y z r) (hrs' : ∀ r ∈ rs', Delimited y z r)
    (h : records z rs = records z rs') : rs = rs' := by
  induction rs generalizing rs' with
  | nil =>
    cases rs' with
    | nil => rfl
    | cons r' rs' => simp [records] at h
  | cons r rs ih =>
    cases rs' with
    | nil => simp [records] at h
    | cons r' rs' =>
      have htail := fun q hq => hrs q (mem_cons_of_mem r hq)
      have htail' := fun q hq => hrs' q (mem_cons_of_mem r' hq)
      obtain ⟨hname, -, hbody⟩ := hrs r mem_cons_self
      obtain ⟨hname', -, hbody'⟩ := hrs' r' mem_cons_self
      rw [records_cons, records_cons] at h
      obtain ⟨hnames, hrest⟩ := append_terminator_inj hname hname' h
      obtain ⟨hbodies, hrecs⟩ := append_records_inj hbody hbody' htail htail' hrest
      rw [ih htail htail' hrecs, Prod.ext hnames hbodies]

theorem records_inj_of_lengths (hrs : ∀ r ∈ rs, z ∉ r.1) (hrs' : ∀ r ∈ rs', z ∉ r.1)
    (hlens : rs.map (fun r => r.2.length) = rs'.map fun r => r.2.length)
    (h : records z rs = records z rs') : rs = rs' := by
  induction rs generalizing rs' with
  | nil => exact (map_eq_nil_iff.mp hlens.symm).symm
  | cons r rs ih =>
    obtain ⟨r', rs', rfl, hlen, hlens⟩ := map_eq_cons_iff.mp hlens.symm
    rw [records_cons, records_cons] at h
    obtain ⟨hname, hrest⟩ := append_terminator_inj (hrs r mem_cons_self)
      (hrs' r' mem_cons_self) h
    obtain ⟨hbody, hrecs⟩ := append_inj hrest hlen.symm
    rw [ih (fun q hq => hrs q (mem_cons_of_mem r hq))
      (fun q hq => hrs' q (mem_cons_of_mem r' hq)) hlens.symm hrecs, Prod.ext hname hbody]

end Framing
