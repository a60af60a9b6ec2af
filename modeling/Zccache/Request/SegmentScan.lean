import Zccache.Request.DriverOptions

/-! # Classifying segments

The classifier goes through the segments of the key parser one by one, and
options in them are only listed.
-/

namespace Zccache

open List Unix

variable {fs : FileSystem} {cwd : Path} {arg : Text} {args rest : List Text}
variable {x : GnuAction} {b : Segment} {segs segs' : List Segment}

/-- An update that keeps to the options and treats the listed flags apart. -/
def Frames (update : GnuScan → GnuScan) : Prop :=
  ∀ s k, (update s).positionalOnly = s.positionalOnly ∧
    ∃ l, update { s with unknownFlags := k } = { update s with unknownFlags := l }

theorem scanStep_frames {step : ScanStep} (h : scanStep arg = step) :
    match step with
    | .reject _ => True
    | .alone update => Frames update
    | .valued update => ∀ value, Frames (update value) := by
  unfold scanStep at h
  split at h
  · exact h ▸ trivial
  split at h
  · exact h ▸ fun s k => ⟨rfl, k, rfl⟩
  split at h
  · exact h ▸ fun s k => ⟨rfl, k, rfl⟩
  split at h
  · exact h ▸ fun value s k => ⟨rfl, k, rfl⟩
  split at h
  · exact h ▸ fun s k => ⟨rfl, k, rfl⟩
  split at h
  · subst h
    intro value s k
    simp only [GnuScan.flagValue]
    split
    all_goals exact ⟨rfl, k, rfl⟩
  split at h
  · exact h ▸ fun s k => ⟨rfl, k ++ [arg], rfl⟩
  · subst h
    intro s k
    simp only [GnuScan.operand_eq]
    exact ⟨trivial, k, rfl⟩

variable {s u : GnuScan}

/-- The flags that the scan only lists decide nothing. -/
theorem scanGnu_unknownFlags (h : scanGnu s args = .ok u) (k : List Text) :
    ∃ l, scanGnu { s with unknownFlags := k } args = .ok { u with unknownFlags := l } := by
  induction args using args_induction generalizing s k with
  | nil =>
    cases h
    exact ⟨k, rfl⟩
  | cons arg rest ih ihtail =>
    by_cases hpos : s.positionalOnly = true
    · have hpositional := scanGnu_positional (s := { s with unknownFlags := k }) hpos arg rest
      rw [scanGnu_positional hpos, GnuScan.operand_eq] at h
      rw [hpositional, GnuScan.operand_eq]
      exact ih h k
    rw [Bool.not_eq_true] at hpos
    by_cases hdashes : arg = "--"
    · subst hdashes
      have hdashes := scanGnu_dashes (s := { s with unknownFlags := k }) hpos rest
      rw [scanGnu_dashes hpos] at h
      rw [hdashes]
      exact ih h k
    have hcons := scanGnu_cons (s := { s with unknownFlags := k }) hpos hdashes rest
    rw [scanGnu_cons hpos hdashes] at h
    rw [hcons]
    cases hstep : scanStep arg with
    | reject reason =>
      rw [hstep] at h
      cases h
    | alone update =>
      rw [hstep] at h
      obtain ⟨-, l, hl⟩ := scanStep_frames hstep s k
      dsimp only at h ⊢
      rw [hl]
      exact ih h l
    | valued update =>
      rw [hstep] at h
      cases rest with
      | nil =>
        cases h
        exact ⟨k, rfl⟩
      | cons value rest =>
        obtain ⟨-, l, hl⟩ := scanStep_frames hstep value s k
        dsimp only at h ⊢
        rw [hl]
        exact ihtail h l

theorem scanGnu_positionalOnly (hpos : s.positionalOnly = false) (hdashes : "--".toList ∉ args)
    (h : scanGnu s args = .ok u) : u.positionalOnly = false := by
  induction args using args_induction generalizing s with
  | nil =>
    cases h
    exact hpos
  | cons arg rest ih ihtail =>
    have hne : arg ≠ "--" := fun heq => hdashes (heq ▸ mem_cons_self)
    have hrest : "--".toList ∉ rest := fun hmem => hdashes (mem_cons_of_mem _ hmem)
    rw [scanGnu_cons hpos hne] at h
    cases hstep : scanStep arg with
    | reject reason =>
      rw [hstep] at h
      cases h
    | alone update =>
      rw [hstep] at h
      exact ih ((scanStep_frames hstep s []).1.trans hpos) hrest h
    | valued update =>
      rw [hstep] at h
      cases rest with
      | nil =>
        cases h
        exact hpos
      | cons value rest =>
        exact ihtail ((scanStep_frames hstep value s []).1.trans hpos)
          (fun hmem => hrest (mem_cons_of_mem _ hmem)) h

theorem scanStep_of_mem (h : arg ∈ gnuFlagsWithValue) :
    ∃ update, scanStep arg = .valued update := by
  revert arg
  simp only [gnuFlagsWithValue, texts, map_cons, map_nil, forall_mem_cons]
  and_intros
  all_goals first | exact ⟨_, rfl⟩ | exact forall_mem_nil _

/-- The classifier goes through the segments of the key parser one by one. -/
theorem scanGnu_segment (hb : segments fs cwd (b.tokens ++ rest) = b :: segs)
    (hdashes : "--".toList ∉ b.tokens) (hmllvm : "-mllvm".toList ∉ b.tokens)
    (hpos : s.positionalOnly = false) :
    scanGnu s (b.tokens ++ rest) = scanGnu s b.tokens >>= fun u => scanGnu u rest := by
  rcases segments_eq_cons hb with ⟨arg, htoks, rfl, -⟩ |
    ⟨arg, actions, next, tail, rfl, rfl, hread, -⟩ | ⟨arg, value, operand, rfl, hread, -⟩
  · rw [append_nil]
    cases scanGnu s b.tokens <;> rfl
  · have hne : arg ≠ "--".toList := fun heq => hdashes (heq ▸ mem_cons_self)
    rw [singleton_append, scanGnu_cons hpos hne, scanGnu_cons hpos hne]
    cases hstep : scanStep arg with
    | reject | alone => rfl
    | valued update =>
      obtain ⟨operand, htwo⟩ := readArg_value (scanStep_eq_valued hstep)
        (fun heq => hmllvm (heq ▸ mem_cons_self)) next
      rw [hread] at htwo
      cases htwo
  · have hne : arg ≠ "--".toList := fun heq => hdashes (heq ▸ mem_cons_self)
    have hvalueNe : value ≠ "--".toList :=
      fun heq => hdashes (heq ▸ mem_cons_of_mem _ mem_cons_self)
    change scanGnu s (arg :: value :: rest) = scanGnu s [arg, value] >>= fun u => scanGnu u rest
    rw [scanGnu_cons hpos hne, scanGnu_cons hpos hne]
    cases hstep : scanStep arg with
    | reject | valued => rfl
    | alone update =>
      -- only an unknown flag is read alone here and with its value by the key parser
      have hval : arg ∉ gnuFlagsWithValue := by
        intro hmem
        obtain ⟨update', hvalued⟩ := scanStep_of_mem hmem
        rw [hstep] at hvalued
        cases hvalued
      have hdash := ((readArg_sound arg (some value)).value operand value hread rfl).resolve_left
        hval
      have hpos' := ((scanStep_frames hstep s []).1).trans hpos
      dsimp only
      rw [scanGnu_cons hpos' hvalueNe, scanGnu_cons hpos' hvalueNe]
      cases hstep' : scanStep value with
      | reject | alone => rfl
      | valued update' =>
        have htable : ∀ t ∈ gnuFlagsWithValue, t.head? = some '-' := by decide
        exact absurd (htable value (scanStep_eq_valued hstep')) hdash

def Segment.Quiet (b : Segment) : Prop :=
  ∀ s : GnuScan, s.positionalOnly = false →
    ∃ l, scanGnu s b.tokens = .ok { s with unknownFlags := l }

theorem IsOption.scan {tokens : List Text} (h : IsOption tokens x) :
    Segment.Quiet ⟨tokens, [x]⟩ ∨
      ∃ reason, ∀ s : GnuScan, s.positionalOnly = false → scanGnu s tokens = .error reason := by
  have hlist : ∀ {arg : Text}, arg ≠ "--" →
      scanStep arg = .alone (fun s => { s with unknownFlags := s.unknownFlags ++ [arg] }) →
      Segment.Quiet ⟨[arg], [x]⟩ := by
    intro arg hne hstep s hpos
    refine ⟨s.unknownFlags ++ [arg], ?_⟩
    rw [scanGnu_cons hpos hne, hstep]
    rfl
  cases h with
  | define hne | undefine hne =>
    obtain ⟨c, t, rfl⟩ := exists_cons_of_ne_nil hne
    exact .inl (hlist (by simp) rfl)
  | defineValue | undefineValue | standardValue =>
    refine .inl fun s hpos => ⟨s.unknownFlags, ?_⟩
    rw [scanGnu_cons hpos (by decide)]
    rfl
  | flag hfam =>
    rcases flagFamily_cases hfam with ⟨u, rfl⟩ | ⟨u, rfl⟩ | ⟨u, rfl⟩ | ⟨u, rfl, -⟩
    · exact .inl (hlist (by simp) rfl)
    · exact .inl (hlist (by simp) rfl)
    · exact .inl (hlist (by simp) rfl)
    · by_cases hprofile : "-f" ++ u = "-fprofile-use"
      · refine .inr ⟨"implicit -fprofile-use profile input is not cacheable", ?_⟩
        intro s hpos
        rw [hprofile, scanGnu_cons hpos (by decide)]
        rfl
      · have hcache : uncacheableFlag ("-f" ++ u) = none := by
          unfold uncacheableFlag
          rw [if_neg (by simp [texts]), if_neg (by simp), if_neg hprofile]
        refine .inl (hlist (by simp) ?_)
        rw [scanStep, hcache]
        rfl

theorem quiet_of_mem (hsegs : Chained fs cwd segs) (hdashes : "--".toList ∉ tokensOf segs)
    (hmllvm : "-mllvm".toList ∉ tokensOf segs) (hpos : s.positionalOnly = false)
    (h : scanGnu s (tokensOf segs) = .ok u) (hb : b ∈ segs) (hopt : b.OneOption) : b.Quiet := by
  induction segs generalizing s with
  | nil => cases hb
  | cons b' segs ih =>
    rw [tokensOf_cons, mem_append, not_or] at hdashes hmllvm
    rw [tokensOf_cons, scanGnu_segment hsegs.cons hdashes.1 hmllvm.1 hpos] at h
    cases hfirst : scanGnu s b'.tokens with
    | error reason =>
      rw [hfirst] at h
      cases h
    | ok u' =>
      rw [hfirst] at h
      have hpos' := scanGnu_positionalOnly hpos hdashes.1 hfirst
      rcases mem_cons.mp hb with rfl | hb
      · obtain ⟨x, hx, -⟩ := hopt
        rcases hx.scan with hquiet | ⟨reason, hreject⟩
        · exact hquiet
        · rw [hreject s hpos] at hfirst
          cases hfirst
      · exact ih hsegs.tail hdashes.2 hmllvm.2 hpos' h hb

/-- Exchanging options that are only listed, the classifier accepts the same. -/
theorem scanGnu_exchange (h : List.Forall₂ Exchanged segs segs')
    (hquiet : List.Forall₂ (fun b b' => b = b' ∨ b.Quiet ∧ b'.Quiet) segs segs')
    (hsegs : Chained fs cwd segs) (hdashes : "--".toList ∉ tokensOf segs)
    (hmllvm : "-mllvm".toList ∉ tokensOf segs) (hdash' : "--".toList ∉ tokensOf segs')
    (hmllvm' : "-mllvm".toList ∉ tokensOf segs') (hpos : s.positionalOnly = false)
    (hok : scanGnu s (tokensOf segs) = .ok u) (k : List Text) :
    ∃ l, scanGnu { s with unknownFlags := k } (tokensOf segs') =
      .ok { u with unknownFlags := l } := by
  induction h generalizing s k with
  | nil =>
    cases hok
    exact ⟨k, rfl⟩
  | @cons b b' segs segs' hb h ih =>
    have hsegs' := hsegs.exchange (.cons hb h)
    obtain ⟨hquietb, hquiet⟩ := forall₂_cons.mp hquiet
    rw [tokensOf_cons, mem_append, not_or] at hdashes hmllvm hdash' hmllvm'
    have hstep' := scanGnu_segment (s := { s with unknownFlags := k }) hsegs'.cons hdash'.1
      hmllvm'.1 hpos
    rw [tokensOf_cons, scanGnu_segment hsegs.cons hdashes.1 hmllvm.1 hpos] at hok
    rw [tokensOf_cons, hstep']
    cases hfirst : scanGnu s b.tokens with
    | error reason =>
      rw [hfirst] at hok
      cases hok
    | ok v =>
      rw [hfirst] at hok
      have hpos' := scanGnu_positionalOnly hpos hdashes.1 hfirst
      obtain ⟨l, hl⟩ := scanGnu_unknownFlags hfirst k
      have htail := fun {s : GnuScan} hpos hok => ih (s := s) hquiet hsegs.tail hdashes.2 hmllvm.2
        hdash'.2 hmllvm'.2 hpos hok
      rcases hquietb with rfl | ⟨hb, hb'⟩
      · rw [hl]
        exact htail hpos' hok l
      · obtain ⟨m, hm⟩ := hb s hpos
        obtain ⟨m', hm'⟩ := hb' { s with unknownFlags := k } hpos
        rw [hm']
        rw [hfirst] at hm
        cases hm
        exact htail (s := { s with unknownFlags := m }) hpos hok m'

end Zccache
