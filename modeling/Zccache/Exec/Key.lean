import Zccache.Base.PrefixCode
import Zccache.Base.Sort
import Zccache.Core.Hash

/-! # Keys of generic tool runs

The primary key of a run is a digest of everything that is known before the
tool is started. The full key adds the files that a depfile listed. All fields
are written with their lengths.
-/

namespace Zccache

open List Unix StableSort PrefixCode

variable {D : Type}

def byteLength (t : Text) : ℕ :=
  (t.map Char.utf8Size).sum

def lengthPrefixed (t : Text) : Field D :=
  text (leBytes (byteLength t)) ++ text t

def counted {β : Type} (enc : β → Field D) (l : List β) : Field D :=
  text (leBytes l.length) ++ l.flatMap enc

def mixPathHashPairs (tag : String) (pairs : List (Text × D)) : Field D :=
  text tag.toList ++ counted (fun pair => lengthPrefixed pair.1 ++ raw pair.2) pairs

/-- What enters the primary key. The working directory may be left out. -/
structure ExecKeyMaterial (D : Type) where
  toolId : D
  args : List Text
  env : List (Text × Text)
  cwd : Option Text
  inputPairs : List (Text × D)
  scanPairs : List (Text × D)
  outputNames : List Text
  inputExtra : Text

def cwdField : Option Text → Field D
  | some cwd => lengthPrefixed cwd
  | none => text "omitted"

def ExecKeyMaterial.preimage (m : ExecKeyMaterial D) : List (Atom D) :=
  text "zccache-exec-key-v2" ++ (raw m.toolId ++ (text "args:" ++
    (counted lengthPrefixed m.args ++ (text "env:" ++
    (counted (fun kv => lengthPrefixed kv.1 ++ lengthPrefixed kv.2) (sortBy Prod.fst m.env) ++
    (text "cwd:" ++ (cwdField m.cwd ++ (mixPathHashPairs "inputs:" m.inputPairs ++
    (mixPathHashPairs "scan:" m.scanPairs ++ (text "outs:" ++
    (counted lengthPrefixed (sortBy id m.outputNames) ++ (text "extra:" ++
    lengthPrefixed m.inputExtra))))))))))))

def composePrimaryKey (H : Hasher D) (m : ExecKeyMaterial D) : D :=
  H.digest m.preimage

def composeFullKey (H : Hasher D) (primary : D) (depPairs : List (Text × D)) : D :=
  H.digest (text "zccache-exec-full-key-v2" ++ (raw primary ++
    mixPathHashPairs "depfile:" (sortBy Prod.fst depPairs)))

def Bounded (n : ℕ) : Prop :=
  n < 2 ^ 47
  deriving Decidable

structure ExecKeyMaterial.IsBounded (m : ExecKeyMaterial D) : Prop where
  args : Bounded m.args.length ∧ ∀ arg ∈ m.args, Bounded (byteLength arg)
  env : Bounded m.env.length ∧ ∀ kv ∈ m.env, Bounded (byteLength kv.1) ∧ Bounded (byteLength kv.2)
  cwd : ∀ cwd ∈ m.cwd, Bounded (byteLength cwd)
  inputPairs : Bounded m.inputPairs.length ∧ ∀ pair ∈ m.inputPairs, Bounded (byteLength pair.1)

theorem delimits_text (n : ℕ) :
    Delimits (fun t => True ∧ byteLength t = n) fun t : Text => (text t : Field D) := by
  rintro t t' ⟨-, ht⟩ ⟨-, ht'⟩ r r' h
  induction t generalizing t' n with
  | nil =>
    cases t' with
    | nil => exact ⟨rfl, h⟩
    | cons c t' =>
      have hpos := Char.utf8Size_pos c
      simp only [byteLength, map_nil, sum_nil, map_cons, sum_cons] at ht ht'
      omega
  | cons c t ih =>
    cases t' with
    | nil =>
      have hpos := Char.utf8Size_pos c
      simp only [byteLength, map_nil, sum_nil, map_cons, sum_cons] at ht ht'
      omega
    | cons c' t' =>
      obtain ⟨hhead, htail⟩ := List.cons.inj h
      obtain rfl := Atom.ch.inj hhead
      simp only [byteLength, map_cons, sum_cons] at ht ht'
      obtain ⟨rfl, rfl⟩ := ih (byteLength t) rfl (by simp only [byteLength]; omega) htail
      exact ⟨rfl, rfl⟩

theorem delimits_leBytes : Delimits Bounded fun n => (text (leBytes n) : Field D) := by
  refine delimits_of_length (n := 8) (fun n => by simp [text]) ?_
  intro n m hn hm h
  exact leBytes_inj (lt_trans hn (by decide)) (lt_trans hm (by decide)) (text_injective h)

theorem delimits_lengthPrefixed :
    Delimits (fun t => Bounded (byteLength t) ∧ True) (lengthPrefixed : Text → Field D) :=
  delimits_leBytes.sized delimits_text

theorem delimits_counted {β : Type} {P : β → Prop} {enc : β → Field D} (h : Delimits P enc) :
    Delimits (fun l => Bounded l.length ∧ ∀ b ∈ l, P b) (counted enc) :=
  delimits_leBytes.sized h.flatMap

theorem delimits_raw : Delimits (fun _ => True) (raw : D → Field D) :=
  delimits_of_length (n := 1) (fun _ => rfl) fun _ _ _ _ h => raw_injective h

theorem delimits_pair : Delimits (fun pair => (Bounded (byteLength pair.1) ∧ True) ∧ True)
    fun pair : Text × D => lengthPrefixed pair.1 ++ raw pair.2 :=
  delimits_lengthPrefixed.pair delimits_raw

/-- The seventh byte of a length is zero, so that no length is spelled like the word that stands
for a missing directory. -/
theorem delimits_cwdField :
    Delimits (fun cwd => ∀ t ∈ cwd, Bounded (byteLength t)) (cwdField : Option Text → Field D) := by
  have hne : ∀ (t : Text) (r r' : List (Atom D)), Bounded (byteLength t) →
      lengthPrefixed t ++ r ≠ text "omitted" ++ r' := by
    intro t r r' ht h
    have hchar := congrArg (·[6]?) h
    simp only [lengthPrefixed, append_assoc] at hchar
    rw [getElem?_append_left (by simp [text]), getElem?_append_left (by simp [text])]
      at hchar
    simp only [text, leBytes, getElem?_map] at hchar
    have hzero : byteLength t / 256 ^ 6 % 256 = 0 := by
      unfold Bounded at ht
      omega
    rw [getElem?_range (by omega), Option.map_some, Option.map_some, hzero] at hchar
    exact absurd (Atom.ch.inj (Option.some.inj hchar)) (by decide)
  intro cwd cwd' hcwd hcwd' r r' h
  cases cwd with
  | none =>
    cases cwd' with
    | none => exact ⟨rfl, append_cancel_left h⟩
    | some t' => exact absurd h.symm (hne t' r' r (hcwd' t' rfl))
  | some t =>
    cases cwd' with
    | none => exact absurd h (hne t r r' (hcwd t rfl))
    | some t' =>
      obtain ⟨rfl, hrest⟩ := delimits_lengthPrefixed ⟨hcwd t rfl, trivial⟩ ⟨hcwd' t' rfl, trivial⟩ h
      exact ⟨rfl, hrest⟩

section Injective

variable {H : Hasher D}

variable (hdig : Function.Injective H.digest)

include hdig

theorem inputPairs_of_composePrimaryKey {m m' : ExecKeyMaterial D} (hm : m.IsBounded)
    (hm' : m'.IsBounded)
    (h : composePrimaryKey H m = composePrimaryKey H m') : m.inputPairs = m'.inputPairs := by
  have hpre := append_cancel_left (hdig h)
  obtain ⟨-, hargs⟩ := delimits_raw trivial trivial hpre
  obtain ⟨-, henv⟩ := delimits_counted delimits_lengthPrefixed
    ⟨hm.args.1, fun t ht => ⟨hm.args.2 t ht, trivial⟩⟩
    ⟨hm'.args.1, fun t ht => ⟨hm'.args.2 t ht, trivial⟩⟩ (append_cancel_left hargs)
  have hsort : ∀ {m : ExecKeyMaterial D}, m.IsBounded →
      Bounded (sortBy Prod.fst m.env).length ∧ ∀ kv ∈ sortBy Prod.fst m.env,
        (Bounded (byteLength kv.1) ∧ True) ∧ Bounded (byteLength kv.2) ∧ True := by
    intro m hm
    rw [(sortBy_perm Prod.fst m.env).length_eq]
    refine ⟨hm.env.1, fun kv hkv => ?_⟩
    obtain ⟨hk, hv⟩ := hm.env.2 kv (mem_sortBy.mp hkv)
    exact ⟨⟨hk, trivial⟩, hv, trivial⟩
  obtain ⟨-, hcwd⟩ := delimits_counted (delimits_lengthPrefixed.pair delimits_lengthPrefixed)
    (hsort hm) (hsort hm') (append_cancel_left henv)
  obtain ⟨-, hins⟩ := delimits_cwdField hm.cwd hm'.cwd (append_cancel_left hcwd)
  simp only [mixPathHashPairs, append_assoc] at hins
  have hpairs : ∀ {m : ExecKeyMaterial D}, m.IsBounded → Bounded m.inputPairs.length ∧
      ∀ pair ∈ m.inputPairs, (Bounded (byteLength pair.1) ∧ True) ∧ True :=
    fun hm => ⟨hm.inputPairs.1, fun pair hp => ⟨⟨hm.inputPairs.2 pair hp, trivial⟩, trivial⟩⟩
  exact (delimits_counted delimits_pair (hpairs hm) (hpairs hm')
    (append_cancel_left hins)).1

theorem composeFullKey_inj {primary primary' : D} {pairs pairs' : List (Text × D)}
    (hpairs : ∀ pair ∈ pairs, Bounded (byteLength pair.1))
    (hpairs' : ∀ pair ∈ pairs', Bounded (byteLength pair.1))
    (h : composeFullKey H primary pairs = composeFullKey H primary' pairs') :
    primary = primary' ∧ ∀ pair, pair ∈ pairs ↔ pair ∈ pairs' := by
  obtain ⟨rfl, hdeps⟩ := delimits_raw trivial trivial (append_cancel_left (hdig h))
  obtain ⟨-, hcodes⟩ := append_inj (append_cancel_left hdeps) (by simp [text])
  have hsort := delimits_pair.flatMap_inj (fun pair => by simp [raw])
    (fun pair hp => ⟨⟨hpairs pair (mem_sortBy.mp hp), trivial⟩, trivial⟩)
    (fun pair hp => ⟨⟨hpairs' pair (mem_sortBy.mp hp), trivial⟩, trivial⟩) hcodes
  refine ⟨rfl, fun pair => ?_⟩
  have hmem : pair ∈ sortBy Prod.fst pairs ↔ pair ∈ sortBy Prod.fst pairs' := by rw [hsort]
  rwa [mem_sortBy, mem_sortBy] at hmem

theorem composeFullKey_ne_composePrimaryKey (primary : D) (pairs : List (Text × D))
    (m : ExecKeyMaterial D) :
    composeFullKey H primary pairs ≠ composePrimaryKey H m := by
  intro h
  have hchar := congrArg (·[13]?) (hdig h)
  exact absurd (Atom.ch.inj (Option.some.inj hchar)) (by decide)

end Injective

end Zccache
