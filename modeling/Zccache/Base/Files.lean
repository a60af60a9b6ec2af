import Mathlib.Data.Finset.Card
import Zccache.Base.Map

/-! # Files with several names

A file system as names that point to inodes. An inode may have many names, and
what is changed through one of them is changed under all; an inode that is made
later has not been in use before.
-/

namespace Files

open FinMap

variable {π ι : Type} [DecidableEq π]

structure FileSystem (π ι : Type) [DecidableEq π] where
  names : Map π ℕ
  inodes : ℕ → ι
  next : ℕ
  bounded : ∀ p id, names.lookup p = some id → id < next

namespace FileSystem

def empty (content : ι) : FileSystem π ι where
  names := ∅
  inodes _ := content
  next := 0
  bounded _ _ h := nomatch h

variable (fs : FileSystem π ι)

variable (p : π)

def identity : Option ℕ :=
  fs.names.lookup p

def read : Option ι :=
  (fs.identity p).map fs.inodes

def aliases (id : ℕ) : Finset π :=
  fs.names.keys.toFinset.filter fun p => fs.identity p = some id

def linkCount (id : ℕ) : ℕ :=
  (fs.aliases id).card

def unlink : FileSystem π ι where
  names := fs.names.erase p
  inodes := fs.inodes
  next := fs.next
  bounded q id h := fs.bounded q id (lookup_of_erase h)

/-- A further name for the inode of `p`, which must have none yet. -/
def link (q : π) : FileSystem π ι :=
  match h : fs.identity p, fs.identity q with
  | some id, none =>
    { names := fs.names.insert q id
      inodes := fs.inodes
      next := fs.next
      bounded := by
        intro r id' hr
        obtain ⟨-, rfl⟩ | ⟨-, hold⟩ := lookup_insert_eq_some.mp hr
        · exact fs.bounded p id h
        · exact fs.bounded r id' hold }
  | _, _ => fs

/-- Changes the inode of `p`. -/
def modify (f : ι → ι) : FileSystem π ι :=
  match fs.identity p with
  | none => fs
  | some id => { fs with inodes := Function.update fs.inodes id (f (fs.inodes id)) }

def create (content : ι) : FileSystem π ι :=
  match fs.identity p with
  | some _ => fs
  | none =>
    { names := fs.names.insert p fs.next
      inodes := Function.update fs.inodes fs.next content
      next := fs.next + 1
      bounded := by
        intro r id hr
        obtain ⟨-, rfl⟩ | ⟨-, hold⟩ := lookup_insert_eq_some.mp hr
        · exact Nat.lt_succ_self _
        · exact Nat.lt_succ_of_lt (fs.bounded r id hold) }

variable {fs} {p q : π} {id : ℕ}

theorem mem_aliases : p ∈ fs.aliases id ↔ fs.identity p = some id := by
  unfold aliases identity
  rw [Finset.mem_filter, List.mem_toFinset]
  refine ⟨And.right, fun h => ⟨?_, h⟩⟩
  have hmem : p ∈ fs.names := by
    rw [← AList.lookup_isSome, h]
    rfl
  exact hmem

theorem one_lt_linkCount (hp : fs.identity p = some id) (hq : fs.identity q = some id)
    (hne : p ≠ q) : 1 < fs.linkCount id :=
  Finset.one_lt_card.mpr ⟨p, mem_aliases.mpr hp, q, mem_aliases.mpr hq, hne⟩

theorem identity_unlink (fs : FileSystem π ι) (p q : π) :
    (fs.unlink p).identity q = if q = p then none else fs.identity q :=
  lookup_erase_eq_ite fs.names p q

theorem identity_link (fs : FileSystem π ι) (p q r : π) :
    (fs.link p q).identity r =
      if r = q ∧ fs.identity q = none then fs.identity p else fs.identity r := by
  unfold link
  split
  · next id hp hq =>
    rw [identity, lookup_insert_eq_ite, hq, hp]
    by_cases h : r = q
    · rw [if_pos h, if_pos ⟨h, rfl⟩]
    · rw [if_neg h, if_neg fun hr => h hr.1]
      rfl
  · next hnot =>
    split
    · next h =>
      obtain ⟨rfl, hq⟩ := h
      cases hp : fs.identity p with
      | none => exact hq
      | some id => exact absurd hq (hnot id hp)
    · rfl

@[simp] theorem inodes_link (fs : FileSystem π ι) (p q : π) :
    (fs.link p q).inodes = fs.inodes := by
  unfold link
  split <;> rfl

@[simp] theorem identity_modify (fs : FileSystem π ι) (p : π) (f : ι → ι) (q : π) :
    (fs.modify p f).identity q = fs.identity q := by
  unfold modify
  split <;> rfl

theorem inodes_modify_of_ne (f : ι → ι) (h : fs.identity p ≠ some id) :
    (fs.modify p f).inodes id = fs.inodes id := by
  unfold modify
  split
  · rfl
  · next id' hp =>
    refine Function.update_of_ne ?_ _ _
    rintro rfl
    exact h hp

theorem linkCount_congr {fs' : FileSystem π ι} (h : ∀ p, fs.identity p = fs'.identity p) (id : ℕ) :
    fs.linkCount id = fs'.linkCount id := by
  unfold linkCount
  congr 1
  ext p
  rw [mem_aliases, mem_aliases, h]

theorem linkCount_le_link (fs : FileSystem π ι) (p q : π) (id : ℕ) :
    fs.linkCount id ≤ (fs.link p q).linkCount id := by
  refine Finset.card_le_card fun r hr => ?_
  rw [mem_aliases] at hr ⊢
  rw [identity_link]
  split
  · next h =>
    rw [h.1, h.2] at hr
    cases hr
  · exact hr

theorem linkCount_unlink_of_ne (h : fs.identity p ≠ some id) :
    (fs.unlink p).linkCount id = fs.linkCount id := by
  unfold linkCount
  congr 1
  ext q
  rw [mem_aliases, mem_aliases, identity_unlink]
  split
  · next hq =>
    subst hq
    exact ⟨fun hnone => (nomatch hnone), fun hid => absurd hid h⟩
  · rfl

theorem read_modify (fs : FileSystem π ι) (p : π) (f : ι → ι) :
    (fs.modify p f).read p = (fs.read p).map f := by
  rw [read, read, identity_modify]
  unfold modify
  cases fs.identity p with
  | none => rfl
  | some id =>
    simp only [Option.map_some]
    rw [Function.update_self]

section

variable (h : fs.identity p = none)

include h

theorem identity_create (content : ι) (q : π) :
    (fs.create p content).identity q = if q = p then some fs.next else fs.identity q := by
  unfold create
  rw [h]
  exact lookup_insert_eq_ite fs.names p q fs.next

theorem inodes_create (content : ι) :
    (fs.create p content).inodes = Function.update fs.inodes fs.next content := by
  unfold create
  rw [h]

theorem next_create (content : ι) : (fs.create p content).next = fs.next + 1 := by
  unfold create
  rw [h]

theorem read_create (content : ι) : (fs.create p content).read p = some content := by
  rw [read, identity_create h, if_pos rfl, inodes_create h, Option.map_some, Function.update_self]

end

@[simp] theorem next_modify (fs : FileSystem π ι) (p : π) (f : ι → ι) :
    (fs.modify p f).next = fs.next := by
  unfold modify
  split <;> rfl

@[simp] theorem next_link (fs : FileSystem π ι) (p q : π) : (fs.link p q).next = fs.next := by
  unfold link
  split <;> rfl

/-- Every file but the one at `q` is as it was. -/
structure Preserves (q : π) (fs fs' : FileSystem π ι) : Prop where
  next_le : fs.next ≤ fs'.next
  identity : ∀ p ≠ q, fs'.identity p = fs.identity p
  inodes : ∀ p ≠ q, ∀ id, fs.identity p = some id → fs'.inodes id = fs.inodes id

/-- The file at `q` has no other name. -/
def Sole (q : π) (fs : FileSystem π ι) : Prop :=
  ∀ p ≠ q, ∀ id, fs.identity q = some id → fs.identity p ≠ some id

variable {fs' : FileSystem π ι}

theorem Preserves.refl (q : π) (fs : FileSystem π ι) : Preserves q fs fs :=
  ⟨le_rfl, fun _ _ => rfl, fun _ _ _ _ => rfl⟩

section

variable (h : Preserves q fs fs')

include h

theorem Preserves.read (hp : p ≠ q) : fs'.read p = fs.read p := by
  rw [FileSystem.read, FileSystem.read, h.identity p hp]
  cases hid : fs.identity p with
  | none => rfl
  | some id => rw [Option.map_some, Option.map_some, h.inodes p hp id hid]

theorem Preserves.unlink : Preserves q fs (fs'.unlink q) := by
  refine ⟨h.next_le, fun p hp => ?_, h.inodes⟩
  rw [identity_unlink, if_neg hp]
  exact h.identity p hp

theorem Preserves.link (p : π) : Preserves q fs (fs'.link p q) := by
  refine ⟨by rw [next_link]; exact h.next_le, fun r hr => ?_, fun r hr id hid => ?_⟩
  · rw [identity_link, if_neg fun hq => hr hq.1]
    exact h.identity r hr
  · rw [inodes_link]
    exact h.inodes r hr id hid

theorem Preserves.create (hq : fs'.identity q = none) (content : ι) :
    Preserves q fs (fs'.create q content) := by
  refine ⟨?_, fun p hp => ?_, fun p hp id hid => ?_⟩
  · rw [next_create hq]
    exact h.next_le.trans (Nat.le_succ _)
  · rw [identity_create hq, if_neg hp]
    exact h.identity p hp
  · rw [inodes_create hq, Function.update_of_ne (fs.bounded p id hid |>.trans_le h.next_le).ne]
    exact h.inodes p hp id hid

theorem Preserves.modify (hq : Sole q fs') (f : ι → ι) : Preserves q fs (fs'.modify q f) := by
  refine ⟨by rw [next_modify]; exact h.next_le, fun p hp => ?_, fun p hp id hid => ?_⟩
  · rw [identity_modify]
    exact h.identity p hp
  · rw [inodes_modify_of_ne]
    · exact h.inodes p hp id hid
    · intro hqid
      exact hq p hp id hqid ((h.identity p hp).trans hid)

theorem Preserves.modify_fixed {f : ι → ι} (hf : ∀ inode ∈ fs'.read q, f inode = inode) :
    Preserves q fs (fs'.modify q f) := by
  have hinodes : (fs'.modify q f).inodes = fs'.inodes := by
    unfold FileSystem.modify
    cases hid : fs'.identity q with
    | none => rfl
    | some id =>
      have hfixed : f (fs'.inodes id) = fs'.inodes id := by
        refine hf _ ?_
        rw [FileSystem.read, hid]
        rfl
      simp only [hfixed]
      exact Function.update_eq_self id fs'.inodes
  refine ⟨by rw [next_modify]; exact h.next_le, fun p hp => ?_, fun p hp id hid => ?_⟩
  · rw [identity_modify]
    exact h.identity p hp
  · rw [hinodes]
    exact h.inodes p hp id hid

end

theorem sole_of_none (h : fs.identity q = none) : Sole q fs := by
  intro p _ id hid
  rw [h] at hid
  cases hid

theorem Sole.modify (h : Sole q fs) (f : ι → ι) : Sole q (fs.modify q f) := by
  intro p hp id hid
  rw [identity_modify] at hid ⊢
  exact h p hp id hid

theorem sole_create (hq : fs.identity q = none) (content : ι) : Sole q (fs.create q content) := by
  intro p hp id hid
  rw [identity_create hq, if_pos rfl] at hid
  cases hid
  rw [identity_create hq, if_neg hp]
  exact fun hid => absurd (fs.bounded p fs.next hid) (lt_irrefl _)

end FileSystem

end Files
