import Zccache.Core.HashBytes
import Zccache.Link.Key

/-! # The bytes of a link key

Digests are thirty-two bytes here and stand in the byte string that is hashed
like any other bytes. The flags, the environment and the input digests follow
each other without a count, so that the byte string determines the parts only
together with the numbers of flags and of variables.
-/

namespace Zccache

open List Unix Framing PrefixCode StableSort

namespace LinkCacheKeyBuilder

/-- The byte string that `build` hashes. -/
def bytes (b : LinkCacheKeyBuilder ContentHash) : List UInt8 :=
  b.preimage.flatMap Atom.bytes

def environment {D : Type} (b : LinkCacheKeyBuilder D) : List (Text × Text) :=
  sortBy Prod.fst b.envVars

/-- No text holds a NUL and no variable name an equals sign. -/
structure Proper {D : Type} (b : LinkCacheKeyBuilder D) : Prop where
  flags : ∀ flag ∈ b.flags, nul ∉ flag
  names : ∀ e ∈ b.envVars, '=' ∉ e.1 ∧ nul ∉ e.1
  values : ∀ e ∈ b.envVars, nul ∉ e.2

end LinkCacheKeyBuilder

namespace LinkCacheKeyBuilder

variable {b b' : LinkCacheKeyBuilder ContentHash}

theorem bytes_eq (b : LinkCacheKeyBuilder ContentHash) :
    b.bytes = utf8 "zccache-link-key-v1" ++ (b.toolId.val ++
      (((b.flags ++ b.envTexts).map utf8).flatMap (· ++ [0]) ++
        b.inputHashes.flatMap Subtype.val)) := by
  have hins : (b.inputHashes.map Atom.digest).flatMap Atom.bytes =
      b.inputHashes.flatMap Subtype.val := by
    rw [flatMap_map]
    rfl
  simp only [bytes, preimage, flatMap_append, flatMap_bytes_text, flatMap_bytes_framed,
    hins, raw, flatMap_cons, flatMap_nil, append_nil, append_assoc]
  rfl

theorem length_envTexts (b : LinkCacheKeyBuilder ContentHash) :
    b.envTexts.length = b.envVars.length := by
  rw [envTexts, length_map, (sortBy_perm Prod.fst b.envVars).length_eq]

theorem Proper.fields (hb : b.Proper) :
    ∀ field ∈ (b.flags ++ b.envTexts).map utf8, 0 ∉ field := by
  simp only [mem_map, mem_append, envTexts, mem_sortBy]
  rintro _ ⟨t, hflag | ⟨e, he, rfl⟩, rfl⟩
  · exact fun h => hb.flags t hflag (zero_mem_utf8.mp h)
  · intro h
    have hnul := zero_mem_utf8.mp h
    simp only [mem_append, mem_cons] at hnul
    rcases hnul with hname | heq | hval
    · exact (hb.names e he).2 hname
    · exact absurd heq (by decide)
    · exact hb.values e he hval

theorem environment_inj (hb : b.Proper) (hb' : b'.Proper) (h : b.envTexts = b'.envTexts) :
    b.environment = b'.environment :=
  map_separated_inj (fun e he => (hb.names e (mem_sortBy.mp he)).1)
    (fun e he => (hb'.names e (mem_sortBy.mp he)).1) h

theorem parts_inj (hb : b.Proper) (hb' : b'.Proper) (h : b.bytes = b'.bytes)
    (hflags : b.flags.length = b'.flags.length) (henv : b.envVars.length = b'.envVars.length) :
    b.toolId = b'.toolId ∧ b.flags = b'.flags ∧ b.environment = b'.environment ∧
      b.inputHashes = b'.inputHashes := by
  rw [bytes_eq, bytes_eq] at h
  obtain ⟨htool, hrest⟩ := append_inj (append_cancel_left h)
    (b.toolId.property.trans b'.toolId.property.symm)
  have hlen : (b.flags ++ b.envTexts).length = (b'.flags ++ b'.envTexts).length := by
    rw [length_append, length_append, length_envTexts, length_envTexts, hflags, henv]
  obtain ⟨hflds, hins⟩ := (delimits_terminated 0).flatMap _
    ⟨hb.fields, length_map utf8⟩ ⟨hb'.fields, (length_map utf8).trans hlen.symm⟩ hrest
  obtain ⟨hflags, htexts⟩ := append_inj (utf8_injective.list_map hflds) hflags
  exact ⟨Subtype.ext htool, hflags, environment_inj hb hb' htexts, flatMap_val_inj hins⟩

theorem bytes_inj_iff (hb : b.Proper) (hb' : b'.Proper) (h : b.bytes = b'.bytes) :
    (b.toolId = b'.toolId ∧ b.flags = b'.flags ∧ b.environment = b'.environment ∧
        b.inputHashes = b'.inputHashes) ↔
      b.flags.length = b'.flags.length ∧ b.envVars.length = b'.envVars.length := by
  constructor
  · rintro ⟨-, hflags, henv, -⟩
    have hvars := congrArg length henv
    simp only [environment, (sortBy_perm Prod.fst _).length_eq] at hvars
    exact ⟨congrArg length hflags, hvars⟩
  · rintro ⟨hflags, henv⟩
    exact parts_inj hb hb' h hflags henv

def zeroHash : ContentHash := ⟨replicate 32 0, by decide⟩

/-- A digest that reads like a variable with a value of twenty-nine characters. -/
def variableHash : ContentHash :=
  ⟨utf8 ("K=" ++ replicate 29 'v') ++ [0], by decide⟩

def linkOf (flags : List Text) (envVars : List (Text × Text)) (inputHashes : List ContentHash) :
    LinkCacheKeyBuilder ContentHash where
  toolId := zeroHash
  flags := flags
  envVars := envVars
  inputHashes := inputHashes

def flagLink : LinkCacheKeyBuilder ContentHash :=
  linkOf ["A=B"] [] [zeroHash]

def variableLink : LinkCacheKeyBuilder ContentHash :=
  linkOf [] [("A", "B")] [zeroHash]

def longVariableLink : LinkCacheKeyBuilder ContentHash :=
  linkOf [] [("K", replicate 29 'v')] [zeroHash]

def twoInputLink : LinkCacheKeyBuilder ContentHash :=
  linkOf [] [] [variableHash, zeroHash]

theorem proper_flagLink : flagLink.Proper := ⟨by decide, by decide, by decide⟩

theorem proper_variableLink : variableLink.Proper := ⟨by decide, by decide, by decide⟩

theorem bytes_flagLink : flagLink.bytes = variableLink.bytes := by decide

/-- A flag is taken for a variable, and a variable for an input. -/
theorem boundaries_shifted :
    (flagLink.Proper ∧ variableLink.Proper ∧ flagLink.bytes = variableLink.bytes ∧
        flagLink.flags ≠ variableLink.flags) ∧
      longVariableLink.Proper ∧ twoInputLink.Proper ∧
        longVariableLink.bytes = twoInputLink.bytes ∧
        longVariableLink.inputHashes ≠ twoInputLink.inputHashes := by
  refine ⟨⟨proper_flagLink, proper_variableLink, bytes_flagLink, by decide⟩, ?_, ?_, by decide,
    by decide⟩
  all_goals exact ⟨by decide, by decide, by decide⟩

theorem bytes_inj_iff_flagLink :
    (flagLink.toolId = variableLink.toolId ∧ flagLink.flags = variableLink.flags ∧
        flagLink.environment = variableLink.environment ∧
        flagLink.inputHashes = variableLink.inputHashes) ↔
      flagLink.flags.length = variableLink.flags.length ∧
        flagLink.envVars.length = variableLink.envVars.length :=
  bytes_inj_iff proper_flagLink proper_variableLink bytes_flagLink

end LinkCacheKeyBuilder

end Zccache
