import Mathlib.Data.List.Forall2

/-! # Messages off a stream that arrives in pieces

A receiver keeps what it has read in a buffer and asks a decoder for the message at
its front. While the decoder wants more, it reads the next piece; at the end of the
stream, what is left in the buffer is a message that was cut off. Which messages are
received does not depend on the pieces, if the decoder takes each frame for its
message whatever follows it and wants more of every part of a frame.
-/

namespace Receive

open List

variable {α M ε : Type}

abbrev Decoder (α M ε : Type) := List α → Except ε (Option (M × List α))

/-- What one read gives: at least one byte, or the stream has ended. -/
abbrev Piece (α : Type) := {l : List α // l ≠ []}

inductive Fault (ε : Type)
  | closed
  | refused (fault : ε)
  deriving DecidableEq

/-- What the receiver holds: the buffer, and the pieces that it has not read. -/
structure Source (α : Type) where
  buffer : List α
  pieces : List (Piece α)

def Source.bytes (s : Source α) : List α :=
  s.buffer ++ (s.pieces.map Subtype.val).flatten

variable (decode : Decoder α M ε)

/-- The next message, or `none` if the stream ended between two messages. -/
def next (buffer : List α) :
    List (Piece α) → Except (Fault ε) (Option (M × Source α))
  | [] =>
    match decode buffer with
    | .error fault => .error (.refused fault)
    | .ok (some (m, rest)) => .ok (some (m, ⟨rest, []⟩))
    | .ok none => if buffer.isEmpty then .ok none else .error .closed
  | piece :: pieces =>
    match decode buffer with
    | .error fault => .error (.refused fault)
    | .ok (some (m, rest)) => .ok (some (m, ⟨rest, piece :: pieces⟩))
    | .ok none => next (buffer ++ piece.1) pieces

inductive Ending (ε : Type)
  | closed
  | failed (fault : Fault ε)
  | waiting
  deriving DecidableEq

/-- The messages of the first `calls` calls, and how the last of them ended. -/
def receive : ℕ → Source α → List M × Ending ε
  | 0, _ => ([], .waiting)
  | calls + 1, s =>
    match next decode s.buffer s.pieces with
    | .error fault => ([], .failed fault)
    | .ok none => ([], .closed)
    | .ok (some (m, s')) =>
      let later := receive calls s'
      (m :: later.1, later.2)

/-- The decoder takes the frame for the message whatever follows, and wants more of
every part of it. -/
structure IsFrame (frame : List α) (m : M) : Prop where
  whole : ∀ rest, decode (frame ++ rest) = .ok (some (m, rest))
  part : ∀ p, p <+: frame → p ≠ frame → decode p = .ok none

/-- No part of the stream holds a message. -/
def Stuck (bytes : List α) : Prop :=
  ∀ p, p <+: bytes → ∀ r, decode p ≠ .ok (some r)

variable {decode} {s : Source α} {frame tail : List α} {m : M}

theorem next_of_some {buffer rest : List α} {pieces : List (Piece α)}
    (h : decode buffer = .ok (some (m, rest))) :
    next decode buffer pieces = .ok (some (m, ⟨rest, pieces⟩)) := by
  cases pieces with
  | nil | cons => rw [next, h]

theorem next_frame (hframe : IsFrame decode frame m) (hs : s.bytes = frame ++ tail) :
    ∃ s', next decode s.buffer s.pieces = .ok (some (m, s')) ∧ s'.bytes = tail := by
  obtain ⟨buffer, pieces⟩ := s
  have hwhole : ∀ {buffer rest : List α} {pieces : List (Piece α)}, frame ++ rest = buffer →
      buffer ++ (pieces.map Subtype.val).flatten = frame ++ tail →
      ∃ s', next decode buffer pieces = .ok (some (m, s')) ∧ s'.bytes = tail := by
    rintro buffer rest pieces rfl hs
    rw [append_assoc, append_right_inj] at hs
    exact ⟨⟨rest, pieces⟩, next_of_some (hframe.whole rest), hs⟩
  induction pieces generalizing buffer with
  | nil => exact hwhole (by simpa [Source.bytes] using hs.symm) hs
  | cons piece pieces ih =>
    by_cases hbuffered : frame <+: buffer
    · obtain ⟨rest, hrest⟩ := hbuffered
      exact hwhole hrest hs
    · have hwritten : buffer <+: frame ++ tail := hs ▸ prefix_append buffer _
      have hordered := prefix_or_prefix_of_prefix hwritten (prefix_append frame tail)
      have hpart : buffer <+: frame := hordered.resolve_right hbuffered
      have hne : buffer ≠ frame := by
        rintro rfl
        exact hbuffered (prefix_refl _)
      rw [next, hframe.part buffer hpart hne]
      apply ih
      rw [← hs]
      simp [Source.bytes]

theorem next_closed (hdec : decode [] = .ok none) (hs : s.bytes = []) :
    next decode s.buffer s.pieces = .ok none := by
  obtain ⟨buffer, pieces⟩ := s
  obtain ⟨rfl, hpieces⟩ := append_eq_nil_iff.mp hs
  cases pieces with
  | nil =>
    rw [next, hdec]
    rfl
  | cons piece pieces =>
    exact absurd (append_eq_nil_iff.mp hpieces).1 piece.2

theorem next_stuck (hstuck : Stuck decode s.bytes) (hne : s.bytes ≠ []) :
    ∃ fault, next decode s.buffer s.pieces = .error fault := by
  obtain ⟨buffer, pieces⟩ := s
  induction pieces generalizing buffer with
  | nil =>
    have hbuffer : Source.bytes ⟨buffer, []⟩ = buffer := append_nil buffer
    rw [hbuffer] at hstuck hne
    rw [next]
    rcases hdec : decode buffer with fault | _ | r
    · exact ⟨_, rfl⟩
    · exact ⟨.closed, if_neg (by simpa using hne)⟩
    · exact absurd hdec (hstuck buffer (prefix_refl _) r)
  | cons piece pieces ih =>
    rw [next]
    rcases hdec : decode buffer with fault | _ | r
    · exact ⟨_, rfl⟩
    · apply ih
      · simpa [Source.bytes] using hstuck
      · simpa [Source.bytes] using hne
    · exact absurd hdec (hstuck buffer (prefix_append _ _) r)

theorem receive_frame (hframe : IsFrame decode frame m) (hs : s.bytes = frame ++ tail) :
    ∃ s', s'.bytes = tail ∧ ∀ calls, receive decode (calls + 1) s =
      (m :: (receive decode calls s').1, (receive decode calls s').2) := by
  obtain ⟨s', hnext, hs'⟩ := next_frame hframe hs
  exact ⟨s', hs', fun calls => by rw [receive, hnext]⟩

theorem receive_closed (hdec : decode [] = .ok none) (hs : s.bytes = []) (calls : ℕ) :
    receive decode (calls + 1) s = ([], .closed) := by
  rw [receive, next_closed hdec hs]

theorem receive_stuck (hstuck : Stuck decode s.bytes) (hne : s.bytes ≠ []) (calls : ℕ) :
    ∃ fault, receive decode (calls + 1) s = ([], .failed fault) := by
  obtain ⟨fault, hfault⟩ := next_stuck hstuck hne
  exact ⟨fault, by rw [receive, hfault]⟩

theorem IsFrame.stuck (hframe : IsFrame decode frame m) {part : List α} (hpart : part <+: frame)
    (hne : part ≠ frame) : Stuck decode part := by
  intro p hp r h
  have hshort : p ≠ frame := by
    rintro rfl
    exact hne (List.IsPrefix.eq_of_length_le hpart hp.length_le)
  rw [hframe.part p (hp.trans hpart) hshort] at h
  cases h

end Receive
