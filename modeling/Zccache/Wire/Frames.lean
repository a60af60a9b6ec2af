import Zccache.Base.Codec
import Zccache.Base.Receive
import Zccache.Wire.Request

/-! # The two lanes of the wire

A message travels behind its length and the protocol version, or inside the frame of
the process broker. Both lanes share one stream and are told apart by its first bytes.
The codec of the messages and the codec of the broker's frames are parameters; they are
assumed to read back what they write.
-/

namespace Zccache.Wire

open List Codecs

variable {M : Type}

structure ProstCodec (M : Type) where
  encode : M → Bytes
  decode : Bytes → Except String M
  decode_encode : ∀ m, decode (encode m) = .ok m

structure DaemonFrame where
  envelopeVersion : ℕ
  kind : ℕ
  payloadProtocol : ℕ
  payload : Bytes
  requestId : UInt64
  payloadEncoding : ℕ
  deriving DecidableEq

def frameKindRequest : ℕ := 0

def frameKindResponse : ℕ := 1

def payloadEncodingNone : ℕ := 0

/-- `DaemonFrame::request` with a request id. -/
def DaemonFrame.request (payloadProtocol : ℕ) (payload : Bytes) (requestId : UInt64) :
    DaemonFrame where
  envelopeVersion := 1
  kind := frameKindRequest
  payloadProtocol := payloadProtocol
  payload := payload
  requestId := requestId
  payloadEncoding := payloadEncodingNone

inductive DaemonFrameError
  | frameTooLarge (bodyLength : ℕ)
  | other (message : String)
  deriving DecidableEq

inductive DaemonFrameDecode
  | frame (frame : DaemonFrame) (consumed : ℕ)
  | needMoreBytes
  deriving DecidableEq

def zccacheFramePayloadProtocol : ℕ := 0x7A63

def daemonFrameV1Version : UInt8 := 1

/-- The fields with which the body of every request frame of this protocol begins: the
version of the envelope, and the protocol. -/
def requestFields : Bytes :=
  [0x08, 0x01, 0x18, 0xE3, 0xF4, 0x01]

/-- The broker's codec: a version byte, the length of the body, and the body. -/
structure DaemonFrameCodec where
  encode : DaemonFrame → Except DaemonFrameError Bytes
  decode : Bytes → Except DaemonFrameError DaemonFrameDecode
  decode_whole : ∀ {frame bytes} rest, encode frame = .ok bytes →
    decode (bytes ++ rest) = .ok (.frame frame bytes.length)
  decode_part : ∀ {frame bytes part}, encode frame = .ok bytes → part <+: bytes → part ≠ bytes →
    decode part = .ok .needMoreBytes
  layout : ∀ {payload requestId bytes},
    encode (.request zccacheFramePayloadProtocol payload requestId) = .ok bytes →
      ∃ length body, length.length = 4 ∧
        bytes = daemonFrameV1Version :: (length ++ (requestFields ++ body))

inductive ProtocolError
  | serialization (message : String)
  | deserialization (message : String)
  | messageTooLarge (length : ℕ)
  | versionMismatch (expected received : ℕ)
  deriving DecidableEq

def prostProtocolVersion : ℕ := 26

def retiredBincodeProtocolVersion : ℕ := 25

def maxMessageSize : ℕ := 16 * 1024 * 1024

/-- `u32::from_le_bytes` of the four bytes at an offset. -/
def u32At (buf : Bytes) (offset : ℕ) : ℕ :=
  leValue ((buf.drop offset).take 4)

section ProstLane

variable (codec : ProstCodec M)

def encodeProstMessage (m : M) : Except ProtocolError Bytes :=
  let payload := codec.encode m
  if 4 + payload.length < 2 ^ 32 then
    .ok (leBytes 4 (4 + payload.length) ++ (leBytes 4 prostProtocolVersion ++ payload))
  else .error (.messageTooLarge payload.length)

def decodeProstMessage (buf : Bytes) : Except ProtocolError (Option (M × Bytes)) :=
  if buf.length < 4 then .ok none
  else
    let len := u32At buf 0
    if maxMessageSize < len then .error (.messageTooLarge len)
    else if buf.length < 4 + len then .ok none
    else if len < 4 then .error (.deserialization "frame too small for protocol version")
    else
      let frame := (buf.drop 4).take len
      let remoteVer := u32At frame 0
      if remoteVer ≠ prostProtocolVersion then
        .error (.versionMismatch prostProtocolVersion remoteVer)
      else
        match codec.decode (frame.drop 4) with
        | .ok m => .ok (some (m, (buf.drop 4).drop len))
        | .error message => .error (.deserialization message)

def peekFrameProtocolVersion (buf : Bytes) : Except ProtocolError (Option ℕ) :=
  if buf.length < 4 then .ok none
  else
    let len := u32At buf 0
    if maxMessageSize < len then .error (.messageTooLarge len)
    else if len < 4 then .error (.deserialization "frame too small for protocol version")
    else if buf.length < 4 + len then .ok none
    else .ok (some (u32At buf 4))

end ProstLane

section FrameLane

variable (codec : ProstCodec M) (frames : DaemonFrameCodec)

def encodeFrameV1Request (m : M) (requestId : UInt64) : Except ProtocolError Bytes :=
  match frames.encode (.request zccacheFramePayloadProtocol (codec.encode m) requestId) with
  | .ok bytes => .ok bytes
  | .error (.frameTooLarge bodyLength) => .error (.messageTooLarge bodyLength)
  | .error (.other message) => .error (.serialization message)

/-- Whether the bytes begin a frame of the broker; `none` while they could begin both. -/
def bufferStartsRunningProcessFrame : Bytes → Option Bool
  | [] => none
  | first :: rest =>
    if first ≠ daemonFrameV1Version then some false
    else if (first :: rest).length < 8 then none
    else
      let zccacheLen := u32At (first :: rest) 0
      let zccacheVersion := u32At (first :: rest) 4
      some !(4 ≤ zccacheLen && (zccacheVersion == prostProtocolVersion ||
        zccacheVersion == retiredBincodeProtocolVersion))

def showHex (n : ℕ) : String :=
  let digits := (Nat.toDigits 16 n).map Char.toUpper
  String.ofList ("0x" ++ List.replicate (4 - digits.length) '0' ++ digits)

def decodeFrameV1Message (buf : Bytes) : Except ProtocolError (Option ((M × UInt64) × Bytes)) :=
  match frames.decode buf with
  | .ok .needMoreBytes => .ok none
  | .error (.frameTooLarge bodyLength) => .error (.messageTooLarge bodyLength)
  | .error (.other message) => .error (.deserialization ("running-process Frame: " ++ message))
  | .ok (.frame frame consumed) =>
    if frame.envelopeVersion ≠ 1 then
      .error (.deserialization ("unsupported running-process Frame envelope_version " ++
        toString frame.envelopeVersion))
    else if frame.payloadProtocol ≠ zccacheFramePayloadProtocol then
      .error (.deserialization ("running-process Frame payload_protocol " ++
        showHex frame.payloadProtocol ++ " is not the zccache payload protocol " ++
        showHex zccacheFramePayloadProtocol))
    else if frame.kind ≠ frameKindRequest ∧ frame.kind ≠ frameKindResponse then
      .error (.deserialization ("unsupported running-process Frame kind " ++
        toString frame.kind ++ " on the zccache lane"))
    else if frame.payloadEncoding ≠ payloadEncodingNone then
      .error (.deserialization ("unsupported running-process Frame payload_encoding " ++
        toString frame.payloadEncoding ++ " on the zccache lane"))
    else
      match codec.decode frame.payload with
      | .ok m => .ok (some ((m, frame.requestId), buf.drop consumed))
      | .error message => .error (.deserialization message)

end FrameLane

section Dispatch

inductive DecodedWireMessage (M : Type)
  | prostV16 (message : M)
  | frameV1 (message : M) (requestId : UInt64)
  deriving DecidableEq

variable (codec : ProstCodec M) (frames : DaemonFrameCodec)

def decodeWireMessage (buf : Bytes) :
    Except ProtocolError (Option (DecodedWireMessage M × Bytes)) :=
  match bufferStartsRunningProcessFrame buf with
  | none => .ok none
  | some true =>
    (decodeFrameV1Message codec frames buf).map fun decoded =>
      decoded.map fun r => (.frameV1 r.1.1 r.1.2, r.2)
  | some false =>
    match peekFrameProtocolVersion buf with
    | .error fault => .error fault
    | .ok none => .ok none
    | .ok (some version) =>
      if version = prostProtocolVersion then
        (decodeProstMessage codec buf).map fun decoded =>
          decoded.map fun r => (.prostV16 r.1, r.2)
      else .error (.versionMismatch prostProtocolVersion version)

end Dispatch

theorem take_prefix {α : Type} {p l : List α} (h : p <+: l) {n : ℕ} (hn : n ≤ p.length) :
    p.take n = l.take n := by
  obtain ⟨rest, rfl⟩ := h
  rw [take_append_of_le_length hn]

theorem u32At_of_isPrefix {p stream : Bytes} (h : p <+: stream) {offset : ℕ}
    (hlength : offset + 4 ≤ p.length) : u32At p offset = u32At stream offset := by
  have htake (l : Bytes) : (l.drop offset).take 4 = (l.take (offset + 4)).drop offset := by
    rw [drop_take, Nat.add_sub_cancel_left]
  rw [u32At, u32At, htake, htake, take_prefix h hlength]

theorem u32At_append (front back : Bytes) (offset : ℕ) :
    u32At (front ++ back) (front.length + offset) = u32At back offset := by
  rw [u32At, u32At, ← drop_drop, drop_left]

@[simp] theorem u32At_leBytes {n : ℕ} (h : n < 2 ^ 32) (back : Bytes) :
    u32At (leBytes 4 n ++ back) 0 = n := by
  rw [u32At, drop_zero, take_left' (length_leBytes 4 n)]
  exact leValue_leBytes (by simpa using h)

section ProstStream

variable {codec : ProstCodec M} {frames : DaemonFrameCodec} {payload p tail : Bytes}

/-- The frame of a payload on the lane of the protocol version. -/
def prostFrame (payload : Bytes) : Bytes :=
  leBytes 4 (4 + payload.length) ++ (leBytes 4 prostProtocolVersion ++ payload)

@[simp] theorem length_prostFrame (payload : Bytes) :
    (prostFrame payload).length = 8 + payload.length := by
  simp only [prostFrame, length_append, length_leBytes]
  omega

theorem u32At_prostFrame (h : 4 + payload.length < 2 ^ 32) (tail : Bytes) :
    u32At (prostFrame payload ++ tail) 0 = 4 + payload.length ∧
      u32At (prostFrame payload ++ tail) 4 = prostProtocolVersion := by
  constructor
  · exact u32At_leBytes h _
  · have hshift := u32At_append (leBytes 4 (4 + payload.length))
      (leBytes 4 prostProtocolVersion ++ (payload ++ tail)) 0
    exact hshift.trans (u32At_leBytes (by decide) _)

/-- A stream that begins with such a frame is never taken for one of the broker. -/
theorem starts_prostFrame (hsize : 4 + payload.length < 2 ^ 32)
    (hp : p <+: prostFrame payload ++ tail) :
    bufferStartsRunningProcessFrame p = some false ∨
      bufferStartsRunningProcessFrame p = none ∧ p.length < 8 := by
  obtain ⟨hlen, hver⟩ := u32At_prostFrame hsize tail
  cases p with
  | nil => exact Or.inr ⟨rfl, by simp⟩
  | cons first rest =>
    rw [bufferStartsRunningProcessFrame]
    split
    · exact Or.inl rfl
    · split
      · next hshort => exact Or.inr ⟨rfl, hshort⟩
      · next hlong =>
        rw [u32At_of_isPrefix hp (by omega), u32At_of_isPrefix hp (by omega), hlen, hver]
        left
        simp

theorem peek_prostFrame (hsize : 4 + payload.length < 2 ^ 32)
    (hp : p <+: prostFrame payload ++ tail) :
    peekFrameProtocolVersion p =
      if p.length < 4 then .ok none
      else if maxMessageSize < 4 + payload.length then
        .error (.messageTooLarge (4 + payload.length))
      else if p.length < 8 + payload.length then .ok none
      else .ok (some prostProtocolVersion) := by
  obtain ⟨hlen, hver⟩ := u32At_prostFrame hsize tail
  rw [peekFrameProtocolVersion]
  split
  · rfl
  · next hfour =>
    rw [u32At_of_isPrefix hp (by omega), hlen]
    simp only
    split
    · rfl
    · rw [if_neg (by omega)]
      by_cases hshort : p.length < 8 + payload.length
      · rw [if_pos hshort, if_pos (by omega)]
      · rw [if_neg hshort, if_neg (by omega), u32At_of_isPrefix hp (by omega), hver]

theorem decodeProstMessage_prostFrame {m : M} (hm : codec.encode m = payload)
    (hsize : 4 + payload.length ≤ maxMessageSize) (rest : Bytes) :
    decodeProstMessage codec (prostFrame payload ++ rest) = .ok (some (m, rest)) := by
  have hmax : maxMessageSize < 2 ^ 32 := by decide
  obtain ⟨hlen, -⟩ := u32At_prostFrame (by omega : 4 + payload.length < 2 ^ 32) rest
  have hlength : (prostFrame payload ++ rest).length = 8 + payload.length + rest.length := by
    rw [length_append, length_prostFrame]
  have hdrop : (prostFrame payload ++ rest).drop 4 =
      (leBytes 4 prostProtocolVersion ++ payload) ++ rest := by
    exact drop_left' (length_leBytes 4 _)
  have hbody : (leBytes 4 prostProtocolVersion ++ payload).length = 4 + payload.length := by
    rw [length_append, length_leBytes]
  rw [decodeProstMessage, if_neg (by omega), hlen]
  simp only
  rw [if_neg (by omega), if_neg (by omega), if_neg (by omega), hdrop, take_left' hbody,
    drop_left' hbody, u32At_leBytes (by decide), if_neg (by simp),
    drop_left' (length_leBytes 4 _), ← hm, codec.decode_encode]

theorem decodeWireMessage_prostFrame_part (hsize : 4 + payload.length < 2 ^ 32)
    (hp : p <+: prostFrame payload) (hne : p ≠ prostFrame payload)
    (hfits : 4 + payload.length ≤ maxMessageSize) :
    decodeWireMessage codec frames p = .ok none := by
  have hlt : p.length < 8 + payload.length := by
    rw [← length_prostFrame]
    exact lt_of_le_of_ne hp.length_le fun h => hne (hp.eq_of_length h)
  have hstream : p <+: prostFrame payload ++ [] := by rwa [append_nil]
  rw [decodeWireMessage]
  rcases starts_prostFrame hsize hstream with h | ⟨h, -⟩
  · rw [h, peek_prostFrame hsize hstream]
    split_ifs with hfour hlarge
    · rfl
    · omega
    · rfl
  · rw [h]

theorem decodeWireMessage_prostFrame {m : M} (hm : codec.encode m = payload)
    (hfits : 4 + payload.length ≤ maxMessageSize) (rest : Bytes) :
    decodeWireMessage codec frames (prostFrame payload ++ rest) =
      .ok (some (.prostV16 m, rest)) := by
  have hmax : maxMessageSize < 2 ^ 32 := by decide
  have hsize : 4 + payload.length < 2 ^ 32 := by omega
  have hlength : (prostFrame payload ++ rest).length = 8 + payload.length + rest.length := by
    rw [length_append, length_prostFrame]
  have hstarts : bufferStartsRunningProcessFrame (prostFrame payload ++ rest) = some false := by
    rcases starts_prostFrame hsize (prefix_refl (prostFrame payload ++ rest)) with h | ⟨-, h⟩
    · exact h
    · omega
  have hpeek := peek_prostFrame hsize (prefix_refl (prostFrame payload ++ rest))
  rw [if_neg (by omega), if_neg (by omega), if_neg (by omega)] at hpeek
  rw [decodeWireMessage, hstarts, hpeek]
  simp only [if_true, decodeProstMessage_prostFrame hm hfits rest]
  rfl

theorem decodeWireMessage_prostFrame_large (hsize : 4 + payload.length < 2 ^ 32)
    (hlarge : maxMessageSize < 4 + payload.length) (hp : p <+: prostFrame payload ++ tail) :
    decodeWireMessage codec frames p = .ok none ∨
      decodeWireMessage codec frames p = .error (.messageTooLarge (4 + payload.length)) := by
  rw [decodeWireMessage]
  rcases starts_prostFrame hsize hp with h | ⟨h, -⟩
  · rw [h, peek_prostFrame hsize hp]
    split_ifs
    · exact Or.inl rfl
    · exact Or.inr rfl
  · rw [h]
    exact Or.inl rfl

end ProstStream

section FrameStream

variable {codec : ProstCodec M} {frames : DaemonFrameCodec} {bytes p tail : Bytes} {m : M}
  {requestId : UInt64}

variable (h : encodeFrameV1Request codec frames m requestId = .ok bytes)

include h

theorem encode_of_encodeFrameV1Request :
    frames.encode (.request zccacheFramePayloadProtocol (codec.encode m) requestId) =
      .ok bytes := by
  rw [encodeFrameV1Request] at h
  split at h
  · next henc =>
    cases h
    exact henc
  all_goals cases h

theorem length_of_encodeFrameV1Request : 8 ≤ bytes.length := by
  obtain ⟨length, body, hlength, rfl⟩ := frames.layout (encode_of_encodeFrameV1Request h)
  simp [requestFields, hlength]
  omega

/-- A stream that begins with a frame of the broker is never taken for one of the other
lane: where that has its version, this has the first fields of the body. -/
theorem starts_frameV1 (hp : p <+: bytes ++ tail) :
    bufferStartsRunningProcessFrame p = if p.length < 8 then none else some true := by
  obtain ⟨length, body, hlength, rfl⟩ := frames.layout (encode_of_encodeFrameV1Request h)
  obtain ⟨a, b, c, d, rfl⟩ := length_eq_four.mp hlength
  cases p with
  | nil => rfl
  | cons first rest =>
    have hfirst : first = daemonFrameV1Version := (cons_prefix_cons.mp hp).1
    subst hfirst
    rw [bufferStartsRunningProcessFrame, if_neg (by simp)]
    split
    · rfl
    · next hlong =>
      have hver : u32At (daemonFrameV1Version :: rest) 4 =
          d.toNat + 256 * (8 + 256 * (1 + 256 * 24)) := by
        rw [u32At_of_isPrefix hp (by omega)]
        rfl
      have hother : u32At (daemonFrameV1Version :: rest) 4 ≠ prostProtocolVersion ∧
          u32At (daemonFrameV1Version :: rest) 4 ≠ retiredBincodeProtocolVersion := by
        rw [hver, prostProtocolVersion, retiredBincodeProtocolVersion]
        omega
      simp [hother.1, hother.2]

theorem decodeWireMessage_frameV1 (rest : Bytes) :
    decodeWireMessage codec frames (bytes ++ rest) = .ok (some (.frameV1 m requestId, rest)) := by
  have hlength := length_of_encodeFrameV1Request h
  have hstarts := starts_frameV1 h (prefix_refl (bytes ++ rest))
  rw [if_neg (by rw [length_append]; omega)] at hstarts
  have hdec := frames.decode_whole rest (encode_of_encodeFrameV1Request h)
  rw [decodeWireMessage, hstarts]
  simp [decodeFrameV1Message, hdec, DaemonFrame.request, codec.decode_encode, Except.map]

theorem decodeWireMessage_frameV1_part (hp : p <+: bytes) (hne : p ≠ bytes) :
    decodeWireMessage codec frames p = .ok none := by
  have hstarts := starts_frameV1 h (hp.trans (prefix_append bytes []))
  rw [decodeWireMessage, hstarts]
  split
  · rfl
  · next hlong =>
    rw [decodeFrameV1Message, frames.decode_part (encode_of_encodeFrameV1Request h) hp hne]
    rfl
  · next hlong => split at hlong <;> cases hlong

end FrameStream

end Zccache.Wire
