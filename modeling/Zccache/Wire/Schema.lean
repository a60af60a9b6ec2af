import Zccache.Base.Protobuf
import Zccache.Wire.Frames

/-! # The wire schema in protocol buffers

The messages of the schema in the numbers of their fields, and the frame of the broker.
These are the codecs that the wire uses, so what is assumed of codecs can be met.
-/

namespace Zccache.Wire

open List Unix Protobuf Protobuf.Format

namespace Schema

variable (number : ℕ)

def text : Format Text :=
  implicit number .string []

def blob : Format Bytes :=
  implicit number .bytes []

def flag : Format Bool :=
  implicit number .bool false

def envVar : Format (Text × Text) :=
  pair (text 1) (text 2)

def env : Format Env :=
  repeated number (.message envVar)

def execOutputStreams : Format ExecOutputStreams :=
  via (pair (flag 1) (flag 2)) (fun m => (m.stdout, m.stderr))
    (fun (stdout, stderr) => ⟨stdout, stderr⟩) fun _ => rfl

def artifactPayload : Format (Option (ArtifactPayload Text)) :=
  oneOf [1, 2]
    (fun
      | .bytes bytes => ⟨1, Payload.bytes.put bytes⟩
      | .path p => ⟨2, (Payload.message (text 1)).put p⟩)
    (fun f =>
      if f.number = 1 then (Payload.bytes.get f.value).map .bytes
      else ((Payload.message (text 1)).get f.value).map .path)
    (by rintro (bytes | p) <;> simp)
    (by rintro (bytes | p) <;> simp [Payload.get_put])

def artifactOutput : Format (ArtifactOutput (Option (Option (ArtifactPayload Text)))) :=
  via (pair (text 1) (optional 2 (.message artifactPayload))) (fun m => (m.name, m.payload))
    (fun (name, payload) => ⟨name, payload⟩) fun _ => rfl

def artifactData : Format (ArtifactData (Option (Option (ArtifactPayload Text)))) :=
  via (pair (repeated 1 (.message artifactOutput)) (pair (blob 2) (pair (blob 3)
      (implicit 4 .int32 0))))
    (fun m => (m.outputs, m.stdout, m.stderr, m.exitCode))
    (fun (outputs, stdout, stderr, exitCode) => ⟨outputs, stdout, stderr, exitCode⟩) fun _ => rfl

def privateDaemonSessionOptions : Format (PrivateDaemonSessionOptions Text) :=
  via (pair (optional 1 .string) (pair (optional 2 .string) (pair (optional 3 (.message (text 1)))
      (pair (implicit 4 (.packed UInt32.toNat UInt32.ofNat fun _ => UInt32.ofNat_toNat) [])
        (env 5)))))
    (fun m => (m.daemonName, m.endpoint, m.cacheDir, m.ownerPids, m.env))
    (fun (daemonName, endpoint, cacheDir, ownerPids, env) =>
      ⟨daemonName, endpoint, cacheDir, ownerPids, env⟩) fun _ => rfl

def field : (k : Kind) → Format k.Prost
  | .text => text number
  | .texts => repeated number .string
  | .blob => blob number
  | .flag => flag number
  | .uint32 => (implicit number .uint32 0 : Format UInt32)
  | .path | .optionalPath => optional number (.message (text 1))
  | .paths => repeated number (.message (text 1))
  | .env => env number
  | .optionalEnv => pair (env number) (flag (number + 1)) fun _ hn hn' =>
    Nat.succ_ne_self number ((mem_singleton.mp hn').symm.trans (mem_singleton.mp hn))
  | .artifact => optional number (.message artifactData)
  | .privateDaemon => optional number (.message privateDaemonSessionOptions)
  | .streams => optional number (.message execOutputStreams)
  | .toolHash => optional number .bytes
  | .cachePolicy => (implicit number .int32 0 : Format Int32)

theorem numbers_field (f : MessageField) : (field f.number f.kind).numbers = f.numbers := by
  obtain ⟨name, number, kind⟩ := f
  cases kind <;> rfl

/-- The fields of a message, none of which shares a number with another. -/
def fields : (fs : List MessageField) → (fs.flatMap MessageField.numbers).Nodup →
    { format : Format (Record Kind.Prost fs) // format.numbers = fs.flatMap MessageField.numbers }
  | [], _ => ⟨empty, rfl⟩
  | f :: fs, h =>
    let rest := fields fs (nodup_append.mp h).2.1
    ⟨pair (field f.number f.kind) rest.1 (by
      intro n hn hn'
      rw [numbers_field] at hn
      rw [rest.2] at hn'
      exact (nodup_append.mp h).2.2 n hn n hn' rfl),
      congrArg₂ (· ++ ·) (numbers_field f) rest.2⟩

def message (c : Command) : Format (Record Kind.Prost c.message.fields) :=
  (fields c.message.fields c.message.nodup).1

def commands : List Command :=
  [.ping, .shutdown, .status, .lookup, .store, .sessionStart, .compile, .sessionEnd, .clear,
    .compileEphemeral, .linkEphemeral, .sessionStats, .fingerprintCheck, .fingerprintMarkSuccess,
    .fingerprintMarkFailure, .fingerprintInvalidate, .listRustArtifacts, .genericToolExec,
    .releaseWorktreeHandles, .execProbe, .execStore]

def putBody (body : (c : Command) × Record Kind.Prost c.message.fields) : Protobuf.Field :=
  ⟨body.1.message.number, (Payload.message (message body.1)).put body.2⟩

def getBody (f : Protobuf.Field) : Option ((c : Command) × Record Kind.Prost c.message.fields) :=
  (commands.find? (·.message.number = f.number)).bind fun c =>
    ((Payload.message (message c)).get f.value).map (Sigma.mk c)

theorem find_number (c : Command) :
    commands.find? (·.message.number = c.message.number) = some c := by
  cases c <;> rfl

def body : Format (Option ((c : Command) × Record Kind.Prost c.message.fields)) :=
  oneOf (commands.map (·.message.number)) putBody getBody
    (by
      rintro ⟨c, r⟩
      exact mem_map_of_mem (mem_of_find?_eq_some (find_number c)))
    (by
      rintro ⟨c, r⟩
      rw [getBody, putBody, find_number, Option.bind_some, Payload.get_put]
      rfl)

def request : Format V1.Request :=
  via (pair body (text 100)) (fun m => (m.body, m.requestId))
    (fun (body, requestId) => ⟨body, requestId⟩) fun _ => rfl

end Schema

def prostCodec : ProstCodec V1.Request where
  encode := Schema.request.encode
  decode bytes := Checked.orFail "failed to decode Protobuf message" (Schema.request.decode bytes)
  decode_encode m := by
    rw [decode_encode]
    rfl

open Codecs

def Schema.count (number : ℕ) : Format ℕ :=
  implicit number (.number id id fun _ => rfl) 0

def Schema.daemonFrame : Format DaemonFrame :=
  via (pair (count 1) (pair (count 2) (pair (count 3) (pair (blob 4) (pair (implicit 5 .uint64 0)
      (count 6))))))
    (fun f => (f.envelopeVersion, f.kind, f.payloadProtocol, f.payload, f.requestId,
      f.payloadEncoding))
    (fun (envelopeVersion, kind, payloadProtocol, payload, requestId, payloadEncoding) =>
      ⟨envelopeVersion, kind, payloadProtocol, payload, requestId, payloadEncoding⟩) fun _ => rfl

def envelope (body : Bytes) : Bytes :=
  daemonFrameV1Version :: (leBytes 4 body.length ++ body)

def brokerEncode (maxBody : ℕ) (frame : DaemonFrame) : Except DaemonFrameError Bytes :=
  let body := Schema.daemonFrame.encode frame
  if body.length ≤ maxBody then .ok (envelope body) else .error (.frameTooLarge body.length)

def brokerDecode (maxBody : ℕ) (buf : Bytes) : Except DaemonFrameError DaemonFrameDecode :=
  if buf.length < 5 then .ok .needMoreBytes
  else if buf.head? ≠ some daemonFrameV1Version then .error (.other "unsupported version")
  else
    let len := u32At buf 1
    if maxBody < len then .error (.frameTooLarge len)
    else if buf.length < 5 + len then .ok .needMoreBytes
    else
      match Schema.daemonFrame.decode ((buf.drop 5).take len) with
      | some frame => .ok (.frame frame (5 + len))
      | none => .error (.other "malformed frame")

variable {maxBody : ℕ} {frame : DaemonFrame} {body bytes p : Bytes}

@[simp] theorem length_envelope (body : Bytes) : (envelope body).length = 5 + body.length := by
  simp only [envelope, length_cons, length_append, length_leBytes]
  omega

theorem brokerDecode_part (hmax : maxBody < 2 ^ 32) (hbody : body.length ≤ maxBody)
    (hp : p <+: envelope body) (hne : p ≠ envelope body) :
    brokerDecode maxBody p = .ok .needMoreBytes := by
  have hlt : p.length < 5 + body.length := by
    rw [← length_envelope]
    exact lt_of_le_of_ne hp.length_le fun h => hne (hp.eq_of_length h)
  rw [brokerDecode]
  split
  · rfl
  · next hfive =>
    have hlen : u32At p 1 = body.length := by
      rw [u32At_of_isPrefix hp (by omega)]
      exact u32At_leBytes (by omega) body
    have hhead : p.head? = some daemonFrameV1Version := by
      obtain ⟨first, rest, rfl⟩ : ∃ first rest, p = first :: rest :=
        exists_cons_of_length_pos (by omega)
      rw [(cons_prefix_cons.mp hp).1]
      rfl
    rw [if_neg (by simp [hhead]), hlen]
    rw [if_neg (by omega), if_pos hlt]

theorem brokerDecode_whole (hmax : maxBody < 2 ^ 32)
    (hbody : (Schema.daemonFrame.encode frame).length ≤ maxBody) (rest : Bytes) :
    brokerDecode maxBody (envelope (Schema.daemonFrame.encode frame) ++ rest) =
      .ok (.frame frame (envelope (Schema.daemonFrame.encode frame)).length) := by
  have hlen : u32At (envelope (Schema.daemonFrame.encode frame) ++ rest) 1 =
      (Schema.daemonFrame.encode frame).length := by
    exact u32At_leBytes (by omega) _
  have hdrop : (envelope (Schema.daemonFrame.encode frame) ++ rest).drop 5 =
      Schema.daemonFrame.encode frame ++ rest := by
    rw [envelope, cons_append, append_assoc]
    exact drop_left' (length_leBytes 4 _)
  rw [brokerDecode, if_neg (by rw [length_append, length_envelope]; omega),
    if_neg (by simp [envelope]), hlen]
  rw [if_neg (by omega), if_neg (by rw [length_append, length_envelope]; omega), hdrop,
    take_left' rfl, decode_encode, length_envelope]

theorem brokerEncode_eq_ok (h : brokerEncode maxBody frame = .ok bytes) :
    (Schema.daemonFrame.encode frame).length ≤ maxBody ∧
      bytes = envelope (Schema.daemonFrame.encode frame) := by
  rw [brokerEncode] at h
  split at h
  · next hbody =>
    cases h
    exact ⟨hbody, rfl⟩
  · cases h

theorem requestFields_prefix (payload : Bytes) (requestId : UInt64) :
    requestFields <+: Schema.daemonFrame.encode
      (.request zccacheFramePayloadProtocol payload requestId) := by
  have hput : Schema.daemonFrame.put (.request zccacheFramePayloadProtocol payload requestId) =
      [⟨1, .varint 1⟩, ⟨3, .varint zccacheFramePayloadProtocol⟩] ++
        (pair (Schema.blob 4) (pair (implicit 5 .uint64 0) (Schema.count 6))).put
          (payload, requestId, payloadEncodingNone) := rfl
  rw [encode, hput, putFields, flatMap_append]
  exact prefix_append requestFields _

def brokerCodec (maxBody : ℕ) (hmax : maxBody < 2 ^ 32) : DaemonFrameCodec where
  encode := brokerEncode maxBody
  decode := brokerDecode maxBody
  decode_whole rest h := by
    obtain ⟨hbody, rfl⟩ := brokerEncode_eq_ok h
    exact brokerDecode_whole hmax hbody rest
  decode_part h hp hne := by
    obtain ⟨hbody, rfl⟩ := brokerEncode_eq_ok h
    exact brokerDecode_part hmax hbody hp hne
  layout {payload requestId bytes} h := by
    obtain ⟨-, rfl⟩ := brokerEncode_eq_ok h
    obtain ⟨rest, hrest⟩ := requestFields_prefix payload requestId
    exact ⟨_, rest, length_leBytes 4 _, by rw [hrest, envelope]⟩

/-- The bytes that the wire is frozen to. -/
example :
    encodeFrameV1Request prostCodec (brokerCodec maxMessageSize (by decide))
      ⟨some ⟨.lookup, "golden-cache-key".toList, ()⟩, "golden-request-id".toList⟩
      0x0102030405060708 =
    .ok [0x01, 0x3A, 0x00, 0x00, 0x00, 0x08, 0x01, 0x18, 0xE3, 0xF4, 0x01, 0x22, 0x28, 0x22, 0x12,
      0x0A, 0x10, 0x67, 0x6F, 0x6C, 0x64, 0x65, 0x6E, 0x2D, 0x63, 0x61, 0x63, 0x68, 0x65, 0x2D,
      0x6B, 0x65, 0x79, 0xA2, 0x06, 0x11, 0x67, 0x6F, 0x6C, 0x64, 0x65, 0x6E, 0x2D, 0x72, 0x65,
      0x71, 0x75, 0x65, 0x73, 0x74, 0x2D, 0x69, 0x64, 0x28, 0x88, 0x8E, 0x98, 0xA8, 0xC0, 0xE0,
      0x80, 0x81, 0x01] := by
  decide +kernel

end Zccache.Wire
