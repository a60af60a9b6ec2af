import Zccache.Wire.Schema

/-! # Requests off one connection

A connection carries requests one after the other, each on the lane that its sender
chose, and the receiver reads them back from whatever pieces arrive. Both ends agree on
everything but the size of a message: a sender may frame more than a receiver accepts.
-/

namespace Zccache.Wire

open List Receive Protobuf Protobuf.Format

inductive Lane
  | prost
  | frame (requestId : UInt64)
  deriving DecidableEq

variable (codec : ProstCodec V1.Request) (frames : DaemonFrameCodec)

/-- `send_request` on a lane. -/
def encodeRequest (item : Lane × Request) : Except ProtocolError Bytes :=
  match item.1 with
  | .prost => encodeProstMessage codec (toProst item.2)
  | .frame requestId => encodeFrameV1Request codec frames (toProst item.2) requestId

def decodedItem : DecodedWireMessage V1.Request → Lane × V1.Request
  | .prostV16 message => (.prost, message)
  | .frameV1 message requestId => (.frame requestId, message)

/-- The request at the front of the buffer and the lane it came on. -/
def decodeRequest : Decoder UInt8 (Lane × Request) ProtocolError := fun buf =>
  match decodeWireMessage codec frames buf with
  | .error fault => .error fault
  | .ok none => .ok none
  | .ok (some (decoded, rest)) =>
    match requestFromProst (decodedItem decoded).2 with
    | .ok request => .ok (some (((decodedItem decoded).1, request), rest))
    | .error message => .error (.deserialization message)

def Fits (item : Lane × Request) : Prop :=
  item.1 = .prost → 4 + (codec.encode (toProst item.2)).length ≤ maxMessageSize
  deriving Decidable

variable {codec frames} {item : Lane × Request} {bytes : Bytes} {request : Request}

theorem decodeRequest_of_wire {decoded : DecodedWireMessage V1.Request} {buf rest : Bytes}
    (hmsg : (decodedItem decoded).2 = toProst request)
    (h : decodeWireMessage codec frames buf = .ok (some (decoded, rest))) :
    decodeRequest codec frames buf = .ok (some (((decodedItem decoded).1, request), rest)) := by
  rw [decodeRequest, h]
  simp only [hmsg, requestFromProst_toProst]

theorem decodeRequest_of_none {buf : Bytes} (h : decodeWireMessage codec frames buf = .ok none) :
    decodeRequest codec frames buf = .ok none := by
  rw [decodeRequest, h]

theorem prostFrame_of_encodeRequest (h : encodeRequest codec frames (.prost, request) = .ok bytes) :
    4 + (codec.encode (toProst request)).length < 2 ^ 32 ∧
      bytes = prostFrame (codec.encode (toProst request)) := by
  change encodeProstMessage codec (toProst request) = .ok bytes at h
  rw [encodeProstMessage] at h
  split at h
  · next hsize =>
    cases h
    exact ⟨hsize, rfl⟩
  · cases h

theorem isFrame_encodeRequest (h : encodeRequest codec frames item = .ok bytes)
    (hfits : Fits codec item) : IsFrame (decodeRequest codec frames) bytes item := by
  obtain ⟨lane, request⟩ := item
  cases lane with
  | prost =>
    obtain ⟨hsize, rfl⟩ := prostFrame_of_encodeRequest h
    constructor
    · intro rest
      exact decodeRequest_of_wire rfl (decodeWireMessage_prostFrame rfl (hfits rfl) rest)
    · intro p hp hne
      exact decodeRequest_of_none (decodeWireMessage_prostFrame_part hsize hp hne (hfits rfl))
  | frame requestId =>
    constructor
    · intro rest
      exact decodeRequest_of_wire rfl (decodeWireMessage_frameV1 h rest)
    · intro p hp hne
      exact decodeRequest_of_none (decodeWireMessage_frameV1_part h hp hne)

theorem stuck_encodeRequest (h : encodeRequest codec frames item = .ok bytes)
    (hlarge : ¬ Fits codec item) (tail : Bytes) :
    Stuck (decodeRequest codec frames) (bytes ++ tail) := by
  obtain ⟨lane, request⟩ := item
  rw [Fits, Classical.not_imp] at hlarge
  obtain ⟨rfl, hlarge⟩ := hlarge
  obtain ⟨hsize, rfl⟩ := prostFrame_of_encodeRequest h
  intro p hp r hr
  have hrefused : decodeWireMessage codec frames p = .ok none ∨ decodeWireMessage codec frames p =
      .error (.messageTooLarge (4 + (codec.encode (toProst request)).length)) :=
    decodeWireMessage_prostFrame_large hsize (not_le.mp hlarge) hp
  rw [decodeRequest] at hr
  rcases hrefused with hnone | hfault
  · rw [hnone] at hr
    cases hr
  · rw [hfault] at hr
    cases hr

theorem encodeRequest_prost (h : 4 + (codec.encode (toProst request)).length < 2 ^ 32) :
    encodeRequest codec frames (.prost, request) =
      .ok (prostFrame (codec.encode (toProst request))) :=
  if_pos h

theorem encodeRequest_ne_nil (h : encodeRequest codec frames item = .ok bytes) : bytes ≠ [] := by
  obtain ⟨lane, request⟩ := item
  cases lane with
  | prost =>
    obtain ⟨-, rfl⟩ := prostFrame_of_encodeRequest h
    apply ne_nil_of_length_pos
    rw [length_prostFrame]
    omega
  | frame requestId =>
    apply ne_nil_of_length_pos
    have hlen := length_of_encodeFrameV1Request h
    omega

variable (codec frames) in
/-- The sender's encoder accepts the requests and frames them so. -/
def Encoded (sent : List (Lane × Request)) (encoded : List Bytes) : Prop :=
  List.Forall₂ (fun item bytes => encodeRequest codec frames item = .ok bytes) sent encoded

variable {sent : List (Lane × Request)} {encoded : List Bytes} {s : Source UInt8} {tail : Bytes}

/-- The requests that fit are received, and what follows them is read as if it came
first; at one that does not fit, the connection fails. -/
theorem receive_encoded (hencoded : Encoded codec frames sent encoded)
    (hs : s.bytes = encoded.flatten ++ tail) :
    (∀ item ∈ sent, Fits codec item) ∧
        (∃ s', s'.bytes = tail ∧ ∀ calls,
          receive (decodeRequest codec frames) (sent.length + calls) s =
            (sent ++ (receive (decodeRequest codec frames) calls s').1,
              (receive (decodeRequest codec frames) calls s').2)) ∨
      (¬ ∀ item ∈ sent, Fits codec item) ∧
        ∃ received fault, received <+: sent ∧ ∀ calls,
          receive (decodeRequest codec frames) (sent.length + calls) s =
            (received, .failed fault) := by
  induction hencoded generalizing s with
  | nil => exact Or.inl ⟨nofun, s, hs, fun calls => by simp⟩
  | @cons item bytes sent encoded hitem _ ih =>
    rw [flatten_cons, append_assoc] at hs
    by_cases hfits : Fits codec item
    · obtain ⟨s₁, hs₁, hfirst⟩ := receive_frame (isFrame_encodeRequest hitem hfits) hs
      rcases ih hs₁ with ⟨hall, s₂, hs₂, hrest⟩ | ⟨hall, received, fault, hprefix, hrest⟩
      · left
        refine ⟨forall_mem_cons.mpr ⟨hfits, hall⟩, s₂, hs₂, fun calls => ?_⟩
        rw [length_cons, Nat.add_right_comm, hfirst, hrest]
        rfl
      · right
        refine ⟨fun h => hall (forall_mem_cons.mp h).2, item :: received, fault,
          cons_prefix_cons.mpr ⟨rfl, hprefix⟩, fun calls => ?_⟩
        rw [length_cons, Nat.add_right_comm, hfirst, hrest]
    · right
      have hstuck : Stuck (decodeRequest codec frames) s.bytes :=
        hs ▸ stuck_encodeRequest hitem hfits _
      have hne : s.bytes ≠ [] := by
        rw [hs]
        exact append_ne_nil_of_left_ne_nil (encodeRequest_ne_nil hitem) _
      refine ⟨fun h => hfits (forall_mem_cons.mp h).1, ?_⟩
      obtain ⟨fault, hnext⟩ := next_stuck hstuck hne
      refine ⟨[], fault, nil_prefix, fun calls => ?_⟩
      rw [length_cons, Nat.add_right_comm, receive, hnext]

/-- A request between the limits of the two ends is framed, and refused. -/
theorem large_refused (hsize : 4 + (codec.encode (toProst request)).length < 2 ^ 32)
    (hlarge : maxMessageSize < 4 + (codec.encode (toProst request)).length) :
    ∃ bytes, encodeRequest codec frames (.prost, request) = .ok bytes ∧
      ∀ s : Source UInt8, s.bytes = bytes →
        ∃ fault, receive (decodeRequest codec frames) 2 s = ([], .failed fault) := by
  have henc : encodeRequest codec frames (.prost, request) = _ := encodeRequest_prost hsize
  refine ⟨_, henc, fun s hs => ?_⟩
  have hunfit : ¬ Fits codec (.prost, request) := fun hfits => not_le.mpr hlarge (hfits rfl)
  have hstuck := stuck_encodeRequest henc hunfit []
  rw [append_nil, ← hs] at hstuck
  exact receive_stuck hstuck (hs ▸ encodeRequest_ne_nil henc) 1

theorem decodeRequest_nil : decodeRequest codec frames [] = .ok none := rfl

theorem receive_eq_sent_iff (hencoded : Encoded codec frames sent encoded)
    (hs : s.bytes = encoded.flatten) :
    receive (decodeRequest codec frames) (sent.length + 1) s = (sent, .closed) ↔
      ∀ item ∈ sent, Fits codec item := by
  rw [← append_nil encoded.flatten] at hs
  rcases receive_encoded hencoded hs with ⟨hall, s', hs', hrest⟩ | ⟨hall, received, fault, -, hrest⟩
  · rw [hrest, receive_closed decodeRequest_nil hs', append_nil]
    exact iff_of_true rfl hall
  · rw [hrest]
    refine iff_of_false ?_ hall
    intro h
    cases congrArg Prod.snd h

theorem receive_cut (hencoded : Encoded codec frames sent encoded)
    (hitem : encodeRequest codec frames item = .ok bytes) {part : Bytes} (hpart : part <+: bytes)
    (hnil : part ≠ []) (hne : part ≠ bytes) (hs : s.bytes = encoded.flatten ++ part) :
    ∃ received fault, received <+: sent ∧
      receive (decodeRequest codec frames) (sent.length + 1) s = (received, .failed fault) := by
  rcases receive_encoded hencoded hs with ⟨-, s', hs', hrest⟩ | ⟨-, received, fault, hprefix, hrest⟩
  · have hstuck : Stuck (decodeRequest codec frames) s'.bytes := by
      rw [hs']
      by_cases hfits : Fits codec item
      · exact (isFrame_encodeRequest hitem hfits).stuck hpart hne
      · obtain ⟨rest, rfl⟩ := hpart
        intro p hp r
        exact stuck_encodeRequest hitem hfits [] p (hp.trans (by simp)) r
    obtain ⟨fault, hfault⟩ := receive_stuck hstuck (hs' ▸ hnil) 0
    refine ⟨sent, fault, prefix_refl _, ?_⟩
    rw [hrest, hfault, append_nil]
  · exact ⟨received, fault, hprefix, hrest 1⟩

/-- Requests that the encoder accepts come back, each on its lane and in order, exactly if
the receiver accepts the size of each; and a stream that ends inside a frame fails. -/
theorem stream_received_iff (codec : ProstCodec V1.Request) (frames : DaemonFrameCodec)
    {sent : List (Lane × Request)} {encoded : List Bytes}
    (hencoded : Encoded codec frames sent encoded) :
    (∀ s : Source UInt8, s.bytes = encoded.flatten →
      (receive (decodeRequest codec frames) (sent.length + 1) s = (sent, .closed) ↔
        ∀ item ∈ sent, Fits codec item)) ∧
    ∀ (item : Lane × Request) (bytes part : Bytes) (s : Source UInt8),
      encodeRequest codec frames item = .ok bytes → part <+: bytes → part ≠ [] → part ≠ bytes →
      s.bytes = encoded.flatten ++ part →
        ∃ received fault, received <+: sent ∧
          receive (decodeRequest codec frames) (sent.length + 1) s = (received, .failed fault) := by
  constructor
  · intro s hs
    exact receive_eq_sent_iff hencoded hs
  · intro item bytes part s hitem hpart hnil hne hs
    exact receive_cut hencoded hitem hpart hnil hne hs

def sampleFrames : DaemonFrameCodec :=
  brokerCodec maxMessageSize (by decide)

def sampleSent : List (Lane × Request) :=
  [(.prost, ⟨.ping, ()⟩), (.frame 7, ⟨.lookup, "key".toList, ()⟩)]

def samplePing : Bytes :=
  [0x15, 0x00, 0x00, 0x00, 0x1A, 0x00, 0x00, 0x00, 0x0A, 0x00, 0xA2, 0x06, 0x0C, 0x63, 0x6F, 0x6E,
    0x74, 0x72, 0x6F, 0x6C, 0x2D, 0x70, 0x69, 0x6E, 0x67]

def sampleLookup : Bytes :=
  [0x01, 0x1A, 0x00, 0x00, 0x00, 0x08, 0x01, 0x18, 0xE3, 0xF4, 0x01, 0x22, 0x10, 0x22, 0x05, 0x0A,
    0x03, 0x6B, 0x65, 0x79, 0xA2, 0x06, 0x06, 0x6C, 0x6F, 0x6F, 0x6B, 0x75, 0x70, 0x28, 0x07]

theorem sample_encoded : Encoded prostCodec sampleFrames sampleSent [samplePing, sampleLookup] :=
  .cons (by decide +kernel) (.cons (by decide +kernel) .nil)

/-- The two requests in three pieces that are cut inside the frames. -/
theorem stream_received_sample :
    receive (decodeRequest prostCodec sampleFrames) 3
      ⟨[], [⟨samplePing.take 3, by decide⟩, ⟨samplePing.drop 3 ++ sampleLookup.take 9, by decide⟩,
        ⟨sampleLookup.drop 9, by decide⟩]⟩ = (sampleSent, .closed) := by
  refine ((stream_received_iff prostCodec sampleFrames sample_encoded).1 _ (by decide)).mpr ?_
  decide +kernel

def largeStore : Request :=
  ⟨.execStore, [], List.replicate maxMessageSize 0, ()⟩

theorem encode_execStore {bytes : Bytes} (h : bytes ≠ []) :
    prostCodec.encode (toProst ⟨.execStore, [], bytes, ()⟩) =
      putField ⟨21, .bytes (putField ⟨2, .bytes bytes⟩)⟩ ++
        putField ⟨100, .bytes (PrefixCode.utf8 "exec-store")⟩ := by
  have hstore : (Schema.message .execStore).put ([], bytes, ()) = [⟨2, .bytes bytes⟩] := by
    change (Schema.text 1).put [] ++ ((Schema.blob 2).put bytes ++ []) = _
    rw [Schema.text, put_implicit_default, Schema.blob, put_implicit _ _ h]
    rfl
  have hbody : Schema.putBody ⟨.execStore, [], bytes, ()⟩ =
      ⟨21, .bytes (putField ⟨2, .bytes bytes⟩)⟩ := by
    change Protobuf.Field.mk 21
      (.bytes (putFields ((Schema.message .execStore).put ([], bytes, ())))) = _
    rw [hstore, putFields, flatMap_singleton]
  change putFields (Schema.request.put
    ⟨some ⟨.execStore, [], bytes, ()⟩, "exec-store"⟩) = _
  rw [Schema.request, put_via, put_pair, Schema.body, put_oneOf_some, hbody, Schema.text,
    put_implicit _ _ (by simp), putFields, flatMap_append, flatMap_singleton,
    flatMap_singleton]
  rfl

theorem length_putField_bytes (number : ℕ) (bytes : Bytes) :
    (putField ⟨number, .bytes bytes⟩).length =
      (varint (number * 8 + 2)).length + ((varint bytes.length).length + bytes.length) := by
  rw [putField, length_append, length_append]

theorem length_largeStore :
    (prostCodec.encode (toProst largeStore)).length = maxMessageSize + 24 := by
  have hlen : (List.replicate maxMessageSize (0 : UInt8)).length = maxMessageSize :=
    length_replicate
  have hne : List.replicate maxMessageSize (0 : UInt8) ≠ [] := by
    apply ne_nil_of_length_pos
    rw [hlen]
    decide
  rw [largeStore, encode_execStore hne, length_append, length_putField_bytes,
    length_putField_bytes, length_putField_bytes, hlen]
  decide +kernel

/-- The sender frames a result that the receiver refuses. -/
theorem largeStore_refused :
    ∃ bytes, encodeRequest prostCodec sampleFrames (.prost, largeStore) = .ok bytes ∧
      ∀ s : Source UInt8, s.bytes = bytes →
        ∃ fault, receive (decodeRequest prostCodec sampleFrames) 2 s = ([], .failed fault) := by
  have hmax : maxMessageSize + 28 < 2 ^ 32 := by decide
  apply large_refused
  all_goals
    rw [length_largeStore]
    omega

end Zccache.Wire
