import Mathlib.Data.Vector.Basic
import Zccache.Base.Checked
import Zccache.Core.NormalizedPath

/-! # Requests and their schema

A request is a command with the values of its fields. It travels as a message with the
same fields, in which a path is its text, what a request always has may be missing, and an
enumeration is a number; so a message is checked when it is read back. What a request was
written as is read back as that request.
-/

namespace Zccache.Wire

open Unix Checked

abbrev Bytes := List UInt8

abbrev Env := List (Text × Text)

structure ExecOutputStreams where
  stdout : Bool
  stderr : Bool

inductive ExecCachePolicy
  | normal
  | bypass
  | readOnly

/-- The content of an output, with its path as `P`. -/
inductive ArtifactPayload (P : Type)
  | bytes (bytes : Bytes)
  | path (path : P)

structure ArtifactOutput (Payload : Type) where
  name : Text
  payload : Payload

structure ArtifactData (Payload : Type) where
  outputs : List (ArtifactOutput Payload)
  stdout : Bytes
  stderr : Bytes
  exitCode : Int32

structure PrivateDaemonSessionOptions (P : Type) where
  daemonName : Option Text
  endpoint : Option Text
  cacheDir : Option P
  ownerPids : List UInt32
  env : Env

/-- What a field of a request holds. An optional environment also takes the next number,
for the flag that it is set. -/
inductive Kind
  | text
  | texts
  | blob
  | flag
  | uint32
  | path
  | optionalPath
  | paths
  | env
  | optionalEnv
  | artifact
  | privateDaemon
  | streams
  | toolHash
  | cachePolicy

def Kind.Value : Kind → Type
  | .text => Text
  | .texts => List Text
  | .blob => Bytes
  | .flag => Bool
  | .uint32 => UInt32
  | .path => NormalizedPath
  | .optionalPath => Option NormalizedPath
  | .paths => List NormalizedPath
  | .env => Env
  | .optionalEnv => Option Env
  | .artifact => ArtifactData (ArtifactPayload NormalizedPath)
  | .privateDaemon => Option (PrivateDaemonSessionOptions NormalizedPath)
  | .streams => ExecOutputStreams
  | .toolHash => Option (List.Vector UInt8 32)
  | .cachePolicy => ExecCachePolicy

def Kind.Prost : Kind → Type
  | .text => Text
  | .texts => List Text
  | .blob => Bytes
  | .flag => Bool
  | .uint32 => UInt32
  | .path | .optionalPath => Option Text
  | .paths => List Text
  | .env => Env
  | .optionalEnv => Env × Bool
  | .artifact => Option (ArtifactData (Option (Option (ArtifactPayload Text))))
  | .privateDaemon => Option (PrivateDaemonSessionOptions Text)
  | .streams => Option ExecOutputStreams
  | .toolHash => Option Bytes
  | .cachePolicy => Int32

structure MessageField where
  name : String
  number : ℕ
  kind : Kind

def MessageField.numbers (f : MessageField) : List ℕ :=
  match f.kind with
  | .optionalEnv => [f.number, f.number + 1]
  | _ => [f.number]

/-- A message of the schema: its number in the body, and its fields. -/
structure Message where
  number : ℕ
  name : String
  requestId : String
  fields : List MessageField
  nodup : (fields.flatMap MessageField.numbers).Nodup := by decide

inductive Command
  | ping
  | shutdown
  | status
  | lookup
  | store
  | sessionStart
  | compile
  | sessionEnd
  | clear
  | compileEphemeral
  | linkEphemeral
  | sessionStats
  | fingerprintCheck
  | fingerprintMarkSuccess
  | fingerprintMarkFailure
  | fingerprintInvalidate
  | listRustArtifacts
  | genericToolExec
  | releaseWorktreeHandles
  | execProbe
  | execStore
  deriving DecidableEq

/-- `default_request_id` with the messages of the schema. -/
def Command.message : Command → Message
  | .ping => ⟨1, "Ping", "control-ping", [], by decide⟩
  | .shutdown => ⟨2, "Shutdown", "control-shutdown", [], by decide⟩
  | .status => ⟨3, "Status", "control-status", [], by decide⟩
  | .lookup => ⟨4, "Lookup", "lookup", [⟨"cache_key", 1, .text⟩], by decide⟩
  | .store =>
    ⟨5, "Store", "store", [⟨"cache_key", 1, .text⟩, ⟨"artifact", 2, .artifact⟩], by decide⟩
  | .sessionStart => ⟨6, "SessionStart", "session-start",
      [⟨"client_pid", 1, .uint32⟩, ⟨"working_dir", 2, .path⟩, ⟨"log_file", 3, .optionalPath⟩,
        ⟨"track_stats", 4, .flag⟩, ⟨"journal_path", 5, .optionalPath⟩, ⟨"profile", 6, .flag⟩,
        ⟨"private_daemon", 7, .privateDaemon⟩], by decide⟩
  | .compile => ⟨7, "Compile", "compile",
      [⟨"session_id", 1, .text⟩, ⟨"args", 2, .texts⟩, ⟨"cwd", 3, .path⟩, ⟨"compiler", 4, .path⟩,
        ⟨"env", 5, .optionalEnv⟩, ⟨"stdin", 7, .blob⟩], by decide⟩
  | .sessionEnd => ⟨8, "SessionEnd", "session-end", [⟨"session_id", 1, .text⟩], by decide⟩
  | .clear => ⟨9, "Clear", "control-clear", [], by decide⟩
  | .compileEphemeral => ⟨10, "CompileEphemeral", "compile-ephemeral",
      [⟨"client_pid", 1, .uint32⟩, ⟨"working_dir", 2, .path⟩, ⟨"compiler", 3, .path⟩,
        ⟨"args", 4, .texts⟩, ⟨"cwd", 5, .path⟩, ⟨"env", 6, .optionalEnv⟩,
        ⟨"stdin", 8, .blob⟩], by decide⟩
  | .linkEphemeral => ⟨11, "LinkEphemeral", "link-ephemeral",
      [⟨"client_pid", 1, .uint32⟩, ⟨"tool", 2, .path⟩, ⟨"args", 3, .texts⟩, ⟨"cwd", 4, .path⟩,
        ⟨"env", 5, .optionalEnv⟩], by decide⟩
  | .sessionStats => ⟨12, "SessionStats", "session-stats", [⟨"session_id", 1, .text⟩], by decide⟩
  | .fingerprintCheck => ⟨13, "FingerprintCheck", "fingerprint-check",
      [⟨"cache_file", 1, .path⟩, ⟨"cache_type", 2, .text⟩, ⟨"root", 3, .path⟩,
        ⟨"extensions", 4, .texts⟩, ⟨"include_globs", 5, .texts⟩, ⟨"exclude", 6, .texts⟩], by decide⟩
  | .fingerprintMarkSuccess => ⟨14, "FingerprintMarkSuccess", "fingerprint-mark-success",
      [⟨"cache_file", 1, .path⟩], by decide⟩
  | .fingerprintMarkFailure => ⟨15, "FingerprintMarkFailure", "fingerprint-mark-failure",
      [⟨"cache_file", 1, .path⟩], by decide⟩
  | .fingerprintInvalidate => ⟨16, "FingerprintInvalidate", "fingerprint-invalidate",
      [⟨"cache_file", 1, .path⟩], by decide⟩
  | .listRustArtifacts => ⟨17, "ListRustArtifacts", "list-rust-artifacts", [], by decide⟩
  | .genericToolExec => ⟨18, "GenericToolExec", "generic-tool-exec",
      [⟨"tool", 1, .path⟩, ⟨"args", 2, .texts⟩, ⟨"cwd", 3, .path⟩, ⟨"env", 4, .env⟩,
        ⟨"input_files", 5, .paths⟩, ⟨"input_extra", 6, .blob⟩, ⟨"output_streams", 7, .streams⟩,
        ⟨"output_files", 8, .paths⟩, ⟨"tool_hash", 9, .toolHash⟩,
        ⟨"cache_policy", 10, .cachePolicy⟩, ⟨"cwd_in_key", 11, .flag⟩,
        ⟨"include_scan_files", 12, .paths⟩, ⟨"include_dirs", 13, .paths⟩,
        ⟨"system_include_dirs", 14, .paths⟩, ⟨"iquote_dirs", 15, .paths⟩,
        ⟨"depfile", 16, .optionalPath⟩, ⟨"non_deterministic", 17, .flag⟩,
        ⟨"key_args_filter", 18, .texts⟩], by decide⟩
  | .releaseWorktreeHandles => ⟨19, "ReleaseWorktreeHandles", "control-release-worktree-handles",
      [⟨"path", 1, .path⟩], by decide⟩
  | .execProbe => ⟨20, "ExecProbe", "exec-probe",
      [⟨"name", 1, .text⟩, ⟨"input_files", 2, .paths⟩, ⟨"input_env", 3, .env⟩,
        ⟨"input_extra", 4, .blob⟩], by decide⟩
  | .execStore => ⟨21, "ExecStore", "exec-store",
      [⟨"cache_key_hex", 1, .text⟩, ⟨"result_bytes", 2, .blob⟩], by decide⟩

def Record (V : Kind → Type) : List MessageField → Type
  | [] => Unit
  | f :: fs => V f.kind × Record V fs

abbrev Request := (c : Command) × Record Kind.Value c.message.fields

structure V1.Request where
  body : Option ((c : Command) × Record Kind.Prost c.message.fields)
  requestId : Text

abbrev Converted := Except String

def required {α : Type} (field : String) (value : Option α) : Converted α :=
  orFail ("missing required v16 prost field " ++ field) value

def pathToProst (path : NormalizedPath) : Text :=
  path.caseKey

def pathFromProst (path : Text) : NormalizedPath :=
  .new path

def optionalEnvToProst : Option Env → Env × Bool
  | some env => (env, true)
  | none => ([], false)

def optionalEnvFromProst (env : Env × Bool) : Option Env :=
  if env.2 then some env.1 else none

def execCachePolicyToProst : ExecCachePolicy → Int32
  | .normal => 1
  | .bypass => 2
  | .readOnly => 3

def execCachePolicyFromProst (policy : Int32) : Converted ExecCachePolicy :=
  if policy = 1 then .ok .normal
  else if policy = 2 then .ok .bypass
  else if policy = 3 then .ok .readOnly
  else .error ("invalid v16 prost GenericToolExec.cache_policy value " ++ toString policy.toInt ++
    "; expected Normal, Bypass, or ReadOnly")

def toolHashFromProst : Option Bytes → Converted (Option (List.Vector UInt8 32))
  | none => .ok none
  | some bytes =>
    if h : bytes.length = 32 then .ok (some ⟨bytes, h⟩)
    else .error ("invalid v16 prost GenericToolExec.tool_hash length " ++
      toString bytes.length ++ "; expected 32 bytes")

def artifactPayloadToProst : ArtifactPayload NormalizedPath → ArtifactPayload Text
  | .bytes bytes => .bytes bytes
  | .path path => .path (pathToProst path)

def artifactPayloadFromProst :
    Option (ArtifactPayload Text) → Converted (ArtifactPayload NormalizedPath)
  | some (.bytes bytes) => .ok (.bytes bytes)
  | some (.path path) => .ok (.path (pathFromProst path))
  | none => .error "missing required v16 prost field ArtifactPayload.body"

def artifactOutputToProst (output : ArtifactOutput (ArtifactPayload NormalizedPath)) :
    ArtifactOutput (Option (Option (ArtifactPayload Text))) :=
  ⟨output.name, some (some (artifactPayloadToProst output.payload))⟩

def artifactOutputFromProst (output : ArtifactOutput (Option (Option (ArtifactPayload Text)))) :
    Converted (ArtifactOutput (ArtifactPayload NormalizedPath)) := do
  let payload ← required "ArtifactOutput.payload" output.payload
  let payload ← artifactPayloadFromProst payload
  pure ⟨output.name, payload⟩

def artifactDataToProst (artifact : ArtifactData (ArtifactPayload NormalizedPath)) :
    ArtifactData (Option (Option (ArtifactPayload Text))) :=
  { artifact with outputs := artifact.outputs.map artifactOutputToProst }

def artifactDataFromProst (artifact : ArtifactData (Option (Option (ArtifactPayload Text)))) :
    Converted (ArtifactData (ArtifactPayload NormalizedPath)) := do
  let outputs ← artifact.outputs.mapM artifactOutputFromProst
  pure { artifact with outputs }

def privateDaemonSessionOptionsToProst (options : PrivateDaemonSessionOptions NormalizedPath) :
    PrivateDaemonSessionOptions Text :=
  { options with cacheDir := options.cacheDir.map pathToProst }

def privateDaemonSessionOptionsFromProst (options : PrivateDaemonSessionOptions Text) :
    PrivateDaemonSessionOptions NormalizedPath :=
  { options with cacheDir := options.cacheDir.map pathFromProst }

def Kind.toProst : (k : Kind) → k.Value → k.Prost
  | .text, v | .texts, v | .blob, v | .flag, v | .uint32, v | .env, v => v
  | .path, v => some (pathToProst v)
  | .optionalPath, v => Option.map pathToProst v
  | .paths, v => List.map pathToProst v
  | .optionalEnv, v => optionalEnvToProst v
  | .artifact, v => some (artifactDataToProst v)
  | .privateDaemon, v => Option.map privateDaemonSessionOptionsToProst v
  | .streams, v => some v
  | .toolHash, v => Option.map List.Vector.toList v
  | .cachePolicy, v => execCachePolicyToProst v

def Kind.fromProst (field : String) : (k : Kind) → k.Prost → Converted k.Value
  | .text, v | .texts, v | .blob, v | .flag, v | .uint32, v | .env, v => .ok v
  | .path, v => pathFromProst <$> required field v
  | .optionalPath, v => .ok (Option.map pathFromProst v)
  | .paths, v => .ok (List.map pathFromProst v)
  | .optionalEnv, v => .ok (optionalEnvFromProst v)
  | .artifact, v => required field v >>= artifactDataFromProst
  | .privateDaemon, v => .ok (Option.map privateDaemonSessionOptionsFromProst v)
  | .streams, v => required field v
  | .toolHash, v => toolHashFromProst v
  | .cachePolicy, v => execCachePolicyFromProst v

def Record.toProst : {fs : List MessageField} → Record Kind.Value fs → Record Kind.Prost fs
  | [], _ => ()
  | f :: _, (v, r) => (f.kind.toProst v, Record.toProst r)

def Record.fromProst (message : String) :
    {fs : List MessageField} → Record Kind.Prost fs → Converted (Record Kind.Value fs)
  | [], _ => .ok ()
  | f :: _, (v, r) => do
    let v ← f.kind.fromProst (message ++ "." ++ f.name) v
    let r ← Record.fromProst message r
    pure (v, r)

def requestToProst (request : Request) (requestId : Text) : V1.Request :=
  ⟨some ⟨request.1, request.2.toProst⟩, requestId⟩

def requestFromProst (request : V1.Request) : Converted Request :=
  match request.body with
  | some ⟨c, r⟩ => Sigma.mk c <$> r.fromProst c.message.name
  | none => .error "v16 prost request is missing its request body"

def toProst (request : Request) : V1.Request :=
  requestToProst request request.1.message.requestId.toList

@[simp] theorem required_some {α : Type} (field : String) (value : α) :
    required field (some value) = .ok value := rfl

@[simp] theorem pathFromProst_pathToProst (path : NormalizedPath) :
    pathFromProst (pathToProst path) = path :=
  path.new_caseKey

@[simp] theorem pathFromProst_comp_pathToProst : pathFromProst ∘ pathToProst = id :=
  funext pathFromProst_pathToProst

theorem artifactOutputFromProst_artifactOutputToProst
    (output : ArtifactOutput (ArtifactPayload NormalizedPath)) :
    artifactOutputFromProst (artifactOutputToProst output) = .ok output := by
  obtain ⟨name, payload⟩ := output
  cases payload with
  | bytes bytes => rfl
  | path path =>
    simp [artifactOutputFromProst, artifactOutputToProst, artifactPayloadToProst,
      artifactPayloadFromProst]

theorem artifactDataFromProst_artifactDataToProst
    (artifact : ArtifactData (ArtifactPayload NormalizedPath)) :
    artifactDataFromProst (artifactDataToProst artifact) = .ok artifact := by
  have houts : (artifact.outputs.map artifactOutputToProst).mapM artifactOutputFromProst =
      .ok artifact.outputs := by
    rw [mapM_eq_ok, List.forall₂_map_left_iff, List.forall₂_same]
    intro output _
    exact artifactOutputFromProst_artifactOutputToProst output
  simp [artifactDataFromProst, artifactDataToProst, houts]

theorem privateDaemonSessionOptionsFromProst_toProst
    (options : PrivateDaemonSessionOptions NormalizedPath) :
    privateDaemonSessionOptionsFromProst (privateDaemonSessionOptionsToProst options) =
      options := by
  simp [privateDaemonSessionOptionsFromProst, privateDaemonSessionOptionsToProst]

theorem Kind.fromProst_toProst (field : String) (k : Kind) (v : k.Value) :
    k.fromProst field (k.toProst v) = .ok v := by
  cases k with
  | text | texts | blob | flag | uint32 | env | streams => rfl
  | path => exact congrArg Except.ok (pathFromProst_pathToProst v)
  | optionalPath =>
    have hmap : ∀ v : Option NormalizedPath, (v.map pathToProst).map pathFromProst = v := by simp
    exact congrArg Except.ok (hmap v)
  | paths =>
    have hmap : ∀ v : List NormalizedPath, (v.map pathToProst).map pathFromProst = v := by simp
    exact congrArg Except.ok (hmap v)
  | optionalEnv | cachePolicy => cases v <;> rfl
  | artifact => exact artifactDataFromProst_artifactDataToProst v
  | privateDaemon =>
    cases v with
    | none => rfl
    | some options =>
      exact congrArg (Except.ok ∘ some) (privateDaemonSessionOptionsFromProst_toProst options)
  | toolHash =>
    cases v with
    | none => rfl
    | some hash => exact dif_pos hash.2

theorem Record.fromProst_toProst (message : String) {fs : List MessageField}
    (r : Record Kind.Value fs) : r.toProst.fromProst message = .ok r := by
  induction fs with
  | nil => rfl
  | cons f fs ih =>
    obtain ⟨v, r⟩ := r
    simp only [Record.toProst, Record.fromProst, Kind.fromProst_toProst, ih]
    rfl

theorem requestFromProst_toProst (request : Request) :
    requestFromProst (toProst request) = .ok request := by
  simp only [requestFromProst, toProst, requestToProst, Record.fromProst_toProst]
  rfl

end Zccache.Wire
