/-
  PlezyRelay/Protocol.lean
  ========================
  **Wire protocol, identifiers and client-visible errors** — the data model of
  `protocol.rs`, `ids.rs` and `error.rs`.

  A message type is an enumeration here, where the source compares strings: the
  only string outside the enumeration a client can send is kept in
  `ClientType.other`, and it is answered with `Unknown message type`.  Error codes
  and error texts are the source's own strings, since replies carry them.

  Base64 decoding and SHA-256 come from third-party crates, so they are the
  parameters `TokenCodec` of everything that touches a reconnect token.

  Times: an `Instant` counts nanoseconds on the monotonic clock from an arbitrary
  origin, a `SystemTime` counts nanoseconds from the Unix epoch and may be
  negative, and a `Duration` is a number of nanoseconds.
-/
import Mathlib.Data.List.AList

namespace PlezyRelay

/-! ### Clocks -/

abbrev Duration := Nat
abbrev Instant := Nat
abbrev SystemTime := Int

def secs (n : Nat) : Duration := n * 1000000000

/-- `later.duration_since(earlier).unwrap_or_default()`: zero when the wall clock
    went backwards. -/
def SystemTime.durationSince (later earlier : SystemTime) : Duration :=
  (later - earlier).toNat

/-- `later.saturating_duration_since(earlier)` on the monotonic clock. -/
def Instant.saturatingDurationSince (later earlier : Instant) : Duration :=
  later - earlier

/-! ### Limits -/

def RELAY_PROTOCOL_VERSION : Nat := 2
def MAX_ROOM_SIZE : Nat := 8
def MAX_SESSION_ID_LENGTH : Nat := 64
def MAX_PEER_ID_LENGTH : Nat := 128
def RECONNECT_TOKEN_BYTES : Nat := 32

def supportedProtocolVersion (version : Nat) : Bool :=
  version == RELAY_PROTOCOL_VERSION

/-! ### Messages -/

/-- Client message types; `other` is any type string the protocol does not know. -/
inductive ClientType where
  | create | join | resume | broadcast | sendTo | ping | leave | endSession | transferHost
  | other (text : String)
deriving DecidableEq

/-- Server message types. -/
inductive ServerType where
  | created | joined | resumed | peerJoined | peerLeft | message | error | pong | left | ended
  | hostChanged | hostTransferEligibility
deriving DecidableEq

/-- An uninterpreted JSON payload, kept as the text it arrived as. -/
abbrev Payload := String

def RELAY_FEATURES : List String := ["atomicHostTransfer", "authenticatedResume"]

def relayFeatures : List String := RELAY_FEATURES

/-- The capability a client declares to take part in host transfers. -/
def HOST_TRANSFER : String := "hostTransfer"

structure ClientMessage where
  msgType : ClientType
  sessionId : String := ""
  peerId : String := ""
  reconnectToken : String := ""
  protocolVersion : Nat := 0
  syncProtocolVersion : Int := 0
  capabilities : List String := []
  target : String := ""   -- the source's `to`, a Lean keyword
  payload : Option Payload := none
deriving DecidableEq

structure ServerMessage where
  msgType : ServerType
  sessionId : Option String := none
  peerId : Option String := none
  hostPeerId : Option String := none
  reconnectToken : Option String := none
  protocolVersion : Nat := 0
  sender : Option String := none   -- the source's `from`, a Lean keyword
  peers : Option (List String) := none
  features : Option (List String) := none
  hostTransferTargets : Option (List String) := none
  code : Option String := none
  message : Option String := none
  payload : Option Payload := none
deriving DecidableEq

/-! ### Errors -/

inductive ClientError where
  | rateLimited | invalidMessage | roomExists | roomNotFound | roomFull | notInRoom
  | alreadyInRoom | peerIdUnavailable | protocolMismatch | notHost | peerNotFound
  | hostTransferUnavailable
deriving DecidableEq

def ClientError.code : ClientError → String
  | .rateLimited => "rate_limited"
  | .invalidMessage => "invalid_message"
  | .roomExists => "room_exists"
  | .roomNotFound => "room_not_found"
  | .roomFull => "room_full"
  | .notInRoom => "not_in_room"
  | .alreadyInRoom => "already_in_room"
  | .peerIdUnavailable => "peer_id_unavailable"
  | .protocolMismatch => "protocol_mismatch"
  | .notHost => "not_host"
  | .peerNotFound => "peer_not_found"
  | .hostTransferUnavailable => "host_transfer_unavailable"

/-- `ServerMessage::error`. -/
def ServerMessage.error (code message : String) : ServerMessage :=
  { msgType := .error, code := some code, message := some message }

def ClientError.intoMessage (err : ClientError) (text : String) : ServerMessage :=
  ServerMessage.error err.code text

/-! ### Identifiers -/

/-- `u8::is_ascii_alphanumeric`. -/
def isAsciiAlphanumeric (b : UInt8) : Bool :=
  (48 ≤ b && b ≤ 57) || (65 ≤ b && b ≤ 90) || (97 ≤ b && b ≤ 122)

/-- `^[A-Za-z0-9_-]+$` with at most `maxLength` bytes. -/
def validId (value : String) (maxLength : Nat) : Bool :=
  if value.isEmpty || maxLength < value.utf8ByteSize then false
  else value.toUTF8.data.toList.all fun b => isAsciiAlphanumeric b || b == 95 || b == 45

def validSessionAndPeerId (sessionId peerId : String) : Bool :=
  validId sessionId MAX_SESSION_ID_LENGTH && validId peerId MAX_PEER_ID_LENGTH

theorem validId_ne_empty {value : String} {maxLength : Nat} (h : validId value maxLength = true) :
    value ≠ "" := by
  rintro rfl
  simp [validId] at h

theorem size_le_of_validId {value : String} {maxLength : Nat}
    (h : validId value maxLength = true) : value.utf8ByteSize ≤ maxLength := by
  unfold validId at h
  split at h
  · cases h
  · rename_i hsize
    simp only [Bool.or_eq_true, decide_eq_true_eq, not_or, not_lt] at hsize
    exact hsize.2

/-! ### Reconnect tokens -/

/-- The third-party codecs a token goes through: URL-safe unpadded base64 and
    SHA-256. -/
class TokenCodec where
  decode : String → Option (List UInt8)
  encode : List UInt8 → String
  sha256 : List UInt8 → Vector UInt8 32

/-- SHA-256 of a reconnect token's raw bytes. -/
structure Verifier where
  bytes : Vector UInt8 32
deriving DecidableEq

def RECONNECT_TOKEN_ENCODED_LEN : Nat := (RECONNECT_TOKEN_BYTES * 4 + 2) / 3

/-- Constant-time comparison; its value is equality of the digests. -/
def Verifier.matches (self other : Verifier) : Bool := self.bytes == other.bytes

@[simp] theorem Verifier.matches_iff {v w : Verifier} : v.matches w = true ↔ v = w := by
  cases v; cases w; simp [Verifier.matches]

section Codec

variable [TokenCodec]

def Verifier.fromRawBytes (raw : List UInt8) : Verifier := ⟨TokenCodec.sha256 raw⟩

def Verifier.fromToken (token : String) : Option Verifier :=
  if token.utf8ByteSize ≠ RECONNECT_TOKEN_ENCODED_LEN then none
  else
    match TokenCodec.decode token with
    | none => none
    | some raw =>
        if raw.length ≠ RECONNECT_TOKEN_BYTES then none
        else some (Verifier.fromRawBytes raw)

def Verifier.encode (self : Verifier) : String := TokenCodec.encode self.bytes.toList

/-- Restores a verifier from its persisted form. -/
def Verifier.fromEncoded (encoded : String) : Option Verifier :=
  match TokenCodec.decode encoded with
  | none => none
  | some raw => if h : raw.toArray.size = 32 then some ⟨⟨raw.toArray, h⟩⟩ else none

/-- The authorization test every token check of the room performs:
    `presented.map(|v| verifier.matches(&v)).unwrap_or(false)`. -/
def Verifier.accepts (self : Verifier) (presented : Option Verifier) : Bool :=
  (presented.map self.matches).getD false

omit [TokenCodec] in
@[simp] theorem Verifier.accepts_iff {v : Verifier} {presented : Option Verifier} :
    v.accepts presented = true ↔ presented = some v := by
  cases presented with
  | none => simp [Verifier.accepts]
  | some w =>
      simp only [Verifier.accepts, Option.map_some, Option.getD_some, Verifier.matches_iff,
        Option.some.injEq]
      exact eq_comm

end Codec

/-! ### A codec for worked runs -/

/-- The tokens of 32 bytes `0x01` and of 32 bytes `0x02`. -/
def tokenOnes : String := "AQEBAQEBAQEBAQEBAQEBAQEBAQEBAQEBAQEBAQEBAQE"
def tokenTwos : String := "AgICAgICAgICAgICAgICAgICAgICAgICAgICAgICAgI"

def digestOnes : Vector UInt8 32 :=
  #v[114, 205, 110, 132, 34, 196, 7, 251, 109, 9, 134, 144, 241, 19, 11, 125, 237, 126, 194, 247,
    245, 225, 211, 11, 217, 213, 33, 240, 21, 54, 55, 147]
def digestTwos : Vector UInt8 32 :=
  #v[117, 135, 123, 180, 29, 57, 59, 95, 184, 69, 92, 230, 14, 205, 141, 218, 0, 29, 6, 49, 100,
    150, 177, 77, 250, 127, 137, 86, 86, 238, 202, 74]

/-- Base64 and SHA-256 on these two tokens and their digests. -/
def sampleCodec : TokenCodec where
  decode text :=
    if text = tokenOnes then some (List.replicate 32 1)
    else if text = tokenTwos then some (List.replicate 32 2)
    else if text = "cs1uhCLEB_ttCYaQ8RMLfe1-wvf14dML2dUh8BU2N5M" then some digestOnes.toList
    else if text = "dYd7tB05O1-4RVzmDs2N2gAdBjFklrFN-n-JVlbuyko" then some digestTwos.toList
    else none
  encode bytes :=
    if bytes = digestOnes.toList then "cs1uhCLEB_ttCYaQ8RMLfe1-wvf14dML2dUh8BU2N5M"
    else if bytes = digestTwos.toList then "dYd7tB05O1-4RVzmDs2N2gAdBjFklrFN-n-JVlbuyko"
    else ""
  sha256 raw := if raw = List.replicate 32 1 then digestOnes else digestTwos

end PlezyRelay
