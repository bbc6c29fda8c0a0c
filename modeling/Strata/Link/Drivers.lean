import Mathlib.Tactic
import Mathlib.Logic.Function.Basic
import Strata.Lib.Machine
import Strata.Lib.Tables
import Strata.Link.Frame

/-! The two drivers of the handshake (`link.rs`) as a world of parallel sessions. Each event
is one wake-up of one session: what it reads is up to the network, and so is whether its
write goes through. Nonces and clocks come with the event that asks for them. -/

namespace Strata.Link

open Utf8 (Text Bytes)
open Tables (Table)

structure ClientHandshakeConfig where
  clusterId : Text
  nodeId : Text
  softwareVersion : Text
  psks : Table Text Bytes

structure LinkAccepted where
  linkId : Text
  remoteSoftwareVersion : Option Text
  deriving DecidableEq, Repr

structure ServerHandshakeConfig where
  pskId : Text
  psks : Table Text Bytes
  linkId : Text
  softwareVersion : Text

structure LinkPeer where
  clusterId : Text
  nodeId : Text
  softwareVersion : Text
  deriving DecidableEq, Repr

/-- What a driver fails with: an error of the frame codec or of the handshake, or one of the
`AuthFailed` texts of `link.rs`. -/
inductive LinkError where
  | frame (why : FrameError)
  | protocol (why : ProtocolError)
  | pskNotConfigured (pskId : Text)
  | pskMissing (pskId : Text)
  | rejected (reason : Text)
  | timedOut
  deriving DecidableEq, Repr

def AuthHello.texts (hello : AuthHello) : List Text :=
  [hello.protocolVersion, hello.clusterId, hello.nodeId, hello.softwareVersion,
    hello.clientNonceB64]

def AuthChallenge.texts (challenge : AuthChallenge) : List Text :=
  [challenge.serverNonceB64, challenge.pskId]

def AuthResponse.texts (response : AuthResponse) : List Text := [response.macB64]

def AuthOutcome.texts : AuthOutcome → List Text
  | .accept linkId softwareVersion => linkId :: softwareVersion.toList
  | .reject reason => [reason]

/-- The third-party code both drivers run on. -/
structure Suite where
  hmac : Bytes → Bytes → Bytes
  base64 : Base64.Codec
  hello : Json AuthHello AuthHello.texts
  challenge : Json AuthChallenge AuthChallenge.texts
  response : Json AuthResponse AuthResponse.texts
  outcome : Json AuthOutcome AuthOutcome.texts

inductive ClientPhase where
  | awaitingChallenge
  | awaitingOutcome
  | finished (result : Except LinkError LinkAccepted)

structure ClientSession where
  cfg : ClientHandshakeConfig
  hello : AuthHello
  phase : ClientPhase

inductive ServerPhase where
  | awaitingHello
  | awaitingResponse (hello : AuthHello) (challenge : AuthChallenge) (psk : Bytes)
  | finished (result : Except LinkError LinkPeer)

structure ServerSession where
  cfg : ServerHandshakeConfig
  phase : ServerPhase

structure Answer where
  cfg : ClientHandshakeConfig
  hello : AuthHello
  challenge : AuthChallenge
  psk : Bytes
  response : AuthResponse

structure Acceptance where
  session : Nat
  hello : AuthHello
  challenge : AuthChallenge
  psk : Bytes
  response : AuthResponse

def Acceptance.peer (acceptance : Acceptance) : LinkPeer where
  clusterId := acceptance.hello.clusterId
  nodeId := acceptance.hello.nodeId
  softwareVersion := acceptance.hello.softwareVersion

/-- Every session there is, and the history of nonces, answers and acceptances. -/
structure World where
  clients : Nat → Option ClientSession
  servers : Nat → Option ServerSession
  generated : List Bytes
  answered : List Answer
  accepted : List Acceptance

def World.empty : World where
  clients := fun _ => none
  servers := fun _ => none
  generated := []
  answered := []
  accepted := []

inductive Event where
  | clientStart (id : Nat) (cfg : ClientHandshakeConfig) (nonce : Bytes) (nowMs : Int64) (up : Bool)
  | clientReads (id : Nat) (input : Bytes) (up : Bool)
  | clientTimesOut (id : Nat)
  | serverStart (id : Nat) (cfg : ServerHandshakeConfig)
  | serverReadsHello (id : Nat) (input nonce : Bytes) (up : Bool)
  | serverReadsResponse (id : Nat) (input : Bytes) (nowMs : Int64) (up : Bool)
  | serverTimesOut (id : Nat)

section
variable (suite : Suite)

def clientHello (cfg : ClientHandshakeConfig) (nonce : Bytes) (nowMs : Int64) : AuthHello where
  protocolVersion := protocolVersionStr
  clusterId := cfg.clusterId
  nodeId := cfg.nodeId
  softwareVersion := cfg.softwareVersion
  clientNonceB64 := suite.base64.encode nonce
  timestampMs := nowMs

def clientAnswer (cfg : ClientHandshakeConfig) (hello : AuthHello) (input : Bytes) :
    Except LinkError Answer := do
  let challenge ← (readFrame suite.challenge input).mapError .frame
  match cfg.psks.lookup challenge.pskId with
  | none => .error (.pskNotConfigured challenge.pskId)
  | some psk =>
      let response ←
        (computeResponse suite.hmac suite.base64 hello challenge psk).mapError .protocol
      .ok { cfg, hello, challenge, psk, response }

def clientOutcome (input : Bytes) : Except LinkError LinkAccepted := do
  match ← (readFrame suite.outcome input).mapError .frame with
  | .accept linkId softwareVersion => .ok { linkId, remoteSoftwareVersion := softwareVersion }
  | .reject reason => .error (.rejected reason)

def serverChallenge (cfg : ServerHandshakeConfig) (input nonce : Bytes) :
    Except LinkError (AuthHello × AuthChallenge × Bytes) := do
  let hello ← (readFrame suite.hello input).mapError .frame
  match cfg.psks.lookup cfg.pskId with
  | none => .error (.pskMissing cfg.pskId)
  | some psk =>
      .ok (hello, { serverNonceB64 := suite.base64.encode nonce, pskId := cfg.pskId }, psk)

end

def World.setClient (world : World) (id : Nat) (session : ClientSession) : World :=
  { world with clients := Function.update world.clients id (some session) }

def World.setServer (world : World) (id : Nat) (session : ServerSession) : World :=
  { world with servers := Function.update world.servers id (some session) }

def step (suite : Suite) (world : World) : Event → World × List Bytes
  | .clientStart id cfg nonce nowMs up =>
      if (world.clients id).isSome then (world, [])
      else
        let hello := clientHello suite cfg nonce nowMs
        let drawn := { world with generated := nonce :: world.generated }
        match writeFrame suite.hello hello up with
        | .error why => (drawn.setClient id ⟨cfg, hello, .finished (.error (.frame why))⟩, [])
        | .ok frame => (drawn.setClient id ⟨cfg, hello, .awaitingChallenge⟩, [frame])
  | .clientReads id input up =>
      match world.clients id with
      | some ⟨cfg, hello, .awaitingChallenge⟩ =>
          match clientAnswer suite cfg hello input with
          | .error why => (world.setClient id ⟨cfg, hello, .finished (.error why)⟩, [])
          | .ok answer =>
              let logged := { world with answered := answer :: world.answered }
              match writeFrame suite.response answer.response up with
              | .error why =>
                  (logged.setClient id ⟨cfg, hello, .finished (.error (.frame why))⟩, [])
              | .ok frame => (logged.setClient id ⟨cfg, hello, .awaitingOutcome⟩, [frame])
      | some ⟨cfg, hello, .awaitingOutcome⟩ =>
          (world.setClient id ⟨cfg, hello, .finished (clientOutcome suite input)⟩, [])
      | _ => (world, [])
  | .clientTimesOut id =>
      match world.clients id with
      | none | some ⟨_, _, .finished _⟩ => (world, [])
      | some ⟨cfg, hello, _⟩ =>
          (world.setClient id ⟨cfg, hello, .finished (.error .timedOut)⟩, [])
  | .serverStart id cfg =>
      if (world.servers id).isSome then (world, [])
      else (world.setServer id ⟨cfg, .awaitingHello⟩, [])
  | .serverReadsHello id input nonce up =>
      match world.servers id with
      | some ⟨cfg, .awaitingHello⟩ =>
          match serverChallenge suite cfg input nonce with
          | .error why => (world.setServer id ⟨cfg, .finished (.error why)⟩, [])
          | .ok (hello, challenge, psk) =>
              let drawn := { world with generated := nonce :: world.generated }
              match writeFrame suite.challenge challenge up with
              | .error why => (drawn.setServer id ⟨cfg, .finished (.error (.frame why))⟩, [])
              | .ok frame =>
                  (drawn.setServer id ⟨cfg, .awaitingResponse hello challenge psk⟩, [frame])
      | _ => (world, [])
  | .serverReadsResponse id input nowMs up =>
      match world.servers id with
      | some ⟨cfg, .awaitingResponse hello challenge psk⟩ =>
          match readFrame suite.response input with
          | .error why => (world.setServer id ⟨cfg, .finished (.error (.frame why))⟩, [])
          | .ok response =>
              match verifyResponse suite.hmac suite.base64 hello challenge response psk nowMs with
              | .ok () =>
                  let acceptance : Acceptance := ⟨id, hello, challenge, psk, response⟩
                  let logged := { world with accepted := acceptance :: world.accepted }
                  let outcome := .accept cfg.linkId (some cfg.softwareVersion)
                  match writeFrame suite.outcome outcome up with
                  | .error why => (logged.setServer id ⟨cfg, .finished (.error (.frame why))⟩, [])
                  | .ok frame =>
                      (logged.setServer id ⟨cfg, .finished (.ok acceptance.peer)⟩, [frame])
              | .error why =>
                  -- the rejection is sent without looking at whether it went out
                  let outcome := .reject "authentication failed".toList
                  (world.setServer id ⟨cfg, .finished (.error (.protocol why))⟩,
                    (writeFrame suite.outcome outcome up).toOption.toList)
      | _ => (world, [])
  | .serverTimesOut id =>
      match world.servers id with
      | none | some ⟨_, .finished _⟩ => (world, [])
      | some ⟨cfg, _⟩ => (world.setServer id ⟨cfg, .finished (.error .timedOut)⟩, [])

end Strata.Link
