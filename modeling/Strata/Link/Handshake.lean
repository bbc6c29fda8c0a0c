import Mathlib.Tactic
import Strata.Lib.Base64
import Strata.Lib.Framing
import Strata.Link.Skew

/-! The challenge-response of the link handshake (`handshake.rs`): the transcript
both peers compute a MAC over, the response, and its verification. HMAC-SHA-256 and
base64 are parameters; a hypothesis says where HMAC is taken to be injective. -/

namespace Strata.Link

open Utf8 (Text Bytes)
open Framing (putBigEndian field fields)

def protocolVersionStr : Text := "strata-link/1.0".toList

def nonceLen : Nat := 32

def handshakeMaxSkewMs : Int64 := 30000

structure AuthHello where
  protocolVersion : Text
  clusterId : Text
  nodeId : Text
  softwareVersion : Text
  clientNonceB64 : Text
  timestampMs : Int64
  deriving DecidableEq, Repr

structure AuthChallenge where
  serverNonceB64 : Text
  pskId : Text
  deriving DecidableEq, Repr

structure AuthResponse where
  macB64 : Text
  deriving DecidableEq, Repr

inductive AuthOutcome where
  | accept (linkId : Text) (softwareVersion : Option Text)
  | reject (reason : Text)
  deriving DecidableEq, Repr

def transcript (clientNonce serverNonce : Bytes) (clusterId nodeId : Text) (timestampMs : Int64)
    (pskId : Text) : Bytes :=
  fields [Utf8.encode protocolVersionStr, clientNonce, serverNonce, Utf8.encode clusterId,
    Utf8.encode nodeId, putBigEndian 8 timestampMs.toUInt64.toNat, Utf8.encode pskId]

section
variable (hmac : Bytes → Bytes → Bytes) (base64 : Base64.Codec)

def decoded (name encoded : Text) : Except ProtocolError Bytes :=
  match base64.decode encoded with
  | some bytes => .ok bytes
  | none => .error (.malformed name)

/-- Both sides decode the two nonces, then look at their lengths. -/
def nonces (hello : AuthHello) (challenge : AuthChallenge) :
    Except ProtocolError (Bytes × Bytes) := do
  let clientNonce ← decoded base64 "client_nonce_b64".toList hello.clientNonceB64
  let serverNonce ← decoded base64 "server_nonce_b64".toList challenge.serverNonceB64
  if clientNonce.length ≠ nonceLen ∨ serverNonce.length ≠ nonceLen then
    .error (.malformed "nonce length".toList)
  else
    .ok (clientNonce, serverNonce)

def boundInput (hello : AuthHello) (challenge : AuthChallenge) (pair : Bytes × Bytes) : Bytes :=
  transcript pair.1 pair.2 hello.clusterId hello.nodeId hello.timestampMs challenge.pskId

def computeResponse (hello : AuthHello) (challenge : AuthChallenge) (psk : Bytes) :
    Except ProtocolError AuthResponse := do
  let pair ← nonces base64 hello challenge
  .ok { macB64 := base64.encode (hmac psk (boundInput hello challenge pair)) }

def verifyResponse (hello : AuthHello) (challenge : AuthChallenge) (response : AuthResponse)
    (psk : Bytes) (nowMs : Int64) : Except ProtocolError Unit := do
  if hello.protocolVersion ≠ protocolVersionStr then
    .error (.versionMismatch hello.protocolVersion protocolVersionStr)
  else if skewed handshakeMaxSkewMs nowMs hello.timestampMs then
    .error .skew
  else
    let pair ← nonces base64 hello challenge
    let tag ← decoded base64 "mac_b64".toList response.macB64
    if hmac psk (boundInput hello challenge pair) = tag then
      .ok ()
    else
      .error (.authFailed "response mac mismatch".toList)

end

section
variable {hmac : Bytes → Bytes → Bytes} {base64 : Base64.Codec}

theorem nonces_eq_error {hello : AuthHello} {challenge : AuthChallenge} {failure : ProtocolError}
    (failed : nonces base64 hello challenge = .error failure) :
    ∃ what, failure = .malformed what := by
  rw [nonces, decoded, decoded] at failed
  cases client : base64.decode hello.clientNonceB64 with
  | none =>
      simp only [client, bind, Except.bind, Except.error.injEq] at failed
      exact ⟨_, failed.symm⟩
  | some clientNonce =>
      cases server : base64.decode challenge.serverNonceB64 with
      | none =>
          simp only [client, server, bind, Except.bind, Except.error.injEq] at failed
          exact ⟨_, failed.symm⟩
      | some serverNonce =>
          simp only [client, server, bind, Except.bind] at failed
          split at failed
          · exact ⟨_, (Except.error.inj failed).symm⟩
          · cases failed

theorem nonces_eq_ok_iff {hello : AuthHello} {challenge : AuthChallenge} {pair : Bytes × Bytes} :
    nonces base64 hello challenge = .ok pair ↔
      base64.decode hello.clientNonceB64 = some pair.1 ∧
        base64.decode challenge.serverNonceB64 = some pair.2 ∧
        pair.1.length = nonceLen ∧ pair.2.length = nonceLen := by
  rw [nonces, decoded, decoded]
  cases client : base64.decode hello.clientNonceB64 with
  | none => simp [bind, Except.bind]
  | some clientNonce =>
      cases server : base64.decode challenge.serverNonceB64 with
      | none => simp [bind, Except.bind]
      | some serverNonce =>
          obtain ⟨first, second⟩ := pair
          simp only [bind, Except.bind, Option.some.injEq]
          split
          · constructor
            · intro failed
              cases failed
            · rintro ⟨rfl, rfl, sizes⟩
              tauto
          · simp only [Except.ok.injEq, Prod.mk.injEq]
            constructor
            · rintro ⟨rfl, rfl⟩
              tauto
            · rintro ⟨rfl, rfl, -⟩
              exact ⟨rfl, rfl⟩

theorem computeResponse_eq_ok_iff {hello : AuthHello} {challenge : AuthChallenge} {psk : Bytes}
    {response : AuthResponse} :
    computeResponse hmac base64 hello challenge psk = .ok response ↔
      ∃ pair, nonces base64 hello challenge = .ok pair ∧
        response.macB64 = base64.encode (hmac psk (boundInput hello challenge pair)) := by
  rw [computeResponse]
  obtain ⟨macB64⟩ := response
  cases nonces base64 hello challenge with
  | error failure => simp [bind, Except.bind]
  | ok pair => simp [bind, Except.bind, eq_comm]

theorem verifyResponse_eq_ok_iff {hello : AuthHello} {challenge : AuthChallenge}
    {response : AuthResponse} {psk : Bytes} {nowMs : Int64} :
    verifyResponse hmac base64 hello challenge response psk nowMs = .ok () ↔
      hello.protocolVersion = protocolVersionStr ∧
        skewed handshakeMaxSkewMs nowMs hello.timestampMs = false ∧
        ∃ pair, nonces base64 hello challenge = .ok pair ∧
          base64.decode response.macB64 =
            some (hmac psk (boundInput hello challenge pair)) := by
  rw [verifyResponse]
  generalize protocolVersionStr = ours
  by_cases version : hello.protocolVersion = ours
  · rw [if_neg (not_not_intro version)]
    cases late : skewed handshakeMaxSkewMs nowMs hello.timestampMs with
    | true => simp
    | false =>
        cases nonces base64 hello challenge with
        | error failure => simp [bind, Except.bind]
        | ok pair =>
            rw [decoded]
            cases base64.decode response.macB64 with
            | none => simp [bind, Except.bind]
            | some tag =>
                simp only [bind, Except.bind, Bool.false_eq_true, if_false, version, true_and,
                  Option.some.injEq, Except.ok.injEq]
                by_cases same : hmac psk (boundInput hello challenge pair) = tag
                · simp [same]
                · rw [if_neg same]
                  simp [Ne.symm same]
  · rw [if_pos version]
    simp [version]

end

structure Short (hello : AuthHello) (challenge : AuthChallenge) : Prop where
  clusterId : (Utf8.encode hello.clusterId).length < 2 ^ 32
  nodeId : (Utf8.encode hello.nodeId).length < 2 ^ 32
  pskId : (Utf8.encode challenge.pskId).length < 2 ^ 32

structure Agree (base64 : Base64.Codec) (hello other : AuthHello)
    (challenge demanded : AuthChallenge) (psk key : Bytes) : Prop where
  clientNonce : base64.decode hello.clientNonceB64 = base64.decode other.clientNonceB64
  serverNonce : base64.decode challenge.serverNonceB64 = base64.decode demanded.serverNonceB64
  clusterId : hello.clusterId = other.clusterId
  nodeId : hello.nodeId = other.nodeId
  timestampMs : hello.timestampMs = other.timestampMs
  pskId : challenge.pskId = demanded.pskId
  psk : psk = key

theorem bigEndian_timestamp_injective {first second : Int64}
    (same : putBigEndian 8 first.toUInt64.toNat = putBigEndian 8 second.toUInt64.toNat) :
    first = second := by
  have numbers := Framing.putBigEndian_injective first.toUInt64.toNat_lt second.toUInt64.toNat_lt
    same
  have words : first.toUInt64 = second.toUInt64 := UInt64.toNat_inj.mp numbers
  rw [← Int64.toInt64_toUInt64 first, words, Int64.toInt64_toUInt64]

theorem boundInput_fields_short {hello : AuthHello} {challenge : AuthChallenge}
    {pair : Bytes × Bytes} (short : Short hello challenge) (client : pair.1.length = nonceLen)
    (server : pair.2.length = nonceLen) :
    ∀ bytes ∈ [Utf8.encode protocolVersionStr, pair.1, pair.2, Utf8.encode hello.clusterId,
      Utf8.encode hello.nodeId, putBigEndian 8 hello.timestampMs.toUInt64.toNat,
      Utf8.encode challenge.pskId], bytes.length < 2 ^ 32 := by
  have version : (Utf8.encode protocolVersionStr).length < 2 ^ 32 := by decide
  have brief : nonceLen < 2 ^ 32 := by decide
  simp only [List.forall_mem_cons, client, server, Framing.putBigEndian_length]
  refine ⟨version, brief, brief, short.clusterId, short.nodeId, by decide, short.pskId, ?_⟩
  intro bytes member
  cases member

theorem boundInput_injective {hello other : AuthHello} {challenge demanded : AuthChallenge}
    {pair pair' : Bytes × Bytes} (short : Short hello challenge) (brief : Short other demanded)
    (sizes : pair.1.length = nonceLen ∧ pair.2.length = nonceLen)
    (sizes' : pair'.1.length = nonceLen ∧ pair'.2.length = nonceLen)
    (same : boundInput hello challenge pair = boundInput other demanded pair') :
    pair = pair' ∧ hello.clusterId = other.clusterId ∧ hello.nodeId = other.nodeId ∧
      hello.timestampMs = other.timestampMs ∧ challenge.pskId = demanded.pskId := by
  have parts := Framing.fields_injective (by simp)
    (boundInput_fields_short short sizes.1 sizes.2)
    (boundInput_fields_short brief sizes'.1 sizes'.2) same
  simp only [List.cons.injEq, true_and, and_true] at parts
  obtain ⟨client, server, cluster, node, stamp, pskId⟩ := parts
  exact ⟨Prod.ext client server, Utf8.encode_injective cluster, Utf8.encode_injective node,
    bigEndian_timestamp_injective stamp, Utf8.encode_injective pskId⟩

theorem agree_of_accepted {hmac : Bytes → Bytes → Bytes} {base64 : Base64.Codec}
    (injective : Function.Injective2 hmac) {hello other : AuthHello}
    {challenge demanded : AuthChallenge} {psk key : Bytes} {response : AuthResponse} {nowMs : Int64}
    (short : Short hello challenge) (brief : Short other demanded)
    (computed : computeResponse hmac base64 hello challenge psk = .ok response)
    (accepted : verifyResponse hmac base64 other demanded response key nowMs = .ok ()) :
    Agree base64 hello other challenge demanded psk key := by
  obtain ⟨pair, first, mac⟩ := computeResponse_eq_ok_iff.mp computed
  obtain ⟨-, -, pair', second, tag⟩ := verifyResponse_eq_ok_iff.mp accepted
  rw [mac, base64.decode_encode, Option.some.injEq] at tag
  obtain ⟨client, server, sizes⟩ := nonces_eq_ok_iff.mp first
  obtain ⟨client', server', sizes'⟩ := nonces_eq_ok_iff.mp second
  have keys : psk = key := (injective tag).1
  obtain ⟨rfl, cluster, node, stamp, pskId⟩ :=
    boundInput_injective short brief sizes sizes' (injective tag).2
  exact ⟨client.trans client'.symm, server.trans server'.symm, cluster, node, stamp, pskId, keys⟩

theorem accepted_of_agree {hmac : Bytes → Bytes → Bytes} {base64 : Base64.Codec}
    {hello other : AuthHello} {challenge demanded : AuthChallenge} {psk key : Bytes}
    {response : AuthResponse} {nowMs : Int64}
    (computed : computeResponse hmac base64 hello challenge psk = .ok response)
    (agree : Agree base64 hello other challenge demanded psk key)
    (version : other.protocolVersion = protocolVersionStr)
    (near : distance nowMs other.timestampMs ≤ 30000) :
    verifyResponse hmac base64 other demanded response key nowMs = .ok () := by
  obtain ⟨pair, first, mac⟩ := computeResponse_eq_ok_iff.mp computed
  obtain ⟨client, server, sizes⟩ := nonces_eq_ok_iff.mp first
  have second : nonces base64 other demanded = .ok pair := by
    rw [nonces_eq_ok_iff, ← agree.clientNonce, ← agree.serverNonce]
    exact ⟨client, server, sizes⟩
  have inputs : boundInput hello challenge pair = boundInput other demanded pair := by
    rw [boundInput, agree.clusterId, agree.nodeId, agree.timestampMs, agree.pskId, boundInput]
  have intime : skewed handshakeMaxSkewMs nowMs other.timestampMs = false := by
    rw [skewed_eq_false_iff _ _ _ (by decide)]
    exact .inl (Int.ofNat_le.mpr near)
  have tag : base64.decode response.macB64 = some (hmac key (boundInput other demanded pair)) := by
    rw [mac, base64.decode_encode, inputs, agree.psk]
  exact verifyResponse_eq_ok_iff.mpr ⟨version, intime, pair, second, tag⟩

theorem response_accepted_when_ends_agree (hmac : Bytes → Bytes → Bytes) (base64 : Base64.Codec)
    (injective : Function.Injective2 hmac) (hello other : AuthHello)
    (challenge demanded : AuthChallenge) (psk key : Bytes) (response : AuthResponse) (nowMs : Int64)
    (short : Short hello challenge) (brief : Short other demanded)
    (computed : computeResponse hmac base64 hello challenge psk = .ok response) :
    (verifyResponse hmac base64 other demanded response key nowMs = .ok () →
      Agree base64 hello other challenge demanded psk key) ∧
    (Agree base64 hello other challenge demanded psk key →
      other.protocolVersion = protocolVersionStr → distance nowMs other.timestampMs ≤ 30000 →
      verifyResponse hmac base64 other demanded response key nowMs = .ok ()) := by
  constructor
  case left => exact agree_of_accepted injective short brief computed
  case right => exact accepted_of_agree computed

def sampleHello : AuthHello where
  protocolVersion := protocolVersionStr
  clusterId := "production".toList
  nodeId := "internal-1".toList
  softwareVersion := "1.5.0".toList
  clientNonceB64 := "BwcHBwcHBwcHBwcHBwcHBwcHBwcHBwcHBwcHBwcHBwc=".toList
  timestampMs := 1700000000000

def sampleChallenge : AuthChallenge where
  serverNonceB64 := "CQkJCQkJCQkJCQkJCQkJCQkJCQkJCQkJCQkJCQkJCQk=".toList
  pskId := "current".toList

def samplePsk : Bytes := Utf8.encode "shared-link-psk".toList

def sampleInput : Bytes :=
  boundInput sampleHello sampleChallenge (List.replicate 32 7, List.replicate 32 9)

def sampleTag : Bytes :=
  [82, 84, 24, 198, 122, 30, 53, 125, 246, 99, 76, 195, 212, 100, 42, 1, 108, 249, 210, 248, 201,
    68, 94, 103, 118, 207, 211, 125, 15, 214, 216, 28]

def sampleResponse : AuthResponse where
  macB64 := "UlQYxnoeNX32Y0zD1GQqAWz50vjJRF5nds/TfQ/W2Bw=".toList

def joined (key message : Bytes) : Bytes := key.flatMap (fun byte => [1, byte]) ++ 0 :: message

/-- HMAC-SHA-256 on the `samples`, injective elsewhere. -/
def sampledHmac (samples : List ((Bytes × Bytes) × Bytes)) (key message : Bytes) : Bytes :=
  (samples.lookup (key, message)).getD (joined key message)

theorem joined_injective : Function.Injective2 joined := by
  intro key other message text same
  induction key generalizing other with
  | nil =>
      cases other with
      | nil => exact ⟨rfl, (List.cons.inj same).2⟩
      | cons byte rest => simp [joined] at same
  | cons byte rest ih =>
      cases other with
      | nil => simp [joined] at same
      | cons next more =>
          simp only [joined, List.flatMap_cons, List.cons_append, List.nil_append,
            List.cons.injEq, true_and] at same
          obtain ⟨rfl, tails⟩ := same
          obtain ⟨rfl, messages⟩ := ih tails
          exact ⟨rfl, messages⟩

theorem joined_head (key message : Bytes) : (joined key message).headD 0 ≤ 1 := by
  cases key with
  | nil => simp [joined]
  | cons byte rest => simp [joined]

theorem sampledHmac_injective {samples : List ((Bytes × Bytes) × Bytes)}
    (apart : (samples.map (·.2)).Nodup) (marked : ∀ sample ∈ samples, 1 < sample.2.headD 0) :
    Function.Injective2 (sampledHmac samples) := by
  have listed {pair : Bytes × Bytes} {tag : Bytes} (found : samples.lookup pair = some tag) :
      (pair, tag) ∈ samples := by
    obtain ⟨front, back, rfl, -⟩ := List.lookup_eq_some_iff.mp found
    exact List.mem_append_right _ List.mem_cons_self
  have foreign {sample : (Bytes × Bytes) × Bytes} (member : sample ∈ samples)
      (key message : Bytes) : sample.2 ≠ joined key message := by
    intro same
    have head := marked sample member
    rw [same] at head
    exact absurd head (UInt8.not_lt.mpr (joined_head key message))
  intro key other message text same
  rw [sampledHmac, sampledHmac] at same
  cases first : samples.lookup (key, message) with
  | none =>
      cases second : samples.lookup (other, text) with
      | none =>
          rw [first, second] at same
          exact joined_injective same
      | some tag =>
          rw [first, second] at same
          exact absurd same.symm (foreign (listed second) key message)
  | some tag =>
      cases second : samples.lookup (other, text) with
      | none =>
          rw [first, second] at same
          exact absurd same (foreign (listed first) other text)
      | some tag' =>
          rw [first, second, Option.getD_some, Option.getD_some] at same
          have one := List.inj_on_of_nodup_map apart (listed first)
            (listed second) same
          exact Prod.mk.inj (Prod.mk.inj one).1

def sampleHmac : Bytes → Bytes → Bytes := sampledHmac [((samplePsk, sampleInput), sampleTag)]

theorem sampleHmac_injective : Function.Injective2 sampleHmac :=
  sampledHmac_injective (by decide) (by decide)

theorem sampleHmac_sample : sampleHmac samplePsk sampleInput = sampleTag := by
  rw [sampleHmac, sampledHmac, List.lookup_cons_self, Option.getD_some]

theorem sample_nonces : nonces Base64.standard sampleHello sampleChallenge =
    .ok (List.replicate 32 7, List.replicate 32 9) := by
  rw [nonces_eq_ok_iff]
  decide

theorem sampleResponse_computed :
    computeResponse sampleHmac Base64.standard sampleHello sampleChallenge samplePsk =
      .ok sampleResponse := by
  rw [computeResponse_eq_ok_iff]
  refine ⟨_, sample_nonces, ?_⟩
  rw [show boundInput sampleHello sampleChallenge _ = sampleInput from rfl, sampleHmac_sample]
  decide

theorem sample_short : Short sampleHello sampleChallenge := by
  constructor <;> decide

/-- The handshake of the source's tests, half a minute after its hello. -/
theorem sampleResponse_accepted :
    verifyResponse sampleHmac Base64.standard sampleHello sampleChallenge sampleResponse samplePsk
      1700000030000 = .ok () ∧
    Agree Base64.standard sampleHello sampleHello sampleChallenge sampleChallenge samplePsk
      samplePsk := by
  have both := response_accepted_when_ends_agree sampleHmac Base64.standard sampleHmac_injective
    sampleHello sampleHello sampleChallenge sampleChallenge samplePsk samplePsk sampleResponse
    1700000030000 sample_short sample_short sampleResponse_computed
  have accepted := both.2 ⟨rfl, rfl, rfl, rfl, rfl, rfl, rfl⟩ rfl (by decide)
  exact ⟨accepted, both.1 accepted⟩

end Strata.Link
