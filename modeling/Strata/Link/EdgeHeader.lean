import Mathlib.Tactic
import Strata.Lib.RustInt
import Strata.Lib.Tables
import Strata.Link.Handshake

/-! The trusted edge headers (`edge_header.rs`): what the DMZ signs, how the internal
node verifies it, and the clock check that follows. -/

namespace Strata.Link

open Utf8 (Text Bytes)
open Framing (fields)
open Tables (Table)

def edgeHeadersCanonical : List Text :=
  ["x-strata-edge-client-ip".toList, "x-strata-edge-tls-version".toList,
    "x-strata-edge-tls-cipher".toList, "x-strata-edge-tls-ja3".toList,
    "x-strata-edge-user-agent".toList, "x-strata-edge-request-id".toList,
    "x-strata-edge-link-id".toList, "x-strata-edge-timestamp-ms".toList]

def edgeHeaderMac : Text := "x-strata-edge-trusted-mac".toList

def maxTimestampSkewMs : Int64 := 60000

def canonicalInput (headers : Table Text Text) : Bytes :=
  fields (edgeHeadersCanonical.flatMap fun name =>
    [Utf8.encode name, Utf8.encode ((headers.lookup name).getD [])])

def sign (hmac : Bytes → Bytes → Bytes) (base64 : Base64.Codec) (headers : Table Text Text)
    (key : Bytes) : Text :=
  base64.encode (hmac key (canonicalInput headers))

def verify (hmac : Bytes → Bytes → Bytes) (base64 : Base64.Codec) (headers : Table Text Text)
    (macB64 : Text) (keys : List Bytes) : Except ProtocolError Unit :=
  if keys = [] then
    .error (.authFailed "no edge-hmac keys configured".toList)
  else
    match base64.decode macB64 with
    | none => .error (.malformed "edge mac is not valid base64".toList)
    | some tag =>
        if keys.any (fun key => hmac key (canonicalInput headers) = tag) then .ok ()
        else .error .badMac

def timestampHeader (headers : Table Text Text) : Option Int64 :=
  ((headers.lookup "x-strata-edge-timestamp-ms".toList).bind RustInt.parseI64).map Int64.ofInt

def checkTimestamp (headers : Table Text Text) (nowMs : Int64) : Except ProtocolError Unit :=
  match timestampHeader headers with
  | none => .error (.malformed "x-strata-edge-timestamp-ms missing or not a number".toList)
  | some timestampMs =>
      if skewed maxTimestampSkewMs nowMs timestampMs then .error .skew else .ok ()

/-! ### What a tag binds -/

/-- The value under the MAC: a missing header counts as empty. -/
def headerField (headers : Table Text Text) (name : Text) : Text := (headers.lookup name).getD []

def SameHeaders (first second : Table Text Text) : Prop :=
  ∀ name ∈ edgeHeadersCanonical, headerField first name = headerField second name

def ShortValues (headers : Table Text Text) : Prop :=
  ∀ name ∈ edgeHeadersCanonical, (Utf8.encode (headerField headers name)).length < 2 ^ 32

instance (headers : Table Text Text) : Decidable (ShortValues headers) :=
  inferInstanceAs (Decidable (∀ name ∈ edgeHeadersCanonical, _))

theorem canonicalInput_congr {first second : Table Text Text} (agree : SameHeaders first second) :
    canonicalInput first = canonicalInput second := by
  rw [canonicalInput, canonicalInput]
  apply congrArg fields
  apply List.flatMap_congr
  intro name member
  have same : (first.lookup name).getD [] = (second.lookup name).getD [] := agree name member
  rw [same]

theorem canonicalInput_fields_short {headers : Table Text Text} (short : ShortValues headers) :
    ∀ bytes ∈ edgeHeadersCanonical.flatMap fun name =>
      [Utf8.encode name, Utf8.encode (headerField headers name)], bytes.length < 2 ^ 32 := by
  have names : ∀ name ∈ edgeHeadersCanonical, (Utf8.encode name).length < 2 ^ 32 := by decide
  intro bytes member
  obtain ⟨name, known, part⟩ := List.mem_flatMap.mp member
  rcases List.mem_pair.mp part with rfl | rfl
  · exact names name known
  · exact short name known

theorem canonicalInput_injective {first second : Table Text Text} (short : ShortValues first)
    (brief : ShortValues second) (same : canonicalInput first = canonicalInput second) :
    SameHeaders first second := by
  have parts := Framing.fields_injective (by simp [List.length_flatMap])
    (canonicalInput_fields_short short) (canonicalInput_fields_short brief) same
  -- eight names, each with its value after it
  simp only [edgeHeadersCanonical, List.flatMap_cons, List.flatMap_nil, List.cons_append,
    List.nil_append, List.cons.injEq, true_and, and_true] at parts
  simp only [SameHeaders, edgeHeadersCanonical, List.forall_mem_cons]
  obtain ⟨ip, version, cipher, ja3, agent, request, link, stamp⟩ := parts
  exact ⟨Utf8.encode_injective ip, Utf8.encode_injective version, Utf8.encode_injective cipher,
    Utf8.encode_injective ja3, Utf8.encode_injective agent, Utf8.encode_injective request,
    Utf8.encode_injective link, Utf8.encode_injective stamp, nofun⟩

theorem verify_sign_eq_ok_iff {hmac : Bytes → Bytes → Bytes} {base64 : Base64.Codec}
    {first second : Table Text Text} {key : Bytes} {keys : List Bytes} :
    verify hmac base64 second (sign hmac base64 first key) keys = .ok () ↔
      ∃ held ∈ keys, hmac held (canonicalInput second) = hmac key (canonicalInput first) := by
  rw [verify, sign, base64.decode_encode]
  by_cases empty : keys = []
  · simp [empty]
  · simp [empty, List.any_eq_true]

/-- A tag made for one header map under `key` verifies for another map exactly when the verifier
holds that key and the maps have the same eight headers. -/
theorem mac_verifies_iff_headers_agree (hmac : Bytes → Bytes → Bytes) (base64 : Base64.Codec)
    (injective : Function.Injective2 hmac) (first second : Table Text Text)
    (short : ShortValues first) (brief : ShortValues second) (key : Bytes) (keys : List Bytes) :
    verify hmac base64 second (sign hmac base64 first key) keys = .ok () ↔
      key ∈ keys ∧ SameHeaders first second := by
  rw [verify_sign_eq_ok_iff]
  constructor
  case mp =>
    rintro ⟨held, member, same⟩
    have ⟨sameKey, sameInput⟩ := injective same
    exact ⟨sameKey ▸ member, canonicalInput_injective short brief sameInput.symm⟩
  case mpr =>
    rintro ⟨member, agree⟩
    exact ⟨key, member, by rw [canonicalInput_congr agree]⟩

def taggedHeaders (address agent : String) : Table Text Text :=
  ((∅ : Table Text Text).insert "x-strata-edge-client-ip".toList address.toList).insert
    "x-strata-edge-user-agent".toList agent.toList

def signedHeaders : Table Text Text := taggedHeaders "198.51.100.7" "1ua"

def movedHeaders : Table Text Text := taggedHeaders "198.51.100.71" "ua"

/-- HMAC-SHA-256 of the two bundles under the sample key, and of the first under the empty one. -/
def bundleHmac : Bytes → Bytes → Bytes :=
  sampledHmac
    [((samplePsk, canonicalInput signedHeaders),
      [127, 50, 92, 236, 165, 224, 183, 104, 69, 206, 162, 214, 94, 228, 114, 96, 136, 110, 66,
        202, 236, 218, 97, 194, 204, 35, 239, 97, 141, 244, 15, 34]),
     ((samplePsk, canonicalInput movedHeaders),
      [223, 245, 205, 127, 179, 64, 221, 66, 182, 199, 110, 103, 199, 123, 209, 72, 11, 74, 158,
        39, 72, 72, 197, 159, 62, 113, 32, 85, 136, 241, 248, 191]),
     (([], canonicalInput signedHeaders),
      [71, 153, 6, 106, 4, 24, 76, 97, 133, 176, 135, 102, 28, 226, 52, 156, 90, 170, 50, 68, 171,
        207, 201, 250, 156, 4, 125, 133, 31, 181, 94, 28])]

theorem moved_byte_is_refused :
    verify bundleHmac Base64.standard movedHeaders
        (sign bundleHmac Base64.standard signedHeaders samplePsk) [samplePsk] ≠ .ok () ∧
      verify bundleHmac Base64.standard signedHeaders
        (sign bundleHmac Base64.standard signedHeaders samplePsk) [[], samplePsk] = .ok () := by
  have injective : Function.Injective2 bundleHmac :=
    sampledHmac_injective (by decide) (by decide)
  constructor
  case left =>
    intro accepted
    have agree := ((mac_verifies_iff_headers_agree bundleHmac Base64.standard injective
      signedHeaders movedHeaders (by decide) (by decide) samplePsk [samplePsk]).mp accepted).2
    have moved : headerField signedHeaders "x-strata-edge-client-ip".toList ≠
        headerField movedHeaders "x-strata-edge-client-ip".toList := by
      decide
    exact moved (agree _ (by decide))
  case right =>
    exact (mac_verifies_iff_headers_agree bundleHmac Base64.standard injective _ _
      (by decide) (by decide) samplePsk [[], samplePsk]).mpr ⟨by decide, fun _ _ => rfl⟩

/-! ### The clock check -/

/-- The subtraction of the two clocks does not wrap into the window. -/
def Apart (limit nowMs timestampMs : Int64) : Prop :=
  distance nowMs timestampMs ≠ 2 ^ 63 ∧ (distance nowMs timestampMs : Int) < 2 ^ 64 - limit.toInt

theorem unskewed_near_iff {limit nowMs timestampMs : Int64} (positive : 0 ≤ limit.toInt) :
    (skewed limit nowMs timestampMs = false → (distance nowMs timestampMs : Int) ≤ limit.toInt) ↔
      Apart limit nowMs timestampMs := by
  have bounded := limit.toInt_lt
  rw [skewed_eq_false_iff _ _ _ positive, Apart]
  omega

theorem verifyResponse_ne_skew_iff {hmac : Bytes → Bytes → Bytes} {base64 : Base64.Codec}
    {hello : AuthHello} {challenge : AuthChallenge} {response : AuthResponse} {psk : Bytes}
    {nowMs : Int64} (version : hello.protocolVersion = protocolVersionStr) :
    verifyResponse hmac base64 hello challenge response psk nowMs ≠ .error .skew ↔
      skewed handshakeMaxSkewMs nowMs hello.timestampMs = false := by
  rw [verifyResponse, if_neg (not_not_intro version)]
  cases skewed handshakeMaxSkewMs nowMs hello.timestampMs with
  | true => simp
  | false =>
      simp only [Bool.false_eq_true, if_false, iff_true]
      -- past the check every failure is malformed data or a wrong tag
      cases read : nonces base64 hello challenge with
      | error failure =>
          obtain ⟨what, rfl⟩ := nonces_eq_error read
          intro same
          cases same
      | ok pair =>
          rw [decoded]
          cases base64.decode response.macB64 with
          | none =>
              intro same
              cases same
          | some tag =>
              simp only [bind, Except.bind]
              split
              all_goals
                intro same
                cases same

theorem checkTimestamp_eq_ok_iff {headers : Table Text Text} {nowMs timestampMs : Int64}
    (stamped : timestampHeader headers = some timestampMs) :
    checkTimestamp headers nowMs = .ok () ↔
      skewed maxTimestampSkewMs nowMs timestampMs = false := by
  simp only [checkTimestamp, stamped]
  cases skewed maxTimestampSkewMs nowMs timestampMs <;> simp

/-- Both checks keep to their window exactly where the clocks' difference does not wrap into it. -/
theorem skew_checks_exact_iff_apart (hmac : Bytes → Bytes → Bytes) (base64 : Base64.Codec)
    (hello : AuthHello) (challenge : AuthChallenge) (response : AuthResponse) (psk : Bytes)
    (headers : Table Text Text) (nowMs timestampMs : Int64)
    (version : hello.protocolVersion = protocolVersionStr)
    (sent : hello.timestampMs = timestampMs)
    (stamped : timestampHeader headers = some timestampMs) :
    ((verifyResponse hmac base64 hello challenge response psk nowMs ≠ .error .skew →
        distance nowMs timestampMs ≤ 30000) ↔ Apart handshakeMaxSkewMs nowMs timestampMs) ∧
      ((checkTimestamp headers nowMs = .ok () → distance nowMs timestampMs ≤ 60000) ↔
        Apart maxTimestampSkewMs nowMs timestampMs) := by
  constructor
  case left =>
    rw [verifyResponse_ne_skew_iff version, sent, ← unskewed_near_iff (by decide)]
    exact imp_congr_right fun _ => Int.ofNat_le.symm
  case right =>
    rw [checkTimestamp_eq_ok_iff stamped, ← unskewed_near_iff (by decide)]
    exact imp_congr_right fun _ => Int.ofNat_le.symm

def stampedHeaders (timestamp : String) : Table Text Text :=
  (∅ : Table Text Text).insert "x-strata-edge-timestamp-ms".toList timestamp.toList

theorem skew_checks_exact_on_sample :
    distance 1700000000000 1700000000000 ≤ 30000 ∧
      distance 1700000000000 1700000000000 ≤ 60000 := by
  have exact := skew_checks_exact_iff_apart sampleHmac Base64.standard sampleHello sampleChallenge
    sampleResponse samplePsk (stampedHeaders "1700000000000") 1700000000000 1700000000000 rfl rfl
    (by decide)
  have apart : Apart handshakeMaxSkewMs 1700000000000 1700000000000 ∧
      Apart maxTimestampSkewMs 1700000000000 1700000000000 := by
    rw [Apart, Apart]
    decide
  refine ⟨exact.1.mpr apart.1 ?_, exact.2.mpr apart.2 (by decide)⟩
  rw [verifyResponse_ne_skew_iff rfl]
  decide

def ancientHello : AuthHello := { sampleHello with timestampMs := -9223370336854775808 }

/-- What HMAC-SHA-256 under the sample key makes of the ancient hello's transcript. -/
def ancientTag : Bytes :=
  [63, 143, 207, 176, 4, 226, 126, 18, 182, 219, 70, 231, 153, 19, 143, 76, 180, 118, 94, 82, 84,
    223, 69, 144, 15, 78, 26, 208, 246, 97, 219, 178]

theorem ancient_timestamp_passes_both_checks :
    distance 1700000000000 ancientHello.timestampMs = 2 ^ 63 ∧
      verifyResponse (fun _ _ => ancientTag) Base64.standard ancientHello sampleChallenge
        ⟨Base64.standard.encode ancientTag⟩ samplePsk 1700000000000 = .ok () ∧
      checkTimestamp (stampedHeaders "-9223370336854775808") 1700000000000 = .ok () := by
  decide +kernel

end Strata.Link
