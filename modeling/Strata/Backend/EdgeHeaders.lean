import Mathlib
import Strata.Dmz.ClientAddress

/-! Trusted-edge verification in the backend (`services/edge_header.rs`), and what it makes of
a request that the DMZ has signed. -/

namespace Strata.Backend.EdgeHeaders

open Utf8 (Text Bytes)
open Tables (Table)
open Http (Visible)
open Dmz (HmacEdgeSigner Request clientIpHeader linkIdHeader timestampMsHeader isEdgeName readings
  wireField canonicalFields sanitised)

structure TrustedEdgeContext where
  clientIp : Text
  tlsVersion : Option Text
  tlsCipher : Option Text
  tlsJa3 : Option Text
  userAgent : Option Text
  requestId : Option Text
  linkId : Option Text
  deriving DecidableEq, Repr

section

variable (http : Http)

def collect (out : Table Text Text) (line : Text × Bytes) : Table Text Text :=
  if isEdgeName line.1 then
    match http.toStr line.2 with
    | some value => out.insert (line.1.map Char.toLower) value
    | none => out
  else
    out

def extractEdgeHeaders (headers : HeaderMap) : Table Text Text := headers.foldl (collect http) ∅

def stripEdgeHeaders (headers : HeaderMap) : HeaderMap := http.removeIf isEdgeName headers

def buildContext (headers : Table Text Text) : Option TrustedEdgeContext :=
  (headers.lookup clientIpHeader).map fun clientIp =>
    { clientIp
      tlsVersion := headers.lookup "x-strata-edge-tls-version".toList
      tlsCipher := headers.lookup "x-strata-edge-tls-cipher".toList
      tlsJa3 := headers.lookup "x-strata-edge-tls-ja3".toList
      userAgent := headers.lookup "x-strata-edge-user-agent".toList
      requestId := headers.lookup "x-strata-edge-request-id".toList
      linkId := headers.lookup linkIdHeader }

def macInput (headers : Table Text Text) : Table Text Text :=
  Tables.retainKeys (fun name => Link.edgeHeadersCanonical.contains name)
    (headers.erase Link.edgeHeaderMac)

def verifyEdgeHeaders (hmac : Bytes → Bytes → Bytes) (base64 : Base64.Codec)
    (configured : List Bytes) (nowMs : Int64) (request : HeaderMap) :
    HeaderMap × Option TrustedEdgeContext :=
  if configured = [] then
    (stripEdgeHeaders http request, none)
  else
    let headers := extractEdgeHeaders http request
    match headers.lookup Link.edgeHeaderMac with
    | none => (stripEdgeHeaders http request, none)
    | some mac =>
        match Link.verify hmac base64 (macInput headers) mac configured with
        | .error _ => (stripEdgeHeaders http request, none)
        | .ok () =>
            match Link.checkTimestamp (macInput headers) nowMs with
            | .error _ => (stripEdgeHeaders http request, none)
            | .ok () => (stripEdgeHeaders http request, buildContext (macInput headers))

end

/-! ### Extraction -/

theorem extract_lookup {http : Http} {headers : HeaderMap} {name : Text}
    (edge : isEdgeName name = true)
    (lower : ∀ line ∈ headers, isEdgeName line.1 = true → line.1.map Char.toLower = line.1) :
    (extractEdgeHeaders http headers).lookup name = (readings http headers name).getLast? := by
  induction headers using List.reverseRecOn with
  | nil => rfl
  | append_singleton headers line ih =>
      have before := ih fun other member => lower other (List.mem_append_left _ member)
      have collected : extractEdgeHeaders http (headers ++ [line]) =
          collect http (extractEdgeHeaders http headers) line := by
        rw [extractEdgeHeaders, List.foldl_concat]
        rfl
      have read : readings http (headers ++ [line]) name =
          readings http headers name ++ readings http [line] name := by
        rw [readings, HeaderMap.values_append, List.filterMap_append, readings, readings]
      rw [collected, read]
      by_cases same : line.1 = name
      · have own : line.1.map Char.toLower = name := by
          rw [lower line (by simp) (by rw [same, edge]), same]
        rw [collect, if_pos (by rw [same, edge])]
        cases value : http.toStr line.2 with
        | none => simp [readings, HeaderMap.values, same, value, before]
        | some text =>
            rw [own]
            simp [readings, HeaderMap.values, value, same, AList.lookup_insert]
      · have silent : readings http [line] name = [] := by simp [readings, HeaderMap.values, same]
        rw [silent, List.append_nil, ← before, collect]
        split
        · rename_i ours
          split
          · have other : name ≠ line.1.map Char.toLower := by
              rw [lower line (by simp) ours]
              exact Ne.symm same
            rw [AList.lookup_insert_ne other]
          · rfl
        · rfl

theorem macInput_lookup (headers : Table Text Text) {name : Text}
    (canonical : name ∈ Link.edgeHeadersCanonical) :
    (macInput headers).lookup name = headers.lookup name := by
  have names : ∀ name ∈ Link.edgeHeadersCanonical, name ≠ Link.edgeHeaderMac := by decide
  rw [macInput, Tables.lookup_retainKeys _ (List.contains_iff_mem.mpr canonical),
    AList.lookup_erase_ne (names name canonical)]

/-! ### A request signed by the DMZ -/

def signedValue (canon : Table Text Text) (name : Text) : Option Text :=
  (canon.lookup name).filter (· ≠ [])

/-- The context that holds exactly the values under the MAC. -/
def signedContext (canon : Table Text Text) : TrustedEdgeContext where
  clientIp := Link.headerField canon clientIpHeader
  tlsVersion := signedValue canon "x-strata-edge-tls-version".toList
  tlsCipher := signedValue canon "x-strata-edge-tls-cipher".toList
  tlsJa3 := signedValue canon "x-strata-edge-tls-ja3".toList
  userAgent := signedValue canon "x-strata-edge-user-agent".toList
  requestId := signedValue canon "x-strata-edge-request-id".toList
  linkId := signedValue canon linkIdHeader

/-- The node id is emitted as text that the backend can read: ASCII, or with a character that
makes the signer reduce it to ASCII. -/
def ReadableNodeId (http : Http) (id : Text) : Prop := http.fromStr id = none ∨ Visible id

/-- The requests differ in nothing but lines of the edge namespace. -/
structure SameButEdge (request other : Request) : Prop where
  headers : ∀ name, isEdgeName name = false →
    other.headers.values name = request.headers.values name
  peer : other.peer = request.peer
  freshUuid : other.freshUuid = request.freshUuid
  nowMs : other.nowMs = request.nowMs

theorem wireField_of_visible (http : Http) {canon : Table Text Text} {name value : Text}
    (signed : canon.lookup name = some value) (visible : Visible value) :
    wireField http canon name = signedValue canon name := by
  rw [wireField, signedValue, signed, Option.bind_some, http.fromStr_visible _ visible,
    Option.bind_some, http.toStr_encode visible, Option.filter_some]
  by_cases empty : value = [] <;> simp [empty]

theorem visible_of_wireField {http : Http} {canon : Table Text Text} {name value : Text}
    (signed : canon.lookup name = some (sanitised http value))
    (same : wireField http canon name = signedValue canon name) :
    Visible (sanitised http value) := by
  by_cases empty : sanitised http value = []
  · rw [empty]
    exact nofun
  · rw [wireField, signedValue, signed, Option.bind_some, if_neg empty, Dmz.fromStr_sanitised,
      Option.bind_some, Option.filter_some, if_pos (decide_eq_true empty)] at same
    exact http.visible_of_toStr_encode same

theorem signedValue_getD (canon : Table Text Text) (name : Text) :
    (signedValue canon name).getD [] = Link.headerField canon name := by
  rw [signedValue, Link.headerField]
  cases canon.lookup name with
  | none => rfl
  | some value => by_cases empty : value = [] <;> simp [Option.filter, empty]

theorem buildContext_eq {bundle canon : Table Text Text}
    (same : ∀ name ∈ Link.edgeHeadersCanonical, name ≠ linkIdHeader →
      bundle.lookup name = signedValue canon name)
    (address : (signedValue canon clientIpHeader).isSome) :
    buildContext bundle =
      some { signedContext canon with linkId := bundle.lookup linkIdHeader } := by
  obtain ⟨clientIp, found⟩ := Option.isSome_iff_exists.mp address
  have value : Link.headerField canon clientIpHeader = clientIp := by
    rw [← signedValue_getD, found, Option.getD_some]
  rw [buildContext, same clientIpHeader (by decide) (by decide), found, Option.map_some,
    same "x-strata-edge-tls-version".toList (by decide) (by decide),
    same "x-strata-edge-tls-cipher".toList (by decide) (by decide),
    same "x-strata-edge-tls-ja3".toList (by decide) (by decide),
    same "x-strata-edge-user-agent".toList (by decide) (by decide),
    same "x-strata-edge-request-id".toList (by decide) (by decide), signedContext, value]

theorem attached_iff {outcome : Except Link.ProtocolError Unit} {canon : Table Text Text}
    {linkId : Option Text} :
    (match outcome with
      | .error _ => none
      | .ok () => some { signedContext canon with linkId }) = some (signedContext canon) ↔
      outcome = .ok () ∧ linkId = signedValue canon linkIdHeader := by
  cases outcome with
  | error failure => simp
  | ok _ => simp [signedContext]

theorem timestampHeader_of {bundle : Table Text Text} {stamp : Int64}
    (found : bundle.lookup timestampMsHeader = some (RustInt.intText stamp.toInt)) :
    Link.timestampHeader bundle = some stamp := by
  unfold timestampMsHeader at found
  rw [Link.timestampHeader, found, Option.bind_some, RustInt.parseI64_intText, Option.map_some,
    Int64.ofInt_toInt]

theorem base64_visible (base64 : Base64.Codec) (bytes : Bytes) :
    Visible (base64.encode bytes) := by
  intro c member
  have armour := List.all_eq_true.mp (base64.encode_armour bytes) c member
  rw [Http.isVisibleChar_iff]
  simp only [Base64.isArmour, Char.isAlphanum, Char.isAlpha, Char.isUpper, Char.isLower,
    Char.isDigit, Bool.or_eq_true, Bool.and_eq_true, decide_eq_true_eq, beq_iff_eq,
    UInt32.le_iff_toNat_le] at armour
  rcases armour with ((((range | range) | range) | rfl) | rfl) | rfl
  · exact .inl ⟨le_trans (by decide) range.1, lt_of_le_of_lt range.2 (by decide)⟩
  · exact .inl ⟨le_trans (by decide) range.1, lt_of_le_of_lt range.2 (by decide)⟩
  · exact .inl ⟨le_trans (by decide) range.1, lt_of_le_of_lt range.2 (by decide)⟩
  all_goals decide

section Signed

variable {http : Http} {base64 : Base64.Codec} {hmac : Bytes → Bytes → Bytes} {keys : List Bytes}
  {signer : HmacEdgeSigner} {request : Request} {nowMs stamp : Int64}

def receivedBundle (http : Http) (hmac : Bytes → Bytes → Bytes) (base64 : Base64.Codec)
    (signer : HmacEdgeSigner) (request : Request) : Table Text Text :=
  macInput (extractEdgeHeaders http (Dmz.sign http hmac base64 signer request))

theorem extract_sign {name : Text}
    (ours : name ∈ Link.edgeHeaderMac :: Link.edgeHeadersCanonical) :
    (extractEdgeHeaders http (Dmz.sign http hmac base64 signer request)).lookup name =
      (readings http (Dmz.sign http hmac base64 signer request) name).getLast? := by
  have names : ∀ name ∈ Link.edgeHeaderMac :: Link.edgeHeadersCanonical,
      isEdgeName name = true ∧ name.map Char.toLower = name := by decide
  apply extract_lookup (names name ours).1
  intro line member edge
  exact (names line.1 (Dmz.mem_sign_of_edge member edge)).2

theorem receivedBundle_lookup {name : Text} (canonical : name ∈ Link.edgeHeadersCanonical) :
    (receivedBundle http hmac base64 signer request).lookup name =
      wireField http (canonicalFields http signer request) name := by
  rw [receivedBundle, macInput_lookup _ canonical, extract_sign (List.mem_cons_of_mem _ canonical),
    Dmz.readings_sign canonical]
  cases wireField http (canonicalFields http signer request) name <;> rfl

theorem verifyEdgeHeaders_sign (known : signer.key ∈ keys) :
    (verifyEdgeHeaders http hmac base64 keys nowMs
        (Dmz.sign http hmac base64 signer request)).2 =
      match Link.verify hmac base64 (receivedBundle http hmac base64 signer request)
          (Link.sign hmac base64 (canonicalFields http signer request) signer.key) keys with
      | .error _ => none
      | .ok () =>
          match Link.checkTimestamp (receivedBundle http hmac base64 signer request) nowMs with
          | .error _ => none
          | .ok () => buildContext (receivedBundle http hmac base64 signer request) := by
  have mac : (extractEdgeHeaders http (Dmz.sign http hmac base64 signer request)).lookup
      Link.edgeHeaderMac =
        some (Link.sign hmac base64 (canonicalFields http signer request) signer.key) := by
    rw [extract_sign List.mem_cons_self, Dmz.readings_sign_mac (base64_visible base64 _),
      List.getLast?_singleton]
  rw [verifyEdgeHeaders, if_neg (List.ne_nil_of_mem known)]
  simp only [mac]
  rw [← receivedBundle]
  generalize Link.sign hmac base64 (canonicalFields http signer request) signer.key = tag
  generalize receivedBundle http hmac base64 signer request = bundle
  cases Link.verify hmac base64 bundle tag keys with
  | error failure => rfl
  | ok _ => cases Link.checkTimestamp bundle nowMs <;> rfl

theorem receivedBundle_exact (uuid : Dmz.IsUuidText request.freshUuid) {name : Text}
    (canonical : name ∈ Link.edgeHeadersCanonical)
    (readable : name = linkIdHeader → ReadableNodeId http signer.linkId) :
    (receivedBundle http hmac base64 signer request).lookup name =
      signedValue (canonicalFields http signer request) name := by
  rw [receivedBundle_lookup canonical]
  by_cases link : name = linkIdHeader
  · subst link
    have visible := (Dmz.visible_sanitised_iff http signer.linkId).mpr (readable rfl)
    exact wireField_of_visible http Dmz.canonicalFields_linkId visible
  · obtain ⟨value, signed, visible⟩ := Dmz.canonicalFields_visible uuid canonical link
    exact wireField_of_visible http signed visible

theorem buildContext_received (uuid : Dmz.IsUuidText request.freshUuid) :
    buildContext (receivedBundle http hmac base64 signer request) =
      some { signedContext (canonicalFields http signer request) with
        linkId := wireField http (canonicalFields http signer request) linkIdHeader } := by
  rw [← receivedBundle_lookup (by decide)]
  apply buildContext_eq
  · intro name canonical other
    exact receivedBundle_exact uuid canonical fun link => absurd link other
  · rw [signedValue, Dmz.canonicalFields_clientIp, Option.filter_some, if_pos]
    · rfl
    · exact decide_eq_true (Dmz.resolveClientIp_ne_nil _ _ _ _)

theorem timestampHeader_received (uuid : Dmz.IsUuidText request.freshUuid)
    (stamped : request.nowMs = stamp.toInt) :
    Link.timestampHeader (receivedBundle http hmac base64 signer request) = some stamp := by
  apply timestampHeader_of
  rw [receivedBundle_exact uuid (by decide) (fun link => absurd link (by decide)), signedValue,
    Dmz.canonicalFields_timestampMs, stamped, Option.filter_some, if_pos]
  exact decide_eq_true (RustInt.intText_ne_nil _)

theorem context_eq_signed_iff (uuid : Dmz.IsUuidText request.freshUuid)
    (known : signer.key ∈ keys) (stamped : request.nowMs = stamp.toInt)
    (near : Link.skewed Link.maxTimestampSkewMs nowMs stamp = false) :
    (verifyEdgeHeaders http hmac base64 keys nowMs
        (Dmz.sign http hmac base64 signer request)).2 =
      some (signedContext (canonicalFields http signer request)) ↔
        ReadableNodeId http signer.linkId := by
  have timely :
      Link.checkTimestamp (receivedBundle http hmac base64 signer request) nowMs = .ok () :=
    (Link.checkTimestamp_eq_ok_iff (timestampHeader_received uuid stamped)).mpr near
  rw [verifyEdgeHeaders_sign known, timely, buildContext_received uuid]
  dsimp only
  rw [attached_iff, ReadableNodeId, ← Dmz.visible_sanitised_iff]
  constructor
  case mp => exact fun ⟨_, link⟩ => visible_of_wireField Dmz.canonicalFields_linkId link
  case mpr =>
    intro visible
    have same : Link.SameHeaders (canonicalFields http signer request)
        (receivedBundle http hmac base64 signer request) := by
      intro name canonical
      rw [Link.headerField, Link.headerField, receivedBundle_exact uuid canonical,
        signedValue_getD, Link.headerField]
      exact fun _ => (Dmz.visible_sanitised_iff http _).mp visible
    constructor
    · rw [Link.verify_sign_eq_ok_iff]
      exact ⟨signer.key, known, by rw [Link.canonicalInput_congr same]⟩
    · exact wireField_of_visible http Dmz.canonicalFields_linkId visible

end Signed

/-! ### What a client can do to the context -/

section Congruence

variable {http : Http} {hmac : Bytes → Bytes → Bytes} {base64 : Base64.Codec}
  {signer : HmacEdgeSigner} {request other : Request}

theorem canonicalFields_congr (same : SameButEdge request other) :
    canonicalFields http signer other = canonicalFields http signer request := by
  have read (name : Text) (plain : isEdgeName name = false) :
      http.get other.headers name = http.get request.headers name :=
    http.get_congr (same.headers name plain)
  have address : Dmz.resolveClientIp http signer other.headers request.peer =
      Dmz.resolveClientIp http signer request.headers request.peer := by
    unfold Dmz.resolveClientIp
    rw [read Dmz.forwarded (by decide), read Dmz.xForwardedFor (by decide)]
  have kept (name : Text) (plain : isEdgeName name = false) :
      http.get (http.removeIf Dmz.isStripped other.headers) name =
        http.get (http.removeIf Dmz.isStripped request.headers) name := by
    apply http.get_congr
    rw [http.values_removeIf, http.values_removeIf, same.headers name plain]
  have agent : Dmz.userAgent http (http.removeIf Dmz.isStripped other.headers) =
      Dmz.userAgent http (http.removeIf Dmz.isStripped request.headers) := by
    rw [Dmz.userAgent, kept _ (by decide), Dmz.userAgent]
  have id : Dmz.requestId http (http.removeIf Dmz.isStripped other.headers) request.freshUuid =
      Dmz.requestId http (http.removeIf Dmz.isStripped request.headers) request.freshUuid := by
    rw [Dmz.requestId, kept _ (by decide), Dmz.requestId]
  rw [Dmz.canonicalFields_eq, Dmz.canonicalFields_eq]
  unfold Dmz.askedFields
  dsimp only
  rw [same.peer, same.freshUuid, same.nowMs, address, agent, id]

theorem context_congr (same : SameButEdge request other) {keys : List Bytes}
    (known : signer.key ∈ keys) (nowMs : Int64) :
    (verifyEdgeHeaders http hmac base64 keys nowMs (Dmz.sign http hmac base64 signer other)).2 =
      (verifyEdgeHeaders http hmac base64 keys nowMs
        (Dmz.sign http hmac base64 signer request)).2 := by
  have fields : canonicalFields http signer other = canonicalFields http signer request :=
    canonicalFields_congr same
  have lookups {name : Text} (canonical : name ∈ Link.edgeHeadersCanonical) :
      (receivedBundle http hmac base64 signer other).lookup name =
        (receivedBundle http hmac base64 signer request).lookup name := by
    rw [receivedBundle_lookup canonical, receivedBundle_lookup canonical, fields]
  have input : Link.canonicalInput (receivedBundle http hmac base64 signer other) =
      Link.canonicalInput (receivedBundle http hmac base64 signer request) :=
    Link.canonicalInput_congr fun name canonical => by
      rw [Link.headerField, lookups canonical, Link.headerField]
  have stamp : Link.checkTimestamp (receivedBundle http hmac base64 signer other) nowMs =
      Link.checkTimestamp (receivedBundle http hmac base64 signer request) nowMs := by
    rw [Link.checkTimestamp, Link.checkTimestamp, Link.timestampHeader, Link.timestampHeader,
      lookups (by decide)]
  have context : buildContext (receivedBundle http hmac base64 signer other) =
      buildContext (receivedBundle http hmac base64 signer request) := by
    unfold buildContext
    rw [lookups (by decide), lookups (by decide), lookups (by decide), lookups (by decide),
      lookups (by decide), lookups (by decide), lookups (by decide)]
  rw [verifyEdgeHeaders_sign known, verifyEdgeHeaders_sign known, fields, Link.verify, Link.verify,
    input, stamp, context]

end Congruence

/-- For a request that the DMZ signs with a key of the backend, checked in time: the context holds
exactly the values under the MAC, for the node ids that can be read; and no line of the edge
namespace in the client's request changes it. -/
theorem edge_context_signed_iff (http : Http) (hmac : Bytes → Bytes → Bytes)
    (base64 : Base64.Codec) (keys : List Bytes) (signer : HmacEdgeSigner) (request : Request)
    (stamp nowMs : Int64) (uuid : Dmz.IsUuidText request.freshUuid) (known : signer.key ∈ keys)
    (stamped : request.nowMs = stamp.toInt)
    (near : Link.skewed Link.maxTimestampSkewMs nowMs stamp = false) :
    ((verifyEdgeHeaders http hmac base64 keys nowMs
        (Dmz.sign http hmac base64 signer request)).2 =
      some (signedContext (canonicalFields http signer request)) ↔
        ReadableNodeId http signer.linkId) ∧
    ∀ other, SameButEdge request other →
      (verifyEdgeHeaders http hmac base64 keys nowMs
        (Dmz.sign http hmac base64 signer other)).2 =
      (verifyEdgeHeaders http hmac base64 keys nowMs
        (Dmz.sign http hmac base64 signer request)).2 := by
  constructor
  case left => exact context_eq_signed_iff uuid known stamped near
  case right => exact fun other same => context_congr same known nowMs

/-- A node id outside ASCII is signed and sent, and dropped by the reader. -/
def accentedSigner : HmacEdgeSigner := { Dmz.sampleSigner with linkId := "dmz-é".toList }

/-- HMAC-SHA-256 under the key of the source's tests: of the plain bundle, of the one with the
accented node id, and of what the reader is left with of that one. -/
def bundleHmac : Bytes → Bytes → Bytes :=
  let accented := canonicalFields .standard accentedSigner Dmz.plainRequest
  Link.sampledHmac
    [((Dmz.sampleSigner.key,
        Link.canonicalInput (canonicalFields .standard Dmz.sampleSigner Dmz.plainRequest)),
      [83, 221, 124, 211, 60, 91, 127, 39, 244, 132, 123, 197, 93, 59, 144, 199, 85, 168, 177,
        210, 213, 27, 52, 171, 3, 144, 150, 14, 254, 19, 102, 152]),
     ((Dmz.sampleSigner.key, Link.canonicalInput accented),
      [36, 253, 134, 36, 240, 168, 47, 138, 118, 151, 169, 246, 83, 207, 36, 26, 58, 184, 13, 35,
        249, 13, 31, 123, 157, 127, 195, 235, 30, 91, 208, 5]),
     ((Dmz.sampleSigner.key, Link.canonicalInput (accented.erase linkIdHeader)),
      [95, 108, 162, 6, 138, 107, 20, 122, 1, 83, 69, 246, 25, 153, 122, 237, 168, 85, 203, 25,
        228, 91, 132, 35, 0, 84, 185, 165, 223, 75, 226, 227])]

def forgedRequest : Request :=
  { Dmz.plainRequest with
    headers := (clientIpHeader, Utf8.encode "6.6.6.6".toList) :: Dmz.plainRequest.headers }

def sampleContext : TrustedEdgeContext where
  clientIp := "198.51.100.7".toList
  tlsVersion := none
  tlsCipher := none
  tlsJa3 := none
  userAgent := none
  requestId := some Dmz.plainRequest.freshUuid
  linkId := some "dmz-test".toList

theorem edge_context_of_forged_request :
    (verifyEdgeHeaders .standard bundleHmac Base64.standard [Dmz.sampleSigner.key] 1700000030000
      (Dmz.sign .standard bundleHmac Base64.standard Dmz.sampleSigner forgedRequest)).2 =
        some sampleContext := by
  have both := edge_context_signed_iff .standard bundleHmac Base64.standard [Dmz.sampleSigner.key]
    Dmz.sampleSigner Dmz.plainRequest 1700000000000 1700000030000 (by decide) (by simp) (by decide)
    (by decide)
  have alike : SameButEdge Dmz.plainRequest forgedRequest := by
    refine ⟨fun name plain => ?_, rfl, rfl, rfl⟩
    have other : clientIpHeader ≠ name := by
      rintro rfl
      revert plain
      decide
    rw [forgedRequest, HeaderMap.values_cons, if_neg other]
  have readable : ReadableNodeId .standard Dmz.sampleSigner.linkId := .inr (by decide)
  have context : signedContext (canonicalFields .standard Dmz.sampleSigner Dmz.plainRequest) =
      sampleContext := by decide +kernel
  calc
    _ = _ := both.2 forgedRequest alike
    _ = some (signedContext (canonicalFields .standard Dmz.sampleSigner Dmz.plainRequest)) :=
      both.1.mpr readable
    _ = some sampleContext := by rw [context]

theorem edge_context_lost_for_accented_node :
    signedValue (canonicalFields .standard accentedSigner Dmz.plainRequest) linkIdHeader =
        some "dmz-é".toList ∧
      (verifyEdgeHeaders .standard bundleHmac Base64.standard [accentedSigner.key] 1700000000000
        (Dmz.sign .standard bundleHmac Base64.standard accentedSigner Dmz.plainRequest)).2 =
        none := by
  decide +kernel

end Strata.Backend.EdgeHeaders
