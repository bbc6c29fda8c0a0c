import Mathlib.Tactic
import Strata.Dmz.SignedHeaders

/-! Which headers of a public request the DMZ forwards (`proxy.rs`, `ws_proxy.rs`). The HTTP proxy
strips the hop-by-hop headers and those that the first `connection` line names; the WebSocket proxy
has a list of its own and does not read that line's tokens. Either may refuse the request before
anything is sent. -/

namespace Strata.Dmz

open Utf8 (Text Bytes)
open Http (lower)

def hopByHop : List Text :=
  ["connection", "proxy-connection", "proxy-authenticate", "proxy-authorization", "keep-alive",
    "transfer-encoding", "te", "trailer", "upgrade", "host"].map String.toList

def skipForward : List Text :=
  ["host", "connection", "keep-alive", "transfer-encoding", "te", "trailer", "proxy-connection",
    "upgrade", "sec-websocket-key", "sec-websocket-version", "sec-websocket-accept",
    "sec-websocket-extensions"].map String.toList

def connection : Text := "connection".toList

def tokens (text : Text) : List Text := (text.splitOn ',').map RustStr.trim

section

variable (http : Http)

/-- A request as it is parsed: every line stands under a header name. -/
structure PublicRequest extends Request where
  authority : Option Text
  pathAndQuery : Option Text
  named : ∀ line ∈ headers, http.headerName (Utf8.encode line.1) = some line.1

def stripHopByHop (headers : HeaderMap) : HeaderMap :=
  let connectionListed :=
    match (http.get headers connection).bind http.toStr with
    | some text => (tokens text).filterMap fun token => http.headerName (Utf8.encode token)
    | none => []
  hopByHop.foldl http.remove (connectionListed.foldl http.remove headers)

/-- Names are in lower case, so that comparing without regard to case is comparing. -/
def skipForwarded (headers : HeaderMap) : HeaderMap :=
  (headers.filter fun line => !skipForward.contains line.1).foldl
    (fun headers line => http.append headers line.1 line.2) []

def isWebsocketUpgrade (headers : HeaderMap) : Bool :=
  let text (name : String) := (http.get headers name.toList).bind http.toStr
  ((text "upgrade").any fun s => lower s = "websocket".toList) &&
    ((text "connection").any fun s => (tokens s).any fun token => lower token = "upgrade".toList) &&
    (http.get headers "sec-websocket-key".toList).isSome &&
    (text "sec-websocket-version").any fun s => RustStr.trim s = "13".toList

def upstreamUri (request : PublicRequest http) : Option Text :=
  let host := ((http.get request.headers "host".toList).bind http.toStr).bind http.authority
  (request.authority.or host).bind fun authority =>
    http.buildUri authority (request.pathAndQuery.getD "/".toList)

/-! ### The two proxies -/

inductive ProxyError where
  | noLinkUp
  | linkSendUnavailable
  | upstreamHandshake
  | upstreamRejected (status : Nat)
  | invalidRequestUri
  | invalidRequest
  | bodyTooLarge
  deriving DecidableEq

/-- What a try at a link comes to: whether one is up and ready, takes the request, and answers. -/
inductive Pick where
  | noLink
  | unready
  | refused
  | taken (status : Option Nat)
  deriving DecidableEq

structure ProxyState where
  signer : HmacEdgeSigner
  maxRequestBody : Nat
  picks : Nat → Pick

/-- The requests that go out, and the error that is answered. -/
abbrev Sent := List HeaderMap × Option ProxyError

def forwardStreaming (headers : HeaderMap) : Pick → Sent
  | .noLink => ([], some .noLinkUp)
  | .unready | .refused => ([], some .linkSendUnavailable)
  | .taken none => ([headers], some .upstreamHandshake)
  | .taken (some _) => ([headers], none)

def startExtendedConnect (headers : HeaderMap) : Pick → Sent
  | .taken (some status) =>
      ([headers], if status = 200 then none else some (.upstreamRejected status))
  | pick => forwardStreaming headers pick

def extendedConnect (headers : HeaderMap) (picks : Nat → Pick) : Sent :=
  match startExtendedConnect headers (picks 0) with
  | (sent, some .linkSendUnavailable) | (sent, some .upstreamHandshake) =>
      let second := startExtendedConnect headers (picks 1)
      (sent ++ second.1, second.2)
  | first => first

variable (hmac : Bytes → Bytes → Bytes) (base64 : Base64.Codec) (state : ProxyState)

def declaredLength (headers : HeaderMap) : Option Nat :=
  ((http.get headers "content-length".toList).bind http.toStr).bind
    (RustInt.parseUnsigned (2 ^ 64 - 1))

def proxy (request : PublicRequest http) : Sent :=
  match upstreamUri http request with
  | none => ([], some .invalidRequestUri)
  | some _ =>
      let headers := sign http hmac base64 state.signer
        { request.toRequest with headers := stripHopByHop http request.headers }
      if (declaredLength http request.headers).any fun declared =>
          decide (declared > state.maxRequestBody) then
        ([], some .bodyTooLarge)
      else
        match state.picks 0 with
        | .unready => forwardStreaming headers (state.picks 1)
        | pick => forwardStreaming headers pick

def proxyWebsocket (request : PublicRequest http) : Sent :=
  match (http.get request.headers "sec-websocket-key".toList).bind http.toStr with
  | none => ([], some .invalidRequest)
  | some _ =>
      match upstreamUri http request with
      | none => ([], some .invalidRequest)
      | some _ =>
          let headers := sign http hmac base64 state.signer
            { request.toRequest with headers := skipForwarded http request.headers }
          extendedConnect headers state.picks

def proxyHandler (request : PublicRequest http) : Sent :=
  if isWebsocketUpgrade http request.headers then proxyWebsocket http hmac base64 state request
  else proxy http hmac base64 state request

/-! ### Which requests go out -/

def Pick.isTaken : Pick → Bool
  | .taken _ => true
  | _ => false

/-- The WebSocket proxy can read the key, the HTTP proxy finds no length over its limit, and a link
takes the request, the second one if the first was not ready (or refused the WebSocket). -/
def Admitted (request : PublicRequest http) : Prop :=
  (upstreamUri http request).isSome ∧
    if isWebsocketUpgrade http request.headers then
      ((http.get request.headers "sec-websocket-key".toList).bind http.toStr).isSome ∧
        ((state.picks 0).isTaken ∨
          (state.picks 0 = .unready ∨ state.picks 0 = .refused) ∧ (state.picks 1).isTaken)
    else
      (∀ declared ∈ declaredLength http request.headers, declared ≤ state.maxRequestBody) ∧
        ((state.picks 0).isTaken ∨ state.picks 0 = .unready ∧ (state.picks 1).isTaken)

def forwarding (headers : HeaderMap) : HeaderMap :=
  if isWebsocketUpgrade http headers then skipForwarded http headers
  else stripHopByHop http headers

def upstream (request : PublicRequest http) : HeaderMap :=
  sign http hmac base64 state.signer
    { request.toRequest with headers := forwarding http request.headers }

theorem mem_forwardStreaming {headers sent : HeaderMap} {pick : Pick} :
    sent ∈ (forwardStreaming headers pick).1 ↔ pick.isTaken = true ∧ sent = headers := by
  cases pick with
  | taken status => cases status <;> simp [forwardStreaming, Pick.isTaken]
  | _ => simp [forwardStreaming, Pick.isTaken]

theorem mem_startExtendedConnect {headers sent : HeaderMap} {pick : Pick} :
    sent ∈ (startExtendedConnect headers pick).1 ↔ pick.isTaken = true ∧ sent = headers := by
  have same : (startExtendedConnect headers pick).1 = (forwardStreaming headers pick).1 := by
    rcases pick with _ | _ | _ | (_ | _) <;> rfl
  rw [same, mem_forwardStreaming]

theorem mem_extendedConnect {headers sent : HeaderMap} {picks : Nat → Pick} :
    sent ∈ (extendedConnect headers picks).1 ↔
      ((picks 0).isTaken = true ∨
        (picks 0 = .unready ∨ picks 0 = .refused) ∧ (picks 1).isTaken = true) ∧ sent = headers := by
  have second : sent ∈ (startExtendedConnect headers (picks 1)).1 ↔
      (picks 1).isTaken = true ∧ sent = headers := mem_startExtendedConnect
  rw [extendedConnect]
  generalize startExtendedConnect headers (picks 1) = later at second ⊢
  cases picks 0 with
  | taken status =>
      cases status with
      | none =>
          -- the first link has the request already when it fails to answer
          simp only [startExtendedConnect, forwardStreaming, List.mem_append, List.mem_singleton,
            Pick.isTaken, true_or, true_and, second]
          exact ⟨fun either => either.elim id And.right, .inl⟩
      | some status => by_cases opened : status = 200 <;>
          simp [startExtendedConnect, opened, Pick.isTaken]
  | _ => simp [startExtendedConnect, forwardStreaming, Pick.isTaken, second]

theorem mem_proxy {request : PublicRequest http}
    (plain : isWebsocketUpgrade http request.headers = false) {sent : HeaderMap} :
    sent ∈ (proxy http hmac base64 state request).1 ↔
      Admitted http state request ∧ sent = upstream http hmac base64 state request := by
  rw [Admitted, upstream, forwarding, proxy, plain]
  cases upstreamUri http request with
  | none => simp
  | some uri =>
      simp only [Option.isSome_some, true_and, Bool.false_eq_true, if_false]
      have small : (∀ declared ∈ declaredLength http request.headers,
          declared ≤ state.maxRequestBody) ↔ ¬(declaredLength http request.headers).any
            (fun declared => decide (declared > state.maxRequestBody)) = true := by
        simp [Option.any_eq_true]
      rw [small]
      split_ifs with large
      · exact iff_of_false List.not_mem_nil fun both => both.1.1 large
      · rw [and_iff_right large]
        cases first : state.picks 0 <;> simp [mem_forwardStreaming, Pick.isTaken]

theorem mem_proxyWebsocket {request : PublicRequest http}
    (upgrade : isWebsocketUpgrade http request.headers = true) {sent : HeaderMap} :
    sent ∈ (proxyWebsocket http hmac base64 state request).1 ↔
      Admitted http state request ∧ sent = upstream http hmac base64 state request := by
  rw [Admitted, upstream, forwarding, proxyWebsocket, upgrade]
  cases (http.get request.headers "sec-websocket-key".toList).bind http.toStr with
  | none => simp
  | some key =>
      cases upstreamUri http request with
      | none => simp
      | some uri =>
          simp only [Option.isSome_some, true_and, if_true]
          exact mem_extendedConnect

theorem mem_proxyHandler {request : PublicRequest http} {sent : HeaderMap} :
    sent ∈ (proxyHandler http hmac base64 state request).1 ↔
      Admitted http state request ∧ sent = upstream http hmac base64 state request := by
  rw [proxyHandler]
  split_ifs with upgrade
  · exact mem_proxyWebsocket http hmac base64 state upgrade
  · exact mem_proxy http hmac base64 state (by simpa using upgrade)

/-! ### Which headers they have -/

/-- Hop-by-hop, or named by a token of any `connection` line. -/
def PerHop (headers : HeaderMap) (name : Text) : Prop :=
  name ∈ hopByHop ∨
    ∃ value ∈ headers.values connection, name ∈ (tokens (Http.lineText value)).map lower

/-- Named by the first `connection` line, which is readable. -/
def NamedFirst (headers : HeaderMap) (name : Text) : Prop :=
  ∃ text, (http.get headers connection).bind http.toStr = some text ∧
    name ∈ (tokens text).map lower

theorem mem_stripHopByHop {headers : HeaderMap} {name : Text} {value : Bytes}
    (named : http.headerName (Utf8.encode name) = some name) :
    value ∈ (stripHopByHop http headers).values name ↔
      value ∈ headers.values name ∧ ¬ NamedFirst http headers name ∧ name ∉ hopByHop := by
  have listed (text : Text) :
      name ∈ (tokens text).filterMap (fun token => http.headerName (Utf8.encode token)) ↔
        name ∈ (tokens text).map lower := by
    rw [List.mem_filterMap, List.mem_map]
    refine exists_congr fun token => and_congr_right fun _ => ⟨?_, ?_⟩
    · exact http.headerName_lower token name
    · rintro rfl
      exact http.headerName_cased token named
  rw [stripHopByHop, http.values_removes, http.values_removes, NamedFirst]
  by_cases hop : name ∈ hopByHop
  · simp [hop]
  · cases (http.get headers connection).bind http.toStr with
    | none => simp [hop]
    | some text =>
        have first : (∃ other, some text = some other ∧ name ∈ (tokens other).map lower) ↔
            name ∈ (tokens text).filterMap fun token => http.headerName (Utf8.encode token) := by
          simp only [Option.some.injEq, exists_eq_left', listed]
        rw [first, if_neg hop]
        split_ifs with named
        · exact iff_of_false List.not_mem_nil fun both => both.2.1 named
        · exact ⟨fun inside => ⟨inside, named, hop⟩, And.left⟩

theorem mem_forwarding {headers : HeaderMap} {name : Text} {value : Bytes}
    (named : http.headerName (Utf8.encode name) = some name) :
    value ∈ (forwarding http headers).values name ↔ value ∈ headers.values name ∧
      if isWebsocketUpgrade http headers then name ∉ skipForward
      else ¬ NamedFirst http headers name ∧ name ∉ hopByHop := by
  rw [forwarding]
  split_ifs
  · rw [skipForwarded, http.values_appends,
      HeaderMap.values_filter fun field => !skipForward.contains field]
    by_cases skipped : name ∈ skipForward <;> simp [skipped, HeaderMap.values]
  · exact mem_stripHopByHop http named

theorem forwarding_eq_nil {headers : HeaderMap} {name : Text} (none : headers.values name = []) :
    (forwarding http headers).values name = [] := by
  rw [forwarding]
  split_ifs
  · rw [skipForwarded, http.values_appends,
      HeaderMap.values_filter fun field => !skipForward.contains field, none, ite_self]
    rfl
  · rw [stripHopByHop, http.values_removes, http.values_removes, none, ite_self, ite_self]

/-- No header for the hop alone is forwarded, exactly if the request is refused or each such header
of it is in the WebSocket proxy's list, or, where the HTTP proxy forwards it, is hop-by-hop or named
by the first `connection` line. -/
theorem forwards_no_hop_iff (request : PublicRequest http) :
    (∀ sent ∈ (proxyHandler http hmac base64 state request).1, ∀ name,
        sent.values name ≠ [] → isEdgeName name = false → ¬ PerHop request.headers name) ↔
      (Admitted http state request → ∀ name ∈ request.headers.names, isStripped name = false →
        PerHop request.headers name →
          if isWebsocketUpgrade http request.headers then name ∈ skipForward
          else NamedFirst http request.headers name ∨ name ∈ hopByHop) := by
  have bundle : ∀ name ∈ Link.edgeHeaderMac :: Link.edgeHeadersCanonical,
      isEdgeName name = true := by decide
  have foreign {name : Text} (other : isEdgeName name = false) :
      name ∉ Link.edgeHeaderMac :: Link.edgeHeadersCanonical := by
    intro own
    rw [bundle name own] at other
    cases other
  have valid {name : Text} (member : name ∈ request.headers.names) :
      http.headerName (Utf8.encode name) = some name := by
    obtain ⟨line, inside, rfl⟩ := List.mem_map.mp member
    exact request.named line inside
  simp only [mem_proxyHandler]
  constructor
  · intro clean admitted name member kept hop
    have edge : isEdgeName name = false := by
      cases own : isEdgeName name with
      | false => rfl
      | true => rw [isStripped_of_edge own] at kept; cases kept
    by_contra uncovered
    obtain ⟨⟨_, value⟩, inside, rfl⟩ := List.mem_map.mp member
    refine clean _ ⟨admitted, rfl⟩ _ ?_ edge hop
    rw [upstream, values_sign (foreign edge), kept, if_neg Bool.false_ne_true]
    refine List.ne_nil_of_mem ((mem_forwarding http (valid member)).mpr
      ⟨HeaderMap.mem_values.mpr inside, ?_⟩)
    split_ifs at uncovered ⊢
    · exact uncovered
    · rwa [not_or] at uncovered
  · rintro covered sent ⟨admitted, rfl⟩ name some_ edge hop
    rw [upstream, values_sign (foreign edge)] at some_
    cases kept : isStripped name with
    | true => simp [kept] at some_
    | false =>
        rw [kept, if_neg Bool.false_ne_true] at some_
        obtain ⟨value, inside⟩ := List.exists_mem_of_ne_nil _ some_
        by_cases member : name ∈ request.headers.names
        · have listed := covered admitted name member kept hop
          have left := ((mem_forwarding http (valid member)).mp inside).2
          split_ifs at listed left
          · exact left listed
          · exact listed.elim left.1 left.2
        · have none : request.headers.values name = [] := HeaderMap.values_eq_nil member
          exact absurd inside (by rw [forwarding_eq_nil http none]; exact List.not_mem_nil)

end

def publicLine (name value : String) : Text × Bytes := (name.toList, Utf8.encode value.toList)

def plainState : ProxyState where
  signer := ⟨List.replicate 32 107, "dmz-test".toList, []⟩
  maxRequestBody := 1024
  picks _ := .taken (some 200)

/-- A second `connection` line. -/
def twoConnections : PublicRequest .standard :=
  ⟨⟨[publicLine "host" "example.org", publicLine "connection" "close",
    publicLine "connection" "x-hop", publicLine "x-hop" "1"], none, [], 0⟩, none, none,
    by decide +kernel⟩

/-- A token beside `upgrade`. -/
def namingUpgrade : PublicRequest .standard :=
  ⟨⟨[publicLine "host" "example.org", publicLine "connection" "upgrade, x-hop",
    publicLine "upgrade" "websocket", publicLine "sec-websocket-key" "a",
    publicLine "sec-websocket-version" "13", publicLine "x-hop" "1",
    publicLine "proxy-authorization" "b"], none, [], 0⟩, none, none, by decide +kernel⟩

theorem hop_headers_forwarded :
    (isWebsocketUpgrade .standard twoConnections.headers = false ∧
      PerHop twoConnections.headers "x-hop".toList ∧
      ∃ sent ∈ (proxyHandler .standard Link.sampleHmac Base64.standard plainState
        twoConnections).1, sent.values "x-hop".toList = [Utf8.encode ['1']]) ∧
    isWebsocketUpgrade .standard namingUpgrade.headers = true ∧
      PerHop namingUpgrade.headers "x-hop".toList ∧
      ∃ sent ∈ (proxyHandler .standard Link.sampleHmac Base64.standard plainState
        namingUpgrade).1, sent.values "x-hop".toList = [Utf8.encode ['1']] ∧
          sent.values "proxy-authorization".toList = [Utf8.encode ['b']] := by
  have named {headers : HeaderMap} (value : Bytes) (listed : value ∈ headers.values connection)
      (token : "x-hop".toList ∈ (tokens (Http.lineText value)).map lower) :
      PerHop headers "x-hop".toList := .inr ⟨value, listed, token⟩
  refine ⟨⟨by decide +kernel, ?_, _, (mem_proxyHandler ..).mpr ⟨?_, rfl⟩, ?_⟩, by decide +kernel,
    ?_, _, (mem_proxyHandler ..).mpr ⟨?_, rfl⟩, ?_, ?_⟩
  · exact named (Utf8.encode "x-hop".toList) (by decide +kernel) (by decide +kernel)
  · exact ⟨by decide +kernel, by decide +kernel⟩
  · rw [upstream, values_sign (by decide +kernel)]
    decide +kernel
  · exact named (Utf8.encode "upgrade, x-hop".toList) (by decide +kernel) (by decide +kernel)
  · exact ⟨by decide +kernel, by decide +kernel⟩
  · rw [upstream, values_sign (by decide +kernel)]
    decide +kernel
  · rw [upstream, values_sign (by decide +kernel)]
    decide +kernel

end Strata.Dmz
