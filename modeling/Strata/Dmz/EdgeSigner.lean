import Mathlib.Tactic
import Strata.Lib.Http
import Strata.Lib.IpAddr
import Strata.Lib.RustStr
import Strata.Link.EdgeHeader

/-! The edge signer of the DMZ (`edge_signer.rs`): which client address it resolves from the
forwarding headers of a request, and the header bundle it signs. -/

namespace Strata.Dmz

open Utf8 (Text Bytes)
open Tables (Table)
open Net (IpAddr parseIpAddr)

/-! ### Trusted proxies -/

def addressWidth : IpAddr → Nat
  | .v4 _ => 32
  | .v6 _ => 128

def maskAddr (addr : IpAddr) (bits : Nat) : IpAddr :=
  match addr with
  | .v4 v4 => .v4 (v4 &&& if bits = 0 then 0 else BitVec.allOnes 32 <<< (32 - bits))
  | .v6 v6 => .v6 (v6 &&& if bits = 0 then 0 else BitVec.allOnes 128 <<< (128 - bits))

theorem maskAddr_maskAddr (addr : IpAddr) (bits : Nat) :
    maskAddr (maskAddr addr bits) bits = maskAddr addr bits := by
  cases addr with
  | v4 v4 => simp only [maskAddr, BitVec.and_assoc, BitVec.and_self]
  | v6 v6 => simp only [maskAddr, BitVec.and_assoc, BitVec.and_self]

theorem addressWidth_maskAddr (addr : IpAddr) (bits : Nat) :
    addressWidth (maskAddr addr bits) = addressWidth addr := by
  cases addr <;> rfl

/-- A network of trusted proxies; `network` has no bit outside its first `prefixLen`. -/
structure TrustedNet where
  network : IpAddr
  prefixLen : Nat
  fits : prefixLen ≤ addressWidth network
  masked : maskAddr network prefixLen = network

def TrustedNet.new (network : IpAddr) (prefixLen : Nat) : Option TrustedNet :=
  if fits : prefixLen ≤ addressWidth network then
    some ⟨maskAddr network prefixLen, prefixLen, by rwa [addressWidth_maskAddr],
      maskAddr_maskAddr network prefixLen⟩
  else
    none

def TrustedNet.parse (text : Text) : Option TrustedNet :=
  match RustStr.splitOnce '/' text with
  | none => (parseIpAddr text).bind fun ip => TrustedNet.new ip (addressWidth ip)
  | some (ipPart, prefixPart) =>
      (parseIpAddr ipPart).bind fun ip =>
        (RustInt.parseU8 prefixPart).bind fun prefixLen => TrustedNet.new ip prefixLen

def TrustedNet.contains (net : TrustedNet) (addr : IpAddr) : Bool :=
  match net.network, addr with
  | .v4 _, .v4 _ | .v6 _, .v6 _ => decide (maskAddr addr net.prefixLen = net.network)
  | _, _ => false

structure HmacEdgeSigner where
  key : Bytes
  linkId : Text
  trustedProxies : List TrustedNet

def HmacEdgeSigner.fromConfig (key : Bytes) (linkId : Text) (trustForwardedFrom : List Text) :
    HmacEdgeSigner :=
  { key, linkId, trustedProxies := trustForwardedFrom.filterMap TrustedNet.parse }

def HmacEdgeSigner.trusts (signer : HmacEdgeSigner) (ip : IpAddr) : Bool :=
  signer.trustedProxies.any fun net => net.contains ip

variable (http : Http)

/-! ### The client address -/

def forwarded : Text := "forwarded".toList
def xForwardedFor : Text := "x-forwarded-for".toList

/-- The address of one hop, without the zone of an IPv6 address. -/
def hopAddress (hop : Text) : Option IpAddr :=
  if RustStr.trim hop = [] then none else parseIpAddr ((RustStr.trim hop).takeWhile (· ≠ '%'))

def firstUntrusted (trusts : IpAddr → Bool) : List Text → Option IpAddr
  | [] => none
  | hop :: rest =>
      match hopAddress hop with
      | some ip => if trusts ip then firstUntrusted trusts rest else some ip
      | none => firstUntrusted trusts rest

def resolveClientIp (signer : HmacEdgeSigner) (headers : HeaderMap) (peer : Option IpAddr) : Text :=
  match peer with
  | none => "0.0.0.0".toList
  | some ip =>
      if signer.trusts ip then
        match ((http.get headers forwarded).or
            (http.get headers xForwardedFor)).bind http.toStr with
        | some xff =>
            match firstUntrusted signer.trusts (xff.splitOn ',').reverse with
            | some client => client.text
            | none => ip.text
        | none => ip.text
      else
        ip.text

/-! ### What is signed -/

def maxUaLen : Nat := 1024
def maxRequestIdLen : Nat := 128

/-- The longest front part of at most `limit` bytes. -/
def truncated : Nat → Text → Text
  | _, [] => []
  | limit, c :: rest => if c.utf8Size ≤ limit then c :: truncated (limit - c.utf8Size) rest else []

def strippedExact : List Text :=
  ["x-real-ip".toList, xForwardedFor, "x-forwarded-host".toList, "x-forwarded-proto".toList,
    "x-forwarded-port".toList, forwarded]

def isStripped (name : Text) : Bool :=
  "x-strata-edge-".toList.isPrefixOf name || "x-strata-admin".toList.isPrefixOf name ||
    strippedExact.contains name

def userAgent (headers : HeaderMap) : Text :=
  match (http.get headers "user-agent".toList).bind http.toStr with
  | some text => if (Utf8.encode text).length > maxUaLen then truncated maxUaLen text else text
  | none => []

def isRequestId (text : Text) : Bool :=
  text ≠ [] && (Utf8.encode text).length ≤ maxRequestIdLen &&
    text.all fun c => c.isAlphanum || c == '-' || c == '_'

/-- One request, with the UUID and the clock that signing it may ask for. -/
structure Request where
  headers : HeaderMap
  peer : Option IpAddr
  freshUuid : Text
  nowMs : Int

def requestId (headers : HeaderMap) (freshUuid : Text) : Text :=
  (((http.get headers "x-request-id".toList).bind http.toStr).filter isRequestId).getD freshUuid

def clientIpHeader : Text := "x-strata-edge-client-ip".toList

def cleaned (text : Text) : Text :=
  text.filter fun c => decide (c.toNat < 128) && !(decide (c.toNat < 32) || c.toNat == 127)

def sanitise (canon : Table Text Text) (name : Text) : Table Text Text :=
  match canon.lookup name with
  | none | some [] => canon
  | some value => if http.fromStr value = none then canon.insert name (cleaned value) else canon

def canonicalFields (signer : HmacEdgeSigner) (request : Request) : Table Text Text :=
  let clientIp := resolveClientIp http signer request.headers request.peer
  let headers := http.removeIf isStripped request.headers
  let canon : Table Text Text :=
    (((((((((∅ : Table Text Text).insert clientIpHeader clientIp).insert
      "x-strata-edge-tls-version".toList []).insert "x-strata-edge-tls-cipher".toList []).insert
      "x-strata-edge-tls-ja3".toList []).insert
      "x-strata-edge-user-agent".toList (userAgent http headers)).insert
      "x-strata-edge-request-id".toList (requestId http headers request.freshUuid)).insert
      "x-strata-edge-link-id".toList signer.linkId).insert
      "x-strata-edge-timestamp-ms".toList (RustInt.intText request.nowMs))
  Link.edgeHeadersCanonical.foldl (sanitise http) canon

/-- The headers that go on to the internal node. -/
def sign (hmac : Bytes → Bytes → Bytes) (base64 : Base64.Codec) (signer : HmacEdgeSigner)
    (request : Request) : HeaderMap :=
  let canon := canonicalFields http signer request
  let headers := http.removeIf isStripped request.headers
  let emitted := Link.edgeHeadersCanonical.foldl (fun headers name =>
    match canon.lookup name with
    | none | some [] => headers
    | some value =>
        match http.fromStr value with
        | some bytes => http.insert headers name bytes
        | none => headers) headers
  -- `from_str` takes base64 as it is
  http.insert emitted Link.edgeHeaderMac (Utf8.encode (Link.sign hmac base64 canon signer.key))

end Strata.Dmz
