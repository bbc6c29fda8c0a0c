import Mathlib.Tactic
import Strata.Dmz.SignedHeaders
import Strata.Lib.Pieces

/-! Which hop the signed client address is: the rightmost untrusted one of all `X-Forwarded-For`
lines, where no untrusted address stands in a line that the signer does not read or ought not to. -/

namespace Strata.Dmz

open Utf8 (Text Bytes)
open Tables (Table)
open Net (IpAddr)
open Http (isVisibleChar)

/-! ### Hops -/

/-- The untrusted address in a hop; a hop with other than printable characters has none. -/
def untrustedAddress (trusts : IpAddr → Bool) (hop : Text) : Option IpAddr :=
  if hop.all isVisibleChar then (hopAddress hop).filter (fun ip => !trusts ip) else none

def rightmostUntrusted (trusts : IpAddr → Bool) (hops : List Text) : Option IpAddr :=
  hops.reverse.findSome? (untrustedAddress trusts)

def lineHops (line : Bytes) : List Text := (Http.lineText line).splitOn ','

/-- The comma-separated hops of all `X-Forwarded-For` lines taken together. -/
def forwardedHops (headers : HeaderMap) : List Text :=
  (headers.values xForwardedFor).flatMap lineHops

def untrustedHops (trusts : IpAddr → Bool) (line : Bytes) : List IpAddr :=
  (lineHops line).filterMap (untrustedAddress trusts)

/-- Only the first `X-Forwarded-For` line names untrusted addresses, it is printable, and no
`Forwarded` line stands beside it; or none of the lines names any. -/
def OneLine (signer : HmacEdgeSigner) (headers : HeaderMap) : Prop :=
  (∀ line ∈ headers.values xForwardedFor, untrustedHops signer.trusts line = []) ∨
    (headers.values forwarded = [] ∧ ∃ first rest, headers.values xForwardedFor = first :: rest ∧
      first.all Http.isVisibleAscii = true ∧ ∀ line ∈ rest, untrustedHops signer.trusts line = [])

/-- No untrusted address stands in two of the lines. -/
def Unrepeated (signer : HmacEdgeSigner) (headers : HeaderMap) : Prop :=
  (headers.values forwarded ++ headers.values xForwardedFor).Pairwise fun one other =>
    List.Disjoint (untrustedHops signer.trusts one) (untrustedHops signer.trusts other)

variable (http : Http)

def signedClientIp (signer : HmacEdgeSigner) (request : Request) : Option Text :=
  (canonicalFields http signer request).lookup clientIpHeader

def SignsRightmost (signer : HmacEdgeSigner) (request : Request) : Prop :=
  ∀ ip, rightmostUntrusted signer.trusts (forwardedHops request.headers) = some ip →
    signedClientIp http signer request = some ip.text

/-- The one line the signer reads, if it can. -/
def consultedLine (headers : HeaderMap) : Option Bytes :=
  ((headers.values forwarded).head?.or (headers.values xForwardedFor).head?).filter fun line =>
    line.all Http.isVisibleAscii

theorem rightmostUntrusted_eq (trusts : IpAddr → Bool) (hops : List Text) :
    rightmostUntrusted trusts hops = (hops.filterMap (untrustedAddress trusts)).getLast? := by
  rw [rightmostUntrusted, ← List.head?_filterMap, List.filterMap_reverse, List.head?_reverse]

theorem rightmost_forwarded (trusts : IpAddr → Bool) (headers : HeaderMap) :
    rightmostUntrusted trusts (forwardedHops headers) =
      ((headers.values xForwardedFor).flatMap (untrustedHops trusts)).getLast? := by
  rw [rightmostUntrusted_eq, forwardedHops, List.filterMap_flatMap]
  rfl

theorem rightmostUntrusted_append {trusts : IpAddr → Bool} (front : List Text) {back : List Text}
    {ip : IpAddr} (found : rightmostUntrusted trusts back = some ip) :
    rightmostUntrusted trusts (front ++ back) = some ip := by
  rw [rightmostUntrusted] at found
  rw [rightmostUntrusted, List.reverse_append, List.findSome?_append, found]
  rfl

theorem rightmostUntrusted_untrusted {trusts : IpAddr → Bool} {hops : List Text} {ip : IpAddr}
    (found : rightmostUntrusted trusts hops = some ip) : trusts ip = false := by
  obtain ⟨hop, -, address⟩ := List.exists_of_findSome?_eq_some found
  rw [untrustedAddress, Option.ite_none_right_eq_some] at address
  simpa using (Option.filter_eq_some_iff.mp address.2).2

theorem lineHops_visible {line : Bytes} (printable : line.all Http.isVisibleAscii = true) :
    ∀ hop ∈ lineHops line, hop.all isVisibleChar = true := by
  intro hop member
  rw [List.all_eq_true]
  intro c inside
  obtain ⟨byte, own, rfl⟩ := List.mem_map.mp (Pieces.of_mem_splitOnP member c inside).1
  exact Http.isVisibleChar_of_byte (List.all_eq_true.mp printable byte own)

theorem firstUntrusted_eq (trusts : IpAddr → Bool) (hops : List Text)
    (visible : ∀ hop ∈ hops, hop.all isVisibleChar = true) :
    firstUntrusted trusts hops = hops.findSome? (untrustedAddress trusts) := by
  induction hops with
  | nil => rfl
  | cons hop hops ih =>
      have rest := ih fun hop member => visible hop (List.mem_cons_of_mem _ member)
      rw [firstUntrusted, List.findSome?_cons, untrustedAddress,
        if_pos (visible hop List.mem_cons_self)]
      cases hopAddress hop with
      | none => exact rest
      | some ip => cases trusted : trusts ip <;> simp [Option.filter, trusted, rest]

theorem resolveClientIp_trusted {signer : HmacEdgeSigner} (headers : HeaderMap) {peer : IpAddr}
    (trusted : signer.trusts peer = true) :
    resolveClientIp http signer headers (some peer) =
      (((consultedLine headers).bind fun line =>
        (untrustedHops signer.trusts line).getLast?).getD peer).text := by
  unfold resolveClientIp
  simp only [trusted, if_true, http.get_eq, consultedLine]
  generalize (headers.values forwarded).head?.or (headers.values xForwardedFor).head? = read
  cases read with
  | none => rfl
  | some line =>
      rw [Option.bind_some, Option.filter_some]
      by_cases printable : line.all Http.isVisibleAscii = true
      · rw [(http.toStr_eq_some line _).mpr ⟨printable, rfl⟩, if_pos printable, Option.bind_some]
        have visible := lineHops_visible printable
        rw [lineHops] at visible
        dsimp only
        rw [firstUntrusted_eq _ _ fun hop member => visible hop (List.mem_reverse.mp member),
          untrustedHops, ← rightmostUntrusted_eq, rightmostUntrusted, lineHops]
        cases (List.splitOn ',' (Http.lineText line)).reverse.findSome?
          (untrustedAddress signer.trusts) <;> rfl
      · have unread : http.toStr line = none := by
          cases read : http.toStr line with
          | none => rfl
          | some text => exact absurd ((http.toStr_eq_some line text).mp read).1 printable
        rw [unread, if_neg printable]
        rfl

/-! ### The signed field -/

section Signed

variable {http} {signer : HmacEdgeSigner} {request : Request} {peer : IpAddr}

theorem signedClientIp_trusted (from_ : request.peer = some peer)
    (trusted : signer.trusts peer = true) :
    signedClientIp http signer request = some (((consultedLine request.headers).bind fun line =>
      (untrustedHops signer.trusts line).getLast?).getD peer).text := by
  rw [signedClientIp, canonicalFields_clientIp, from_, resolveClientIp_trusted http _ trusted]

theorem signed_iff_consulted (from_ : request.peer = some peer)
    (trusted : signer.trusts peer = true) {ip : IpAddr}
    (rightmost : rightmostUntrusted signer.trusts (forwardedHops request.headers) = some ip) :
    signedClientIp http signer request = some ip.text ↔
      ∃ line, consultedLine request.headers = some line ∧
        (untrustedHops signer.trusts line).getLast? = some ip := by
  rw [signedClientIp_trusted from_ trusted, Option.some.injEq, IpAddr.text_injective.eq_iff,
    ← Option.bind_eq_some_iff]
  cases (consultedLine request.headers).bind fun line =>
      (untrustedHops signer.trusts line).getLast? with
  | some client => rw [Option.getD_some, Option.some.injEq]
  | none =>
      -- the signer falls back to the peer, which is trusted
      have untrusted := rightmostUntrusted_untrusted rightmost
      simp only [Option.getD_none, reduceCtorEq, iff_false]
      rintro rfl
      rw [trusted] at untrusted
      cases untrusted

theorem signs_of_oneLine (from_ : request.peer = some peer) (trusted : signer.trusts peer = true)
    (one : OneLine signer request.headers) : SignsRightmost http signer request := by
  intro ip rightmost
  rw [signed_iff_consulted from_ trusted rightmost]
  rw [rightmost_forwarded] at rightmost
  rcases one with none | ⟨alone, first, rest, lines, printable, later⟩
  · rw [List.flatMap_eq_nil_iff.mpr none] at rightmost
    cases rightmost
  · rw [lines, List.flatMap_cons, List.flatMap_eq_nil_iff.mpr later, List.append_nil] at rightmost
    refine ⟨first, ?_, rightmost⟩
    rw [consultedLine, alone, lines, List.head?_nil, Option.none_or, List.head?_cons,
      Option.filter_some, if_pos printable]

theorem oneLine_of_signs (from_ : request.peer = some peer) (trusted : signer.trusts peer = true)
    (apart : Unrepeated signer request.headers) (signs : SignsRightmost http signer request) :
    OneLine signer request.headers := by
  by_cases none : ∀ line ∈ request.headers.values xForwardedFor,
      untrustedHops signer.trusts line = []
  · exact .inl none
  have some_ : (request.headers.values xForwardedFor).flatMap (untrustedHops signer.trusts) ≠ [] :=
    fun empty => none (List.flatMap_eq_nil_iff.mp empty)
  have rightmost := rightmost_forwarded signer.trusts request.headers
  rw [List.getLast?_eq_some_getLast some_] at rightmost
  obtain ⟨line, read, last⟩ := (signed_iff_consulted from_ trusted rightmost).mp
    (signs _ rightmost)
  generalize own : List.getLast _ some_ = ip at last rightmost
  -- the line that is read and the line of the rightmost hop have the address in common
  have named := List.mem_of_getLast? last
  obtain ⟨read, printable⟩ := Option.filter_eq_some_iff.mp read
  have inside : ip ∈ (request.headers.values xForwardedFor).flatMap
      (untrustedHops signer.trusts) := own ▸ List.getLast_mem some_
  rw [Unrepeated] at apart
  cases before : request.headers.values forwarded with
  | cons earlier _ =>
      rw [before, List.head?_cons, Option.some_or, Option.some.injEq] at read
      subst read
      obtain ⟨other, member, shared⟩ := List.mem_flatMap.mp inside
      rw [before, List.cons_append, List.pairwise_cons] at apart
      exact absurd shared (apart.1 other (List.mem_append_right _ member) named)
  | nil =>
      rw [before, List.head?_nil, Option.none_or] at read
      rw [before, List.nil_append] at apart
      cases lines : request.headers.values xForwardedFor with
      | nil => rw [lines] at read; cases read
      | cons first rest =>
          rw [lines, List.head?_cons, Option.some.injEq] at read
          subst read
          refine .inr ⟨before, first, rest, lines, printable, ?_⟩
          rw [lines, List.pairwise_cons] at apart
          rw [rightmost_forwarded, lines, List.flatMap_cons, List.getLast?_append] at rightmost
          by_contra more
          have later : rest.flatMap (untrustedHops signer.trusts) ≠ [] :=
            fun empty => more (List.flatMap_eq_nil_iff.mp empty)
          rw [List.getLast?_eq_some_getLast later, Option.some_or, Option.some.injEq] at rightmost
          obtain ⟨other, member, shared⟩ := List.mem_flatMap.mp (List.getLast_mem later)
          rw [rightmost] at shared
          exact apart.1 other member named shared

end Signed

/-- For a request from a trusted proxy: the signed address is the rightmost untrusted hop where
only the first `X-Forwarded-For` line names untrusted addresses, and, unless an address stands in
two lines, only there; what stands left of that hop then has no influence. -/
theorem signed_client_ip_rightmost (signer : HmacEdgeSigner) (request : Request) (peer : IpAddr)
    (from_ : request.peer = some peer) (trusted : signer.trusts peer = true) :
    (OneLine signer request.headers → SignsRightmost http signer request) ∧
    (Unrepeated signer request.headers →
      (SignsRightmost http signer request ↔ OneLine signer request.headers)) ∧
    (OneLine signer request.headers → ∀ (other : Request) (peer' : IpAddr),
      other.peer = some peer' → signer.trusts peer' = true → OneLine signer other.headers →
      ∀ front front' back, forwardedHops request.headers = front ++ back →
        forwardedHops other.headers = front' ++ back →
        (rightmostUntrusted signer.trusts back).isSome →
        signedClientIp http signer request = signedClientIp http signer other) := by
  refine ⟨signs_of_oneLine from_ trusted, fun apart => ⟨oneLine_of_signs from_ trusted apart,
    signs_of_oneLine from_ trusted⟩, ?_⟩
  intro one other peer' from' trusted' one' front front' back hops hops' found
  obtain ⟨ip, rightmost⟩ := Option.isSome_iff_exists.mp found
  have first : signedClientIp http signer request = some ip.text :=
    signs_of_oneLine from_ trusted one ip
      (by rw [hops]; exact rightmostUntrusted_append front rightmost)
  have second : signedClientIp http signer other = some ip.text :=
    signs_of_oneLine from' trusted' one' ip
      (by rw [hops']; exact rightmostUntrusted_append front' rightmost)
  rw [first, second]

/-- The signer of the source's tests, which trusts 10.0.0.1. -/
def sampleSigner : HmacEdgeSigner :=
  .fromConfig (List.replicate 32 107) "dmz-test".toList ["10.0.0.1".toList]

def sampleProxy : IpAddr := .v4 0x0a000001

def sampleRequest (lines : List (Text × String)) : Request where
  headers := lines.map fun line => (line.1, Utf8.encode line.2.toList)
  peer := some sampleProxy
  freshUuid := "6f9619ff-8b86-4d01-b42d-00cf4fc964ff".toList
  nowMs := 1700000000000

def plainRequest : Request := sampleRequest [(xForwardedFor, "5.5.5.5, 198.51.100.7, 10.0.0.1")]

def spoofedRequest : Request := sampleRequest [(xForwardedFor, "1.1.1.1, 198.51.100.7, 10.0.0.1")]

theorem signed_client_ip_of_samples :
    signedClientIp .standard sampleSigner plainRequest = some "198.51.100.7".toList ∧
      signedClientIp .standard sampleSigner plainRequest =
        signedClientIp .standard sampleSigner spoofedRequest := by
  have trusted : sampleSigner.trusts sampleProxy = true := by decide +kernel
  have plain : OneLine sampleSigner plainRequest.headers :=
    .inr ⟨by decide +kernel, _, [], rfl, by decide +kernel, nofun⟩
  have spoofed : OneLine sampleSigner spoofedRequest.headers :=
    .inr ⟨by decide +kernel, _, [], rfl, by decide +kernel, nofun⟩
  have apart : Unrepeated sampleSigner plainRequest.headers := List.pairwise_singleton _ _
  have exact := signed_client_ip_rightmost .standard sampleSigner plainRequest sampleProxy rfl
    trusted
  constructor
  case left =>
    rw [(exact.2.1 apart).mpr plain (.v4 0xc6336407) (by decide +kernel)]
    decide
  case right =>
    exact exact.2.2 plain spoofedRequest sampleProxy rfl trusted spoofed ["5.5.5.5".toList]
      ["1.1.1.1".toList] [" 198.51.100.7".toList, " 10.0.0.1".toList] (by decide +kernel)
      (by decide +kernel) (by decide +kernel)

def forwardedRequest : Request :=
  sampleRequest [(forwarded, "203.0.113.9"), (xForwardedFor, "198.51.100.7")]

def twoLineRequest : Request :=
  sampleRequest [(xForwardedFor, "203.0.113.9"), (xForwardedFor, "198.51.100.7")]

/-- A `Forwarded` line, or an earlier `X-Forwarded-For` line, decides instead of the hop that
the trusted proxy appended. -/
theorem signed_client_ip_spoofed :
    rightmostUntrusted sampleSigner.trusts (forwardedHops forwardedRequest.headers) =
        some (.v4 0xc6336407) ∧
      signedClientIp .standard sampleSigner forwardedRequest = some "203.0.113.9".toList ∧
      rightmostUntrusted sampleSigner.trusts (forwardedHops twoLineRequest.headers) =
        some (.v4 0xc6336407) ∧
      signedClientIp .standard sampleSigner twoLineRequest = some "203.0.113.9".toList := by
  decide +kernel

end Strata.Dmz
