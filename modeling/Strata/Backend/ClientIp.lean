import Mathlib.Tactic
import Strata.Lib.IpAddr
import Strata.Lib.RustStr

/-! The address a request is attributed to: `X-Forwarded-For` is walked from the right while its
hops are trusted proxies. -/

namespace Strata.Backend.ClientIp

open Net (IpAddr parseIpAddr)
open Utf8 (Text)

def maxXffHops : Nat := 20

/-- `ipnet::IpNet`, by the addresses it contains. -/
structure IpNet where
  contains : IpAddr → Bool

def isTrusted (ip : IpAddr) (trusted : List IpNet) : Bool :=
  trusted.any fun net => net.contains ip

def walk (trusted : List IpNet) (client : IpAddr) : List Text → IpAddr
  | [] => client
  | hop :: hops =>
      if hop = [] then walk trusted client hops
      else
        match parseIpAddr hop with
        | none => client
        | some ip => if isTrusted ip trusted then walk trusted ip hops else ip

def hops (xff : Text) : List Text := (xff.splitOn ',').map RustStr.trim

/-- `xff.rsplit(',').map(str::trim).take(MAX_XFF_HOPS)` -/
def lastHops (xff : Text) : List Text := (hops xff).reverse.take maxXffHops

def resolve (peer : IpAddr) (xff : Option Text) (trustXff : Bool) (trusted : List IpNet) :
    IpAddr :=
  if !trustXff || !isTrusted peer trusted then peer
  else
    match xff with
    | none => peer
    | some xff => walk trusted peer (lastHops xff)

/-! ### Where the walk stops -/

variable {trusted : List IpNet} {peer client : IpAddr} {hop : Text} {right rest : List Text}

def passes (trusted : List IpNet) (hop : Text) : Bool :=
  hop = [] || (parseIpAddr hop).any fun ip => isTrusted ip trusted

theorem walk_append (passed : ∀ hop ∈ right, passes trusted hop = true) (client : IpAddr)
    (rest : List Text) :
    walk trusted client (right ++ rest) = walk trusted (walk trusted client right) rest := by
  induction right generalizing client with
  | nil => rfl
  | cons hop right ih =>
      have later := ih fun other member => passed other (List.mem_cons_of_mem _ member)
      have here := passed hop List.mem_cons_self
      rw [List.cons_append, walk, walk]
      by_cases empty : hop = []
      · rw [if_pos empty, if_pos empty]
        exact later client
      · rw [if_neg empty, if_neg empty]
        rw [passes, decide_eq_false empty, Bool.false_or] at here
        obtain ⟨ip, parsed, known⟩ := (Option.any_eq_true _ _).mp here
        simp only [parsed, known, if_true]
        exact later ip

theorem walk_stop (stops : passes trusted hop = false) (client : IpAddr) (rest : List Text) :
    walk trusted client (hop :: rest) = (parseIpAddr hop).getD client := by
  rw [passes, Bool.or_eq_false_iff, decide_eq_false_iff_not] at stops
  rw [walk, if_neg stops.1]
  cases parsed : parseIpAddr hop with
  | none => rfl
  | some ip =>
      have unknown : isTrusted ip trusted = false := by simpa [parsed] using stops.2
      simp [unknown]

theorem walk_passed (passed : ∀ hop ∈ right, passes trusted hop = true)
    (known : isTrusted client trusted = true) :
    isTrusted (walk trusted client right) trusted = true ∧
      (walk trusted client right = client ∨
        ∃ hop ∈ right, parseIpAddr hop = some (walk trusted client right)) := by
  induction right generalizing client with
  | nil => exact ⟨known, .inl rfl⟩
  | cons hop right ih =>
      have later : ∀ other ∈ right, passes trusted other = true :=
        fun other member => passed other (List.mem_cons_of_mem _ member)
      have here := passed hop List.mem_cons_self
      rw [walk]
      by_cases empty : hop = []
      · rw [if_pos empty]
        obtain ⟨end_, found⟩ := ih later known
        exact ⟨end_, found.imp_right fun ⟨other, member, parsed⟩ =>
          ⟨other, List.mem_cons_of_mem _ member, parsed⟩⟩
      · rw [if_neg empty]
        rw [passes, decide_eq_false empty, Bool.false_or] at here
        obtain ⟨ip, parsed, trusts⟩ := (Option.any_eq_true _ _).mp here
        simp only [parsed, trusts, if_true]
        obtain ⟨end_, found⟩ := ih later trusts
        refine ⟨end_, .inr ?_⟩
        rcases found with same | ⟨other, member, reached⟩
        · exact ⟨hop, List.mem_cons_self, by rw [same]; exact parsed⟩
        · exact ⟨other, List.mem_cons_of_mem _ member, reached⟩

theorem walk_append_of_stop {front : List Text} (stops : ∃ hop ∈ front, passes trusted hop = false)
    (client : IpAddr) (rest : List Text) :
    walk trusted client (front ++ rest) = walk trusted client front := by
  induction front generalizing client with
  | nil =>
      obtain ⟨hop, member, -⟩ := stops
      cases member
  | cons hop front ih =>
      by_cases stop : passes trusted hop = false
      · rw [List.cons_append, walk_stop stop, walk_stop stop]
      · have passed : ∀ other ∈ [hop], passes trusted other = true := by
          intro other member
          rw [List.mem_singleton.mp member]
          exact Bool.eq_true_of_not_eq_false stop
        have later : ∃ other ∈ front, passes trusted other = false := by
          obtain ⟨other, member, unpassed⟩ := stops
          rcases List.mem_cons.mp member with rfl | inside
          · exact absurd unpassed stop
          · exact ⟨other, inside, unpassed⟩
        have whole := walk_append passed client (front ++ rest)
        have part := walk_append passed client front
        rw [List.singleton_append] at whole part
        rw [List.cons_append, whole, part, ih later]

/-! ### Values that agree on the right -/

theorem hops_append (left tail : Text) : hops (left ++ ',' :: tail) = hops left ++ hops tail := by
  rw [hops, List.splitOn, List.splitOnP_append_cons left tail rfl, List.map_append]
  rfl

/-- From the hop `hop` on the text is `tail`, and right of it stand `right`. -/
structure RightmostStop (trusted : List IpNet) (tail hop : Text) (right : List Text) : Prop where
  hops : hops tail = hop :: right
  stops : passes trusted hop = false
  passed : ∀ other ∈ right, passes trusted other = true
  within : right.length < maxXffHops

def EndsIn (tail value : Text) : Prop := value = tail ∨ ∃ left, value = left ++ ',' :: tail

theorem lastHops_append (left tail : Text) :
    ∃ rest, lastHops (left ++ ',' :: tail) = lastHops tail ++ rest := by
  rw [lastHops, hops_append, List.reverse_append, List.take_append]
  exact ⟨_, rfl⟩

theorem lastHops_of_stop {tail : Text} (stop : RightmostStop trusted tail hop right) :
    lastHops tail = right.reverse ++ [hop] := by
  rw [lastHops, stop.hops, List.reverse_cons, List.take_of_length_le]
  have within := stop.within
  rw [List.length_append, List.length_reverse, List.length_singleton]
  omega

theorem mem_lastHops_of_stop {tail : Text} (stop : RightmostStop trusted tail hop right) :
    ∃ other ∈ lastHops tail, passes trusted other = false := by
  refine ⟨hop, ?_, stop.stops⟩
  rw [lastHops_of_stop stop]
  exact List.mem_append_right _ (List.mem_singleton.mpr rfl)

theorem walk_endsIn {tail value : Text} (stop : RightmostStop trusted tail hop right)
    (ends : EndsIn tail value) :
    walk trusted peer (lastHops value) =
      (parseIpAddr hop).getD (walk trusted peer right.reverse) := by
  have passed : ∀ other ∈ right.reverse, passes trusted other = true :=
    fun other member => stop.passed other (List.mem_reverse.mp member)
  have own : walk trusted peer (lastHops tail) =
      (parseIpAddr hop).getD (walk trusted peer right.reverse) := by
    rw [lastHops_of_stop stop, walk_append passed, walk_stop stop.stops]
  rcases ends with rfl | ⟨left, rfl⟩
  · exact own
  · obtain ⟨rest, last⟩ := lastHops_append left tail
    rw [last, walk_append_of_stop (mem_lastHops_of_stop stop), own]

theorem resolve_eq_walk {trustXff : Bool}
    (trusts : (trustXff && isTrusted peer trusted) = true) (value : Text) :
    resolve peer (some value) trustXff trusted = walk trusted peer (lastHops value) := by
  rw [Bool.and_eq_true] at trusts
  simp [resolve, trusts.1, trusts.2]

/-- Without trust in the header or in the peer the peer is the client. Otherwise what stands left
of the rightmost hop that is untrusted or malformed has no say: the client is that hop, or, where
it is malformed, a trusted address to its right or the peer. -/
theorem resolve_ignores_left (peer : IpAddr) (trustXff : Bool) (trusted : List IpNet) :
    ((trustXff && isTrusted peer trusted) = false →
      ∀ xff, resolve peer xff trustXff trusted = peer) ∧
    ((trustXff && isTrusted peer trusted) = true →
      (∀ tail hop right, RightmostStop trusted tail hop right →
        ∀ first second, EndsIn tail first → EndsIn tail second →
          resolve peer (some first) trustXff trusted = resolve peer (some second) trustXff trusted ∧
          (∀ ip, parseIpAddr hop = some ip → resolve peer (some first) trustXff trusted = ip) ∧
          (parseIpAddr hop = none →
            isTrusted (resolve peer (some first) trustXff trusted) trusted = true ∧
              (resolve peer (some first) trustXff trusted = peer ∨ ∃ other ∈ right,
                parseIpAddr other = some (resolve peer (some first) trustXff trusted)))) ∧
      (∀ value, (∃ hop ∈ lastHops value, passes trusted hop = false) → ∀ left,
        resolve peer (some (left ++ ',' :: value)) trustXff trusted =
          resolve peer (some value) trustXff trusted)) := by
  refine ⟨fun distrusts xff => ?_, fun trusts => ⟨?_, ?_⟩⟩
  · have skip : (!trustXff || !isTrusted peer trusted) = true := by
      rw [← Bool.not_and, distrusts]
      rfl
    unfold resolve
    rw [if_pos skip]
  · intro tail hop right stop first second firstEnds secondEnds
    have reached : walk trusted peer (lastHops first) = _ := walk_endsIn stop firstEnds
    rw [resolve_eq_walk trusts, resolve_eq_walk trusts, walk_endsIn stop secondEnds, reached]
    refine ⟨rfl, fun ip parsed => by rw [parsed]; rfl, fun malformed => ?_⟩
    rw [malformed, Option.getD_none]
    have passed : ∀ other ∈ right.reverse, passes trusted other = true :=
      fun other member => stop.passed other (List.mem_reverse.mp member)
    obtain ⟨known, found⟩ := walk_passed passed (Bool.and_eq_true_iff.mp trusts).2
    exact ⟨known, found.imp_right fun ⟨other, member, parsed⟩ =>
      ⟨other, List.mem_reverse.mp member, parsed⟩⟩
  · intro value stops left
    obtain ⟨rest, last⟩ := lastHops_append left value
    rw [resolve_eq_walk trusts, resolve_eq_walk trusts, last, walk_append_of_stop stops]

def tenNet : IpNet where
  contains
    | .v4 bits => bits >>> 24 == 10
    | .v6 _ => false

/-- A proxy in 10.0.0.0/8 has added the address of its client; whatever stood before that. -/
theorem prepended_address_ignored :
    resolve (.v4 0x0a000001) (some "198.51.100.7, 10.0.0.2".toList) true [tenNet] =
        .v4 0xc6336407 ∧
      resolve (.v4 0x0a000001) (some "1.1.1.1,198.51.100.7, 10.0.0.2".toList) true [tenNet] =
        .v4 0xc6336407 := by
  have stop : RightmostStop [tenNet] "198.51.100.7, 10.0.0.2".toList "198.51.100.7".toList
      ["10.0.0.2".toList] :=
    ⟨by decide +kernel, by decide +kernel, by decide +kernel, by decide⟩
  have rules := ((resolve_ignores_left (.v4 0x0a000001) true [tenNet]).2 (by decide +kernel)).1
    _ _ _ stop
  exact ⟨(rules _ _ (.inl rfl) (.inl rfl)).2.1 _ (by decide +kernel),
    (rules _ _ (.inr ⟨"1.1.1.1".toList, rfl⟩) (.inl rfl)).2.1 _ (by decide +kernel)⟩

end Strata.Backend.ClientIp
