import Mathlib.Tactic
import Strata.Dmz.EdgeSigner
import Strata.Lib.KeyOrder

/-! The body caps by client network (`body_caps.rs`): the rules of the operator's list, sorted by
the length of their prefixes, and the first of them that matches an address. -/

namespace Strata.Dmz.BodyCaps

open Utf8 (Text)
open RustStr (trim splitOnce)
open RustInt (usizeMax)
open Net (IpAddr parseIpAddr)

/-- `v4_mask`, `v6_mask` -/
def mask (width bits : Nat) : BitVec width :=
  if bits = 0 then 0 else BitVec.allOnes width <<< (width - bits)

def maskToPrefix (addr : IpAddr) (bits : Nat) : IpAddr :=
  match addr with
  | .v4 v4 => .v4 (v4 &&& mask 32 bits)
  | .v6 v6 => .v6 (v6 &&& mask 128 bits)

structure Rule where
  net : IpAddr
  prefixLen : Nat
  cap : Nat
  fits : prefixLen ≤ addressWidth net
  deriving DecidableEq

/-! ### Parsing -/

def parseCidr (text : Text) :
    Option ((addr : IpAddr) × {bits : Nat // bits ≤ addressWidth addr}) := do
  let (addrPart, prefixPart) :=
    match splitOnce '/' text with
    | some (before, after) => (before, some after)
    | none => (text, none)
  let addr ← parseIpAddr addrPart
  let bits ←
    match prefixPart with
    | some digits => RustInt.parseU8 digits
    | none => some (addressWidth addr)
  if fits : bits ≤ addressWidth addr then some ⟨addr, bits, fits⟩ else none

def unit : Char → Option Nat
  | 'K' | 'k' => some 1024
  | 'M' | 'm' => some (1024 * 1024)
  | 'G' | 'g' => some (1024 * 1024 * 1024)
  | _ => none

def parseBytes (text : Text) : Option Nat := do
  let last ← (trim text).getLast?
  let (digits, mult) :=
    match unit last with
    | some mult => ((trim text).dropLast, mult)
    | none => (trim text, 1)
  let count ← RustInt.parseUsize (trim digits)
  if count * mult ≤ usizeMax then some (count * mult) else none

theorem addressWidth_maskToPrefix (addr : IpAddr) (bits : Nat) :
    addressWidth (maskToPrefix addr bits) = addressWidth addr := by
  cases addr <;> rfl

section

-- the text of `{:?}`
variable (debug : Text → Text)

def parseRule (frag : Text) : Except Text Rule :=
  let refused (what : Text) : Except Text Rule := .error ("rule ".toList ++ debug frag ++ what)
  match splitOnce '=' frag with
  | none => refused " missing '=' separator".toList
  | some (cidr, bytes) =>
      match parseBytes (trim bytes) with
      | none => refused (": invalid bytes value ".toList ++ debug bytes)
      | some cap =>
          match parseCidr (trim cidr) with
          | none => refused (": invalid CIDR ".toList ++ debug cidr)
          | some ⟨addr, bits, fits⟩ =>
              .ok ⟨maskToPrefix addr bits, bits, cap, by rwa [addressWidth_maskToPrefix]⟩

def parseFragments : List Text → Except Text (List Rule)
  | [] => .ok []
  | fragment :: fragments =>
      if trim fragment = [] then parseFragments fragments
      else do
        let rule ← parseRule debug (trim fragment)
        let rules ← parseFragments fragments
        return rule :: rules

def listed (input : Text) : Except Text (List Rule) :=
  if trim input = [] then .ok [] else parseFragments debug (input.splitOn ',')

def parse (input : Text) : Except Text (List Rule) :=
  (listed debug input).map (KeyOrder.byKeyDesc Rule.prefixLen)

end

/-! ### Looking up -/

def Rule.isMatch (rule : Rule) (ip : IpAddr) : Bool :=
  match rule.net, ip with
  | .v4 net, .v4 probe => net &&& mask 32 rule.prefixLen == probe &&& mask 32 rule.prefixLen
  | .v6 net, .v6 probe => net &&& mask 128 rule.prefixLen == probe &&& mask 128 rule.prefixLen
  | _, _ => false

def lookup (rules : List Rule) (ip : IpAddr) : Option Nat :=
  (rules.find? fun rule => rule.isMatch ip).map (·.cap)

def Agree {width : Nat} (bits : Nat) (first second : BitVec width) : Prop :=
  ∀ i < bits, first.getMsbD i = second.getMsbD i

def Rule.Contains (rule : Rule) : IpAddr → Prop
  | .v4 probe => ∃ net, rule.net = .v4 net ∧ Agree rule.prefixLen net probe
  | .v6 probe => ∃ net, rule.net = .v6 net ∧ Agree rule.prefixLen net probe

theorem getMsbD_mask {width bits : Nat} (fits : bits ≤ width) (i : Nat) :
    (mask width bits).getMsbD i = decide (i < bits) := by
  rw [mask]
  split_ifs with none
  · simp [none]
  · rw [BitVec.getMsbD_shiftLeft, BitVec.getMsbD_allOnes]
    congr 1
    apply propext
    omega

theorem masked_eq_iff {width bits : Nat} (fits : bits ≤ width) (first second : BitVec width) :
    first &&& mask width bits = second &&& mask width bits ↔ Agree bits first second := by
  constructor
  · intro same i inside
    have bit := congrArg (·.getMsbD i) same
    simpa [getMsbD_mask fits, inside] using bit
  · intro agree
    apply BitVec.eq_of_getMsbD_eq
    intro i _
    rw [BitVec.getMsbD_and, BitVec.getMsbD_and, getMsbD_mask fits]
    by_cases inside : i < bits
    · rw [agree i inside]
    · simp [inside]

theorem isMatch_iff (rule : Rule) (ip : IpAddr) : rule.isMatch ip = true ↔ rule.Contains ip := by
  obtain ⟨net, bits, cap, fits⟩ := rule
  cases net with
  | v4 net =>
      have short : bits ≤ 32 := fits
      cases ip with
      | v4 probe => simp [Rule.isMatch, Rule.Contains, masked_eq_iff short]
      | v6 probe => simp [Rule.isMatch, Rule.Contains]
  | v6 net =>
      have short : bits ≤ 128 := fits
      cases ip with
      | v4 probe => simp [Rule.isMatch, Rule.Contains]
      | v6 probe => simp [Rule.isMatch, Rule.Contains, masked_eq_iff short]

/-- The cap of the rule with the longest prefix among those that contain the address, the earliest
of the input where several are as long; none if no rule contains it. -/
theorem lookup_longest_prefix {debug : Text → Text} {input : Text} {rules : List Rule}
    (parsed : parse debug input = .ok rules) (ip : IpAddr) :
    ∃ inputRules, listed debug input = .ok inputRules ∧
      match lookup rules ip with
      | none => ∀ rule ∈ inputRules, ¬ rule.Contains ip
      | some cap => ∃ before rule after, inputRules = before ++ rule :: after ∧ rule.cap = cap ∧
          rule.Contains ip ∧
          (∀ other ∈ before, other.Contains ip → other.prefixLen < rule.prefixLen) ∧
          ∀ other ∈ after, other.Contains ip → other.prefixLen ≤ rule.prefixLen := by
  rw [parse] at parsed
  cases found : listed debug input with
  | error text =>
      rw [found] at parsed
      cases parsed
  | ok inputRules =>
      rw [found] at parsed
      cases parsed
      refine ⟨inputRules, rfl, ?_⟩
      have greatest := KeyOrder.greatest_byKeyDesc Rule.prefixLen (fun rule => rule.isMatch ip)
        inputRules
      rw [lookup]
      generalize (KeyOrder.byKeyDesc Rule.prefixLen inputRules).find? _ = best at greatest
      cases greatest with
      | none unmatched =>
          intro rule member contains
          have hit := (isMatch_iff rule ip).mpr contains
          rw [unmatched rule member] at hit
          cases hit
      | some before after rule split matched earlier later =>
          refine ⟨before, rule, after, split, rfl, (isMatch_iff rule ip).mp matched, ?_, ?_⟩
          · exact fun other member contains =>
              earlier other member ((isMatch_iff other ip).mpr contains)
          · exact fun other member contains =>
              later other member ((isMatch_iff other ip).mpr contains)

def sampleRules : Text := "10.0.0.0/8=100M, 10.1.0.0/16 = 2k,10.1.2.3/16=7".toList

def sampleParsed : List Rule := (parse id sampleRules).toOption.getD []

theorem sample_longest_prefix :
    lookup sampleParsed (.v4 0x0A010909#32) = some 2048 ∧
      ∃ inputRules, listed id sampleRules = .ok inputRules ∧
        ∃ rule ∈ inputRules, rule.cap = 2048 ∧ rule.Contains (.v4 0x0A010909#32) := by
  have parsed : parse id sampleRules = .ok sampleParsed := by decide +kernel
  have found : lookup sampleParsed (.v4 0x0A010909#32) = some 2048 := by decide +kernel
  obtain ⟨inputRules, listing, spec⟩ := lookup_longest_prefix parsed (.v4 0x0A010909#32)
  rw [found] at spec
  obtain ⟨before, rule, after, rfl, cap, contains, -⟩ := spec
  exact ⟨found, _, listing, rule, by simp, cap, contains⟩

end Strata.Dmz.BodyCaps
