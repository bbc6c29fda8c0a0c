import Mathlib.Tactic
import Strata.Lib.Utf8

/-! The passwords given to checked-out accounts: one character of every required class, filled up
from all of them and shuffled. The random generator is the sequence of its outcomes. -/

namespace Strata.Backend.CheckoutPasswords

open Utf8 (Text Bytes)

structure PasswordPolicy where
  minLength : Int
  requireUppercase : Bool
  requireLowercase : Bool
  requireNumbers : Bool
  requireSymbols : Bool
  deriving DecidableEq

def uppercase : Text := "ABCDEFGHIJKLMNOPQRSTUVWXYZ".toList

def lowercase : Text := "abcdefghijklmnopqrstuvwxyz".toList

def numbers : Text := "0123456789".toList

def symbols : Text := "!@#$%^&*()-_=+[]\x7b\x7d|;:,.<>?".toList

structure Draft where
  password : Array UInt8
  outcomes : Nat → Nat

/-- `random_range(0..n)`. -/
def Draft.draw (draft : Draft) (n : Nat) : Nat := draft.outcomes 0 % n

def Draft.later (draft : Draft) : Nat → Nat := fun k => draft.outcomes (k + 1)

theorem Draft.draw_lt (draft : Draft) {bytes : Bytes} (filled : bytes ≠ []) :
    draft.draw bytes.length < bytes.length :=
  Nat.mod_lt _ (List.length_pos_iff.mpr filled)

def Draft.push (draft : Draft) (bytes : Bytes) (filled : bytes ≠ []) : Draft :=
  ⟨draft.password.push (bytes.get ⟨draft.draw bytes.length, draft.draw_lt filled⟩), draft.later⟩

def Draft.pushRequired (draft : Draft) (required : Bool) (bytes : Bytes) (filled : bytes ≠ []) :
    Draft :=
  if required then draft.push bytes filled else draft

def requiredClasses (policy : PasswordPolicy) : List Text :=
  (if policy.requireUppercase then [uppercase] else []) ++
    (if policy.requireLowercase then [lowercase] else []) ++
    (if policy.requireNumbers then [numbers] else []) ++
    (if policy.requireSymbols then [symbols] else [])

def classes (policy : PasswordPolicy) : List Text :=
  if requiredClasses policy = [] then [uppercase, lowercase, numbers] else requiredClasses policy

def charset (policy : PasswordPolicy) : Bytes := Utf8.encode (classes policy).flatten

theorem requiredClasses_subset {policy : PasswordPolicy} {chars : Text}
    (required : chars ∈ requiredClasses policy) : chars ∈ classes policy := by
  rw [classes, if_neg (List.ne_nil_of_mem required)]
  exact required

theorem classes_forall (good : Text → Prop) (upper : good uppercase) (lower : good lowercase)
    (digits : good numbers) (other : good symbols) (policy : PasswordPolicy) :
    ∀ chars ∈ classes policy, good chars := by
  have each (required : Bool) {chars : Text} (own : good chars) :
      ∀ found ∈ (if required then [chars] else []), good found := by
    cases required with
    | false => exact fun _ member => absurd member List.not_mem_nil
    | true => exact List.forall_mem_singleton.mpr own
  rw [classes]
  split
  · exact List.forall_mem_cons.mpr ⟨upper, List.forall_mem_cons.mpr ⟨lower,
      List.forall_mem_singleton.mpr digits⟩⟩
  · simp only [requiredClasses, List.forall_mem_append]
    exact ⟨⟨⟨each _ upper, each _ lower⟩, each _ digits⟩, each _ other⟩

theorem ascii_of_mem_classes {policy : PasswordPolicy} :
    ∀ chars ∈ classes policy, ∀ c ∈ chars, c.toNat < 128 := by
  intro chars member c inside
  have ascii : (chars.all fun c => decide (c.toNat < 128)) = true :=
    classes_forall (fun chars => (chars.all fun c => decide (c.toNat < 128)) = true)
      (by decide) (by decide) (by decide) (by decide) policy chars member
  exact of_decide_eq_true (List.all_eq_true.mp ascii c inside)

theorem encode_filled {text : Text} (filled : text ≠ []) : Utf8.encode text ≠ [] := by
  intro empty
  exact filled (Utf8.encode_injective (empty.trans Utf8.encode_nil.symm))

theorem charset_filled (policy : PasswordPolicy) : charset policy ≠ [] := by
  apply encode_filled
  intro empty
  have some : classes policy ≠ [] := by
    rw [classes]
    split
    · decide
    · next some => exact some
  obtain ⟨chars, member⟩ := List.exists_mem_of_ne_nil _ some
  exact classes_forall (· ≠ []) (by decide) (by decide) (by decide) (by decide) policy chars member
    (List.flatten_eq_nil_iff.mp empty chars member)

def Draft.fill (draft : Draft) (bytes : Bytes) (filled : bytes ≠ []) (length : Nat) : Draft :=
  if draft.password.size < length then (draft.push bytes filled).fill bytes filled length
  else draft
termination_by length - draft.password.size
decreasing_by
  rw [Draft.push, Array.size_push]
  omega

def Draft.swap (draft : Draft) (i : Nat) : Draft :=
  ⟨draft.password.swapIfInBounds i (draft.draw (i + 1)), draft.later⟩

def Draft.shuffle (draft : Draft) : Draft :=
  (List.range' 1 (draft.password.size - 1)).reverse.foldl Draft.swap draft

def firstDraft (policy : PasswordPolicy) (outcomes : Nat → Nat) : Draft :=
  let draft := Draft.mk #[] outcomes
  let draft := draft.pushRequired policy.requireUppercase (Utf8.encode uppercase) (by decide)
  let draft := draft.pushRequired policy.requireLowercase (Utf8.encode lowercase) (by decide)
  let draft := draft.pushRequired policy.requireNumbers (Utf8.encode numbers) (by decide)
  draft.pushRequired policy.requireSymbols (Utf8.encode symbols) (by decide)

/-- None where the bytes are not UTF-8. -/
def generatePassword (policy : PasswordPolicy) (outcomes : Nat → Nat) : Option Text :=
  let length := (max policy.minLength 12).toNat
  let draft := (firstDraft policy outcomes).fill (charset policy) (charset_filled policy) length
  Utf8.decode draft.shuffle.password.toList

/-! ### What each part adds -/

theorem push_eq (draft : Draft) (bytes : Bytes) (filled : bytes ≠ []) :
    ∃ byte ∈ bytes,
      (draft.push bytes filled).password.toList = draft.password.toList ++ [byte] :=
  ⟨_, List.get_mem .., Array.toList_push⟩

structure Spells (draft : Draft) (classes : List Text) : Prop where
  size : draft.password.size = classes.length
  drawn : ∀ byte ∈ draft.password.toList, ∃ chars ∈ classes, byte ∈ Utf8.encode chars
  has : ∀ chars ∈ classes, ∃ byte ∈ draft.password.toList, byte ∈ Utf8.encode chars

theorem Spells.pushRequired {draft : Draft} {classes : List Text} (spells : Spells draft classes)
    (required : Bool) (chars : Text) (filled : Utf8.encode chars ≠ []) :
    Spells (draft.pushRequired required (Utf8.encode chars) filled)
      (classes ++ if required then [chars] else []) := by
  rw [Draft.pushRequired]
  cases required with
  | false =>
      simp only [Bool.false_eq_true, if_false, List.append_nil]
      exact spells
  | true =>
      obtain ⟨byte, member, pushed⟩ := push_eq draft (Utf8.encode chars) filled
      simp only [if_true]
      refine ⟨?_, ?_, ?_⟩
      · rw [Draft.push, Array.size_push, spells.size, List.length_append, List.length_singleton]
      · rw [pushed, List.forall_mem_append, List.forall_mem_singleton]
        refine ⟨fun byte old => ?_, chars, by simp, member⟩
        obtain ⟨known, inside, own⟩ := spells.drawn byte old
        exact ⟨known, List.mem_append_left _ inside, own⟩
      · rw [pushed, List.forall_mem_append, List.forall_mem_singleton]
        refine ⟨fun known inside => ?_, byte, by simp, member⟩
        obtain ⟨byte, old, own⟩ := spells.has known inside
        exact ⟨byte, List.mem_append_left _ old, own⟩

theorem firstDraft_spells (policy : PasswordPolicy) (outcomes : Nat → Nat) :
    Spells (firstDraft policy outcomes) (requiredClasses policy) := by
  have start : Spells ⟨#[], outcomes⟩ [] := ⟨rfl, by simp, by simp⟩
  exact (((start.pushRequired _ uppercase (by decide)).pushRequired _ lowercase
    (by decide)).pushRequired _ numbers (by decide)).pushRequired _ symbols (by decide)

theorem fill_eq (draft : Draft) (bytes : Bytes) (filled : bytes ≠ []) {length : Nat}
    (short : draft.password.size ≤ length) :
    ∃ added, (draft.fill bytes filled length).password.toList =
        draft.password.toList ++ added ∧
      draft.password.size + added.length = length ∧ ∀ byte ∈ added, byte ∈ bytes := by
  induction room : length - draft.password.size generalizing draft with
  | zero =>
      rw [Draft.fill, if_neg (by omega)]
      exact ⟨[], (List.append_nil _).symm, by simp; omega, by simp⟩
  | succ room ih =>
      rw [Draft.fill, if_pos (by omega)]
      obtain ⟨byte, member, pushed⟩ := push_eq draft bytes filled
      have grown : (draft.push bytes filled).password.size = draft.password.size + 1 :=
        Array.size_push _
      obtain ⟨added, shape, total, inside⟩ := ih (draft.push bytes filled) (by omega) (by omega)
      refine ⟨byte :: added, ?_, ?_, ?_⟩
      · rw [shape, pushed, List.append_assoc, List.singleton_append]
      · rw [List.length_cons]
        omega
      · exact List.forall_mem_cons.mpr ⟨member, inside⟩

theorem swap_perm (draft : Draft) (i : Nat) :
    (draft.swap i).password.toList.Perm draft.password.toList := by
  rw [Draft.swap, Array.swapIfInBounds]
  split
  · split
    · exact (Array.swap_perm ..).toList
    · exact .refl _
  · exact .refl _

theorem shuffle_perm (draft : Draft) :
    draft.shuffle.password.toList.Perm draft.password.toList := by
  have moved (indices : List Nat) (shuffled : Draft) :
      (indices.foldl Draft.swap shuffled).password.toList.Perm shuffled.password.toList := by
    induction indices generalizing shuffled with
    | nil => exact .refl _
    | cons i indices ih => exact (ih (shuffled.swap i)).trans (swap_perm shuffled i)
  exact moved _ draft

/-! ### Bytes and characters -/

theorem encode_ascii {text : Text} (ascii : ∀ c ∈ text, c.toNat < 128) :
    Utf8.encode text = text.map fun c => UInt8.ofNat c.toNat := by
  induction text with
  | nil => rfl
  | cons c text ih =>
      have own := Utf8.encodeChar_ascii c.toNat (ascii c List.mem_cons_self)
      rw [Char.ofNat_toNat] at own
      rw [Utf8.encode_cons, own, ih fun d member => ascii d (List.mem_cons_of_mem _ member)]
      rfl

theorem decode_ascii {bytes : Bytes} (ascii : ∀ byte ∈ bytes, byte.toNat < 128) :
    Utf8.decode bytes = some (bytes.map fun byte => Char.ofNat byte.toNat) := by
  have back : ∀ n < 128, (Char.ofNat n).toNat = n := by decide
  have encoded : Utf8.encode (bytes.map fun byte => Char.ofNat byte.toNat) = bytes := by
    rw [encode_ascii, List.map_map]
    · refine (List.map_congr_left fun byte member => ?_).trans (List.map_id bytes)
      simp only [Function.comp_apply, back _ (ascii byte member), UInt8.ofNat_toNat, id]
    · rw [List.forall_mem_map]
      intro byte member
      rw [back _ (ascii byte member)]
      exact ascii byte member
  rw [← Utf8.decode_encode, encoded]

theorem char_of_mem_encode {text : Text} (ascii : ∀ c ∈ text, c.toNat < 128) {byte : UInt8}
    (member : byte ∈ Utf8.encode text) :
    byte.toNat < 128 ∧ Char.ofNat byte.toNat ∈ text := by
  rw [encode_ascii ascii] at member
  obtain ⟨c, inside, rfl⟩ := List.mem_map.mp member
  have small := ascii c inside
  have same : (UInt8.ofNat c.toNat).toNat = c.toNat := by
    rw [UInt8.toNat_ofNat']
    omega
  rw [same, Char.ofNat_toNat]
  exact ⟨small, inside⟩

/-! ### The password -/

theorem requiredClasses_length (policy : PasswordPolicy) :
    (requiredClasses policy).length ≤ 4 := by
  have each (required : Bool) (chars : Text) :
      (if required then [chars] else []).length ≤ 1 := by
    cases required <;> simp
  have upper := each policy.requireUppercase uppercase
  have lower := each policy.requireLowercase lowercase
  have digits := each policy.requireNumbers numbers
  have other := each policy.requireSymbols symbols
  simp only [requiredClasses, List.length_append]
  omega

/-- Whatever is drawn, the password has the policy's length and at least twelve characters, one of
every required class, and none but of those classes. -/
theorem generated_password_meets_policy (policy : PasswordPolicy) (outcomes : Nat → Nat) :
    ∃ password, generatePassword policy outcomes = some password ∧
      (password.length : Int) = max policy.minLength 12 ∧
      (∀ chars ∈ requiredClasses policy, ∃ c ∈ password, c ∈ chars) ∧
      ∀ c ∈ password, ∃ chars ∈ classes policy, c ∈ chars := by
  have ⟨size, drawn, has⟩ := firstDraft_spells policy outcomes
  have few := requiredClasses_length policy
  obtain ⟨added, shape, total, inside⟩ := fill_eq (firstDraft policy outcomes) (charset policy)
    (charset_filled policy) (show _ ≤ (max policy.minLength 12).toNat by omega)
  have perm := shuffle_perm ((firstDraft policy outcomes).fill (charset policy)
    (charset_filled policy) (max policy.minLength 12).toNat)
  rw [shape] at perm
  have part {chars : Text} (member : chars ∈ classes policy) {byte : UInt8}
      (own : byte ∈ Utf8.encode chars) :
      byte.toNat < 128 ∧ Char.ofNat byte.toNat ∈ chars :=
    char_of_mem_encode (ascii_of_mem_classes chars member) own
  have each : ∀ byte ∈ (firstDraft policy outcomes).password.toList ++ added,
      byte.toNat < 128 ∧ ∃ chars ∈ classes policy, Char.ofNat byte.toNat ∈ chars := by
    intro byte member
    rcases List.mem_append.mp member with first | later
    · obtain ⟨chars, required, own⟩ := drawn byte first
      have ⟨ascii, spelled⟩ := part (requiredClasses_subset required) own
      exact ⟨ascii, chars, requiredClasses_subset required, spelled⟩
    · have flat : ∀ c ∈ (classes policy).flatten, c.toNat < 128 := by
        intro c member
        obtain ⟨chars, inside, own⟩ := List.mem_flatten.mp member
        exact ascii_of_mem_classes chars inside c own
      have ⟨ascii, spelled⟩ := char_of_mem_encode flat (inside byte later)
      exact ⟨ascii, List.mem_flatten.mp spelled⟩
  refine ⟨_, decode_ascii fun byte member => (each byte (perm.mem_iff.mp member)).1, ?_, ?_, ?_⟩
  · rw [List.length_map, perm.length_eq, List.length_append, Array.length_toList, total]
    omega
  · intro chars required
    obtain ⟨byte, member, own⟩ := has chars required
    exact ⟨_, List.mem_map_of_mem (perm.mem_iff.mpr (List.mem_append_left _ member)),
      (part (requiredClasses_subset required) own).2⟩
  · rw [List.forall_mem_map]
    intro byte member
    exact (each byte (perm.mem_iff.mp member)).2

end Strata.Backend.CheckoutPasswords
