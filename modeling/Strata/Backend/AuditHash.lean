import Mathlib.Tactic
import Strata.Lib.Hex
import Strata.Lib.RustInt

/-! The digest of an audit row (`098_audit_chain_v2.sql`). Every field stands behind its length
in bytes, so that no two events have one canonical text. SHA-256 and the text form of JSONB are
parameters. -/

namespace Strata.Backend.Audit

open Utf8 (Text Bytes)
open RustInt (natText intText paddedText)

@[ext] structure Timestamp where
  year : Nat
  month : Nat
  day : Nat
  hour : Nat
  minute : Nat
  second : Nat
  micros : Nat
  commonEra : 1 ≤ year
  monthRange : 1 ≤ month ∧ month ≤ 12
  dayRange : 1 ≤ day ∧ day ≤ 31
  timeRange : hour < 24 ∧ minute < 60 ∧ second < 60 ∧ micros < 10 ^ 6

/-- `to_char(…, 'YYYY-MM-DD"T"HH24:MI:SS.US"Z"')` -/
def Timestamp.text (t : Timestamp) : Text :=
  paddedText 4 t.year ++ '-' :: (paddedText 2 t.month ++ '-' :: (paddedText 2 t.day ++
    'T' :: (paddedText 2 t.hour ++ ':' :: (paddedText 2 t.minute ++ ':' ::
      (paddedText 2 t.second ++ '.' :: (paddedText 6 t.micros ++ ['Z']))))))

def Uuid : Type := {bytes : Bytes // bytes.length = 16}

/-- `uuid::text`: groups of 4, 2, 2, 2 and 6 bytes. -/
def Uuid.text (uuid : Uuid) : Text :=
  Hex.encode (uuid.1.take 4) ++ ('-' :: (Hex.encode ((uuid.1.drop 4).take 2) ++
    ('-' :: (Hex.encode ((uuid.1.drop 6).take 2) ++ ('-' ::
      (Hex.encode ((uuid.1.drop 8).take 2) ++ ('-' :: Hex.encode (uuid.1.drop 10))))))))

structure Hashing (Json : Type) where
  sha256 : Bytes → Bytes
  jsonText : Json → Text

def auditField (x : Text) : Text := natText (Utf8.encode x).length ++ ':' :: x

variable {Json : Type}

@[ext] structure Event (Json : Type) where
  id : Int
  createdAt : Timestamp
  userId : Option Uuid
  action : Text
  details : Json
  previous : Text

def auditCanonicalV2 (hashing : Hashing Json) (event : Event Json) : Text :=
  "strata-audit-v2".toList ++ (auditField (intText event.id) ++
    (auditField event.createdAt.text ++ (auditField ((event.userId.map Uuid.text).getD []) ++
      (auditField event.action ++ (auditField (hashing.jsonText event.details) ++
        auditField event.previous)))))

def auditHashV2 (hashing : Hashing Json) (event : Event Json) : Text :=
  Hex.encode (hashing.sha256 (Utf8.encode (auditCanonicalV2 hashing event)))

/-! ### No two events have one digest -/

theorem Timestamp.text_injective : Function.Injective Timestamp.text := by
  have apart {mark : Char} (other : mark.isDigit = false) {width m n : Nat} {after back : Text}
      (same : paddedText width m ++ mark :: after = paddedText width n ++ mark :: back) :
      m = n ∧ after = back :=
    (RustInt.digits_mark_inj other (RustInt.paddedText_isDigit _ _)
      (RustInt.paddedText_isDigit _ _) same).imp (RustInt.paddedText_injective width ·) id
  intro first second same
  have ⟨year, same⟩ := apart rfl same
  have ⟨month, same⟩ := apart rfl same
  have ⟨day, same⟩ := apart rfl same
  have ⟨hour, same⟩ := apart rfl same
  have ⟨minute, same⟩ := apart rfl same
  have ⟨second', same⟩ := apart rfl same
  have ⟨micros, _⟩ := apart rfl same
  exact Timestamp.ext year month day hour minute second' micros

theorem auditField_append_inj {first second after back : Text}
    (same : auditField first ++ after = auditField second ++ back) :
    first = second ∧ after = back := by
  rw [auditField, auditField, List.append_assoc, List.append_assoc, List.cons_append,
    List.cons_append] at same
  have ⟨lengths, texts⟩ := RustInt.digits_mark_inj rfl (RustInt.natText_isDigit _)
    (RustInt.natText_isDigit _) same
  have bytes := congrArg Utf8.encode texts
  rw [Utf8.encode_append, Utf8.encode_append] at bytes
  have ⟨fronts, backs⟩ := List.append_inj bytes (RustInt.natText_injective lengths)
  exact ⟨Utf8.encode_injective fronts, Utf8.encode_injective backs⟩

theorem Uuid.text_injective : Function.Injective Uuid.text := by
  -- groups of equal lengths at equal places
  have apart {m n : Bytes} {mark : Char} {after back : Text} (lengths : m.length = n.length)
      (same : Hex.encode m ++ mark :: after = Hex.encode n ++ mark :: back) :
      m = n ∧ after = back := by
    have ⟨groups, rest⟩ := List.append_inj same
      (by rw [Hex.encode_length, Hex.encode_length, lengths])
    exact ⟨Hex.encode_injective groups, (List.cons.inj rest).2⟩
  have join (bytes : Bytes) (place size : Nat) :
      bytes.drop place = (bytes.drop place).take size ++ bytes.drop (place + size) := by
    rw [← List.drop_drop, List.take_append_drop]
  intro first second same
  have lengths := first.2.trans second.2.symm
  have ⟨one, same⟩ := apart (by simp [lengths]) same
  have ⟨two, same⟩ := apart (by simp [lengths]) same
  have ⟨three, same⟩ := apart (by simp [lengths]) same
  have ⟨four, same⟩ := apart (by simp [lengths]) same
  have five := Hex.encode_injective same
  apply Subtype.ext
  calc
    first.1 = first.1.take 4 ++ first.1.drop 4 := (List.take_append_drop ..).symm
    _ = second.1.take 4 ++ second.1.drop 4 := by
      rw [join _ 4 2, join _ 6 2, join _ 8 2, join second.1 4 2, join second.1 6 2,
        join second.1 8 2, one, two, three, four, five]
    _ = second.1 := List.take_append_drop ..

theorem Uuid.text_ne_nil (uuid : Uuid) : uuid.text ≠ [] := by
  intro empty
  have mark := congrArg (fun text => '-' ∈ text) empty
  simp [Uuid.text] at mark

theorem userText_injective :
    Function.Injective fun user : Option Uuid => (user.map Uuid.text).getD [] := by
  intro first second same
  cases first with
  | none =>
      cases second with
      | none => rfl
      | some other => exact absurd same.symm other.text_ne_nil
  | some uuid =>
      cases second with
      | none => exact absurd same uuid.text_ne_nil
      | some other => exact congrArg some (Uuid.text_injective same)

section Injective

variable {hashing : Hashing Json} (jsonText_injective : Function.Injective hashing.jsonText)

include jsonText_injective

theorem auditCanonicalV2_injective : Function.Injective (auditCanonicalV2 hashing) := by
  intro first second same
  have ⟨ids, same⟩ := auditField_append_inj (List.append_cancel_left same)
  have ⟨times, same⟩ := auditField_append_inj same
  have ⟨users, same⟩ := auditField_append_inj same
  have ⟨actions, same⟩ := auditField_append_inj same
  have ⟨details, same⟩ := auditField_append_inj same
  have previous : first.previous = second.previous := by
    rw [← List.append_nil (auditField first.previous),
      ← List.append_nil (auditField second.previous)] at same
    exact (auditField_append_inj same).1
  exact Event.ext (RustInt.intText_injective ids) (Timestamp.text_injective times)
    (userText_injective users) actions (jsonText_injective details) previous

theorem auditHashV2_injective (sha256_injective : Function.Injective hashing.sha256) :
    Function.Injective (auditHashV2 hashing) := fun _ _ same =>
  auditCanonicalV2_injective jsonText_injective
    (Utf8.encode_injective (sha256_injective (Hex.encode_injective same)))

end Injective

end Strata.Backend.Audit
