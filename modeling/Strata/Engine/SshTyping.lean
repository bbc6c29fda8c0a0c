import Mathlib.Tactic
import Strata.Engine.PtyKeys
import Strata.Engine.SshLogin

/-! Credentials typed at the login of the SSH engine, key by key: `keymap.rs` turns a key into
bytes, and the prompt of `ssh/mod.rs` takes every byte for a character. -/

namespace Strata.Engine.Ssh

open Utf8 (Text Bytes)
open Pty (Backspace keysymToBytesWith typedChar)
open Rdp (isControl)

def Login.credentials (login : Login) : Text × Text :=
  (login.username.getD [], login.password.getD [])

def offered (target : Target) : Stage → Bytes → List (Text × Text)
  | .login login, byte :: rest =>
      (if (login.feed byte).2 = .ready then [(login.feed byte).1.credentials] else []) ++
        offered target (typeByte target login byte).1 rest
  | _, _ => []

inductive Key where
  | character (keysym : Nat) (shift : Bool)
  | backspace
  deriving DecidableEq, Repr

section
variable (choice : Backspace)

def keyBytes (keysym : Nat) (shift : Bool) : Bytes :=
  (keysymToBytesWith keysym ⟨false, false, shift⟩ choice).getD []

def Key.bytes : Key → Bytes
  | .character keysym shift => keyBytes choice keysym shift
  | .backspace => keyBytes choice Pty.backspaceKeysym false

def lineBytes (keys : List Key) : Bytes :=
  keys.flatMap (Key.bytes choice) ++ keyBytes choice 0xff0d false

end

/-- The text that printable keys and backspaces leave, if no backspace finds it empty. -/
def edit : Text → List Key → Option Text
  | text, [] => some text
  | text, .character keysym _ :: keys =>
      match typedChar keysym with
      | some c => if isControl c then none else edit (text ++ [c]) keys
      | none => none
  | text, .backspace :: keys => if text = [] then none else edit text.dropLast keys

theorem edit_character {text final : Text} {keysym : Nat} {shift : Bool} {keys : List Key}
    (types : edit text (.character keysym shift :: keys) = some final) :
    ∃ c, typedChar keysym = some c ∧ isControl c = false ∧
      edit (text ++ [c]) keys = some final := by
  rw [edit] at types
  cases typed : typedChar keysym with
  | none =>
      rw [typed] at types
      cases types
  | some c =>
      simp only [typed] at types
      split at types
      · cases types
      · exact ⟨c, rfl, Bool.eq_false_iff.mpr ‹_›, types⟩

theorem edit_backspace {text final : Text} {keys : List Key}
    (types : edit text (.backspace :: keys) = some final) :
    text ≠ [] ∧ edit text.dropLast keys = some final := by
  rw [edit] at types
  split at types
  · cases types
  · exact ⟨‹_›, types⟩

def Key.Ascii : Key → Prop
  | .character keysym _ => (typedChar keysym).all (·.toNat < 128) = true
  | .backspace => True

instance : DecidablePred Key.Ascii
  | .character .. => inferInstanceAs (Decidable (_ = true))
  | .backspace => isTrue trivial

theorem ascii_character {keysym : Nat} {c : Char} (typed : typedChar keysym = some c)
    (shift : Bool) : (Key.character keysym shift).Ascii ↔ c.toNat < 128 := by
  rw [Key.Ascii, typed, Option.all_some, decide_eq_true_iff]

/-! ### What the login collects -/

def asChars (c : Char) : Text := (String.utf8EncodeChar c).map byteChar

def collect : Text → List Key → Text
  | typed, [] => typed
  | typed, .character keysym _ :: keys =>
      collect (typed ++ ((typedChar keysym).map asChars).getD []) keys
  | typed, .backspace :: keys => collect typed.dropLast keys

theorem printable_bytes {c : Char} (printed : isControl c = false) :
    ∀ byte ∈ String.utf8EncodeChar c, 0x20 ≤ byte.toNat ∧ byte ≠ 0x7f := by
  have beyond : ∀ byte : UInt8, 0x80 ≤ byte.toNat → 0x20 ≤ byte.toNat ∧ byte ≠ 0x7f := by
    rintro byte large
    refine ⟨by omega, ?_⟩
    rintro rfl
    exact absurd large (by decide)
  have continues : ∀ byte : UInt8, byte &&& 0xC0 = 0x80 → 0x80 ≤ byte.toNat := by
    intro byte
    obtain ⟨n, small, rfl⟩ : ∃ n < 256, byte = UInt8.ofNat n :=
      ⟨byte.toNat, byte.toNat_lt, (UInt8.ofNat_toNat).symm⟩
    have table : ∀ n < 256, UInt8.ofNat n &&& 0xC0 = 0x80 → 0x80 ≤ (UInt8.ofNat n).toNat := by
      decide +kernel
    exact table n small
  rcases Utf8.encodeChar_cases c with ⟨a, shape, -, same⟩ | ⟨a, b, shape, low, -, hb⟩ |
    ⟨a, b, d, shape, low, -, hb, hd⟩ | ⟨a, b, d, e, shape, low, -, hb, hd, he⟩
  all_goals
    rw [shape]
    simp only [List.forall_mem_cons, List.not_mem_nil, false_implies, implies_true, and_true]
  · simp only [isControl, same, Bool.or_eq_false_iff, decide_eq_false_iff_not,
      Bool.and_eq_false_iff] at printed
    refine ⟨by omega, ?_⟩
    rintro rfl
    exact absurd printed.2 (by decide)
  · exact ⟨beyond a (by omega), beyond b (continues b hb)⟩
  · exact ⟨beyond a (by omega), beyond b (continues b hb), beyond d (continues d hd)⟩
  · exact ⟨beyond a (by omega), beyond b (continues b hb), beyond d (continues d hd),
      beyond e (continues e he)⟩

section
variable (target : Target) (choice : Backspace)

theorem offered_byte (login : Login) {byte : UInt8} (printed : 0x20 ≤ byte.toNat ∧ byte ≠ 0x7f)
    (rest : Bytes) :
    offered target (.login login) (byte :: rest) =
      offered target (.login { login with typed := login.typed ++ [byteChar byte] }) rest := by
  have apart : ∀ small : UInt8, small.toNat < 0x20 → (byte == small) = false := by
    intro small below
    refine beq_eq_false_iff_ne.mpr ?_
    rintro rfl
    omega
  have large : ¬ byte < 0x20 := UInt8.not_lt.mpr (UInt8.le_iff_toNat_le.mpr printed.1)
  have fed : login.feed byte = ({ login with typed := login.typed ++ [byteChar byte] },
      if login.awaiting = .username then .echo [byteChar byte] else .ignored) := by
    rw [Login.feed, isEnter, isErase, isInterrupt, apart 0x0d (by decide), apart 0x0a (by decide),
      apart 0x08 (by decide), apart 0x03 (by decide), beq_eq_false_iff_ne.mpr printed.2,
      if_neg large]
    rfl
  rw [offered, typeByte, fed]
  by_cases waits : login.awaiting = .username
  · rw [if_pos waits]
    rfl
  · rw [if_neg waits]
    rfl

theorem offered_erase (login : Login) (rest : Bytes) :
    offered target (.login login) (choice.byte :: rest) =
      offered target (.login { login with typed := login.typed.dropLast }) rest := by
  have fed : login.feed choice.byte = ({ login with typed := login.typed.dropLast },
      if login.typed ≠ [] ∧ login.awaiting = .username then .echo eraseEcho else .ignored) := by
    cases choice <;> rfl
  rw [offered, typeByte, fed]
  by_cases echoes : login.typed ≠ [] ∧ login.awaiting = .username
  · rw [if_pos echoes]
    rfl
  · rw [if_neg echoes]
    rfl

theorem offered_bytes {bytes : Bytes} (printed : ∀ byte ∈ bytes, 0x20 ≤ byte.toNat ∧ byte ≠ 0x7f)
    (login : Login) (rest : Bytes) :
    offered target (.login login) (bytes ++ rest) =
      offered target (.login { login with typed := login.typed ++ bytes.map byteChar }) rest := by
  induction bytes generalizing login with
  | nil => simp
  | cons byte bytes ih =>
      rw [List.forall_mem_cons] at printed
      rw [List.cons_append, offered_byte target login printed.1, ih printed.2]
      simp

theorem offered_keys {text final : Text} {keys : List Key} (types : edit text keys = some final)
    (login : Login) (rest : Bytes) :
    offered target (.login login) (keys.flatMap (Key.bytes choice) ++ rest) =
      offered target (.login { login with typed := collect login.typed keys }) rest := by
  induction keys generalizing text login with
  | nil => rfl
  | cons key keys ih =>
      rw [List.flatMap_cons, List.append_assoc]
      cases key with
      | character keysym shift =>
          obtain ⟨c, typed, printed, types⟩ := edit_character types
          have bytes : Key.bytes choice (.character keysym shift) = String.utf8EncodeChar c := by
            rw [Key.bytes, keyBytes, Pty.keysymToBytesWith_of_typedChar typed]
            rfl
          rw [bytes, offered_bytes target (printable_bytes printed), ih types, collect, typed]
          rfl
      | backspace =>
          rw [collect]
          exact (offered_erase target choice login _).trans (ih (edit_backspace types).2 _)

theorem offered_enter_username {login : Login} (waits : login.awaiting = .username)
    (some_typed : login.typed ≠ []) (rest : Bytes) :
    offered target (.login login) (keyBytes choice 0xff0d false ++ rest) =
      offered target (.login { login with
        typed := [], username := some login.typed, awaiting := .password }) rest := by
  have fed : login.feed 0x0d = ({ login with
      typed := [], username := some login.typed, awaiting := .password }, .needPassword) := by
    rw [Login.feed, waits, if_pos rfl]
    exact if_neg some_typed
  change offered target (.login login) (0x0d :: rest) = _
  rw [offered, typeByte, fed]
  rfl

theorem offered_enter_password {login : Login} (waits : login.awaiting = .password) :
    offered target (.login login) (keyBytes choice 0xff0d false) =
      [(login.username.getD [], login.typed)] := by
  have fed : login.feed 0x0d = ({ login with
      typed := [], password := some login.typed, attempts := login.attempts + 1 }, .ready) := by
    rw [Login.feed, waits]
    rfl
  change offered target (.login login) [0x0d] = _
  rw [offered, fed, if_pos rfl]
  cases (typeByte target login 0x0d).1 <;> rfl

end

/-! ### Counting characters -/

theorem asChars_ascii {c : Char} (small : c.toNat < 128) : asChars c = [c] := by
  have alone := Utf8.encodeChar_ascii c.toNat small
  rw [Char.ofNat_toNat] at alone
  rw [asChars, alone, List.map_singleton, byteChar, UInt8.toNat_ofNat',
    Nat.mod_eq_of_lt (by omega), Char.ofNat_toNat]

theorem collect_ascii {text final : Text} {keys : List Key} (ascii : ∀ key ∈ keys, key.Ascii)
    (types : edit text keys = some final) : collect text keys = final := by
  induction keys generalizing text with
  | nil => exact Option.some.inj types
  | cons key keys ih =>
      rw [List.forall_mem_cons] at ascii
      cases key with
      | character keysym shift =>
          obtain ⟨c, typed, -, types⟩ := edit_character types
          have small := (ascii_character typed shift).mp ascii.1
          rw [collect, typed, Option.map_some, asChars_ascii small]
          exact ih ascii.2 types
      | backspace => exact ih ascii.2 (edit_backspace types).2

/-- A character of several bytes leaves more behind than a backspace takes away, so the login
never gathers too little, and too much as soon as one such character was typed. -/
theorem collect_length {text final typed : Text} {keys : List Key}
    (types : edit text keys = some final) (enough : text.length ≤ typed.length) :
    final.length + (typed.length - text.length) ≤ (collect typed keys).length ∧
      ((collect typed keys).length = final.length + (typed.length - text.length) →
        ∀ key ∈ keys, key.Ascii) := by
  induction keys generalizing text typed with
  | nil =>
      cases types
      exact ⟨by rw [collect]; omega, fun _ => List.forall_mem_nil _⟩
  | cons key keys ih =>
      cases key with
      | character keysym shift =>
          obtain ⟨c, read, -, types⟩ := edit_character types
          have size : (asChars c).length = c.utf8Size := by
            rw [asChars, List.length_map, String.length_utf8EncodeChar]
          have positive := c.utf8Size_pos
          have later := @ih (text ++ [c]) (typed ++ asChars c) types
            (by simp only [List.length_append, List.length_singleton]; omega)
          simp only [List.length_append, List.length_singleton] at later
          rw [collect, read, Option.map_some, Option.getD_some]
          refine ⟨by omega, fun same => List.forall_mem_cons.mpr ⟨?_, later.2 (by omega)⟩⟩
          rw [ascii_character read shift]
          have one : c.utf8Size = 1 := by omega
          exact Nat.lt_succ_of_le (UInt32.le_iff_toNat_le.mp (Char.utf8Size_eq_one_iff.mp one))
      | backspace =>
          obtain ⟨kept, types⟩ := edit_backspace types
          have positive := List.length_pos_of_ne_nil kept
          have later := @ih text.dropLast typed.dropLast types
            (by simp only [List.length_dropLast]; omega)
          simp only [List.length_dropLast] at later
          rw [collect]
          exact ⟨by omega, fun same => List.forall_mem_cons.mpr ⟨trivial, later.2 (by omega)⟩⟩

theorem collect_eq_iff {final : Text} {keys : List Key} (types : edit [] keys = some final) :
    collect [] keys = final ↔ ∀ key ∈ keys, key.Ascii := by
  constructor
  · intro same
    exact (collect_length types le_rfl).2 (by rw [same]; rfl)
  · exact fun ascii => collect_ascii ascii types

/-- A username and a password typed at a fresh prompt, mistyped characters erased, reach the
server exactly if no character beyond ASCII was typed. -/
theorem credentials_typed_iff (target : Target) (choice : Backspace) (login : Login)
    (waits : login.awaiting = .username) (fresh : login.typed = [])
    (userKeys passwordKeys : List Key) (username password : Text) (named : username ≠ [])
    (userTypes : edit [] userKeys = some username)
    (passwordTypes : edit [] passwordKeys = some password) :
    offered target (.login login) (lineBytes choice userKeys ++ lineBytes choice passwordKeys) =
        [(username, password)] ↔
      ∀ key ∈ userKeys ++ passwordKeys, key.Ascii := by
  have some_typed : collect [] userKeys ≠ [] := by
    have long := (collect_length userTypes le_rfl).1
    have positive := List.length_pos_of_ne_nil named
    exact List.ne_nil_of_length_pos (by omega)
  let entered := { login with typed := collect [] userKeys }
  have passed : offered target (.login login)
      (lineBytes choice userKeys ++ lineBytes choice passwordKeys) =
        [(collect [] userKeys, collect [] passwordKeys)] := by
    rw [lineBytes, List.append_assoc, offered_keys target choice userTypes, fresh,
      @offered_enter_username target choice entered waits some_typed, lineBytes,
      offered_keys target choice passwordTypes, offered_enter_password target choice rfl]
    rfl
  rw [passed, List.singleton_inj, Prod.mk.injEq, collect_eq_iff userTypes,
    collect_eq_iff passwordTypes, List.forall_mem_append]

/-- Typing "ax", a backspace, "b" and then "c". -/
theorem credentials_typed_erased :
    offered ⟨fun _ => .ok true, .ok ()⟩ (.login (interactive [] []))
      (lineBytes .delete [.character 0x61 false, .character 0x78 false, .backspace,
        .character 0x62 false] ++ lineBytes .delete [.character 0x63 false]) =
      [("ab".toList, "c".toList)] := by
  refine (credentials_typed_iff _ _ _ rfl rfl _ _ _ _ (by decide) (by decide +kernel)
    (by decide +kernel)).mpr fun key member => ?_
  simp only [List.cons_append, List.nil_append, List.mem_cons, List.not_mem_nil, or_false] at member
  rcases member with rfl | rfl | rfl | rfl | rfl <;> decide +kernel

/-- The username is an e acute: the server is asked for a name of two characters. -/
theorem credentials_mangled :
    edit [] [.character 0xe9 false] = some ['é'] ∧
      offered ⟨fun _ => .ok true, .ok ()⟩ (.login (interactive [] []))
        (lineBytes .delete [.character 0xe9 false] ++ lineBytes .delete []) =
        [(['Ã', '©'], [])] := by
  decide +kernel

end Strata.Engine.Ssh
