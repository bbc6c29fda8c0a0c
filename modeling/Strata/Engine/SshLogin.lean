import Mathlib.Tactic
import Strata.Engine.ProtocolEngine
import Strata.Lib.Unwinding

/-! The interactive login of the SSH engine (`ssh/mod.rs`): a byte-driven prompt for the
credentials a connection does not store. What it shows is what a prompt shows that never
sees a password. -/

namespace Strata.Engine.Ssh

open Utf8 (Text Bytes)

inductive Awaiting where
  | username
  | password
  deriving DecidableEq, Repr

def maxLoginAttempts : Nat := 3

inductive Typed where
  | ignored
  | echo (text : Text)
  | needPassword
  | ready
  | restarted
  deriving DecidableEq, Repr

structure Login where
  username : Option Text
  password : Option Text
  awaiting : Awaiting
  typed : Text
  attempts : Nat
  deriving DecidableEq, Repr

def isEnter (byte : UInt8) : Bool := byte == 0x0d || byte == 0x0a
def isErase (byte : UInt8) : Bool := byte == 0x7f || byte == 0x08
def isInterrupt (byte : UInt8) : Bool := byte == 0x03

def byteChar (byte : UInt8) : Char := Char.ofNat byte.toNat

def eraseEcho : Text := "\x08 \x08".toList

def Login.feed (login : Login) (byte : UInt8) : Login × Typed :=
  if isEnter byte then
    match login.awaiting with
    | .username =>
        if login.typed = [] then ({ login with typed := [] }, .restarted)
        else
          ({ login with typed := [], username := some login.typed, awaiting := .password },
            .needPassword)
    | .password =>
        ({ login with typed := [], password := some login.typed, attempts := login.attempts + 1 },
          .ready)
  else if isErase byte then
    ({ login with typed := login.typed.dropLast },
      if login.typed ≠ [] ∧ login.awaiting = .username then .echo eraseEcho else .ignored)
  else if isInterrupt byte then
    ({ login with typed := [], username := none, password := none, awaiting := .username },
      .restarted)
  else if byte < 0x20 then
    (login, .ignored)
  else
    ({ login with typed := login.typed ++ [byteChar byte] },
      if login.awaiting = .username then .echo [byteChar byte] else .ignored)

/-- How the target answers: each attempt to authenticate in turn, then the request for a
shell. -/
structure Target where
  tryPassword : Nat → Except EngineError Bool
  openShell : Except EngineError Unit

inductive Stage where
  | login (login : Login)
  | shell
  | failed (why : EngineError)
  deriving DecidableEq, Repr

def promptText : Awaiting → Text
  | .username => "Login as: ".toList
  | .password => "Password: ".toList

def newline : Text := "\r\n".toList

def denied : Text := "Permission denied, please try again.\r\n".toList

section
variable (target : Target)

def attemptLogin (login : Login) : Stage × List Text :=
  let login := { login with password := none }
  match target.tryPassword login.attempts with
  | .error why => (.failed why, [])
  | .ok true =>
      match target.openShell with
      | .error why => (.failed why, [])
      | .ok () => (.shell, [])
  | .ok false =>
      if login.attempts < maxLoginAttempts then
        (.login { login with username := none, awaiting := .username },
          [denied, promptText .username])
      else
        (.failed .authRejected, [])

def typeByte (login : Login) (byte : UInt8) : Stage × List Text :=
  match login.feed byte with
  | (next, .ignored) => (.login next, [])
  | (next, .echo text) => (.login next, [text])
  | (next, .restarted) | (next, .needPassword) => (.login next, [newline, promptText next.awaiting])
  | (next, .ready) => ((attemptLogin target next).1, newline :: (attemptLogin target next).2)

/-- `type_into_login`: the bytes after the shell opens are dropped. -/
def typeIntoLogin : Stage → Bytes → Stage × List Text
  | .login login, byte :: rest =>
      let here := typeByte target login byte
      let later := typeIntoLogin here.1 rest
      (later.1, here.2 ++ later.2)
  | stage, _ => (stage, [])

def writes : Stage → List Bytes → Stage × List Text
  | .login login, chunk :: rest =>
      let here := typeIntoLogin target (.login login) chunk
      let later := writes here.1 rest
      (later.1, here.2 ++ later.2)
  | stage, _ => (stage, [])

end

/-- The login of a connection that lacks a username or a password, with its first prompt. -/
def interactive (username password : Text) : Login where
  username := if username = [] then none else some username
  password := if password = [] then none else some password
  awaiting := if username = [] then .username else .password
  typed := []
  attempts := 0

def terminalOutput (target : Target) (username password : Text) (chunks : List Bytes) : List Text :=
  promptText (interactive username password).awaiting ::
    (writes target (.login (interactive username password)) chunks).2

/-! ### The prompt without secrets -/

/-- What may be known of a byte: all of it at a username prompt; at a password prompt only
that it is Enter or Ctrl+C. -/
inductive Seen where
  | key (byte : UInt8)
  | enter
  | interrupt
  deriving DecidableEq, Repr

def seen : Awaiting → UInt8 → Option Seen
  | .username, byte => some (.key byte)
  | .password, byte =>
      if isEnter byte then some .enter else if isInterrupt byte then some .interrupt else none

def stageStep (target : Target) : Stage → UInt8 → Stage × List Text
  | .login login, byte => typeByte target login byte
  | stage, _ => (stage, [])

def stageSeen : Stage → UInt8 → Option Seen
  | .login login, byte => seen login.awaiting byte
  | _, _ => none

def publicView (target : Target) (login : Login) (bytes : Bytes) : List Seen :=
  Unwinding.view (stageStep target) stageSeen (.login login) bytes

theorem run_shell (target : Target) (bytes : Bytes) :
    Machine.run (stageStep target) .shell bytes = (.shell, []) := by
  induction bytes with
  | nil => rfl
  | cons byte bytes ih =>
      change ((Machine.run (stageStep target) .shell bytes).1,
        [] ++ (Machine.run (stageStep target) .shell bytes).2) = _
      rw [ih]
      rfl

theorem run_failed (target : Target) (why : EngineError) (bytes : Bytes) :
    Machine.run (stageStep target) (.failed why) bytes = (.failed why, []) := by
  induction bytes with
  | nil => rfl
  | cons byte bytes ih =>
      change ((Machine.run (stageStep target) (.failed why) bytes).1,
        [] ++ (Machine.run (stageStep target) (.failed why) bytes).2) = _
      rw [ih]
      rfl

theorem typeIntoLogin_eq_run (target : Target) (stage : Stage) (bytes : Bytes) :
    typeIntoLogin target stage bytes = Machine.run (stageStep target) stage bytes := by
  induction bytes generalizing stage with
  | nil => cases stage <;> rfl
  | cons byte bytes ih =>
      cases stage with
      | login login => simp only [typeIntoLogin, Machine.run, stageStep, ih]
      | shell => exact (run_shell target _).symm
      | failed why => exact (run_failed target why _).symm

theorem writes_eq_run (target : Target) (stage : Stage) (chunks : List Bytes) :
    writes target stage chunks = Machine.run (stageStep target) stage chunks.flatten := by
  induction chunks generalizing stage with
  | nil => cases stage <;> rfl
  | cons chunk chunks ih =>
      cases stage with
      | login login =>
          rw [writes, typeIntoLogin_eq_run, ih, List.flatten_cons, Machine.run_append]
      | shell => exact (run_shell target _).symm
      | failed why => exact (run_failed target why _).symm

/-! ### Unwinding -/

structure Login.Alike (login other : Login) : Prop where
  awaiting : login.awaiting = other.awaiting
  attempts : login.attempts = other.attempts
  typed : login.awaiting = .username → login.typed = other.typed

def Stage.Alike : Stage → Stage → Prop
  | .login first, .login second => first.Alike second
  | .shell, .shell => True
  | .failed why, .failed why' => why = why'
  | _, _ => False

theorem alike_equivalence : Equivalence Stage.Alike := by
  constructor
  case refl =>
    intro stage
    cases stage with
    | login login => exact ⟨rfl, rfl, fun _ => rfl⟩
    | shell => trivial
    | failed why => rfl
  case symm =>
    intro stage other like
    match stage, other, like with
    | .login _, .login _, like =>
        exact ⟨like.awaiting.symm, like.attempts.symm,
          fun waits => (like.typed (like.awaiting.trans waits)).symm⟩
    | .shell, .shell, _ => trivial
    | .failed _, .failed _, like => exact like.symm
  case trans =>
    intro first second third like like'
    match first, second, third, like, like' with
    | .login _, .login _, .login _, like, like' =>
        exact ⟨like.awaiting.trans like'.awaiting, like.attempts.trans like'.attempts,
          fun waits => (like.typed waits).trans (like'.typed (like.awaiting ▸ waits))⟩
    | .shell, .shell, .shell, _, _ => trivial
    | .failed _, .failed _, .failed _, like, like' => exact like.trans like'

theorem typeByte_hidden {target : Target} {login : Login} {byte : UInt8}
    (hidden : seen login.awaiting byte = none) :
    Stage.Alike (.login login) (typeByte target login byte).1 ∧
      (typeByte target login byte).2 = [] := by
  cases waits : login.awaiting with
  | username =>
      rw [waits] at hidden
      cases hidden
  | password =>
      rw [waits, seen] at hidden
      split_ifs at hidden with enter interrupt
      simp only [typeByte, Login.feed, enter, interrupt, waits, if_false, reduceCtorEq, and_false]
      split_ifs
      all_goals exact ⟨⟨by simp [waits], rfl, by simp [waits]⟩, rfl⟩

theorem attemptLogin_alike (target : Target) (login other : Login)
    (attempts : login.attempts = other.attempts) (typed : login.typed = other.typed) :
    Stage.Alike (attemptLogin target login).1 (attemptLogin target other).1 ∧
      (attemptLogin target login).2 = (attemptLogin target other).2 := by
  simp only [attemptLogin, attempts]
  cases target.tryPassword other.attempts with
  | error why => exact ⟨rfl, rfl⟩
  | ok accepted =>
      cases accepted with
      | true =>
          cases target.openShell with
          | error why => exact ⟨rfl, rfl⟩
          | ok _ => exact ⟨trivial, rfl⟩
      | false =>
          dsimp only
          split_ifs
          · exact ⟨⟨rfl, rfl, fun _ => typed⟩, rfl⟩
          · exact ⟨rfl, rfl⟩

theorem typeByte_enter {target : Target} {login other : Login} {byte byte' : UInt8}
    (enter : isEnter byte = true) (enter' : isEnter byte' = true)
    (waits : login.awaiting = .password) (waits' : other.awaiting = .password)
    (attempts : login.attempts = other.attempts) :
    Stage.Alike (typeByte target login byte).1 (typeByte target other byte').1 ∧
      (typeByte target login byte).2 = (typeByte target other byte').2 := by
  have same := attemptLogin_alike target
    { login with typed := [], password := some login.typed, attempts := login.attempts + 1 }
    { other with typed := [], password := some other.typed, attempts := other.attempts + 1 }
    (by simp [attempts]) rfl
  simp only [typeByte, Login.feed, enter, enter', if_true]
  rw [waits, waits']
  exact ⟨same.1, congrArg (newline :: ·) same.2⟩

theorem typeByte_interrupt {target : Target} {login other : Login} {byte byte' : UInt8}
    (interrupt : isInterrupt byte = true) (interrupt' : isInterrupt byte' = true)
    (attempts : login.attempts = other.attempts) :
    Stage.Alike (typeByte target login byte).1 (typeByte target other byte').1 ∧
      (typeByte target login byte).2 = (typeByte target other byte').2 := by
  obtain rfl : byte = 3 := eq_of_beq interrupt
  obtain rfl : byte' = 3 := eq_of_beq interrupt'
  exact ⟨⟨rfl, attempts, fun _ => rfl⟩, rfl⟩

theorem typeByte_username {target : Target} {login other : Login} (byte : UInt8)
    (waits : login.awaiting = .username) (like : login.Alike other) :
    Stage.Alike (typeByte target login byte).1 (typeByte target other byte).1 ∧
      (typeByte target login byte).2 = (typeByte target other byte).2 := by
  have waits' : other.awaiting = .username := like.awaiting ▸ waits
  have typed := like.typed waits
  have attempts := like.attempts
  simp only [typeByte, Login.feed, waits, waits', typed]
  by_cases enter : isEnter byte = true
  · simp only [enter, if_true]
    split_ifs
    · exact ⟨⟨rfl, attempts, fun _ => rfl⟩, rfl⟩
    · exact ⟨⟨rfl, attempts, fun _ => rfl⟩, rfl⟩
  · simp only [enter, and_true]
    split_ifs
    all_goals exact ⟨⟨by simp [waits, waits'], attempts, by simp [typed]⟩, rfl⟩

theorem login_unwinds (target : Target) :
    Unwinding.Unwinds (stageStep target) stageSeen Stage.Alike := by
  constructor
  case equivalence => exact alike_equivalence
  case quiet =>
    intro stage byte hidden
    cases stage with
    | login login => exact typeByte_hidden hidden
    | shell => exact ⟨trivial, rfl⟩
    | failed why => exact ⟨rfl, rfl⟩
  case consistent =>
    intro stage other byte byte' saw like visible visible'
    match stage, other, like with
    | .login login, .login other, like =>
        rw [stageSeen] at visible visible'
        rw [← like.awaiting] at visible'
        cases waits : login.awaiting with
        | username =>
            rw [waits, seen, Option.some.injEq] at visible visible'
            obtain rfl : byte = byte' := Seen.key.inj (visible.trans visible'.symm)
            exact typeByte_username byte waits like
        | password =>
            have waits' : other.awaiting = .password := like.awaiting ▸ waits
            rw [waits, seen] at visible visible'
            by_cases enter : isEnter byte = true
            · rw [if_pos enter, Option.some.injEq] at visible
              by_cases enter' : isEnter byte' = true
              · exact typeByte_enter enter enter' waits waits' like.attempts
              · rw [if_neg enter', Option.ite_none_right_eq_some, ← visible] at visible'
                cases visible'.2
            · rw [if_neg enter, Option.ite_none_right_eq_some] at visible
              have interrupted : saw = .interrupt := (Option.some.inj visible.2).symm
              by_cases enter' : isEnter byte' = true
              · rw [if_pos enter', interrupted] at visible'
                cases visible'
              · rw [if_neg enter', Option.ite_none_right_eq_some] at visible'
                exact typeByte_interrupt visible.1 visible'.1 like.attempts
    | .shell, .shell, _ => cases visible
    | .failed _, .failed _, _ => cases visible

/-- Runs of one connection's login that look the same to someone who does not see passwords
show the same on the terminal, whatever the passwords are and however the bytes arrive. -/
theorem terminalOutput_hides_passwords (target : Target) (username stored stored' : Text)
    (chunks chunks' : List Bytes)
    (same : publicView target (interactive username stored) chunks.flatten =
      publicView target (interactive username stored') chunks'.flatten) :
    terminalOutput target username stored chunks =
      terminalOutput target username stored' chunks' := by
  have like : Stage.Alike (.login (interactive username stored))
      (.login (interactive username stored')) := ⟨rfl, rfl, fun _ => rfl⟩
  have effects := ((login_unwinds target).same_effects like same).2
  rw [terminalOutput, terminalOutput, writes_eq_run, writes_eq_run, effects]
  rfl

def forgivingTarget : Target where
  tryPassword attempt := .ok (decide (1 < attempt))
  openShell := .ok ()

theorem terminalOutput_hides_two_passwords :
    terminalOutput forgivingTarget [] [] [Utf8.encode "bo\rpw\r".toList] =
        [promptText .username, "b".toList, "o".toList, newline, promptText .password, newline,
          denied, promptText .username] ∧
      terminalOutput forgivingTarget [] [] [Utf8.encode "bo\rpw\r".toList] =
        terminalOutput forgivingTarget [] []
          [Utf8.encode "bo\rq".toList, Utf8.encode "\x7f1234\r".toList] := by
  refine ⟨by decide +kernel, ?_⟩
  exact terminalOutput_hides_passwords forgivingTarget [] [] [] [Utf8.encode "bo\rpw\r".toList]
    [Utf8.encode "bo\rq".toList, Utf8.encode "\x7f1234\r".toList] (by decide +kernel)

end Strata.Engine.Ssh
