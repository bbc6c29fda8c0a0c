import Mathlib.Tactic
import Strata.Lib.Machine

/-! The proxy that makes Right Ctrl the Windows key of a remote session, and the page's
keyboard handlers in front of it. The page resets the proxy whenever a key arrives while the
session has no focus or the command palette is open. -/

namespace Strata.Frontend.WinKeyProxy

def ctrlR : Nat := 0xffe4
def superL : Nat := 0xffeb

structure Proxy where
  active : Bool
  superSent : Bool
  deriving DecidableEq, Repr

def createWinKeyProxy : Proxy := ⟨false, false⟩

inductive Call where
  | onkeydown (keysym : Nat)
  | onkeyup (keysym : Nat)
  | reset
  deriving DecidableEq, Repr

structure SendKey where
  pressed : Bool
  keysym : Nat
  deriving DecidableEq, Repr

def call (proxy : Proxy) : Call → Proxy × List SendKey
  | .onkeydown keysym =>
      if keysym = ctrlR then (if proxy.active then proxy else ⟨true, false⟩, [])
      else if proxy.active then
        if proxy.superSent then (proxy, [⟨true, keysym⟩])
        else (⟨true, true⟩, [⟨true, superL⟩, ⟨true, keysym⟩])
      else (proxy, [⟨true, keysym⟩])
  | .onkeyup keysym =>
      if keysym = ctrlR then
        (⟨false, false⟩,
          if proxy.superSent then [⟨false, superL⟩] else [⟨true, superL⟩, ⟨false, superL⟩])
      else (proxy, [⟨false, keysym⟩])
  | .reset => (⟨false, false⟩, [])

structure PageKey where
  down : Bool
  keysym : Nat
  containerFocused : Bool
  commandPaletteOpen : Bool
  keyboardShield : Bool
  deriving DecidableEq, Repr

def pageCalls (key : PageKey) : List Call :=
  if !key.containerFocused || key.commandPaletteOpen then [.reset]
  else if key.down then if key.keyboardShield then [] else [.onkeydown key.keysym]
  else [.onkeyup key.keysym]

/-! ### Super on the remote -/

/-- Whether Super is down on the remote after `events`: its last event was a press. -/
def superDown (before : Bool) (events : List SendKey) : Bool :=
  events.foldl (fun down event => if event.keysym = superL then event.pressed else down) before

/-- The proxy with what an observer has seen: Super on the remote, and whether a press of
Right Ctrl is still without its release since the last reset. -/
structure Watched where
  proxy : Proxy
  superDown : Bool
  ctrlSeen : Bool
  deriving DecidableEq, Repr

def Watched.start : Watched := ⟨createWinKeyProxy, false, false⟩

def ctrlSeen (before : Bool) : Call → Bool
  | .onkeydown keysym => before || decide (keysym = ctrlR)
  | .onkeyup keysym => before && decide (keysym ≠ ctrlR)
  | .reset => false

def step (s : Watched) (c : Call) : Watched × List SendKey :=
  (⟨(call s.proxy c).1, WinKeyProxy.superDown s.superDown (call s.proxy c).2,
    WinKeyProxy.ctrlSeen s.ctrlSeen c⟩, (call s.proxy c).2)

def tap : List SendKey := [⟨true, superL⟩, ⟨false, superL⟩]

/-- Super is up after a reset and after a release of Right Ctrl, and a tap answers a release
whose press was seen. -/
def Balanced (s : Watched) (c : Call) : Prop :=
  (c = .reset ∨ c = .onkeyup ctrlR → (step s c).1.superDown = false) ∧
    (c = .onkeyup ctrlR → (step s c).2 = tap → s.ctrlSeen = true)

/-- No reset comes while Super is down on the remote, and no release of Right Ctrl without its
press. -/
def Orderly (s : Watched) (c : Call) : Prop :=
  (c = .reset → s.superDown = false) ∧ (c = .onkeyup ctrlR → s.ctrlSeen = true)

instance instDecidableBalanced (s : Watched) (c : Call) : Decidable (Balanced s c) :=
  inferInstanceAs (Decidable (_ ∧ _))

def Invariant (s : Watched) : Prop :=
  s.proxy.active = s.ctrlSeen ∧ (s.proxy.superSent = true → s.proxy.active = true)

theorem invariant_step (s : Watched) (c : Call) (invariant : Invariant s) :
    Invariant (step s c).1 := by
  obtain ⟨⟨active, sent⟩, down, seen⟩ := s
  obtain ⟨same, owned⟩ := invariant
  simp only at same owned
  subst same
  cases c with
  | onkeydown keysym =>
      by_cases ctrl : keysym = ctrlR <;> cases active <;> cases sent <;>
        simp_all [Invariant, step, call, ctrlSeen]
  | onkeyup keysym =>
      by_cases ctrl : keysym = ctrlR
      · simp [Invariant, step, call, ctrlSeen, ctrl]
      · simpa [Invariant, step, call, ctrlSeen, ctrl] using owned
  | reset => exact ⟨rfl, fun sent => by cases sent⟩

theorem step_release (s : Watched) : (step s (.onkeyup ctrlR)).1.superDown = false := by
  cases sent : s.proxy.superSent <;> simp [step, call, superDown, sent]

theorem balanced_iff (s : Watched) (c : Call) (invariant : Invariant s) :
    Balanced s c ↔ Orderly s c := by
  cases c with
  | onkeydown keysym => simp [Balanced, Orderly]
  | reset => simp [Balanced, Orderly, step, call, superDown]
  | onkeyup keysym =>
      by_cases ctrl : keysym = ctrlR
      · subst ctrl
        simp only [Balanced, Orderly, reduceCtorEq, false_or, true_implies, step_release,
          IsEmpty.forall_iff, true_and]
        refine ⟨fun tapped => ?_, fun seen _ => seen⟩
        cases sent : s.proxy.superSent with
        | true => rw [← invariant.1, invariant.2 sent]
        | false => exact tapped (by simp [step, call, sent, tap])
      · simp [Balanced, Orderly, ctrl]

/-- Super stays balanced through a run exactly where the run is orderly. -/
theorem balanced_runs_iff (calls : List Call) :
    Machine.Meets step Balanced Watched.start calls ↔
      Machine.Meets step Orderly Watched.start calls :=
  Machine.meets_iff_of_invariant Invariant ⟨rfl, fun sent => by cases sent⟩ invariant_step
    balanced_iff calls

/-- Win+E with the palette opened before the keys are let go: the reset forgets the Super it
had pressed. -/
def paletteKeys : List PageKey :=
  [⟨true, ctrlR, true, false, false⟩, ⟨true, 0x65, true, false, false⟩,
    ⟨false, 0x65, true, true, false⟩]

def shieldKeys : List PageKey :=
  [⟨true, ctrlR, true, false, true⟩, ⟨false, ctrlR, true, false, false⟩]

theorem super_unbalanced :
    (Machine.run step Watched.start (paletteKeys.flatMap pageCalls)).2 =
      [⟨true, superL⟩, ⟨true, 0x65⟩] ∧
    ¬ Machine.Meets step Balanced Watched.start (paletteKeys.flatMap pageCalls) ∧
    (Machine.run step Watched.start (shieldKeys.flatMap pageCalls)).2 = tap ∧
    ¬ Machine.Meets step Balanced Watched.start (shieldKeys.flatMap pageCalls) := by
  decide

def Call.key : Call → Option SendKey
  | .onkeydown keysym => some ⟨true, keysym⟩
  | .onkeyup keysym => some ⟨false, keysym⟩
  | .reset => none

/-- Right Ctrl never reaches the remote, and every key but Super does, in the order given. -/
theorem other_keys_pass (s : Watched) (calls : List Call) :
    (Machine.run step s calls).2.filter (·.keysym ≠ superL) =
      (calls.filterMap Call.key).filter fun key => key.keysym ≠ ctrlR ∧ key.keysym ≠ superL := by
  have apart : superL ≠ ctrlR := by decide
  induction calls generalizing s with
  | nil => rfl
  | cons c calls ih =>
      rw [Machine.run, List.filter_append, ih, List.filterMap_cons]
      obtain ⟨⟨active, sent⟩, down, seen⟩ := s
      cases c with
      | onkeydown keysym =>
          by_cases ctrl : keysym = ctrlR <;> by_cases super : keysym = superL <;>
            cases active <;> cases sent <;> simp [step, call, Call.key, ctrl, super, apart]
      | onkeyup keysym =>
          by_cases ctrl : keysym = ctrlR <;> by_cases super : keysym = superL <;>
            cases sent <;> simp [step, call, Call.key, ctrl, super, apart]
      | reset => rfl

end Strata.Frontend.WinKeyProxy
