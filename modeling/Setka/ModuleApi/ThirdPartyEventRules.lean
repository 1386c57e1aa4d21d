/-
# Setka.ModuleApi.ThirdPartyEventRules — what modules say about an event.

Before an event is sent, every module that registered a callback is asked for it in turn. The event is
frozen first.
-/
import Setka.Api.Errors
import Setka.Events.EventBase
import Setka.Lib.Action

namespace Setka.ModuleApi

open Setka.Api Setka.Events Setka.Lib Setka.Lib.Action

/-- A `check_event_allowed` callback: whether the event is allowed, and what is to replace it. -/
abbrev CheckEventAllowed (σ : Type) : Type :=
  EventObject → StateMap EventBase → Action σ Error (Bool × Option (List (String × Json)))

/-- The exception that a failed callback raises: its own, where that is a `SynapseError`. -/
def callbackError : Error → Error
  | .synapseError code msg errcode => .synapseError code msg errcode
  | _ => .moduleFailedException

/-- The loop of `check_event_allowed`. -/
def runCallbacks {σ : Type} (o : EventObject) (state : StateMap EventBase) :
    List (CheckEventAllowed σ) → Action σ Error (Bool × Option (List (String × Json)))
  | [] => pure (true, none)
  | callback :: callbacks => do
      let (res, replacement) ← (callback o state).mapError callbackError
      if res = false then pure (false, none)
      else if replacement.isSome then pure (true, replacement)
      else runCallbacks o state callbacks

/-- `check_event_allowed`. -/
def checkEventAllowed {σ : Type} (callbacks : List (CheckEventAllowed σ)) (o : EventObject)
    (state : StateMap EventBase) : Action σ Error (Bool × Option (List (String × Json))) :=
  runCallbacks o.freeze state callbacks

theorem runCallbacks_cons {σ : Type} (o : EventObject) (state : StateMap EventBase)
    (callback : CheckEventAllowed σ) (callbacks : List (CheckEventAllowed σ)) :
    runCallbacks o state (callback :: callbacks) = (callback o state).mapError callbackError >>= fun answer =>
        if answer.1 = false then pure (false, none)
        else if answer.2.isSome then pure (true, answer.2)
        else runCallbacks o state callbacks :=
  rfl

/-! ## §1 What callbacks keep -/

variable {σ : Type} {R : σ → σ → Prop}

/-- **What all callbacks keep, the loop keeps.** -/
theorem runCallbacks_keeps (hrefl : ∀ s, R s s) (htrans : ∀ s t u, R s t → R t u → R s u)
    {o : EventObject} {state : StateMap EventBase} {callbacks : List (CheckEventAllowed σ)}
    (h : ∀ callback ∈ callbacks, (callback o state).Keeps R) :
    (runCallbacks o state callbacks).Keeps R := by
  induction callbacks with
  | nil => exact keeps_pure hrefl _
  | cons callback callbacks ih =>
    have hcallback : ((callback o state).mapError callbackError).Keeps R :=
      fun s => h callback List.mem_cons_self s
    apply Action.Keeps.bind hrefl htrans hcallback
    rintro ⟨res, replacement⟩
    dsimp only
    split
    · exact keeps_pure hrefl _
    split
    · exact keeps_pure hrefl _
    · exact ih fun callback' hmem => h callback' (List.mem_cons_of_mem callback hmem)

/-- A callback that does not touch the state. -/
def pureCallback (answer : EventObject → StateMap EventBase →
    Except Error (Bool × Option (List (String × Json)))) : CheckEventAllowed σ :=
  fun o state => .lift (answer o state)

/-- Callbacks that do not touch the state end the loop, or they all let the event pass. -/
theorem runCallbacks_append (o : EventObject) (state : StateMap EventBase)
    (answers : List (EventObject → StateMap EventBase → Except Error (Bool × Option (List (String × Json)))))
    (callbacks : List (CheckEventAllowed σ)) (s : σ) :
    ((runCallbacks o state (answers.map pureCallback ++ callbacks)).run s).2 = s ∨
    (∀ answer ∈ answers, answer o state = .ok (true, none)) ∧
      (runCallbacks o state (answers.map pureCallback ++ callbacks)).run s =
        (runCallbacks o state callbacks).run s := by
  induction answers with
  | nil => exact Or.inr ⟨fun answer hmem => absurd hmem List.not_mem_nil, rfl⟩
  | cons answer answers ih =>
    rw [List.map_cons, List.cons_append]
    rw [runCallbacks_cons]
    rcases hanswer : answer o state with error | ⟨res, replacement⟩
    · have hrun : ((pureCallback answer o state).mapError callbackError).run s =
          (.error (callbackError error), s) := by
        show ((answer o state).mapError callbackError, s) = _
        rw [hanswer]
        rfl
      rw [run_bind_of_error hrun]
      exact Or.inl rfl
    have hrun : ((pureCallback answer o state).mapError callbackError).run s = (.ok (res, replacement), s) := by
      show ((answer o state).mapError callbackError, s) = _
      rw [hanswer]
      rfl
    rw [run_bind_of_ok hrun]
    split
    · exact Or.inl rfl
    rename_i hres
    split
    · exact Or.inl rfl
    rename_i hreplacement
    obtain rfl : res = true := by simpa using hres
    obtain rfl : replacement = none := by simpa using hreplacement
    rcases ih with hs | ⟨hall, hrest⟩
    · exact Or.inl hs
    · exact Or.inr ⟨List.forall_mem_cons.mpr ⟨hanswer, hall⟩, hrest⟩

/-- Where they all let the event pass, the loop goes on behind them. -/
theorem runCallbacks_of_allowed {o : EventObject} {state : StateMap EventBase}
    {answers : List (EventObject → StateMap EventBase → Except Error (Bool × Option (List (String × Json))))}
    (h : ∀ answer ∈ answers, answer o state = .ok (true, none))
    (callbacks : List (CheckEventAllowed σ)) (s : σ) :
    (runCallbacks o state (answers.map pureCallback ++ callbacks)).run s =
      (runCallbacks o state callbacks).run s := by
  induction answers with
  | nil => rfl
  | cons answer answers ih =>
    have hrun : ((pureCallback answer o state).mapError callbackError).run s = (.ok (true, none), s) := by
      show ((answer o state).mapError callbackError, s) = _
      rw [h answer List.mem_cons_self]
      rfl
    rw [List.map_cons, List.cons_append, runCallbacks_cons, run_bind_of_ok hrun]
    exact ih fun answer' hmem => h answer' (List.mem_cons_of_mem answer hmem)

end Setka.ModuleApi
