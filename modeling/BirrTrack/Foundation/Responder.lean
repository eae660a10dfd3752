import Mathlib.Data.List.Basic

/-! # Responders

A responder takes requests one after the other, and answers each in the state that the ones
before it have left. Requests that are refused without a trace can be left out of its history
(`run_accepted`).
-/

/-- How a request is answered in a state, and the state after it. -/
structure Responder (State Request Response : Type*) where
  respond : State → Request → Response × State

namespace Responder

variable {State Request Response : Type*} (responder : Responder State Request Response)

/-- Every request with its response, and the state after the last one. -/
def run : State → List Request → List (Request × Response) × State
  | state, [] => ([], state)
  | state, request :: requests =>
      ((request, (responder.respond state request).1) ::
          (run (responder.respond state request).2 requests).1,
        (run (responder.respond state request).2 requests).2)

@[simp] theorem run_nil (state : State) : responder.run state [] = ([], state) := rfl

theorem run_cons (state : State) (request : Request) (requests : List Request) :
    responder.run state (request :: requests) =
      ((request, (responder.respond state request).1) ::
          (responder.run (responder.respond state request).2 requests).1,
        (responder.run (responder.respond state request).2 requests).2) := rfl

/-- Every exchange of a history took place in some state. -/
theorem exists_respond {state : State} {requests : List Request} {exchange : Request × Response}
    (member : exchange ∈ (responder.run state requests).1) :
    ∃ before, exchange.2 = (responder.respond before exchange.1).1 := by
  induction requests generalizing state with
  | nil => exact absurd member List.not_mem_nil
  | cons request requests ih =>
      rw [run_cons] at member
      rcases List.mem_cons.mp member with rfl | later
      · exact ⟨state, rfl⟩
      · exact ih later

section Refusals

variable {responder} {refused : Response → Bool}

/-- The part of a history whose requests were not refused. -/
def accepted (refused : Response → Bool) (history : List (Request × Response)) :
    List (Request × Response) :=
  history.filter fun exchange => !refused exchange.2

/-- Where a refusal leaves the state alone, the accepted requests by themselves get the same
responses and lead to the same state. -/
theorem run_accepted
    (idle : ∀ state request, refused (responder.respond state request).1 = true →
      (responder.respond state request).2 = state) (state : State) (requests : List Request) :
    responder.run state ((accepted refused (responder.run state requests).1).map Prod.fst) =
      (accepted refused (responder.run state requests).1, (responder.run state requests).2) := by
  induction requests generalizing state with
  | nil => rfl
  | cons request requests ih =>
      rw [run_cons, accepted, List.filter_cons]
      cases refuses : refused (responder.respond state request).1 with
      | true =>
          rw [idle state request refuses]
          exact ih state
      | false =>
          have next := ih (responder.respond state request).2
          simp only [Bool.not_false, ↓reduceIte, List.map_cons, run_cons]
          have transcript := congrArg Prod.fst next
          have final := congrArg Prod.snd next
          exact Prod.ext (congrArg (List.cons _) transcript) final

end Refusals

end Responder
