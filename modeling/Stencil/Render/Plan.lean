import Stencil.Render.Error

namespace Stencil

/-!
# Rendering plans

A handler of a type may ask for other values to be rendered as other types, and
go on with the answers.  A plan is such a course of questions; it sees nothing
of how they are answered.  A plan runs with a function that answers, and a
question without an answer leaves the whole plan without a result.
-/

/-- A course of questions, each a type and a value to render, that ends in a result. -/
inductive Plan (α : Type) where
  | done (result : α)
  | ask (type : Text) (value : Json) (next : Except RenderError Text → Plan α)

namespace Plan

variable {α β : Type}

/-- One plan after another. -/
def bind : Plan α → (α → Plan β) → Plan β
  | done result, f => f result
  | ask type value next, f => ask type value fun answer => bind (next answer) f

instance : Monad Plan where
  pure := done
  bind := bind

/-- The result of a plan when `answer` answers its questions. -/
def run (answer : Text → Json → Option (Except RenderError Text)) : Plan α → Option α
  | done result => some result
  | ask type value next =>
      match answer type value with
      | none => none
      | some reply => run answer (next reply)

@[simp]
theorem run_done (answer : Text → Json → Option (Except RenderError Text)) (result : α) :
    run answer (done result) = some result := rfl

@[simp]
theorem run_ask (answer : Text → Json → Option (Except RenderError Text)) (type : Text)
    (value : Json) (next : Except RenderError Text → Plan α) :
    run answer (ask type value next) = (answer type value).bind (run answer ∘ next) := by
  rw [run]
  cases answer type value <;> rfl

/-- Running a plan that goes on runs both parts. -/
@[simp]
theorem run_bind (answer : Text → Json → Option (Except RenderError Text)) (plan : Plan α)
    (f : α → Plan β) :
    run answer (plan.bind f) = (run answer plan).bind fun result => run answer (f result) := by
  induction plan with
  | done result => simp [bind]
  | ask type value next ih =>
      cases h : answer type value with
      | none => simp [bind, h]
      | some reply => simp [bind, h, ih]

end Plan

/-- A plan that may end in an error. -/
abbrev Rendering (α : Type) := ExceptT RenderError Plan α

namespace Rendering

/-- Asks for a value to be rendered as a type; an error of the answer ends the plan. -/
def ask (type : Text) (value : Json) : Rendering Text := Plan.ask type value Plan.done

/-- Asks for values to be rendered, each as its type, up to the first error. -/
def askEach : List (Text × Json) → Rendering (List Text)
  | [] => pure []
  | (type, value) :: rest => do
      let text ← ask type value
      let texts ← askEach rest
      return text :: texts

end Rendering

/-- How the values of the types of a pattern are rendered, given the type name as it was
written, the captured types and the value. -/
abbrev TypeHandler := Text → List Text → Json → Rendering Text

end Stencil
