import Stencil.Proofs.BuiltinHandlers

namespace Stencil

/-!
# The questions of handlers

A plan asks for one rendering after the other, and which ones it asks for may
depend on the answers.  `Plan.AsksOnly` says that all its questions are for types
with a property, whatever the answers.  It has a rule for each way in which
renderings are composed, and with these rules every handler of the built-in types
is seen to ask for the captured types and for no others
(`TypeRegistry.IsBuiltinHandler.asksForArgs`): a sequence or a pointer for one of
them, a variant for the same value again and again, and a map twice for a key.
-/

namespace Plan

variable {α β : Type} {p q : Text → Prop}

/-- Every question of a plan is for a type with a property, whatever the answers before. -/
def AsksOnly (p : Text → Prop) : Plan α → Prop
  | done _ => True
  | ask type _ next => p type ∧ ∀ reply, AsksOnly p (next reply)

namespace AsksOnly

theorem mono {plan : Plan α} (h : plan.AsksOnly p) (hpq : ∀ type, p type → q type) :
    plan.AsksOnly q := by
  induction plan with
  | done result => exact trivial
  | ask type value next ih => exact ⟨hpq type h.1, fun reply => ih reply (h.2 reply)⟩

theorem bind {plan : Plan α} {f : α → Plan β} (h : plan.AsksOnly p)
    (hf : ∀ result, (f result).AsksOnly p) : (plan.bind f).AsksOnly p := by
  induction plan with
  | done result => exact hf result
  | ask type value next ih => exact ⟨h.1, fun reply => ih reply (h.2 reply)⟩

/-- A plan whose questions are all answered comes to a result. -/
theorem exists_run {answer : Text → Json → Option (Except RenderError Text)} {plan : Plan α}
    (h : plan.AsksOnly p)
    (hanswer : ∀ type value, p type → ∃ reply, answer type value = some reply) :
    ∃ result, run answer plan = some result := by
  induction plan with
  | done result => exact ⟨result, rfl⟩
  | ask type value next ih =>
      obtain ⟨reply, hreply⟩ := hanswer type value h.1
      rw [run_ask, hreply]
      exact ih reply (h.2 reply)

end AsksOnly
end Plan

namespace Rendering

variable {α β : Type} {p : Text → Prop}

/-- Every question of a rendering is for a type with a property. -/
def AsksOnly (p : Text → Prop) (rendering : Rendering α) : Prop := Plan.AsksOnly p rendering.run

theorem asksOnly_pure (a : α) : AsksOnly p (pure a) := trivial

theorem asksOnly_throw (cause : RenderError) : AsksOnly p (throw cause : Rendering α) := trivial

theorem asksOnly_bind {first : Rendering α} {next : α → Rendering β} (hfirst : AsksOnly p first)
    (hnext : ∀ a, AsksOnly p (next a)) : AsksOnly p (first >>= next) := by
  refine Plan.AsksOnly.bind hfirst fun result => ?_
  cases result with
  | error cause => exact trivial
  | ok a => exact hnext a

theorem asksOnly_ask {type : Text} (htype : p type) (value : Json) : AsksOnly p (ask type value) :=
  ⟨htype, fun _ => trivial⟩

theorem asksOnly_askEach {questions : List (Text × Json)}
    (hquestions : ∀ question ∈ questions, p question.1) : AsksOnly p (askEach questions) := by
  induction questions with
  | nil => exact asksOnly_pure []
  | cons question rest ih =>
      rw [List.forall_mem_cons] at hquestions
      refine asksOnly_bind (asksOnly_ask hquestions.1 _) fun text => ?_
      exact asksOnly_bind (ih hquestions.2) fun texts => asksOnly_pure _

/-- A handler asks only for the captured types.  Of a pattern with one placeholder it is given one
type. -/
def AsksForArgs (handler : TypeHandler) (kind : PatternKind) : Prop :=
  ∀ ⦃name : Text⦄ ⦃args : List Text⦄, (kind = .single → args.length = 1) →
    ∀ value, AsksOnly (· ∈ args) (handler name args value)

end Rendering

/-! ## Containers -/

namespace Container

open Rendering

variable {p : Text → Prop} {type item keyType valueType : Text} {args : List Text}

theorem asksOnly_mismatch {α : Type} (value : Json) (expectation : Expectation) :
    AsksOnly p (mismatch type value expectation : Rendering α) :=
  asksOnly_throw _

theorem asksOnly_items (value : Json) : AsksOnly p (items type value) := by
  unfold items
  split
  · exact asksOnly_pure _
  · exact asksOnly_mismatch _ _

theorem asksOnly_parameters (expected : Nat) (value : Json) :
    AsksOnly p (parameters type args expected value) := by
  unfold parameters
  split
  · exact asksOnly_pure ()
  · exact asksOnly_mismatch _ _

/-- The items of a list, all of one type. -/
theorem asksOnly_each (hitem : p item) (items : List Json) {text : List Text → Text} :
    AsksOnly p (do return text (← askEach (items.map (item, ·)))) := by
  refine asksOnly_bind (asksOnly_askEach ?_) fun parts => asksOnly_pure _
  intro question hmem
  obtain ⟨value, -, rfl⟩ := List.mem_map.1 hmem
  exact hitem

/-- The items of a list, each of its own type. -/
theorem asksOnly_zip (hargs : ∀ arg ∈ args, p arg) (items : List Json) {text : List Text → Text} :
    AsksOnly p (do return text (← askEach (args.zip items))) := by
  refine asksOnly_bind (asksOnly_askEach ?_) fun parts => asksOnly_pure _
  intro question hmem
  exact hargs question.1 (List.of_mem_zip hmem).1

theorem first_mem (hlength : args.length = 1) : first args ∈ args := by
  obtain ⟨arg, rfl⟩ := List.length_eq_one_iff.1 hlength
  exact List.mem_singleton_self arg

theorem asksForArgs_sequence : AsksForArgs sequence .single := by
  intro name args hlength value
  refine asksOnly_bind (asksOnly_items value) fun items => ?_
  exact asksOnly_each (first_mem (hlength rfl)) items

theorem asksForArgs_array (kind : PatternKind) : AsksForArgs array kind := by
  intro name args _ value
  refine asksOnly_bind (asksOnly_parameters 2 value) fun _ => ?_
  split
  · rename_i item size
    split
    · exact asksOnly_mismatch _ _
    · refine asksOnly_bind (asksOnly_items value) fun items => ?_
      split
      · exact asksOnly_mismatch _ _
      · exact asksOnly_each List.mem_cons_self items
  · exact asksOnly_mismatch _ _

theorem asksForArgs_pair (kind : PatternKind) : AsksForArgs pair kind := by
  intro name args _ value
  refine asksOnly_bind (asksOnly_parameters 2 value) fun _ => ?_
  refine asksOnly_bind (asksOnly_items value) fun items => ?_
  split
  · exact asksOnly_mismatch _ _
  · exact asksOnly_zip (fun _ harg => harg) items

theorem asksForArgs_tuple (kind : PatternKind) : AsksForArgs tuple kind := by
  intro name args _ value
  refine asksOnly_bind (asksOnly_items value) fun items => ?_
  split
  · exact asksOnly_mismatch _ _
  · exact asksOnly_zip (fun _ harg => harg) items

/-- A key may be asked for twice, as its type both times. -/
theorem asksOnly_key (hkey : p keyType) (name : Text) : AsksOnly p (key keyType name) := by
  refine ⟨hkey, fun reply => ?_⟩
  cases reply with
  | ok text => exact trivial
  | error cause =>
      dsimp only
      split
      · exact asksOnly_ask hkey _
      · exact trivial

theorem asksOnly_entry {key value : Rendering Text} {rest : Rendering (List Text)}
    (hkey : AsksOnly p key) (hvalue : AsksOnly p value) (hrest : AsksOnly p rest) :
    AsksOnly p
      (do
        let key ← key
        let value ← value
        let entries ← rest
        return entry key value :: entries) := by
  refine asksOnly_bind hkey fun key => asksOnly_bind hvalue fun value => ?_
  exact asksOnly_bind hrest fun entries => asksOnly_pure _

theorem asksOnly_entriesOfFields (hkey : p keyType) (hvalue : p valueType)
    (fields : List (Text × Json)) : AsksOnly p (entriesOfFields keyType valueType fields) := by
  induction fields with
  | nil => exact asksOnly_pure []
  | cons field rest ih =>
      exact asksOnly_entry (asksOnly_key hkey field.1) (asksOnly_ask hvalue field.2) ih

theorem asksOnly_entriesOfPairs (hkey : p keyType) (hvalue : p valueType) (pairs : List Json) :
    AsksOnly p (entriesOfPairs type keyType valueType pairs) := by
  induction pairs with
  | nil => exact asksOnly_pure []
  | cons pair rest ih =>
      match pair with
      | .array [key, value] =>
          exact asksOnly_entry (asksOnly_ask hkey key) (asksOnly_ask hvalue value) ih
      | .array [] | .array [_] | .array (_ :: _ :: _ :: _) => exact asksOnly_mismatch _ _
      | .null | .bool _ | .number _ | .string _ | .object _ => exact asksOnly_mismatch _ _

theorem asksForArgs_map (kind : PatternKind) : AsksForArgs map kind := by
  intro name args _ value
  refine asksOnly_bind (asksOnly_parameters 2 value) fun _ => ?_
  split
  · refine asksOnly_bind (asksOnly_entriesOfFields ?_ ?_ _) fun entries => asksOnly_pure _
    · exact List.mem_cons_self
    · exact List.mem_cons_of_mem _ List.mem_cons_self
  · refine asksOnly_bind (asksOnly_entriesOfPairs ?_ ?_ _) fun entries => asksOnly_pure _
    · exact List.mem_cons_self
    · exact List.mem_cons_of_mem _ List.mem_cons_self
  · exact asksOnly_mismatch _ _

/-- The same value is asked for again, as each of the alternatives. -/
theorem asksOnly_firstOf (value : Json) {alternatives : List Text}
    (halternatives : ∀ alternative ∈ alternatives, p alternative) (attempts : List RenderError) :
    AsksOnly p (firstOf type value attempts alternatives) := by
  induction alternatives generalizing attempts with
  | nil => exact asksOnly_throw _
  | cons alternative rest ih =>
      rw [List.forall_mem_cons] at halternatives
      refine ⟨halternatives.1, fun reply => ?_⟩
      cases reply with
      | ok text => exact trivial
      | error cause => exact ih halternatives.2 _

theorem asksForArgs_variant (kind : PatternKind) : AsksForArgs variant kind := by
  intro name args _ value
  exact asksOnly_firstOf value (fun _ harg => harg) []

theorem asksForArgs_optional : AsksForArgs optional .single := by
  intro name args hlength value
  unfold optional
  split
  · exact asksOnly_pure _
  · exact asksOnly_bind (asksOnly_ask (first_mem (hlength rfl)) _) fun part => asksOnly_pure _

theorem asksForArgs_pointer (factory : Text) : AsksForArgs (pointer factory) .single := by
  intro name args hlength value
  unfold pointer
  split
  · exact asksOnly_pure _
  · exact asksOnly_bind (asksOnly_ask (first_mem (hlength rfl)) _) fun part => asksOnly_pure _

end Container

namespace TypeRegistry

open Rendering (AsksForArgs)

/-- The handlers of the built-in types ask for the captured types only. -/
theorem IsBuiltinHandler.asksForArgs {handler : TypeHandler} {kind : PatternKind}
    (hhandler : IsBuiltinHandler handler kind) : AsksForArgs handler kind := by
  cases hhandler with
  | scalar => exact fun _ _ _ _ => trivial
  | sequence => exact Container.asksForArgs_sequence
  | array => exact Container.asksForArgs_array kind
  | pair => exact Container.asksForArgs_pair kind
  | tuple => exact Container.asksForArgs_tuple kind
  | map => exact Container.asksForArgs_map kind
  | variant => exact Container.asksForArgs_variant kind
  | optional => exact Container.asksForArgs_optional
  | pointer factory => exact Container.asksForArgs_pointer factory

end TypeRegistry
end Stencil
