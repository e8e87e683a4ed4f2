import Stencil.Proofs.InterleavedTokens
import Stencil.Proofs.MethodCalls
import Stencil.Proofs.TokenPrinting

namespace Stencil

/-!
# The names that templates can reach

Registration refuses the names that no token can have.  Nothing in its check
mentions the parser: it looks at the name alone, while the parser cuts a text at
`::` and at the first parenthesis and trims it.  `register_iff_reachable` says
that the two draw the same line, and what a name on the right side of it is good
for: wherever its tokens are written and whatever is registered later, they reach
the method.
-/

namespace Token

/-- The scanner takes the written form of a token for a token. -/
theorem isWritten_print {token : Token} (hname : IsDotted token.function) :
    IsWritten token.print token where
  exists_scope :=
    ⟨token.scope, token.function ++ printArgs token.args, by
      simp [print, printInner, List.append_assoc]⟩
  parses := parse_print hname

/-- The names of functions are those of the tokens that are read. -/
theorem isDotted_iff_parse {scope : Namespace} {name : Text} :
    IsDotted name ↔
      ∃ (text : Text) (token : Token),
        parse text = .ok token ∧ token.scope = scope ∧ token.function = name := by
  constructor
  · intro hname
    exact ⟨print ⟨scope, name, []⟩, ⟨scope, name, []⟩, parse_print hname, rfl, rfl⟩
  · rintro ⟨text, token, hparse, -, rfl⟩
    exact isDotted_of_parse hparse

/-- The written form of a token, in a line without other braces that open, is all that the scanner
finds there. -/
theorem scan_print {token : Token} (hname : IsDotted token.function) {before after : Text}
    (hbefore : openBrace ∉ before) (hafter : openBrace ∉ after) :
    (scan (before ++ token.print ++ after)).map Segment.located =
      .ok [⟨token, Text.byteSize before, Text.byteSize before + Text.byteSize token.print⟩] := by
  let line : Template.LineCut := .cut before token.print token (.last after)
  have hscan : scan (before ++ token.print ++ after) = .ok line.segments :=
    @Template.LineCut.scan_text line ⟨hbefore, isWritten_print hname, hafter⟩
  have hplaces : Segment.located line.segments = line.locatedFrom 0 :=
    line.locatedFrom_segments 0
  rw [hscan, Except.map, hplaces]
  simp only [line, Template.LineCut.locatedFrom, Nat.zero_add]

end Token

namespace MethodRegistry

variable {methods registered : MethodRegistry} {scope : Namespace} {name : Text}
  {handler : MethodHandler}

/-! ## Methods stay where they are -/

/-- New methods do not hide old ones. -/
theorem resolve_append_of_some {added : List Entry}
    (hresolve : methods.resolve scope name = some handler) :
    resolve ⟨methods.entries ++ added⟩ scope name = some handler := by
  obtain ⟨entry, hfind, hentry⟩ := Option.map_eq_some_iff.1 hresolve
  rw [resolve, List.find?_append, hfind, Option.some_or, Option.map_some, hentry]

/-- A method is found under the name that it is registered with. -/
theorem resolve_register (hregister : methods.register scope name handler = .ok registered) :
    registered.resolve scope name = some handler := by
  obtain ⟨-, hfree, rfl⟩ := register_eq_ok_iff.1 hregister
  have hnone := Option.map_eq_none_iff.1 (resolve_eq_none_iff.2 hfree)
  rw [resolve, List.find?_append, hnone, Option.none_or]
  simp

/-- No call takes a method away or puts another in its place. -/
theorem resolve_call (hresolve : methods.resolve scope name = some handler)
    (addition : Addition) : (methods.call addition).1.resolve scope name = some handler := by
  rcases call_cases methods addition with ⟨-, hcall⟩ | ⟨-, hcall⟩ | ⟨-, cause, hcall⟩
  · rw [hcall]
    exact resolve_append_of_some hresolve
  · rw [hcall]
    exact resolve_append_of_some hresolve
  · rw [hcall]
    exact hresolve

theorem resolve_later (hresolve : methods.resolve scope name = some handler)
    (calls : List Addition) : (methods.later calls).resolve scope name = some handler := by
  induction calls generalizing methods with
  | nil => exact hresolve
  | cons addition rest ih => exact ih (resolve_call hresolve addition)

/-! ## From the written token to the method -/

/-- Every written token of a name is found where it stands, and has the value that a handler gives
for its arguments. -/
def Reaches (methods : MethodRegistry) (scope : Namespace) (name : Text)
    (handler : MethodHandler) : Prop :=
  ∀ (args : List Text) (before after : Text),
    Token.openBrace ∉ before → Token.openBrace ∉ after →
      let token : Token := ⟨scope, name, args⟩
      (Token.scan (before ++ token.print ++ after)).map Segment.located =
          .ok [⟨token, Text.byteSize before, Text.byteSize before + Text.byteSize token.print⟩] ∧
        ∀ context : Context, (scope = .attr → context.scope = .attr) →
          methods.invoke token context = handler (context.seenBy scope) args

theorem reaches_of_resolve (hname : Token.IsDotted name)
    (hresolve : methods.resolve scope name = some handler) :
    methods.Reaches scope name handler := by
  intro args before after hbefore hafter
  exact ⟨@Token.scan_print ⟨scope, name, args⟩ hname _ _ hbefore hafter,
    fun context hactive => @invoke_of_active _ ⟨scope, name, args⟩ _ _ hactive hresolve⟩

/-- A name that is free is registered exactly if it is the function of some token that is read.
Then, after any further calls, all written tokens with this name reach the method. -/
theorem register_iff_reachable (methods : MethodRegistry) (scope : Namespace) (name : Text)
    (handler : MethodHandler) (hfree : methods.contains scope name = false) :
    ((∃ registered, methods.register scope name handler = .ok registered) ↔
        ∃ (text : Text) (token : Token),
          Token.parse text = .ok token ∧ token.scope = scope ∧ token.function = name) ∧
      ∀ registered, methods.register scope name handler = .ok registered →
        ∀ calls, (registered.later calls).Reaches scope name handler := by
  have hnew : (scope, name) ∉ methods.entries.map Entry.key := by
    rw [← contains_iff, hfree]
    exact Bool.false_ne_true
  refine ⟨?_, fun registered hregister calls => ?_⟩
  · rw [← Token.isDotted_iff_parse]
    constructor
    · rintro ⟨registered, hregister⟩
      exact (register_eq_ok_iff.1 hregister).1
    · intro hname
      exact ⟨_, register_of_free hname hnew⟩
  · exact reaches_of_resolve (register_eq_ok_iff.1 hregister).1
      (resolve_later (resolve_register hregister) calls)

/-- A name that is taken for attributes alone, registered for components before a call that tries
to register it for both; and a name with a space, which no token has. -/
theorem register_iff_reachable_halfTaken :
    ((afterCalls [attributeCall]).contains .comp "x" = false ∧
        ∃ registered, (afterCalls [attributeCall]).register .comp "x" Method.type = .ok registered ∧
          (registered.later [bothCall]).Reaches .comp "x" Method.type) ∧
      (afterCalls [attributeCall]).contains .comp "x y" = false ∧
        ∀ (text : Text) (token : Token),
          Token.parse text = .ok token → token.scope = .comp → token.function ≠ "x y" := by
  have hfree : (afterCalls [attributeCall]).contains .comp "x" = false := by decide
  have hspaced : (afterCalls [attributeCall]).contains .comp "x y" = false := by decide
  obtain ⟨-, hreaches⟩ :=
    register_iff_reachable (afterCalls [attributeCall]) .comp "x" Method.type hfree
  obtain ⟨hreachable, -⟩ :=
    register_iff_reachable (afterCalls [attributeCall]) .comp "x y" Method.type hspaced
  refine ⟨⟨hfree, _, rfl, hreaches _ rfl [bothCall]⟩, hspaced, ?_⟩
  intro text token hparse hscope hname
  obtain ⟨registered, hregister⟩ := hreachable.2 ⟨text, token, hparse, hscope, hname⟩
  cases hregister

end MethodRegistry
end Stencil
