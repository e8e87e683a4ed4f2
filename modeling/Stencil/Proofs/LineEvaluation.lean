import Stencil.Proofs.Outcome
import Stencil.Template.Expand

namespace Stencil

/-!
# The values of the tokens of a line

The expansion of a line stops at the first token without a value.  Here this is
turned into statements without order: a stage succeeds exactly if the tokens it
evaluates have values, and its result is the line with these values written in
place of the tokens.  `expandLine_eq_ok_iff_of_attr` and
`expandLine_eq_ok_iff_of_comp` say so for the whole of a line.

There are two stages, one for the tokens of the component and one for those of an
attribute.  Both go through the line in the same way, from part to part with
`Part.evaluated`, so what holds of them is shown of this passage, for any namespace.
-/

namespace MethodRegistry

/-- Whether a token has a value. -/
def Evaluates (methods : MethodRegistry) (context : Context) (token : Token) : Prop :=
  ∃ text, methods.invoke token context = .ok text

/-- The value of a token; a token that has none is given the empty text. -/
def value (methods : MethodRegistry) (context : Context) (token : Token) : Text :=
  match methods.invoke token context with
  | .ok text => text
  | .error _ => []

theorem invoke_eq_ok_iff {methods : MethodRegistry} {context : Context} {token : Token}
    {text : Text} :
    methods.invoke token context = .ok text ↔
      methods.Evaluates context token ∧ text = methods.value context token := by
  unfold Evaluates value
  cases methods.invoke token context with
  | error cause => simp
  | ok found => simp [eq_comm]

/-- Tokens of the component do not see which attribute is active. -/
theorem invoke_withAttribute (methods : MethodRegistry) (context : Context) (a : ViewAttribute)
    {token : Token} (hcomp : token.scope = .comp) :
    methods.invoke token (context.withAttribute a) = methods.invoke token context := by
  unfold invoke
  rw [hcomp]
  rfl

theorem value_withAttribute (methods : MethodRegistry) (context : Context) (a : ViewAttribute)
    {token : Token} (hcomp : token.scope = .comp) :
    methods.value (context.withAttribute a) token = methods.value context token := by
  unfold value
  rw [invoke_withAttribute methods context a hcomp]

end MethodRegistry

/-- The text of a part of a line in which a token is written as `write` says. -/
def Segment.textBy (write : Text → Token → Text) : Segment → Text
  | plain text => text
  | token source found => write source found

theorem Segment.source_eq_textBy : Segment.source = Segment.textBy fun source _ => source := by
  funext part
  cases part with
  | plain text => rfl
  | token source token => rfl

/-- Only what is written for the tokens of a line matters. -/
theorem Segment.flatMap_textBy_congr {write write' : Text → Token → Text} {line : List Segment}
    (hwrite : ∀ token ∈ Segment.tokens line, ∀ source, write source token = write' source token) :
    line.flatMap (Segment.textBy write) = line.flatMap (Segment.textBy write') := by
  induction line with
  | nil => rfl
  | cons part rest ih =>
      cases part with
      | plain text =>
          rw [List.flatMap_cons, List.flatMap_cons, ih hwrite]
          rfl
      | token source token =>
          have hhere := hwrite token (by simp [Segment.tokens]) source
          have hrest := ih fun token hmem => hwrite token (by simp [Segment.tokens, hmem])
          rw [List.flatMap_cons, List.flatMap_cons, hrest, textBy, textBy, hhere]

theorem Segment.mem_tokens_iff {token : Token} {line : List Segment} :
    token ∈ Segment.tokens line ↔ ∃ source, .token source token ∈ line := by
  induction line with
  | nil => simp [Segment.tokens]
  | cons part rest ih =>
      cases part with
      | plain text => simp [Segment.tokens, ih]
      | token source found => simp [Segment.tokens, ih, exists_or]

namespace Template

/-- Writes the tokens of a namespace as their values and leaves the others. -/
def scopedValues (scope : Namespace) (value : Token → Text) (source : Text) (token : Token) :
    Text :=
  if token.scope = scope then value token else source

/-- Where no token is of the namespace, the line is written as it is. -/
theorem flatMap_scopedValues_of_ne {scope : Namespace} {line : List Segment}
    (hscope : ∀ token ∈ Segment.tokens line, token.scope ≠ scope) (value : Token → Text) :
    line.flatMap (Segment.textBy (scopedValues scope value)) = line.flatMap Segment.source := by
  rw [Segment.source_eq_textBy]
  exact Segment.flatMap_textBy_congr fun token hmem _ => if_neg (hscope token hmem)

variable {methods : MethodRegistry} {context : Context} {scope : Namespace}

/-! ## Evaluating the tokens of a namespace -/

namespace Part

/-- A part of a line with the value of a token of a namespace. -/
def ofSegment (scope : Namespace) (value : Token → Text) : Segment → Part
  | .plain text => .plain text
  | .token source token => if token.scope = scope then .value (value token) else .pending source

theorem text_ofSegment (scope : Namespace) (value : Token → Text) (part : Segment) :
    (ofSegment scope value part).text = part.textBy (scopedValues scope value) := by
  cases part with
  | plain text => rfl
  | token source token =>
      simp only [ofSegment, Segment.textBy, scopedValues]
      split <;> rfl

/-- What a part of a line becomes when the tokens of a namespace are evaluated. -/
def evaluated (methods : MethodRegistry) (context : Context) (scope : Namespace) :
    Segment → Except EvalError Part
  | .plain text => .ok (.plain text)
  | .token source token =>
      if token.scope = scope then (methods.invoke token context).map .value
      else .ok (.pending source)

/-- Whether a part of a line is no token of a namespace, or one that has a value. -/
def HasValue (methods : MethodRegistry) (context : Context) (scope : Namespace)
    (part : Segment) : Prop :=
  ∀ source token, part = .token source token → token.scope = scope →
    methods.Evaluates context token

theorem evaluated_eq_ok_iff {part : Segment} {found : Part} :
    evaluated methods context scope part = .ok found ↔
      HasValue methods context scope part ∧
        ofSegment scope (methods.value context) part = found := by
  cases part with
  | plain text => simp [evaluated, HasValue, ofSegment]
  | token source token =>
      by_cases hscope : token.scope = scope
      · simp only [evaluated, HasValue, ofSegment, if_pos hscope, Outcome.map_eq_ok_iff,
          MethodRegistry.invoke_eq_ok_iff]
        constructor
        · rintro ⟨text, ⟨hvalue, rfl⟩, rfl⟩
          refine ⟨fun other found heq _ => ?_, rfl⟩
          cases heq
          exact hvalue
        · rintro ⟨hvalue, rfl⟩
          exact ⟨_, ⟨hvalue source token rfl hscope, rfl⟩, rfl⟩
      · simp only [evaluated, HasValue, ofSegment, if_neg hscope, Except.ok.injEq]
        refine (and_iff_right fun other found heq hfound => ?_).symm
        cases heq
        exact absurd hfound hscope

theorem forall_hasValue_iff {line : List Segment} :
    (∀ part ∈ line, HasValue methods context scope part) ↔
      ∀ token ∈ Segment.tokens line, token.scope = scope → methods.Evaluates context token := by
  constructor
  · intro hall token hmem hscope
    obtain ⟨source, hpart⟩ := Segment.mem_tokens_iff.1 hmem
    exact hall _ hpart source token rfl hscope
  · rintro hall part hpart source token rfl hscope
    exact hall token (Segment.mem_tokens_iff.2 ⟨source, hpart⟩) hscope

/-- A line is gone through exactly if the tokens of the namespace have values, and these are put
in place. -/
theorem mapM_evaluated_eq_ok_iff {line : List Segment} {found : List Part} :
    line.mapM (evaluated methods context scope) = .ok found ↔
      (∀ token ∈ Segment.tokens line, token.scope = scope → methods.Evaluates context token) ∧
        line.map (ofSegment scope (methods.value context)) = found := by
  rw [Outcome.mapM_eq_ok_iff_of_item fun _ _ => evaluated_eq_ok_iff, forall_hasValue_iff]

/-- The error is that of a token of the namespace without a value. -/
theorem exists_of_mapM_evaluated {line : List Segment} {cause : EvalError}
    (h : line.mapM (evaluated methods context scope) = .error cause) :
    ∃ token ∈ Segment.tokens line, token.scope = scope ∧
      methods.invoke token context = .error cause := by
  obtain ⟨before, part, after, rfl, -, hpart⟩ := Outcome.mapM_eq_error_iff.1 h
  cases part with
  | plain text => cases hpart
  | token source token =>
      have hmem : token ∈ Segment.tokens (before ++ .token source token :: after) :=
        Segment.mem_tokens_iff.2 ⟨source, by simp⟩
      rw [evaluated] at hpart
      split at hpart
      · rename_i hscope
        exact ⟨token, hmem, hscope, Outcome.map_eq_error_iff.1 hpart⟩
      · cases hpart

end Part

theorem flatMap_text_ofSegment (scope : Namespace) (value : Token → Text) (line : List Segment) :
    (line.map (Part.ofSegment scope value)).flatMap Part.text =
      line.flatMap (Segment.textBy (scopedValues scope value)) := by
  rw [List.flatMap_map]
  exact congrArg (line.flatMap ·) (funext (Part.text_ofSegment scope value))

/-! ## The stages of a line -/

/-- The first stage evaluates the tokens of the component. -/
theorem parts_eq_mapM (line : List Segment) :
    parts methods context line = line.mapM (Part.evaluated methods context .comp) := by
  induction line with
  | nil => rfl
  | cons part rest ih =>
      rw [List.mapM_cons, ← ih]
      cases part with
      | plain text => rfl
      | token source token =>
          cases hscope : token.scope with
          | attr => simp only [parts, Part.evaluated, hscope]; rfl
          | comp =>
              simp only [parts, Part.evaluated, hscope]
              cases methods.invoke token context <;> rfl

/-- The second stage evaluates those of the attribute, and joins the parts. -/
theorem attributeLine_eq_mapM (line : List Segment) :
    attributeLine methods context line =
      (line.mapM (Part.evaluated methods context .attr)).map (List.flatMap Part.text) := by
  induction line with
  | nil => rfl
  | cons part rest ih =>
      rw [List.mapM_cons]
      cases part with
      | plain text =>
          rw [attributeLine, ih]
          cases rest.mapM (Part.evaluated methods context .attr) <;> rfl
      | token source token =>
          cases hscope : token.scope with
          | comp =>
              simp only [attributeLine, Part.evaluated, hscope, ih]
              cases rest.mapM (Part.evaluated methods context .attr) <;> rfl
          | attr =>
              simp only [attributeLine, Part.evaluated, hscope, ih]
              cases methods.invoke token context <;>
                cases rest.mapM (Part.evaluated methods context .attr) <;> rfl

/-- The component's values are put in place exactly if its tokens have values. -/
theorem parts_eq_ok_iff {line : List Segment} {found : List Part} :
    parts methods context line = .ok found ↔
      (∀ token ∈ Segment.tokens line, token.scope = .comp → methods.Evaluates context token) ∧
        line.map (Part.ofSegment .comp (methods.value context)) = found := by
  rw [parts_eq_mapM, Part.mapM_evaluated_eq_ok_iff]

/-- The values of an attribute are put in place exactly if its tokens have values. -/
theorem attributeLine_eq_ok_iff {line : List Segment} {found : Text} :
    attributeLine methods context line = .ok found ↔
      (∀ token ∈ Segment.tokens line, token.scope = .attr → methods.Evaluates context token) ∧
        line.flatMap (Segment.textBy (scopedValues .attr (methods.value context))) = found := by
  rw [attributeLine_eq_mapM, Outcome.map_eq_ok_iff]
  simp only [Part.mapM_evaluated_eq_ok_iff]
  constructor
  · rintro ⟨parts, ⟨hall, rfl⟩, rfl⟩
    exact ⟨hall, (flatMap_text_ofSegment _ _ _).symm⟩
  · rintro ⟨hall, rfl⟩
    exact ⟨_, ⟨hall, rfl⟩, flatMap_text_ofSegment _ _ _⟩

theorem attributeLines_eq_ok_iff {line : List Segment} {attributes : List ViewAttribute}
    {found : List Text} :
    attributeLines methods context line attributes = .ok found ↔
      (∀ a ∈ attributes, ∀ token ∈ Segment.tokens line, token.scope = .attr →
        methods.Evaluates (context.withAttribute a) token) ∧
        found = attributes.flatMap fun a => writtenUnlessBlank
          (line.flatMap (Segment.textBy
            (scopedValues .attr (methods.value (context.withAttribute a))))) := by
  induction attributes generalizing found with
  | nil => simp [attributeLines, eq_comm]
  | cons a rest ih =>
      simp only [attributeLines, Outcome.bind_eq_ok_iff, pure, Except.pure, Except.ok.injEq,
        ih, attributeLine_eq_ok_iff, List.forall_mem_cons, List.flatMap_cons]
      constructor
      · rintro ⟨text, ⟨hfirst, rfl⟩, others, ⟨hall, rfl⟩, rfl⟩
        exact ⟨⟨hfirst, hall⟩, rfl⟩
      · rintro ⟨⟨hfirst, hall⟩, rfl⟩
        exact ⟨_, ⟨hfirst, rfl⟩, _, ⟨hall, rfl⟩, rfl⟩

/-! ## Whole lines -/

/-- The text of a line with the component's values in place. -/
def spliced (value : Token → Text) (line : List Segment) : Text :=
  line.flatMap (Segment.textBy (scopedValues .comp value))

/-- A line needs an attribute if a token of one is written on it or begins in a value. -/
theorem any_needsAttribute_iff {value : Token → Text} {line : List Segment} :
    (line.map (Part.ofSegment .comp value)).any Part.needsAttribute = true ↔
      ∃ token ∈ Segment.tokens line, token.scope = .attr ∨
        Text.has Part.attributeOpening (value token) = true := by
  induction line with
  | nil => simp [Segment.tokens]
  | cons part rest ih =>
      rw [List.map_cons, List.any_cons, Bool.or_eq_true, ih]
      cases part with
      | plain text => simp [Part.ofSegment, Part.needsAttribute, Segment.tokens]
      | token source token =>
          cases hscope : token.scope with
          | comp => simp [Part.ofSegment, Part.needsAttribute, Segment.tokens, hscope]
          | attr => simp [Part.ofSegment, Part.needsAttribute, Segment.tokens, hscope]

/-- A line without tokens is copied. -/
theorem expandLine_of_plain {line : List Segment} (hplain : Segment.tokens line = []) :
    expandLine methods context line = .ok [written (line.flatMap Segment.source)] := by
  unfold expandLine
  rw [hplain]
  rfl

/-- A line with tokens of the component alone, in whose values no token of an attribute begins,
is written once. -/
theorem expandLine_eq_ok_iff_of_comp {line : List Segment} (htokens : Segment.tokens line ≠ [])
    (hcomp : ∀ token ∈ Segment.tokens line, token.scope = .comp)
    (hopening : ∀ token ∈ Segment.tokens line,
      Text.has Part.attributeOpening (methods.value context token) = false)
    {out : List Text} :
    expandLine methods context line = .ok out ↔
      (∀ token ∈ Segment.tokens line, methods.Evaluates context token) ∧
        out = writtenUnlessBlank (spliced (methods.value context) line) := by
  have hnone : (line.map (Part.ofSegment .comp (methods.value context))).any Part.needsAttribute =
      false := by
    refine Bool.eq_false_iff.2 fun hneeds => ?_
    obtain ⟨token, hmem, hattr | hhas⟩ := any_needsAttribute_iff.1 hneeds
    · rw [hcomp token hmem] at hattr
      cases hattr
    · rw [hopening token hmem] at hhas
      cases hhas
  -- All tokens are the component's, so the condition on their kind says nothing.
  have hscopes : (∀ token ∈ Segment.tokens line, token.scope = .comp →
      methods.Evaluates context token) ↔
        ∀ token ∈ Segment.tokens line, methods.Evaluates context token :=
    ⟨fun h token hmem => h token hmem (hcomp token hmem), fun h token hmem _ => h token hmem⟩
  unfold expandLine
  rw [if_neg (by simpa using htokens)]
  simp only [Outcome.bind_eq_ok_iff, Outcome.mapError_eq_ok_iff, parts_eq_ok_iff, hscopes]
  constructor
  · rintro ⟨found, ⟨hall, rfl⟩, hout⟩
    rw [if_neg (by simp [hnone]), flatMap_text_ofSegment, ← spliced] at hout
    exact ⟨hall, (Except.ok.inj hout).symm⟩
  · rintro ⟨hall, rfl⟩
    refine ⟨_, ⟨hall, rfl⟩, ?_⟩
    rw [if_neg (by simp [hnone]), flatMap_text_ofSegment, ← spliced]
    rfl

/-- A line with a token of an attribute is scanned again once the component's values are in
place, and is written for every attribute. -/
theorem expandLine_eq_ok_iff_of_attr {line : List Segment}
    (hattr : ∃ token ∈ Segment.tokens line, token.scope = .attr) {out : List Text} :
    expandLine methods context line = .ok out ↔
      (∀ token ∈ Segment.tokens line, token.scope = .comp → methods.Evaluates context token) ∧
        ∃ again, Token.scan (spliced (methods.value context) line) = .ok again ∧
          attributeLines methods context again context.component.attributes = .ok out := by
  have hneeds : (line.map (Part.ofSegment .comp (methods.value context))).any Part.needsAttribute =
      true := by
    obtain ⟨token, hmem, hscope⟩ := hattr
    exact any_needsAttribute_iff.2 ⟨token, hmem, Or.inl hscope⟩
  have htokens : ¬(Segment.tokens line).isEmpty = true := by
    obtain ⟨token, hmem, -⟩ := hattr
    intro hempty
    rw [List.isEmpty_iff.1 hempty] at hmem
    cases hmem
  unfold expandLine
  rw [if_neg htokens]
  simp only [Outcome.bind_eq_ok_iff, Outcome.mapError_eq_ok_iff, parts_eq_ok_iff]
  constructor
  · rintro ⟨found, ⟨hall, rfl⟩, hout⟩
    rw [if_pos hneeds, flatMap_text_ofSegment, ← spliced] at hout
    simp only [Outcome.bind_eq_ok_iff, Outcome.mapError_eq_ok_iff] at hout
    exact ⟨hall, hout⟩
  · rintro ⟨hall, hout⟩
    refine ⟨_, ⟨hall, rfl⟩, ?_⟩
    rw [if_pos hneeds, flatMap_text_ofSegment, ← spliced]
    simpa only [Outcome.bind_eq_ok_iff, Outcome.mapError_eq_ok_iff] using hout

end Template
end Stencil
