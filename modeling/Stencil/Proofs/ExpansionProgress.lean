import Stencil.Engine.Defaults
import Stencil.Proofs.BuiltinMethods
import Stencil.Proofs.TemplateItems
import Stencil.Proofs.TypeTree

namespace Stencil

/-!
# Templates that are always expanded

A template that uses the built-in methods as they are meant to be used cannot fail
on a spec whose default values are values of their types.  What this asks of the
template is said without the functions that read templates: `Groups` is the block
structure of its lines, `IsAssignments` the words of the markers, and
`Token.WellUsed` the tokens.

Every such token has a value (`evaluates_of_wellUsed`), because all that a method
can complain about is excluded by the form of the token or, for default values, by
the validation of the spec.  `expand_builtin_of_wellUsed` draws the conclusion for
whole templates: neither a missing attribute nor a default value that is not a value
of its type can turn up in them.
-/

/-! ## Default values -/

namespace Engine

theorem validateAttributes_eq_ok_iff {engine : Engine} {component : Text}
    {attributes : List Attribute} :
    engine.validateAttributes component attributes = .ok () ↔
      ∀ a ∈ attributes, ∃ text, engine.render a.typeName a.default = .ok text := by
  induction attributes with
  | nil => simp [validateAttributes]
  | cons a rest ih =>
      rw [validateAttributes, List.forall_mem_cons]
      cases engine.render a.typeName a.default with
      | error cause => simp
      | ok text => simp [ih]

theorem validateComponents_eq_ok_iff {engine : Engine} {components : List Component} :
    engine.validateComponents components = .ok () ↔
      ∀ c ∈ components, ∀ a ∈ c.attributes,
        ∃ text, engine.render a.typeName a.default = .ok text := by
  induction components with
  | nil => simp [validateComponents]
  | cons c rest ih =>
      rw [validateComponents, List.forall_mem_cons, Outcome.seq_eq_ok_iff,
        validateAttributes_eq_ok_iff, ih]

/-- A spec is validated exactly if all its default values can be rendered. -/
theorem validate_eq_ok_iff {engine : Engine} {spec : Spec} :
    engine.validate spec = .ok () ↔
      ∀ c ∈ spec.components, ∀ a ∈ c.attributes,
        ∃ text, engine.render a.typeName a.default = .ok text :=
  validateComponents_eq_ok_iff

end Engine

/-- What is rendered within every depth is rendered. -/
theorem TypeRegistry.exists_render_of_answers {types : TypeRegistry} {name : Text}
    {literal : Json → Option Text}
    (hanswers : ∀ depth, Rendering.Answers (renderWithin types (depth + 1)) name literal)
    {value : Json} {text : Text} (hliteral : literal value = some text) :
    ∃ text, types.render name value = .ok text := by
  have hrender := toOption_render_of_answers (hanswers _) value
  rw [hliteral] at hrender
  exact ⟨text, Outcome.toOption_eq_some_iff.1 hrender⟩

/-- The default value of an attribute of a view can be rendered. -/
def ViewAttribute.IsRendered (types : TypeRegistry) (a : ViewAttribute) : Prop :=
  ∃ text, types.render a.typeName a.default = .ok text

/-- What a block shows of a validated spec can be rendered. -/
theorem isRendered_of_validate {engine : Engine} {spec : Spec}
    (hvalid : engine.validate spec = .ok ()) (predicate : Flags) :
    ∀ c ∈ (spec.view predicate).components, ∀ a ∈ c.attributes,
      a.IsRendered engine.types := by
  intro c hc a ha
  obtain ⟨raw, hraw, rfl⟩ := List.mem_map.1 hc
  obtain ⟨declared, hdeclared, rfl⟩ := List.mem_map.1 ha
  exact Engine.validate_eq_ok_iff.1 hvalid raw (List.mem_of_mem_filter hraw) declared
    (List.mem_of_mem_filter hdeclared)

/-! ## Tokens -/

/-- The fields of attributes that every spec gives. -/
def Method.fixedFields : List Text := ["name", "display_name", "type", "default"]

/-- A token that uses a built-in method as it is meant to be used. -/
inductive Token.WellUsed : Token → Prop where
  | name (scope : Namespace) : WellUsed ⟨scope, "name", []⟩
  | displayName (scope : Namespace) : WellUsed ⟨scope, "display_name", []⟩
  | type : WellUsed ⟨.attr, "type", []⟩
  | default : WellUsed ⟨.attr, "default", []⟩
  | count : WellUsed ⟨.comp, "attr_count", []⟩
  | first (scope : Namespace) (text : Text) : WellUsed ⟨scope, "if_first", [text]⟩
  | notFirst (scope : Namespace) (text : Text) : WellUsed ⟨scope, "if_not_first", [text]⟩
  | last (scope : Namespace) (text : Text) : WellUsed ⟨scope, "if_last", [text]⟩
  | notLast (scope : Namespace) (text : Text) : WellUsed ⟨scope, "if_not_last", [text]⟩
  | nth (scope : Namespace) {index : Text} (hindex : (Text.int64? index).isSome = true)
      (yes no : Text) : WellUsed ⟨scope, "if_nth_else", [index, yes, no]⟩
  | list {field : Text} (hfield : field ∈ Method.fixedFields) (separator : Text) :
      WellUsed ⟨.comp, "attr_list", [field, separator]⟩
  | formattedList {field : Text} (hfield : field ∈ Method.fixedFields) (separator format : Text) :
      WellUsed ⟨.comp, "attr_list", [field, separator, format]⟩

namespace Method

/-- The fixed fields of an attribute have values if its default value has one. -/
theorem exists_attributeField {context : Context} {a : ViewAttribute} {field : Text}
    (hfield : field ∈ fixedFields) (ha : a.IsRendered context.types) :
    ∃ text, attributeField context field a = .ok text := by
  obtain ⟨text, htext⟩ := ha
  simp only [fixedFields, List.mem_cons, List.not_mem_nil, or_false] at hfield
  rcases hfield with rfl | rfl | rfl | rfl
  · exact ⟨a.name, rfl⟩
  · exact ⟨a.displayName, rfl⟩
  · exact ⟨a.typeName, rfl⟩
  · refine ⟨text, ?_⟩
    show (context.types.render a.typeName a.default).mapError EvalError.render = .ok text
    rw [Outcome.mapError_eq_ok_iff]
    exact htext

theorem exists_attributeTexts {context : Context} {field : Text}
    (hfield : field ∈ fixedFields) (format : Option Text) {attributes : List ViewAttribute}
    (hattributes : ∀ a ∈ attributes, a.IsRendered context.types) :
    ∃ texts, attributeTexts context field format attributes = .ok texts := by
  induction attributes with
  | nil => exact ⟨[], rfl⟩
  | cons a rest ih =>
      rw [List.forall_mem_cons] at hattributes
      obtain ⟨text, htext⟩ := exists_attributeField hfield hattributes.1
      obtain ⟨texts, htexts⟩ := ih hattributes.2
      rw [attributeTexts, htext, htexts]
      exact ⟨_, rfl⟩

end Method

namespace MethodRegistry

/-- A token about the active object has a value if the method of its name gives one. -/
theorem evaluates_builtin (addition : Addition) (hmem : addition ∈ builtinMethods)
    {context : Context} {scope : Namespace} (hscope : scope = context.scope)
    (hreach : scope ∈ addition.reach.namespaces) {args : List Text} {text : Text}
    (hvalue : addition.handler context args = .ok text) :
    builtin.Evaluates context ⟨scope, addition.name, args⟩ := by
  subst hscope
  exact ⟨text, (invoke_builtin hmem hreach args).trans hvalue⟩

/-- A token about the active object has a value if it uses a built-in method as it is meant to be
used, and the default values that it may ask for can be rendered. -/
theorem evaluates_of_wellUsed {token : Token} (htoken : token.WellUsed) {context : Context}
    (hscope : token.scope = context.scope)
    (hattributes : ∀ a ∈ context.component.attributes, a.IsRendered context.types)
    (hactive : ∀ a, context.attr? = some a → a.IsRendered context.types) :
    builtin.Evaluates context token := by
  -- An attribute is active if the token is about one.
  have hattribute : Namespace.attr = context.scope → ∃ a, context.attr? = some a := by
    unfold Context.scope
    cases context.attr? with
    | none => exact fun h => by cases h
    | some a => exact fun _ => ⟨a, rfl⟩
  cases htoken with
  | name scope =>
      exact evaluates_builtin ⟨.both, "name", Method.name⟩ (by simp [builtinMethods]) hscope
        (mem_namespaces_both scope) rfl
  | displayName scope =>
      exact evaluates_builtin ⟨.both, "display_name", Method.displayName⟩
        (by simp [builtinMethods]) hscope (mem_namespaces_both scope) rfl
  | type =>
      obtain ⟨a, ha⟩ := hattribute hscope
      have hvalue : Method.type context [] = .ok a.typeName := by
        simp [Method.type, Method.expect, Context.requireAttribute, ha, bind, Except.bind, pure,
          Except.pure]
      exact evaluates_builtin ⟨.one .attr, "type", Method.type⟩ (by simp [builtinMethods]) hscope
        (by decide) hvalue
  | default =>
      obtain ⟨a, ha⟩ := hattribute hscope
      obtain ⟨text, htext⟩ := hactive a ha
      have hvalue : Method.defaultValue context [] = .ok text := by
        simp only [Method.defaultValue, Method.expect, Context.requireAttribute, ha]
        exact Outcome.mapError_eq_ok_iff.2 htext
      exact evaluates_builtin ⟨.one .attr, "default", Method.defaultValue⟩
        (by simp [builtinMethods]) hscope (by decide) hvalue
  | count =>
      exact evaluates_builtin ⟨.one .comp, "attr_count", Method.attributeCount⟩
        (by simp [builtinMethods]) hscope (by decide) rfl
  | first scope text =>
      exact evaluates_builtin ⟨.both, "if_first", Method.ifAt "if_first" 0 true⟩
        (by simp [builtinMethods]) hscope (mem_namespaces_both scope) rfl
  | notFirst scope text =>
      exact evaluates_builtin ⟨.both, "if_not_first", Method.ifAt "if_not_first" 0 false⟩
        (by simp [builtinMethods]) hscope (mem_namespaces_both scope) rfl
  | last scope text =>
      exact evaluates_builtin ⟨.both, "if_last", Method.ifAt "if_last" (-1) true⟩
        (by simp [builtinMethods]) hscope (mem_namespaces_both scope) rfl
  | notLast scope text =>
      exact evaluates_builtin ⟨.both, "if_not_last", Method.ifAt "if_not_last" (-1) false⟩
        (by simp [builtinMethods]) hscope (mem_namespaces_both scope) rfl
  | @nth scope index hindex yes no =>
      obtain ⟨n, hn⟩ := Option.isSome_iff_exists.1 hindex
      have hvalue : Method.ifNthElse context [index, yes, no] =
          .ok (if context.isNth n then yes else no) := by
        simp only [Method.ifNthElse, hn]
      exact evaluates_builtin ⟨.both, "if_nth_else", Method.ifNthElse⟩ (by simp [builtinMethods])
        hscope (mem_namespaces_both scope) hvalue
  | @list field hfield separator =>
      obtain ⟨texts, htexts⟩ := Method.exists_attributeTexts hfield none hattributes
      have hvalue : Method.attributeList context [field, separator] =
          .ok (Text.joined separator texts) := by
        simp only [Method.attributeList, htexts]
        rfl
      exact evaluates_builtin ⟨.one .comp, "attr_list", Method.attributeList⟩
        (by simp [builtinMethods]) hscope (List.mem_singleton_self _) hvalue
  | @formattedList field hfield separator format =>
      obtain ⟨texts, htexts⟩ := Method.exists_attributeTexts hfield (some format) hattributes
      have hvalue : Method.attributeList context [field, separator, format] =
          .ok (Text.joined separator texts) := by
        simp only [Method.attributeList, htexts]
        rfl
      exact evaluates_builtin ⟨.one .comp, "attr_list", Method.attributeList⟩
        (by simp [builtinMethods]) hscope (List.mem_singleton_self _) hvalue

end MethodRegistry

/-! ## Markers -/

namespace Template

/-- The words of a marker that assign values to flags.  A flag is what stands before the first
equals sign of a word.  It has a name, occurs once, and is declared if the spec declares any. -/
structure IsAssignments (spec : Spec) (words : List Text) (flags : Flags) : Prop where
  words_eq : words = flags.map fun (flag, value) => flag ++ "=" ++ Text.ofBool value
  nodup : flags.names.Nodup
  named : ∀ flag ∈ flags.names, flag ≠ [] ∧ '=' ∉ flag
  declared : spec.usesFlags = true → ∀ flag ∈ flags.names, spec.flagDefaults.contains flag = true

theorem truthValue?_ofBool (value : Bool) : truthValue? (Text.ofBool value) = some value := by
  cases value with
  | false => decide
  | true => decide

/-- A word that assigns a value to a flag is read as that. -/
theorem assignment_eq_ok {spec : Spec} {flag : Text} (hnamed : flag ≠ [] ∧ '=' ∉ flag)
    (hdeclared : spec.usesFlags = true → spec.flagDefaults.contains flag = true)
    (line : Text) (value : Bool) :
    assignment spec line (flag ++ "=" ++ Text.ofBool value) = .ok (flag, value) := by
  have hhead : Text.splitOnce? "=" ('=' :: Text.ofBool value) = some ([], Text.ofBool value) :=
    rfl
  have hsplit : Text.splitOnce? "=" (flag ++ "=" ++ Text.ofBool value) =
      some (flag, Text.ofBool value) := by
    rw [List.append_assoc]
    exact (Text.splitOnce?_append_left rfl hnamed.2 hhead).trans (by rw [List.append_nil])
  have hknown : (spec.usesFlags && !spec.flagDefaults.contains flag) = false := by
    cases huses : spec.usesFlags with
    | false => rfl
    | true => simp [hdeclared huses]
  unfold assignment
  rw [hsplit]
  simp [hnamed.1, truthValue?_ofBool, hknown]

/-- Words that assign values to flags are read as the assignments. -/
theorem predicateFrom_eq_ok {spec : Spec} (line : Text) {words : List Text} {flags : Flags}
    (hwords : IsAssignments spec words flags) {seen : Flags}
    (hnodup : (Fields.names (seen ++ flags)).Nodup) :
    predicateFrom spec line seen words = .ok (seen ++ flags) := by
  obtain ⟨rfl, -, hnamed, hdeclared⟩ := hwords
  induction flags generalizing seen with
  | nil => rw [List.map_nil, predicateFrom, List.append_nil]
  | cons first rest ih =>
      obtain ⟨flag, value⟩ := first
      rw [Fields.names_cons, List.forall_mem_cons] at hnamed
      have hword : assignment spec line (flag ++ "=" ++ Text.ofBool value) = .ok (flag, value) :=
        assignment_eq_ok hnamed.1 (fun huses => hdeclared huses flag List.mem_cons_self) line value
      have hfresh : seen.contains flag = false := by
        rw [Bool.eq_false_iff, Ne, Fields.contains_iff_mem_names]
        rw [Fields.names_append, List.nodup_append] at hnodup
        exact fun hseen => hnodup.2.2 flag hseen flag List.mem_cons_self rfl
      have hrest := @ih (seen ++ [(flag, value)])
        (by rwa [List.append_assoc]) hnamed.2
        fun huses other hother => hdeclared huses other (List.mem_cons_of_mem _ hother)
      rw [List.append_assoc, List.singleton_append] at hrest
      rw [List.map_cons, predicateFrom, hword]
      show (if seen.contains flag = true then _ else _) = _
      rw [hfresh]
      exact hrest

theorem predicate_eq_ok {spec : Spec} (line : Text) {words : Text} {flags : Flags}
    (hwords : IsAssignments spec words.words flags) : predicate spec line words = .ok flags :=
  predicateFrom_eq_ok line hwords hwords.nodup

/-! ## Groups of lines -/

/-- Lines that make up items: text lines, and blocks that are closed, do not nest and have a marker
that assigns values to flags. -/
inductive Groups (spec : Spec) : List SourceLine → List Item → Prop where
  | nil : Groups spec [] []
  | text {line : SourceLine} {rest : List SourceLine} {items : List Item}
      (htext : Marker.of line.text = .text) (hrest : Groups spec rest items) :
      Groups spec (line :: rest) (.text line :: items)
  | block {opener closer : SourceLine} {words : Text} {flags : Flags}
      {body rest : List SourceLine} {items : List Item}
      (hopens : Marker.of opener.text = .opens words)
      (hwords : IsAssignments spec words.words flags)
      (hbody : ∀ line ∈ body, Marker.of line.text = .text)
      (hcloses : Marker.of closer.text = .closes []) (hrest : Groups spec rest items) :
      Groups spec (opener :: (body ++ closer :: rest)) (.block flags body :: items)

theorem items?_of_groups {spec : Spec} {lines : List SourceLine} {items : List Item}
    (hgroups : Groups spec lines items) : items? spec lines = some items := by
  induction hgroups with
  | nil => rw [items?]
  | text htext hrest ih =>
      rw [items?, htext]
      simp only [ih, Option.map_some]
  | @block opener closer words flags body rest items hopens hwords hbody hcloses hrest ih =>
      have htext : ∀ line ∈ body, SourceLine.isText line = true := by
        intro line hline
        simp [SourceLine.isText, hbody line hline]
      have hstop : SourceLine.isText closer = false := by
        simp [SourceLine.isText, hcloses]
      have hafter : (body ++ closer :: rest).dropWhile SourceLine.isText = closer :: rest := by
        rw [List.dropWhile_append_of_pos htext, List.dropWhile_cons_of_neg (by simp [hstop])]
      have hbefore : (body ++ closer :: rest).takeWhile SourceLine.isText = body := by
        rw [List.takeWhile_append_of_pos htext, List.takeWhile_cons_of_neg (by simp [hstop]),
          List.append_nil]
      rw [items?_of_block hopens (predicate_eq_ok _ hwords) hafter hcloses, ih, hbefore]
      rfl

/-! ## Whole templates -/

/-- A line whose tokens are all the attribute's is plain. -/
theorem SourceLine.isPlain_of_attr {methods : MethodRegistry} {context : Context}
    {line : SourceLine} (htokens : ∀ token ∈ line.tokens, token.scope = .attr) :
    line.IsPlain methods context := by
  refine ⟨⟨.attr, htokens⟩, fun token htoken hcomp => ?_⟩
  rw [htokens token htoken] at hcomp
  cases hcomp

/-- The calls of a line have values if it uses the built-in methods as they are meant to be used
and the default values of the component can be rendered. -/
theorem evaluates_of_mem_calls {context : Context} {line : SourceLine}
    (htokens : ∀ token ∈ line.tokens, token.WellUsed) (hscope : context.attr? = none)
    (hrendered : ∀ a ∈ context.component.attributes, a.IsRendered context.types) :
    ∀ call ∈ line.calls context, MethodRegistry.builtin.Evaluates call.context call.token := by
  rw [SourceLine.forall_mem_calls_iff]
  intro token htoken
  constructor
  · intro hcomp
    refine MethodRegistry.evaluates_of_wellUsed (htokens token htoken) ?_ hrendered ?_
    · rw [hcomp, Context.scope, hscope]
    · intro a ha
      rw [hscope] at ha
      cases ha
  · intro hattr a ha
    refine MethodRegistry.evaluates_of_wellUsed (htokens token htoken) hattr hrendered ?_
    intro b hb
    obtain rfl : a = b := Option.some.inj hb
    exact hrendered a ha

/-- The calls of an item have values if it uses the built-in methods as they are meant to be used
and the spec is validated. -/
theorem evaluates_of_mem_item_calls {engine : Engine} {spec : Spec}
    (hmethods : engine.methods = MethodRegistry.builtin) (hvalid : engine.validate spec = .ok ())
    {item : Item} (htokens : ∀ line ∈ item.blockLines, ∀ token ∈ line.tokens, token.WellUsed) :
    ∀ call ∈ item.calls engine spec, engine.methods.Evaluates call.context call.token := by
  rw [hmethods]
  cases item with
  | text line => exact fun call hcall => by cases hcall
  | block flags lines =>
      simp only [Item.calls, List.forall_mem_flatMap, contexts, List.forall_mem_map]
      intro component hcomponent line hline
      exact evaluates_of_mem_calls (htokens line hline) rfl
        (isRendered_of_validate hvalid flags component hcomponent)

/-- A template whose markers are well formed, whose lines of blocks scan and are plain, and whose
tokens use the built-in methods as they are meant to be used is expanded for every spec whose
default values can be rendered. -/
theorem expand_builtin_of_wellUsed {spec : Spec} (hvalid : Engine.builtin.validate spec = .ok ())
    {source : Text} {items : List Item} (hgroups : Groups spec (sourceLines source) items)
    (hscans : ∀ item ∈ items, ∀ line ∈ item.blockLines, line.Scans)
    (hplain : ∀ item ∈ items, item.IsPlain Engine.builtin spec)
    (htokens : ∀ item ∈ items, ∀ line ∈ item.blockLines, ∀ token ∈ line.tokens, token.WellUsed)
    (template : Text) : ∃ out, Engine.builtin.expand template source spec = .ok out := by
  have hcalls : ∀ item ∈ items, ∀ call ∈ item.calls Engine.builtin spec,
      Engine.builtin.methods.Evaluates call.context call.token :=
    fun item hitem => evaluates_of_mem_item_calls rfl hvalid (htokens item hitem)
  have hrun : (sourceLines source).foldlM (step template Engine.builtin spec) ⟨[], none⟩ =
      .ok ⟨[] ++ items.flatMap (Item.output Engine.builtin spec), none⟩ :=
    (foldlM_step_eq_ok_iff (items?_of_groups hgroups) hscans hplain).2 ⟨hcalls, rfl⟩
  exact ⟨_, Outcome.bind_eq_ok_iff.2 ⟨_, hrun, rfl⟩⟩

/-- A template of one block that has a flag and writes default values. -/
def savedDefaults : Text :=
  "DATAMATIC_BEGIN SAVE=true\n\x7b\x7bAttr::default\x7d\x7d;\nDATAMATIC_END\n"

/-- The line of the block. -/
def savedDefaultsLine : SourceLine := ⟨2, 26, "\x7b\x7bAttr::default\x7d\x7d;"⟩

/-- A spec with the flag and an attribute that is a truth value. -/
def savedSpec (truth : Bool) : Spec :=
  let flags : Flags := [("SAVE", true)]
  let shown : Attribute :=
    { name := "shown", displayName := "Shown", typeName := "bool", default := .bool truth, flags,
      custom := none }
  { flagDefaults := flags
    components := [{ name := "P", displayName := "P", attributes := [shown], flags }] }

theorem groups_savedDefaults (truth : Bool) : Groups (savedSpec truth)
    (sourceLines savedDefaults) [.block [("SAVE", true)] [savedDefaultsLine]] := by
  have hlines : sourceLines savedDefaults =
      ⟨1, 0, "DATAMATIC_BEGIN SAVE=true"⟩ ::
        ([savedDefaultsLine] ++ [⟨3, 45, "DATAMATIC_END"⟩]) := by
    decide +kernel
  have hopens : Marker.of (String.toList "DATAMATIC_BEGIN SAVE=true") = .opens "SAVE=true" := by
    decide +kernel
  have hcloses : Marker.of (String.toList "DATAMATIC_END") = .closes [] := by decide
  have hwords : IsAssignments (savedSpec truth) (Text.words "SAVE=true") [("SAVE", true)] :=
    ⟨by decide, by decide, by decide, fun _ => List.forall_mem_singleton.2 rfl⟩
  rw [hlines]
  exact .block hopens hwords (by decide) hcloses .nil

theorem validate_savedSpec (truth : Bool) : Engine.builtin.validate (savedSpec truth) = .ok () := by
  have htypes : Engine.builtin.types = TypeRegistry.builtin := by rw [Engine.builtin]
  have hliteral : ScalarType.bool.literal? (.bool truth) = some (Text.ofBool truth) := by
    cases truth <;> rfl
  have hrendered : ∃ text,
      TypeRegistry.builtin.render ScalarType.bool.name (.bool truth) = .ok text :=
    TypeRegistry.exists_render_of_answers (fun _ => TypeTree.answers_scalar .bool) hliteral
  rw [Engine.validate_eq_ok_iff]
  simp only [savedSpec, List.forall_mem_singleton, Engine.render, htypes]
  exact hrendered

/-- The block is written with the default value. -/
theorem expand_savedDefaults :
    ∃ out, Engine.builtin.expand [] savedDefaults (savedSpec true) = .ok out := by
  have hscan : Token.scan savedDefaultsLine.text = .ok [.plain [],
      .token "\x7b\x7bAttr::default\x7d\x7d" ⟨.attr, "default", []⟩, .plain ";"] := by
    refine Token.scan_of_scans (@Token.Scans.token _ [] "Attr::default\x7d\x7d;" "Attr::default" ";"
      _ _ ?_ ?_ ?_ rfl ?_)
    · decide
    · decide
    · decide
    · exact .plain (by decide)
  obtain ⟨hscans, hsegments⟩ := SourceLine.scan_eq_ok_iff.1 hscan
  have htokens : savedDefaultsLine.tokens = [⟨.attr, "default", []⟩] := by
    rw [SourceLine.tokens, ← hsegments]
    rfl
  refine expand_builtin_of_wellUsed (validate_savedSpec true) (groups_savedDefaults true)
    ?_ ?_ ?_ []
  · simpa [Item.blockLines] using hscans
  · rw [List.forall_mem_singleton]
    intro context hcontext
    rw [List.forall_mem_singleton]
    exact SourceLine.isPlain_of_attr (by simp [htokens])
  · simp only [List.forall_mem_singleton, Item.blockLines, htokens]
    exact .default

end Template
end Stencil
