import Stencil.Proofs.FunctionNames
import Stencil.Proofs.Occurrence
import Stencil.Proofs.Outcome
import Stencil.Proofs.Registration

namespace Stencil

/-!
# Lists of attributes

A list of a field of the attributes reads the field by itself, and a token of an
attribute goes through the registered methods first.  The two agree on every
field but the methods that look at positions, so the list is made of the values
that the token has for the attributes, one after the other.

A format is cut at its placeholders before any value is known, so what a value
contains is never taken for a placeholder.
-/

namespace Text

/-! ## Pieces -/

variable {needle : Text}

/-- A text has no occurrence, or is cut at the first one and goes on with a shorter text. -/
theorem splitOnce?_induction (hneedle : needle ≠ []) {motive : Text → Prop}
    (whole : ∀ t, splitOnce? needle t = none → motive t)
    (cut : ∀ t front rest, splitOnce? needle t = some (front, rest) → motive rest → motive t)
    (t : Text) : motive t := by
  induction hlength : t.length using Nat.strongRecOn generalizing t with
  | ind length ih =>
      cases hsplit : splitOnce? needle t with
      | none => exact whole t hsplit
      | some found =>
          obtain ⟨front, rest⟩ := found
          refine cut t front rest hsplit (ih rest.length ?_ rest rfl)
          have ht := congrArg List.length (append_of_splitOnce? hsplit)
          have hpos := List.length_pos_of_ne_nil hneedle
          simp only [List.length_append] at ht
          omega

/-- A text is made up of its pieces with an occurrence between any two. -/
theorem joined_pieces (hneedle : needle ≠ []) (t : Text) :
    joined needle (pieces needle t) = t := by
  induction t using splitOnce?_induction hneedle with
  | whole t hsplit =>
      rw [pieces_eq hneedle, hsplit]
      rfl
  | cut t front rest hsplit ih =>
      rw [pieces_eq hneedle, hsplit]
      show joined needle (front :: pieces needle rest) = t
      rw [joined_cons_of_ne_nil (pieces_ne_nil hneedle rest), ih]
      exact (append_of_splitOnce? hsplit).symm

/-- No occurrence is left in a piece. -/
theorem not_infix_of_mem_pieces (hneedle : needle ≠ []) {t : Text} :
    ∀ piece ∈ pieces needle t, ¬needle <:+: piece := by
  induction t using splitOnce?_induction hneedle with
  | whole t hsplit =>
      rw [pieces_eq hneedle, hsplit]
      rintro piece hmem ⟨before, after, hpiece⟩
      obtain rfl := List.mem_singleton.1 hmem
      exact splitOnce?_eq_none_iff.1 hsplit before after hpiece.symm
  | cut t front rest hsplit ih =>
      rw [pieces_eq hneedle, hsplit]
      refine List.forall_mem_cons.2 ⟨?_, ih⟩
      -- An occurrence in the first piece would begin before the first one.
      rintro ⟨before, after, hfront⟩
      obtain ⟨hcut, hfirst⟩ := splitOnce?_eq_some_iff.1 hsplit
      have hle := hfirst before (after ++ needle ++ rest) (by rw [hcut, ← hfront]; simp)
      have hlength := congrArg List.length hfront
      have hpos := List.length_pos_of_ne_nil hneedle
      simp only [List.length_append] at hlength
      omega

end Text

/-! ## Values of a field -/

namespace Method

/-- What a list has for a value: the value itself, or the format with the value in all its
places. -/
def placed (format : Option Text) (value : Text) : Text :=
  match format with
  | some format => Text.joined value (Text.pieces "\x7b\x7d" format)
  | none => value

/-- The texts of a list are made of the values of the field. -/
theorem attributeTexts_eq (context : Context) (field : Text) (format : Option Text)
    (attributes : List ViewAttribute) :
    attributeTexts context field format attributes =
      (attributes.mapM (attributeField context field)).map (List.map (placed format)) := by
  induction attributes with
  | nil => rfl
  | cons a rest ih =>
      rw [attributeTexts, List.mapM_cons, ih]
      cases attributeField context field a with
      | error cause => rfl
      | ok value =>
          cases rest.mapM (attributeField context field) with
          | error cause => rfl
          | ok values => cases format <;> rfl

/-- A list joins what it has for the values of the field. -/
theorem attributeList_eq (context : Context) (field separator : Text) (format : Option Text) :
    attributeList context (field :: separator :: format.toList) =
      (context.component.attributes.mapM (attributeField context field)).map fun values =>
        Text.joined separator (values.map (placed format)) := by
  have hjoined : attributeList context (field :: separator :: format.toList) =
      (attributeTexts context field format context.component.attributes).map
        (Text.joined separator) := by
    cases format with
    | none =>
        show (attributeTexts context field none _ >>= fun texts => pure _) = _
        cases attributeTexts context field none context.component.attributes <;> rfl
    | some format =>
        show (attributeTexts context field (some format) _ >>= fun texts => pure _) = _
        cases attributeTexts context field (some format) context.component.attributes <;> rfl
  rw [hjoined, attributeTexts_eq]
  cases context.component.attributes.mapM (attributeField context field) <;> rfl

end Method

namespace MethodRegistry

open Method (attributeField)

/-- The built-in methods of attributes that give what a field has. -/
def fieldMethods : List Text := ["name", "display_name", "type", "default"]

/-- The built-in methods that look at positions. -/
def positionMethods : List Text :=
  ["if_nth_else", "if_first", "if_not_first", "if_last", "if_not_last"]

variable {field : Text}

theorem contains_attribute_iff :
    builtin.contains .attr field = true ↔ field ∈ fieldMethods ∨ field ∈ positionMethods := by
  rw [contains_iff, entries_builtin]
  simp [builtinMethods, Addition.entries, Reach.namespaces, Entry.key, fieldMethods,
    positionMethods, or_assoc]

/-- A token of an attribute has the value that a list has for the field, if its method does not
look at positions. -/
theorem invoke_attribute_eq (hfield : field ∉ positionMethods) (context : Context)
    (a : ViewAttribute) :
    builtin.invoke ⟨.attr, field, []⟩ (context.withAttribute a) =
      attributeField context field a := by
  by_cases hmethod : field ∈ fieldMethods
  · have hhandler : ∀ addition ∈ builtinMethods, .attr ∈ addition.reach.namespaces →
        builtin.invoke ⟨.attr, addition.name, []⟩ (context.withAttribute a) =
          addition.handler (context.withAttribute a) [] :=
      fun addition hmem hscope => invoke_of_resolve rfl (resolve_builtin hmem hscope)
    simp only [fieldMethods, List.mem_cons, List.not_mem_nil, or_false] at hmethod
    rcases hmethod with rfl | rfl | rfl | rfl
    · exact hhandler ⟨.both, "name", Method.name⟩ (by simp [builtinMethods]) (by decide)
    · exact hhandler ⟨.both, "display_name", Method.displayName⟩ (by simp [builtinMethods])
        (by decide)
    · exact hhandler ⟨.one .attr, "type", Method.type⟩ (by simp [builtinMethods]) (by decide)
    · exact hhandler ⟨.one .attr, "default", Method.defaultValue⟩ (by simp [builtinMethods])
        (by decide)
  · have hcontains : ¬builtin.contains .attr field = true := by
      rw [contains_attribute_iff]
      exact not_or.2 ⟨hmethod, hfield⟩
    have hresolve : builtin.resolve .attr field = none := by simpa [contains] using hcontains
    have hdefault : field ≠ "default" := fun h => hmethod (by simp [fieldMethods, h])
    show builtin.apply ⟨.attr, field, []⟩ (context.withAttribute a) = _
    rw [apply, hresolve, attributeField, if_neg hdefault]
    rfl

/-- The token of a list reads the field of the attributes, whichever of them is active. -/
theorem invoke_attributeList (context : Context) (field separator : Text)
    (format : Option Text) :
    builtin.invoke ⟨.comp, "attr_list", field :: separator :: format.toList⟩ context =
      (context.component.attributes.mapM (attributeField context field)).map fun values =>
        Text.joined separator (values.map (Method.placed format)) := by
  have hresolve := @resolve_builtin ⟨.one .comp, "attr_list", Method.attributeList⟩
    (by simp [builtinMethods]) .comp (by decide)
  have hinvoke := @invoke_of_resolve builtin
    ⟨.comp, "attr_list", field :: separator :: format.toList⟩ context.withoutAttribute _ rfl
    hresolve
  exact hinvoke.trans (Method.attributeList_eq context.withoutAttribute field separator format)

/-- A list of a field has the values that the token of the field has for the attributes that are
seen, in order, or fails with the error of the first attribute for which the token fails.  With a
format, each value stands in place of every placeholder of the format, whatever the values
contain. -/
theorem attributeList_eq_tokens (hfield : field ∉ positionMethods) (context : Context)
    (separator : Text) :
    let value := fun a => builtin.invoke ⟨.attr, field, []⟩ (context.withAttribute a)
    let values := context.component.attributes.mapM value
    builtin.invoke ⟨.comp, "attr_list", [field, separator]⟩ context =
        values.map (Text.joined separator) ∧
      (∀ format,
        let pieces := Text.pieces "\x7b\x7d" format
        Text.joined "\x7b\x7d" pieces = format ∧
          (∀ piece ∈ pieces, ¬("\x7b\x7d" : Text) <:+: piece) ∧
          builtin.invoke ⟨.comp, "attr_list", [field, separator, format]⟩ context =
            values.map fun texts =>
              Text.joined separator (texts.map fun text => Text.joined text pieces)) ∧
      (∀ texts, values = .ok texts ↔
        List.Forall₂ (fun a text => value a = .ok text) context.component.attributes texts) ∧
      ∀ cause, values = .error cause ↔
        ∃ before a after, context.component.attributes = before ++ a :: after ∧
          (∀ earlier ∈ before, ∃ text, value earlier = .ok text) ∧ value a = .error cause := by
  intro value values
  have hvalue : value = attributeField context field :=
    funext fun a => invoke_attribute_eq hfield context a
  have hlist : ∀ format : Option Text,
      builtin.invoke ⟨.comp, "attr_list", field :: separator :: format.toList⟩ context =
        values.map fun texts => Text.joined separator (texts.map (Method.placed format)) := by
    intro format
    rw [invoke_attributeList, ← hvalue]
  refine ⟨?_, fun format => ⟨?_, ?_, hlist (some format)⟩, fun texts => Outcome.mapM_eq_ok_iff,
    fun cause => Outcome.mapM_eq_error_iff⟩
  · have hplaced : Method.placed none = id := rfl
    refine (hlist none).trans ?_
    simp only [hplaced, List.map_id]
  · exact Text.joined_pieces (by decide) format
  · exact Text.not_infix_of_mem_pieces (by decide)

/-- A component with two attributes that have notes, one with a placeholder in it and one that is
no text.  Only the first attribute has a unit. -/
def notedContext : Context where
  types := Dispatcher.empty
  view := ⟨[]⟩
  component :=
    ⟨"P", "P",
      [⟨"x", "X", "t", .null,
          some (.object [("note", .string "a\x7b\x7d"), ("unit", .string "m")])⟩,
        ⟨"y", "Y", "t", .null, some (.object [("note", .bool true)])⟩]⟩

/-- The notes, each in both places of a format, and the units, which end at the second
attribute. -/
theorem attributeList_notedContext :
    ("note" : Text) ∉ positionMethods ∧ ("unit" : Text) ∉ positionMethods ∧
      builtin.invoke ⟨.comp, "attr_list", ["note", ", ", "\x7b\x7d=\x7b\x7d"]⟩ notedContext =
        .ok "a\x7b\x7d=a\x7b\x7d, true=true" ∧
      builtin.invoke ⟨.comp, "attr_list", ["unit", ", "]⟩ notedContext =
        .error (.unknownField .attr "unit") := by
  have hnote : ("note" : Text) ∉ positionMethods := by decide
  have hunit : ("unit" : Text) ∉ positionMethods := by decide
  obtain ⟨-, hformat, hnotes, -⟩ := attributeList_eq_tokens hnote notedContext ", "
  obtain ⟨hunits, -, -, herror⟩ := attributeList_eq_tokens hunit notedContext ", "
  refine ⟨hnote, hunit, (hformat "\x7b\x7d=\x7b\x7d").2.2.trans ?_, hunits.trans ?_⟩
  · rw [(hnotes ["a\x7b\x7d", "true"]).2
      (.cons (invoke_attribute_eq hnote _ _) (.cons (invoke_attribute_eq hnote _ _) .nil))]
    exact congrArg Except.ok (by decide)
  · rw [(herror (.unknownField .attr "unit")).2 ⟨[_], _, [], rfl, ?_, ?_⟩]
    · rfl
    · exact List.forall_mem_singleton.2 ⟨"m", invoke_attribute_eq hunit _ _⟩
    · exact invoke_attribute_eq hunit _ _

end MethodRegistry
end Stencil
