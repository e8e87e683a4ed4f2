import Stencil.Proofs.QuotedLiterals
import Stencil.Proofs.TypeTree

namespace Stencil
namespace TypeRegistry

/-!
# The literals of scalars

A value is rendered as a scalar by what the scalar makes of it (`render_scalar`).  A
string or a character is therefore rendered as a literal that stands for it, and a
number as a numeral with a point that has its value.
-/

theorem render_scalar {type : ScalarType} {value : Json} {text : Text}
    (hliteral : type.literal? value = some text) : builtin.render type.name value = .ok text := by
  rw [← Outcome.toOption_eq_some_iff, TypeTree.toOption_render_scalar, hliteral]

/-! ## Strings and characters -/

/-- The names of the types of strings. -/
def stringTypes : List Text := ["std::string", "std::string_view"]

theorem render_string {type : Text} (htype : type ∈ stringTypes) (s : Text) :
    builtin.render type (.string s) = .ok (Literal.quoted '"' s) := by
  rw [Literal.quoted_eq]
  rcases List.mem_cons.1 htype with rfl | htype
  · exact @render_scalar .string _ _ rfl
  · obtain rfl := List.mem_singleton.1 htype
    exact @render_scalar .stringView _ _ rfl

theorem render_character (c : Char) :
    builtin.render "char" (.string [c]) = .ok (Literal.quoted '\'' [c]) := by
  rw [Literal.quoted_eq]
  exact @render_scalar .char _ _ rfl

/-- Every string is rendered as a literal in double quotes that no quote ends early and that stands
for the string, and every character as such a literal in single quotes.  So strings and characters
with the same literal are the same. -/
theorem render_quoted_denotes :
    (∀ type ∈ stringTypes, ∀ s, ∃ literal,
        builtin.render type (.string s) = .ok literal ∧ Literal.Denotes '"' literal s) ∧
      (∀ c, ∃ literal,
        builtin.render "char" (.string [c]) = .ok literal ∧ Literal.Denotes '\'' literal [c]) ∧
      (∀ type ∈ stringTypes, ∀ type' ∈ stringTypes, ∀ s s',
        builtin.render type (.string s) = builtin.render type' (.string s') → s = s') ∧
      ∀ c c', builtin.render "char" (.string [c]) = builtin.render "char" (.string [c']) →
        c = c' := by
  have hstring := Literal.denotes_quoted (Or.inl rfl : '"' = '"' ∨ '"' = '\'')
  have hcharacter := Literal.denotes_quoted (Or.inr rfl : '\'' = '"' ∨ '\'' = '\'')
  refine ⟨fun type htype s => ⟨_, render_string htype s, hstring s⟩,
    fun c => ⟨_, render_character c, hcharacter [c]⟩, ?_, ?_⟩
  · intro type htype type' htype' s s' hsame
    rw [render_string htype, render_string htype', Except.ok.injEq] at hsame
    have hother := hstring s'
    rw [← hsame] at hother
    exact (hstring s).unique hother
  · intro c c' hsame
    rw [render_character, render_character, Except.ok.injEq] at hsame
    have hother := hcharacter [c']
    rw [← hsame] at hother
    exact List.singleton_inj.1 ((hcharacter [c]).unique hother)

/-- A backslash before a quote, a line feed, and a backslash before the quote that ends the
literal. -/
theorem render_quoted_denotes_backslash :
    ("std::string" : Text) ∈ stringTypes ∧
      builtin.render "std::string" (.string "a\\\"\n\\") = .ok "\"a\\\\\\\"\\n\\\\\"" ∧
        Literal.Denotes '"' "\"a\\\\\\\"\\n\\\\\"" "a\\\"\n\\" := by
  have htype : ("std::string" : Text) ∈ stringTypes := List.mem_cons_self
  have hrender := render_string htype "a\\\"\n\\"
  obtain ⟨literal, hliteral, hdenotes⟩ := render_quoted_denotes.1 _ htype "a\\\"\n\\"
  obtain rfl := Except.ok.inj (hliteral.symm.trans hrender)
  exact ⟨htype, hrender, hdenotes⟩

/-! ## Numbers -/

/-- Both types of floating-point numbers write the numeral with its point, and go on with a suffix
of their own. -/
theorem render_floating {type : ScalarType} {suffix : Text}
    (htype : type.literal? = Simple.floating suffix) (number : Json.Number) :
    builtin.render type.name (.number number) =
      .ok (Literal.Number.withPoint number ++ suffix) := by
  refine render_scalar ?_
  rw [htype, Literal.floating_number]

/-- A number is rendered as a `double` and, with a letter at the end, as a `float`.  The literal is
the formatted number, with a point and a zero behind the digits of units if it has no point.
However it is read as a numeral, it has the value of the formatted number. -/
theorem render_floating_pointed (number : Json.Number) :
    ∃ w : Decimal.Written,
      Literal.Number.formatted number = w.text ∧
        builtin.render "double" (.number number) = .ok w.pointed.text ∧
        builtin.render "float" (.number number) = .ok (w.pointed.text ++ "f") ∧
        w.pointed.text = Decimal.insertPoint w.text ∧
        ∀ read : Decimal.Written, read.text = w.text ∨ read.text = w.pointed.text →
          read.value = Literal.Number.value number := by
  obtain ⟨w, htext, hpointed, hvalue⟩ := Literal.Number.exists_shows number
  have hdouble := @render_floating .double [] rfl number
  have hfloat := @render_floating .float "f" rfl number
  rw [List.append_nil, ← hpointed] at hdouble
  rw [← hpointed] at hfloat
  refine ⟨w, htext.symm, hdouble, hfloat, w.insertPoint_text.symm, ?_⟩
  rintro read (hread | hread)
  · rw [Decimal.Written.text_injective hread, hvalue]
  · rw [Decimal.Written.text_injective hread, w.value_pointed, hvalue]

example : Literal.Number.formatted (.double ⟨true, 5000000000000000, 1⟩) = "-1e16" ∧
    Literal.Number.withPoint (.double ⟨true, 5000000000000000, 1⟩) = "-1.0e16" := by
  decide +kernel

end TypeRegistry
end Stencil
