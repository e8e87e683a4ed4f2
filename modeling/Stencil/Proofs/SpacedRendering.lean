import Stencil.Proofs.AlikeDispatch
import Stencil.Proofs.BuiltinHandlers
import Stencil.Proofs.TypeTree

namespace Stencil

/-!
# Rendering by alike names

The built-in types render a value in the same way whatever the spacing of the
commas in the name of its type, and refuse the same values.  Two runs of the
renderer are followed at once, one for each spelling.  By the dispatch they are
in the same handler, with types that are respelled; so what is left to show of
each handler is that it makes the same of equal answers (`Respects`), and of the
renderer that the answers are equal, by induction on the depth
(`TypeRegistry.sameAnswers_of_respelled`).
-/

namespace Rendering

variable {α : Type} {answer answer' : Text → Json → Option (Except RenderError Text)}

/-- Questions for two types have the same values for answers. -/
def SameAnswers (answer answer' : Text → Json → Option (Except RenderError Text))
    (type type' : Text) : Prop :=
  ∃ literal, Answers answer type literal ∧ Answers answer' type' literal

/-- Two renderings run to the same value, or both to an error. -/
def SameYields (answer answer' : Text → Json → Option (Except RenderError Text))
    (rendering rendering' : Rendering α) : Prop :=
  ∃ outcome, Yields answer rendering outcome ∧ Yields answer' rendering' outcome

/-- A captured type in two spellings, whose questions have the same answers. -/
structure SamePart (answer answer' : Text → Json → Option (Except RenderError Text))
    (type type' : Text) : Prop where
  respelled : TypeName.Respelled type type'
  answers : SameAnswers answer answer' type type'

/-- A handler renders in the same way under alike names, if its questions are answered so.  Of a
pattern with one placeholder it is given one type. -/
def Respects (handler : TypeHandler) (kind : PatternKind) : Prop :=
  ∀ ⦃answer answer' : Text → Json → Option (Except RenderError Text)⦄ ⦃name name' : Text⦄
    ⦃args args' : List Text⦄, TypeName.Alike name name' →
    List.Forall₂ (SamePart answer answer') args args' → (kind = .single → args.length = 1) →
    ∀ value, SameYields answer answer' (handler name args value) (handler name' args' value)

/-! ## Captured types -/

/-- One captured type in two spellings. -/
theorem exists_of_single {args args' : List Text}
    (hargs : List.Forall₂ (SamePart answer answer') args args') (hlength : args.length = 1) :
    ∃ item item', args = [item] ∧ args' = [item'] ∧ SamePart answer answer' item item' := by
  cases hargs with
  | nil => cases hlength
  | cons hitem hrest =>
      cases hrest with
      | nil => exact ⟨_, _, rfl, rfl, hitem⟩
      | cons => simp at hlength

theorem exists_of_pair {args args' : List Text}
    (hargs : List.Forall₂ (SamePart answer answer') args args') (hlength : args.length = 2) :
    ∃ first second first' second', args = [first, second] ∧ args' = [first', second'] ∧
      SamePart answer answer' first first' ∧ SamePart answer answer' second second' := by
  cases hargs with
  | nil => cases hlength
  | cons hfirst hrest =>
      obtain ⟨second, second', rfl, rfl, hsecond⟩ :=
        exists_of_single hrest (Nat.succ.inj hlength)
      exact ⟨_, _, _, _, rfl, rfl, hfirst, hsecond⟩

/-- What the captured types make of values does not depend on their spelling. -/
theorem exists_parts {args args' : List Text}
    (hargs : List.Forall₂ (SamePart answer answer') args args') :
    ∃ parts parts' : List (Text × (Json → Option Text)),
      parts.map (·.1) = args ∧ parts'.map (·.1) = args' ∧
        parts.map (·.2) = parts'.map (·.2) ∧
        (∀ part ∈ parts, Answers answer part.1 part.2) ∧
        ∀ part ∈ parts', Answers answer' part.1 part.2 := by
  induction hargs with
  | nil => exact ⟨[], [], rfl, rfl, rfl, nofun, nofun⟩
  | @cons type type' _ _ hpart _ ih =>
      obtain ⟨parts, parts', rfl, rfl, hliterals, hparts, hparts'⟩ := ih
      obtain ⟨literal, hleft, hright⟩ := hpart.answers
      refine ⟨(type, literal) :: parts, (type', literal) :: parts', rfl, rfl, ?_, ?_, ?_⟩
      · rw [List.map_cons, List.map_cons, hliterals]
      · exact List.forall_mem_cons.2 ⟨hleft, hparts⟩
      · exact List.forall_mem_cons.2 ⟨hright, hparts'⟩

/-! ## Types of no parts -/

/-- A reader of values that makes the same of them under alike names. -/
def IsUniform (reader : Literal.Scalar) : Prop :=
  ∀ ⦃name name' : Text⦄, TypeName.canonical name = TypeName.canonical name' →
    ∀ value, (reader name value).toOption = (reader name' value).toOption

theorem respects_scalar {reader : Literal.Scalar} (hreader : IsUniform reader)
    (kind : PatternKind) : Respects (TypeRegistry.scalar reader) kind := by
  intro answer answer' name name' args args' hname _ _ value
  exact ⟨_, ⟨_, rfl, rfl⟩, ⟨_, rfl, (hreader hname.canonical_eq value).symm⟩⟩

theorem isUniform_integer (range : Literal.IntegerType) : IsUniform (Literal.integer range) := by
  intro name name' _ value
  cases value with
  | number n =>
      cases n with
      | integer n =>
          simp only [Literal.integer]
          split
          · rfl
          · split <;> rfl
      | double => rfl
  | null | bool | string | array | object => rfl

theorem isUniform_double : IsUniform Literal.double := by
  intro name name' _ value
  cases value <;> rfl

theorem isUniform_float : IsUniform Literal.float := by
  intro name name' _ value
  cases value <;> rfl

theorem isUniform_truth : IsUniform Literal.truth := by
  intro name name' _ value
  cases value <;> rfl

theorem isUniform_string : IsUniform Literal.string := by
  intro name name' _ value
  cases value <;> rfl

theorem isUniform_callable : IsUniform Literal.callable := by
  intro name name' _ value
  cases value <;> rfl

theorem isUniform_character : IsUniform Literal.character := by
  intro name name' _ value
  match value with
  | .string [c] => rfl
  | .string [] | .string (_ :: _ :: _) => rfl
  | .null | .bool _ | .number _ | .array _ | .object _ => rfl

theorem isUniform_empty : IsUniform Literal.empty := by
  intro name name' hname value
  cases value with
  | null => rw [Literal.empty, Literal.empty, hname]
  | bool | number | string | array | object => rfl

/-! ## Containers -/

/-- A handler that asks for one type, and shows its own name in canonical spelling only. -/
theorem respects_of_item {handler : TypeHandler}
    {made : Text → (Json → Option Text) → Json → Option Text}
    (hyields : ∀ {answer : Text → Json → Option (Except RenderError Text)} {type item name : Text}
      {literal : Json → Option Text}, TypeName.canonical type = name →
      Answers answer item literal → ∀ value,
        Yields answer (handler type [item] value) (made name literal value)) :
    Respects handler .single := by
  intro answer answer' name name' args args' hname hargs hsingle value
  obtain ⟨item, item', rfl, rfl, hitem⟩ := exists_of_single hargs (hsingle rfl)
  obtain ⟨literal, hleft, hright⟩ := hitem.answers
  exact ⟨_, hyields hname.canonical_eq hleft value, hyields rfl hright value⟩

/-- A handler that asks for two types, and refuses to work for any other number. -/
theorem respects_of_items {handler : TypeHandler}
    (made : Text → (Json → Option Text) → (Json → Option Text) → Json → Option Text)
    (hyields : ∀ {answer : Text → Json → Option (Except RenderError Text)}
      {type first second name : Text} {firstLiteral secondLiteral : Json → Option Text},
      TypeName.canonical type = name → Answers answer first firstLiteral →
      Answers answer second secondLiteral → ∀ value,
        Yields answer (handler type [first, second] value)
          (made name firstLiteral secondLiteral value))
    (hrefuses : ∀ {answer : Text → Json → Option (Except RenderError Text)} {type : Text}
      {args : List Text}, args.length ≠ 2 → ∀ value, Yields answer (handler type args value) none)
    (kind : PatternKind) : Respects handler kind := by
  intro answer answer' name name' args args' hname hargs _ value
  by_cases hlength : args.length = 2
  · obtain ⟨first, second, first', second', rfl, rfl, hfirst, hsecond⟩ :=
      exists_of_pair hargs hlength
    obtain ⟨firstLiteral, hfirst, hfirst'⟩ := hfirst.answers
    obtain ⟨secondLiteral, hsecond, hsecond'⟩ := hsecond.answers
    exact ⟨_, hyields hname.canonical_eq hfirst hsecond value, hyields rfl hfirst' hsecond' value⟩
  · exact ⟨none, hrefuses hlength value, hrefuses (hargs.length_eq ▸ hlength) value⟩

theorem respects_sequence : Respects Container.sequence .single :=
  respects_of_item Container.yields_sequence

theorem respects_optional : Respects Container.optional .single :=
  respects_of_item Container.yields_optional

theorem respects_pair (kind : PatternKind) : Respects Container.pair kind :=
  respects_of_items (fun name first second => Composite.tuple name [first, second])
    (fun hname hfirst hsecond => Container.yields_pair hname hfirst hsecond)
    (fun hlength value => Container.yields_parameters hlength value _) kind

theorem respects_map (kind : PatternKind) : Respects Container.map kind :=
  respects_of_items Composite.map Container.yields_mapping
    (fun hlength value => Container.yields_parameters hlength value _) kind

/-- A pointer shows the name of its item, in canonical spelling. -/
theorem respects_pointer (factory : Text) : Respects (Container.pointer factory) .single := by
  intro answer answer' name name' args args' hname hargs hsingle value
  obtain ⟨item, item', rfl, rfl, hitem⟩ := exists_of_single hargs (hsingle rfl)
  obtain ⟨literal, hleft, hright⟩ := hitem.answers
  exact ⟨_, Container.yields_pointer factory hitem.respelled.alike.canonical_eq hleft value,
    Container.yields_pointer factory rfl hright value⟩

/-- A size of decimal digits has one spelling, and everything else is refused as a size. -/
theorem respects_array (kind : PatternKind) : Respects Container.array kind := by
  intro answer answer' name name' args args' hname hargs _ value
  by_cases hlength : args.length = 2
  · obtain ⟨item, size, item', size', rfl, rfl, hitem, hsize⟩ := exists_of_pair hargs hlength
    obtain ⟨literal, hleft, hright⟩ := hitem.answers
    by_cases hread : size ≠ [] ∧ size.all Char.isDigit = true
    · obtain rfl := hsize.respelled.eq_of_isDigit hread.2
      exact ⟨_, Container.yields_array hname.canonical_eq hleft hread value,
        Container.yields_array rfl hright hread value⟩
    · have hread' : ¬(size' ≠ [] ∧ size'.all Char.isDigit = true) := by
        intro hdigits
        obtain rfl := hsize.respelled.symm.eq_of_isDigit hdigits.2
        exact hread hdigits
      exact ⟨none, Container.yields_array_of_size? (Container.size?_eq_none hread) value,
        Container.yields_array_of_size? (Container.size?_eq_none hread') value⟩
  · exact ⟨none, Container.yields_parameters hlength value _,
      Container.yields_parameters (hargs.length_eq ▸ hlength) value _⟩

theorem respects_tuple (kind : PatternKind) : Respects Container.tuple kind := by
  intro answer answer' name name' args args' hname hargs _ value
  obtain ⟨parts, parts', rfl, rfl, hliterals, hparts, hparts'⟩ := exists_parts hargs
  have hyields : Yields answer (Container.tuple name (parts.map (·.1)) value)
      (Composite.tuple (TypeName.canonical name') (parts'.map (·.2)) value) :=
    hliterals ▸ Container.yields_tuple hname.canonical_eq hparts value
  exact ⟨_, hyields, Container.yields_tuple rfl hparts' value⟩

theorem respects_variant (kind : PatternKind) : Respects Container.variant kind := by
  intro answer answer' name name' args args' hname hargs _ value
  obtain ⟨parts, parts', rfl, rfl, hliterals, hparts, hparts'⟩ := exists_parts hargs
  have hyields : Yields answer (Container.variant name (parts.map (·.1)) value)
      (Composite.variant (parts'.map (·.2)) value) :=
    hliterals ▸ Container.yields_variant hparts value
  exact ⟨_, hyields, Container.yields_variant hparts' value⟩

end Rendering

namespace TypeRegistry

open Rendering

/-! ## The built-in types -/

theorem IsBuiltinReader.isUniform {reader : Literal.Scalar} (hreader : IsBuiltinReader reader) :
    IsUniform reader := by
  cases hreader with
  | integer range => exact isUniform_integer range
  | float => exact isUniform_float
  | double => exact isUniform_double
  | truth => exact isUniform_truth
  | character => exact isUniform_character
  | string => exact isUniform_string
  | callable => exact isUniform_callable
  | empty => exact isUniform_empty

/-- Every built-in type is rendered in the same way under alike names. -/
theorem IsBuiltinHandler.respects {handler : TypeHandler} {kind : PatternKind}
    (hhandler : IsBuiltinHandler handler kind) : Respects handler kind := by
  cases hhandler with
  | scalar hreader => exact respects_scalar hreader.isUniform kind
  | sequence => exact respects_sequence
  | array => exact respects_array kind
  | pair => exact respects_pair kind
  | tuple => exact respects_tuple kind
  | map => exact respects_map kind
  | variant => exact respects_variant kind
  | optional => exact respects_optional
  | pointer factory => exact respects_pointer factory

/-! ## The renderer -/

/-- A name that goes to no handler is an error whatever the value. -/
theorem answers_of_resolve_error {types : TypeRegistry} {depth : Nat} {name : Text}
    {cause : LookupError} (htrimmed : name.trim = name)
    (hresolve : types.resolve name = .error cause) :
    Answers (renderWithin types (depth + 1)) name fun _ => none := by
  intro value
  refine ⟨.error (.lookup cause), ?_, rfl⟩
  unfold renderWithin
  simp only [htrimmed, hresolve]

/-- One level of rendering: two spellings of a name have the same answers, if the types between
the brackets do. -/
theorem sameAnswers_of_shorter {depth depth' : Nat} {name name' : Text}
    (h : TypeName.Respelled name name')
    (hshorter : ∀ arg arg', TypeName.Respelled arg arg' → arg.length < name.length →
      arg'.length < name'.length →
        SameAnswers (renderWithin builtin depth) (renderWithin builtin depth') arg arg') :
    SameAnswers (renderWithin builtin (depth + 1)) (renderWithin builtin (depth' + 1))
      name name' := by
  have hfound := isAngular_builtin.resolve_rel h.alike
  generalize hresolve : builtin.resolve name = result,
    hresolve' : builtin.resolve name' = result' at hfound
  cases hfound with
  | error cause cause' =>
      exact ⟨_, answers_of_resolve_error h.trimmed hresolve,
        answers_of_resolve_error h.trimmed' hresolve'⟩
  | @ok found found' hsame =>
      have hwithin := isAngular_builtin.within_of_resolve hresolve
      have hwithin' := isAngular_builtin.within_of_resolve hresolve'
      rw [h.trimmed] at hwithin
      rw [h.trimmed'] at hwithin'
      have hargs : List.Forall₂
          (SamePart (renderWithin builtin depth) (renderWithin builtin depth'))
          found.args found'.args := by
        refine List.forall₂_iff_zip.2 ⟨hsame.args.length_eq, fun {arg arg'} hmem => ?_⟩
        have hrespelled := List.forall₂_zip hsame.args hmem
        exact ⟨hrespelled, hshorter arg arg' hrespelled
          (hwithin.captured arg (List.of_mem_zip hmem).1).length_lt
          (hwithin'.captured arg' (List.of_mem_zip hmem).2).length_lt⟩
      obtain ⟨entry, hentry, hhandler, hkind⟩ := hwithin.registered
      have hyields := (isBuiltinHandler_of_mem_builtin hentry).respects h.alike hargs
        fun hsingle => hwithin.single (hkind ▸ hsingle)
      choose literal hleft hright using hyields
      rw [hhandler] at hleft hright
      rw [hsame.handler] at hright
      exact ⟨literal, answers_of_resolve h.trimmed hresolve hleft,
        answers_of_resolve h.trimmed' hresolve' hright⟩

/-- Two spellings of a name have the same answers at all depths above their lengths. -/
theorem sameAnswers_of_respelled {depth depth' : Nat} {name name' : Text}
    (h : TypeName.Respelled name name') (hdepth : name.length < depth)
    (hdepth' : name'.length < depth') :
    SameAnswers (renderWithin builtin depth) (renderWithin builtin depth') name name' := by
  induction depth generalizing depth' name name' with
  | zero => exact absurd hdepth (Nat.not_lt_zero _)
  | succ depth ih =>
      obtain ⟨rest, rfl⟩ : ∃ rest, depth' = rest + 1 := ⟨depth' - 1, by omega⟩
      -- A captured type is shorter, so the depth that is left is above its length.
      refine sameAnswers_of_shorter h fun arg arg' harg hlength hlength' => ?_
      exact ih harg (by omega) (by omega)

theorem renderWithin_trim (types : TypeRegistry) (depth : Nat) (type : Text) (value : Json) :
    renderWithin types depth type.trim value = renderWithin types depth type value := by
  cases depth with
  | zero => rfl
  | succ depth =>
      unfold renderWithin
      simp only [Text.trim_trim]

/-- Under alike names a value is rendered as the same text, or refused. -/
theorem toOption_render_of_alike {type type' : Text} (h : TypeName.Alike type type')
    (value : Json) :
    (builtin.render type value).toOption = (builtin.render type' value).toOption := by
  have hdepth : ∀ type : Text, type.trim.length < type.length + spareDepth := fun type =>
    Nat.lt_of_le_of_lt (Text.length_trim_le type) (Nat.lt_add_of_pos_right (by decide))
  obtain ⟨literal, hleft, hright⟩ := sameAnswers_of_respelled h.trim (hdepth type) (hdepth type')
  obtain ⟨result, hrun, hout⟩ := hleft value
  obtain ⟨result', hrun', hout'⟩ := hright value
  rw [renderWithin_trim] at hrun hrun'
  rw [render, render, hrun, hrun']
  exact hout.trans hout'.symm

/-- The spacing of the commas in a type, well formed or not, never matters: the canonical spelling
takes the same values and renders them as the same texts. -/
theorem render_canonical (type : Text) (value : Json) (text : Text) :
    builtin.render (TypeName.canonical type) value = .ok text ↔
      builtin.render type value = .ok text := by
  have heq := toOption_render_of_alike (TypeName.alike_canonical type) value
  rw [← Outcome.toOption_eq_some_iff, ← Outcome.toOption_eq_some_iff, heq]

/-- Commas between which nothing stands are spaced as well. -/
example : TypeName.canonical " std::tuple<int ,,\tbool , >" = "std::tuple<int,, bool, >" := by
  decide +kernel

end TypeRegistry
end Stencil
