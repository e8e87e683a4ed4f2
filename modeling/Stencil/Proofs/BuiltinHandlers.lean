import Stencil.Proofs.TypeDispatch

namespace Stencil
namespace TypeRegistry

/-!
# The handlers of the built-in types

Many patterns share a handler, and what is shown of the built-in types is shown
of their handlers, one by one.  `IsBuiltinHandler` lists the handlers, each with
the kinds of patterns that it can stand behind: those that take the first
captured type without a look at the number of types need a pattern that captures
one type.
-/

/-- A reader of values behind the built-in types that ask for no other type. -/
inductive IsBuiltinReader : Literal.Scalar → Prop where
  | integer (range : Literal.IntegerType) : IsBuiltinReader (Literal.integer range)
  | float : IsBuiltinReader Literal.float
  | double : IsBuiltinReader Literal.double
  | truth : IsBuiltinReader Literal.truth
  | character : IsBuiltinReader Literal.character
  | string : IsBuiltinReader Literal.string
  | callable : IsBuiltinReader Literal.callable
  | empty : IsBuiltinReader Literal.empty

/-- A handler of built-in types, and a kind of pattern that it can stand behind. -/
inductive IsBuiltinHandler : TypeHandler → PatternKind → Prop where
  | scalar {reader : Literal.Scalar} (hreader : IsBuiltinReader reader) (kind : PatternKind) :
      IsBuiltinHandler (scalar reader) kind
  | sequence : IsBuiltinHandler Container.sequence .single
  | array (kind : PatternKind) : IsBuiltinHandler Container.array kind
  | pair (kind : PatternKind) : IsBuiltinHandler Container.pair kind
  | tuple (kind : PatternKind) : IsBuiltinHandler Container.tuple kind
  | map (kind : PatternKind) : IsBuiltinHandler Container.map kind
  | variant (kind : PatternKind) : IsBuiltinHandler Container.variant kind
  | optional : IsBuiltinHandler Container.optional .single
  | pointer (factory : Text) : IsBuiltinHandler (Container.pointer factory) .single

/-- The kind of a pattern that can be registered. -/
def kind? (pattern : Text) : Option PatternKind :=
  (Pattern.keyAndForm? pattern).map (·.2.kind)

theorem isBuiltinHandler_of_single {pattern : Text} {handler : TypeHandler} {kind : PatternKind}
    (hsingle : kind? pattern = some .single) (hkind : kind? pattern = some kind)
    (h : IsBuiltinHandler handler .single) : IsBuiltinHandler handler kind := by
  obtain rfl := Option.some.inj (hsingle.symm.trans hkind)
  exact h

theorem isBuiltinHandler_of_mem_scalars {pattern : Text} {handler : TypeHandler}
    (hmem : (pattern, handler) ∈ scalars) (kind : PatternKind) :
    IsBuiltinHandler handler kind := by
  simp only [scalars, List.mem_cons, Prod.mk.injEq, List.not_mem_nil, or_false] at hmem
  rcases hmem with ⟨-, rfl⟩ | ⟨-, rfl⟩ | ⟨-, rfl⟩ | ⟨-, rfl⟩ | ⟨-, rfl⟩ | ⟨-, rfl⟩
  · exact .scalar .float kind
  · exact .scalar .double kind
  · exact .scalar .truth kind
  · exact .scalar .character kind
  · exact .scalar .string kind
  · exact .scalar .string kind

theorem kind?_of_mem_sequencePatterns :
    ∀ pattern ∈ sequencePatterns, kind? pattern = some .single := by
  decide +kernel

theorem isBuiltinHandler_of_mem_compounds {pattern : Text} {handler : TypeHandler}
    {kind : PatternKind} (hmem : (pattern, handler) ∈ compounds)
    (hkind : kind? pattern = some kind) : IsBuiltinHandler handler kind := by
  simp only [compounds, List.mem_cons, Prod.mk.injEq, List.not_mem_nil, or_false] at hmem
  rcases hmem with ⟨-, rfl⟩ | ⟨-, rfl⟩ | ⟨-, rfl⟩ | ⟨-, rfl⟩ | ⟨rfl, rfl⟩ | ⟨rfl, rfl⟩ |
    ⟨rfl, rfl⟩ | ⟨-, rfl⟩ | ⟨-, rfl⟩ | ⟨-, rfl⟩ | ⟨-, rfl⟩
  · exact .array kind
  · exact .pair kind
  · exact .tuple kind
  · exact .variant kind
  · exact isBuiltinHandler_of_single (by decide +kernel) hkind .optional
  · exact isBuiltinHandler_of_single (by decide +kernel) hkind (.pointer _)
  · exact isBuiltinHandler_of_single (by decide +kernel) hkind (.pointer _)
  · exact .scalar .empty kind
  · exact .scalar .empty kind
  · exact .scalar .empty kind
  · exact .scalar .callable kind

theorem isBuiltinHandler_of_mem_builtinTypes {pattern : Text} {handler : TypeHandler}
    {kind : PatternKind} (hmem : (pattern, handler) ∈ builtinTypes)
    (hkind : kind? pattern = some kind) : IsBuiltinHandler handler kind := by
  simp only [builtinTypes, List.mem_append] at hmem
  rcases hmem with (((hinteger | hscalar) | hsequence) | hmap) | hcompound
  · obtain ⟨range, -, heq⟩ := List.mem_map.1 hinteger
    obtain ⟨rfl, rfl⟩ := Prod.mk.inj heq
    exact .scalar (.integer range) kind
  · exact isBuiltinHandler_of_mem_scalars hscalar kind
  · obtain ⟨pattern', hpattern, heq⟩ := List.mem_map.1 hsequence
    obtain ⟨rfl, rfl⟩ := Prod.mk.inj heq
    exact isBuiltinHandler_of_single (kind?_of_mem_sequencePatterns _ hpattern) hkind .sequence
  · obtain ⟨pattern', -, heq⟩ := List.mem_map.1 hmap
    obtain ⟨rfl, rfl⟩ := Prod.mk.inj heq
    exact .map kind
  · exact isBuiltinHandler_of_mem_compounds hcompound hkind

/-- Behind every built-in pattern stands a handler that can. -/
theorem isBuiltinHandler_of_mem_builtin {entry : Dispatcher.Entry TypeHandler}
    (hentry : entry ∈ builtin.entries) : IsBuiltinHandler entry.handler entry.form.kind := by
  obtain ⟨⟨pattern, handler⟩, hmem, hadded⟩ := mem_builtin_iff.1 hentry
  obtain ⟨hform, rfl⟩ := Dispatcher.entry?_eq_ok_iff.1 (Dispatcher.mem_added_iff.1 hadded)
  exact isBuiltinHandler_of_mem_builtinTypes hmem (by rw [kind?, hform]; rfl)

end TypeRegistry
end Stencil
