import Stencil.Proofs.RenderingOutcome
import Stencil.Proofs.ScalarOutcome
import Stencil.Proofs.TypeDispatch

namespace Stencil

/-!
# Types as trees

The renderer has no syntax trees: every handler passes on the texts between its
brackets, and each of them is matched against the patterns again.  This module
describes the built-in types as trees.  `TypeTree.print` writes a tree as a type
name, and `TypeTree.literal?` renders a value by recursion on the tree.

`TypeRegistry.render_print` shows that the renderer computes just this function
on printed trees.  Its proof goes by the depth of the rendering: a printed tree
is dispatched to the handler of its root with the printed subtrees as captured
types, and the handler asks for these only, with one level less to go.
-/

/-- The integer types. -/
inductive IntegerKind where
  | int
  | unsigned
  | long
  | size
  | int8
  | int16
  | int32
  | int64
  | uint8
  | uint16
  | uint32
  | uint64

/-- The types that ask for no other type. -/
inductive ScalarType where
  | integer (kind : IntegerKind)
  | float
  | double
  | bool
  | char
  | string
  | stringView
  | any
  | monostate

/-- The sequences. -/
inductive SequenceKind where
  | vector
  | list
  | deque
  | forwardList
  | set
  | multiset
  | unorderedSet
  | unorderedMultiset

/-- The maps. -/
inductive MapKind where
  | map
  | multimap
  | unorderedMap
  | unorderedMultimap

/-- The pointers that own what they point to. -/
inductive PointerKind where
  | unique
  | shared

/-- A size in decimal digits. -/
structure ArraySize where
  digits : Text
  nonempty : digits ≠ []
  isDigit : digits.all Char.isDigit = true

/-- The type of a callable, which is not looked into. -/
structure Signature where
  text : Text
  nonempty : text ≠ []
  isInner : TypeName.IsInner text

/-- A type that is built from the built-in ones. -/
inductive TypeTree where
  | scalar (type : ScalarType)
  | sequence (kind : SequenceKind) (item : TypeTree)
  | array (item : TypeTree) (size : ArraySize)
  | pair (first second : TypeTree)
  | tuple (parts : List TypeTree)
  | variant (alternatives : List TypeTree)
  | map (kind : MapKind) (key value : TypeTree)
  | optional (item : TypeTree)
  | pointer (kind : PointerKind) (item : TypeTree)
  | weak (item : TypeTree)
  | function (signature : Signature)

/-! ## Printing and rendering -/

namespace IntegerKind

/-- The name of a type. -/
def name : IntegerKind → Text
  | int => "int"
  | unsigned => "unsigned"
  | long => "long"
  | size => "std::size_t"
  | int8 => "std::int8_t"
  | int16 => "std::int16_t"
  | int32 => "std::int32_t"
  | int64 => "std::int64_t"
  | uint8 => "std::uint8_t"
  | uint16 => "std::uint16_t"
  | uint32 => "std::uint32_t"
  | uint64 => "std::uint64_t"

/-- Whether one of the bits is for the sign. -/
def hasSign : IntegerKind → Bool
  | int | long | int8 | int16 | int32 | int64 => true
  | unsigned | size | uint8 | uint16 | uint32 | uint64 => false

def bits : IntegerKind → Nat
  | int8 | uint8 => 8
  | int16 | uint16 => 16
  | int | unsigned | int32 | uint32 => 32
  | long | size | int64 | uint64 => 64

/-- The least value of a type. -/
def least (kind : IntegerKind) : Int := if kind.hasSign then -2 ^ (kind.bits - 1) else 0

/-- The greatest value of a type. -/
def greatest (kind : IntegerKind) : Int :=
  if kind.hasSign then 2 ^ (kind.bits - 1) - 1 else 2 ^ kind.bits - 1

end IntegerKind

namespace ScalarType

/-- The name of a type. -/
def name : ScalarType → Text
  | integer kind => kind.name
  | float => "float"
  | double => "double"
  | bool => "bool"
  | char => "char"
  | string => "std::string"
  | stringView => "std::string_view"
  | any => "std::any"
  | monostate => "std::monostate"

/-- What a type makes of a value, if it takes the value. -/
def literal? : ScalarType → Json → Option Text
  | integer kind => Simple.integer kind.least kind.greatest
  | float => Simple.floating "f"
  | double => Simple.floating []
  | bool => Simple.truth
  | char => Simple.character
  | string | stringView => Simple.string
  | any => Simple.empty any.name
  | monostate => Simple.empty monostate.name

end ScalarType

/-- The word before the brackets. -/
def SequenceKind.head : SequenceKind → Text
  | vector => "std::vector"
  | list => "std::list"
  | deque => "std::deque"
  | forwardList => "std::forward_list"
  | set => "std::set"
  | multiset => "std::multiset"
  | unorderedSet => "std::unordered_set"
  | unorderedMultiset => "std::unordered_multiset"

/-- The word before the brackets. -/
def MapKind.head : MapKind → Text
  | map => "std::map"
  | multimap => "std::multimap"
  | unorderedMap => "std::unordered_map"
  | unorderedMultimap => "std::unordered_multimap"

/-- The word before the brackets. -/
def PointerKind.head : PointerKind → Text
  | unique => "std::unique_ptr"
  | shared => "std::shared_ptr"

/-- The function that makes a pointer. -/
def PointerKind.factory : PointerKind → Text
  | unique => "std::make_unique"
  | shared => "std::make_shared"

namespace TypeTree

open Stencil.TypeName (angled isWord IsName isName_of_isWord isName_angled isInner_joined
  length_lt_angled length_le_joined)

mutual

/-- The name of a type. -/
def print : TypeTree → Text
  | scalar type => type.name
  | sequence kind item => angled kind.head item.print
  | array item size => angled "std::array" (Text.joined ", " [item.print, size.digits])
  | pair first second => angled "std::pair" (Text.joined ", " [first.print, second.print])
  | tuple parts => angled "std::tuple" (Text.joined ", " (printEach parts))
  | variant alternatives => angled "std::variant" (Text.joined ", " (printEach alternatives))
  | map kind key value => angled kind.head (Text.joined ", " [key.print, value.print])
  | optional item => angled "std::optional" item.print
  | pointer kind item => angled kind.head item.print
  | weak item => angled "std::weak_ptr" item.print
  | function signature => angled "std::function" signature.text

/-- The names of types. -/
def printEach : List TypeTree → List Text
  | [] => []
  | tree :: rest => tree.print :: printEach rest

end

mutual

/-- What a type makes of a value, if it takes the value. -/
def literal? : TypeTree → Json → Option Text
  | scalar type => type.literal?
  | sequence kind item => Composite.sequence (sequence kind item).print item.literal?
  | array item size =>
      Composite.array (array item size).print item.literal? (Text.digitsToNat size.digits)
  | pair first second =>
      Composite.tuple (pair first second).print [first.literal?, second.literal?]
  | tuple parts => Composite.tuple (tuple parts).print (literalEach? parts)
  | variant alternatives => Composite.variant (literalEach? alternatives)
  | map kind key value => Composite.map (map kind key value).print key.literal? value.literal?
  | optional item => Composite.optional (optional item).print item.literal?
  | pointer kind item => Composite.pointer kind.factory item.print item.literal?
  | weak item => Simple.empty (weak item).print
  | function _ => Simple.source

/-- What each of several types makes of a value. -/
def literalEach? : List TypeTree → List (Json → Option Text)
  | [] => []
  | tree :: rest => tree.literal? :: literalEach? rest

end

theorem printEach_eq (trees : List TypeTree) : printEach trees = trees.map print := by
  induction trees with
  | nil => rfl
  | cons tree rest ih => rw [printEach, ih, List.map_cons]

theorem literalEach?_eq (trees : List TypeTree) : literalEach? trees = trees.map literal? := by
  induction trees with
  | nil => rfl
  | cons tree rest ih => rw [literalEach?, ih, List.map_cons]

/-! ## Induction on the types between the brackets -/

/-- The types between the brackets of a type. -/
def children : TypeTree → List TypeTree
  | scalar _ | function _ => []
  | sequence _ item | array item _ | optional item | pointer _ item | weak item => [item]
  | pair first second => [first, second]
  | map _ key value => [key, value]
  | tuple parts => parts
  | variant alternatives => alternatives

theorem sizeOf_lt_of_mem_children {tree child : TypeTree} (hmem : child ∈ tree.children) :
    sizeOf child < sizeOf tree := by
  cases tree with
  | scalar | function => cases hmem
  | sequence kind item =>
      rw [List.mem_singleton.1 hmem, sequence.sizeOf_spec]
      omega
  | array item size =>
      rw [List.mem_singleton.1 hmem, array.sizeOf_spec]
      omega
  | optional item =>
      rw [List.mem_singleton.1 hmem, optional.sizeOf_spec]
      omega
  | pointer kind item =>
      rw [List.mem_singleton.1 hmem, pointer.sizeOf_spec]
      omega
  | weak item =>
      rw [List.mem_singleton.1 hmem, weak.sizeOf_spec]
      omega
  | pair first second =>
      rw [pair.sizeOf_spec]
      rcases List.mem_cons.1 hmem with rfl | hmem
      · omega
      · rw [List.mem_singleton.1 hmem]
        omega
  | map kind key value =>
      rw [map.sizeOf_spec]
      rcases List.mem_cons.1 hmem with rfl | hmem
      · omega
      · rw [List.mem_singleton.1 hmem]
        omega
  | tuple parts =>
      have hlt : sizeOf child < sizeOf parts := List.sizeOf_lt_of_mem hmem
      rw [tuple.sizeOf_spec]
      omega
  | variant alternatives =>
      have hlt : sizeOf child < sizeOf alternatives := List.sizeOf_lt_of_mem hmem
      rw [variant.sizeOf_spec]
      omega

/-- What holds of a type as soon as it holds of the types between its brackets holds of all. -/
@[elab_as_elim]
theorem children_induction {motive : TypeTree → Prop} (tree : TypeTree)
    (step : ∀ tree, (∀ child ∈ tree.children, motive child) → motive tree) : motive tree :=
  step tree fun child _ => children_induction child step
termination_by sizeOf tree
decreasing_by exact sizeOf_lt_of_mem_children (by assumption)

/-! ## Printed names -/

/-- The word before the brackets, or the whole name if there are none. -/
def head : TypeTree → Text
  | scalar type => type.name
  | sequence kind _ => kind.head
  | array _ _ => "std::array"
  | pair _ _ => "std::pair"
  | tuple _ => "std::tuple"
  | variant _ => "std::variant"
  | map kind _ _ => kind.head
  | optional _ => "std::optional"
  | pointer kind _ => kind.head
  | weak _ => "std::weak_ptr"
  | function _ => "std::function"

theorem isWord_head (tree : TypeTree) : isWord tree.head = true := by
  cases tree with
  | scalar type =>
      cases type with
      | integer kind =>
          show isWord kind.name = true
          cases kind <;> decide +kernel
      | float | double | bool | char | string | stringView | any | monostate => decide +kernel
  | sequence kind | map kind | pointer kind =>
      show isWord kind.head = true
      cases kind <;> decide +kernel
  | array | pair | tuple | variant | optional | weak | function => rfl

theorem forall_isName_map {trees : List TypeTree} (htrees : ∀ tree ∈ trees, IsName tree.print) :
    ∀ name ∈ trees.map print, IsName name :=
  List.forall_mem_map.2 htrees

/-- The names between the brackets of an array are those of its items and its size. -/
theorem forall_isName_array {item : TypeTree} (hitem : IsName item.print) (size : ArraySize) :
    ∀ name ∈ [item.print, size.digits], IsName name := by
  have hsize := isName_of_isWord (TypeName.isWord_of_isDigit size.nonempty size.isDigit)
  exact List.forall_mem_cons.2 ⟨hitem, List.forall_mem_singleton.2 hsize⟩

/-- Trees are printed as names. -/
theorem isName_print (tree : TypeTree) : IsName tree.print := by
  induction tree using children_induction with
  | step tree ih =>
      have hhead := isWord_head tree
      cases tree with
      | scalar type => exact isName_of_isWord hhead
      | sequence kind item | pointer kind item =>
          exact isName_angled hhead (ih item (List.mem_singleton_self item)).isInner
      | optional item | weak item =>
          exact isName_angled hhead (ih item (List.mem_singleton_self item)).isInner
      | array item size =>
          have hnames := forall_isName_array (ih item (List.mem_singleton_self item)) size
          exact isName_angled hhead (isInner_joined hnames)
      | pair first second =>
          have hnames : ∀ name ∈ [first, second].map print, IsName name := forall_isName_map ih
          exact isName_angled hhead (isInner_joined hnames)
      | map kind key value =>
          have hnames : ∀ name ∈ [key, value].map print, IsName name := forall_isName_map ih
          exact isName_angled hhead (isInner_joined hnames)
      | tuple parts | variant parts =>
          rw [print, printEach_eq]
          exact isName_angled hhead (isInner_joined (forall_isName_map ih))
      | function signature => exact isName_angled hhead signature.isInner

/-- The types between the brackets have shorter names. -/
theorem length_print_lt {tree child : TypeTree} (hmem : child ∈ tree.children) :
    child.print.length < tree.print.length := by
  have hjoined : ∀ (head : Text) {names : List Text}, child.print ∈ names →
      child.print.length < (angled head (Text.joined ", " names)).length :=
    fun head _ hname => Nat.lt_of_le_of_lt (length_le_joined hname) (length_lt_angled head _)
  cases tree with
  | scalar | function => cases hmem
  | sequence | optional | pointer | weak =>
      obtain rfl := List.mem_singleton.1 hmem
      exact length_lt_angled _ _
  | array item size =>
      obtain rfl := List.mem_singleton.1 hmem
      exact hjoined _ List.mem_cons_self
  | pair first second =>
      have hname : child.print ∈ [first, second].map print := List.mem_map_of_mem hmem
      exact hjoined _ hname
  | map kind key value =>
      have hname : child.print ∈ [key, value].map print := List.mem_map_of_mem hmem
      exact hjoined _ hname
  | tuple parts | variant parts =>
      rw [print, printEach_eq]
      exact hjoined _ (List.mem_map_of_mem hmem)

end TypeTree

namespace TypeRegistry

open Rendering
open Stencil.Dispatcher (resolve_word resolve_single resolve_list)
open Stencil.Pattern (placeholder listPlaceholder keyAndForm?_word keyAndForm?_angled)
open Stencil.TypeName (angled isWord IsName IsInner isName_of_isWord isName_angled isInner_joined)

/-! ## One level of dispatch -/

variable {depth : Nat} {name head inner : Text} {names : List Text}
variable {handler : TypeHandler} {literal : Json → Option Text}

/-- A registry renders as the handler does that it finds. -/
theorem answers_of_resolve {types : TypeRegistry} {found : Dispatcher.Found TypeHandler}
    (htrimmed : name.trim = name) (hresolve : types.resolve name = .ok found)
    (hyields : ∀ value,
      Yields (renderWithin types depth) (found.handler name found.args value) (literal value)) :
    Answers (renderWithin types (depth + 1)) name literal := by
  intro value
  obtain ⟨result, hrun, hout⟩ := hyields value
  refine ⟨result, ?_, hout⟩
  unfold renderWithin
  simp only [htrimmed, hresolve]
  exact hrun

/-- A registry renders as it answers a question of its own, with a level for each character of the
name and the spare ones. -/
theorem toOption_render_of_answers {types : TypeRegistry}
    (hanswers : Answers (renderWithin types (name.length + (spareDepth - 1) + 1)) name literal)
    (value : Json) : (types.render name value).toOption = literal value := by
  obtain ⟨result, hrun, hout⟩ := hanswers value
  have hdepth : name.length + (spareDepth - 1) + 1 = name.length + spareDepth := rfl
  rw [hdepth] at hrun
  rw [render, hrun]
  exact hout

/-- Words are rendered by the handlers of their patterns. -/
theorem answers_word (hmem : (name, handler) ∈ builtinTypes) (hname : isWord name = true)
    (hyields : ∀ value,
      Yields (renderWithin builtin depth) (handler name [] value) (literal value)) :
    Answers (renderWithin builtin (depth + 1)) name literal := by
  have hentry := mem_builtin hmem (keyAndForm?_word hname)
  exact answers_of_resolve (isName_of_isWord hname).trimmed
    (resolve_word isAngular_builtin hentry) hyields

theorem answers_single (hmem : (angled head placeholder, handler) ∈ builtinTypes)
    (hhead : isWord head = true) (hinner : IsInner inner) (hne : inner ≠ [])
    (hyields : ∀ value,
      Yields (renderWithin builtin depth) (handler (angled head inner) [inner] value)
        (literal value)) :
    Answers (renderWithin builtin (depth + 1)) (angled head inner) literal := by
  have hentry := mem_builtin hmem (keyAndForm?_angled .single hhead)
  exact answers_of_resolve (isName_angled hhead hinner).trimmed
    (resolve_single isAngular_builtin hentry hhead hinner hne) hyields

theorem answers_list (hmem : (angled head listPlaceholder, handler) ∈ builtinTypes)
    (hhead : isWord head = true) (hnames : ∀ name ∈ names, IsName name)
    (hyields : ∀ value,
      Yields (renderWithin builtin depth)
        (handler (angled head (Text.joined ", " names)) names value) (literal value)) :
    Answers (renderWithin builtin (depth + 1)) (angled head (Text.joined ", " names)) literal := by
  have hentry := mem_builtin hmem (keyAndForm?_angled .list hhead)
  exact answers_of_resolve (isName_angled hhead (isInner_joined hnames)).trimmed
    (resolve_list isAngular_builtin hentry hhead hnames) hyields

/-! ## The handlers of the built-in types -/

/-- The name and the bounds of an integer type. -/
def integerType (kind : IntegerKind) : Literal.IntegerType :=
  ⟨kind.name, kind.least, kind.greatest⟩

theorem integerType_eq (kind : IntegerKind) :
    integerType kind =
      if kind.hasSign then Literal.signed kind.name kind.bits
      else Literal.unsigned kind.name kind.bits := by
  cases hsign : kind.hasSign with
  | true =>
      simp [integerType, IntegerKind.least, IntegerKind.greatest, hsign, Literal.signed]
  | false =>
      simp [integerType, IntegerKind.least, IntegerKind.greatest, hsign, Literal.unsigned]

/-- The types are listed in the order of their kinds. -/
theorem integerType_mem (kind : IntegerKind) : integerType kind ∈ Literal.integerTypes := by
  have hplace : Literal.integerTypes[kind.ctorIdx]? = some (integerType kind) := by
    rw [integerType_eq]
    cases kind <;> rfl
  exact List.mem_of_getElem? hplace

theorem mem_integer (kind : IntegerKind) :
    (kind.name, scalar (Literal.integer (integerType kind))) ∈ builtinTypes := by
  have hmem : (kind.name, scalar (Literal.integer (integerType kind))) ∈ integers :=
    List.mem_map.2 ⟨integerType kind, integerType_mem kind, rfl⟩
  simp [builtinTypes, hmem]

theorem mem_scalars {i : Nat} {entry : Text × TypeHandler} (hentry : scalars[i]? = some entry) :
    entry ∈ builtinTypes := by
  simp [builtinTypes, List.mem_of_getElem? hentry]

theorem mem_sequence (kind : SequenceKind) :
    (angled kind.head placeholder, Container.sequence) ∈ builtinTypes := by
  have hpattern : angled kind.head placeholder ∈ sequencePatterns := by
    cases kind <;> decide +kernel
  have hmem : (angled kind.head placeholder, Container.sequence) ∈ sequences :=
    List.mem_map.2 ⟨_, hpattern, rfl⟩
  simp [builtinTypes, hmem]

theorem mem_map (kind : MapKind) :
    (angled kind.head listPlaceholder, Container.map) ∈ builtinTypes := by
  have hpattern : angled kind.head listPlaceholder ∈ mapPatterns := by
    cases kind <;> decide +kernel
  have hmem : (angled kind.head listPlaceholder, Container.map) ∈ maps :=
    List.mem_map.2 ⟨_, hpattern, rfl⟩
  simp [builtinTypes, hmem]

theorem mem_compounds {i : Nat} {entry : Text × TypeHandler}
    (hentry : compounds[i]? = some entry) : entry ∈ builtinTypes := by
  simp [builtinTypes, List.mem_of_getElem? hentry]

theorem mem_pointer (kind : PointerKind) :
    (angled kind.head placeholder, Container.pointer kind.factory) ∈ builtinTypes := by
  cases kind with
  | unique => exact mem_compounds (i := 5) rfl
  | shared => exact mem_compounds (i := 6) rfl

/-- A scalar comes to what its reader makes of the value. -/
theorem yields_scalar {reader : Literal.Scalar}
    (hreader : ∀ value, (reader name value).toOption = literal value) (args : List Text)
    (value : Json) :
    Yields (renderWithin builtin depth) (scalar reader name args value) (literal value) :=
  ⟨reader name value, rfl, hreader value⟩

/-- Words are rendered by their readers. -/
theorem answers_reader {reader : Literal.Scalar} (hmem : (name, scalar reader) ∈ builtinTypes)
    (hname : isWord name = true)
    (hreader : ∀ value, (reader name value).toOption = literal value) :
    Answers (renderWithin builtin (depth + 1)) name literal :=
  answers_word hmem hname (yields_scalar hreader [])

end TypeRegistry

namespace TypeTree

open Rendering TypeRegistry
open Stencil.TypeName (isName_of_isWord)

variable {depth : Nat}

theorem answers_scalar (type : ScalarType) :
    Answers (renderWithin builtin (depth + 1)) type.name type.literal? := by
  have hword : TypeName.isWord type.name = true := isWord_head (scalar type)
  have hcanonical := (isName_of_isWord hword).canonical
  cases type with
  | integer kind => exact answers_reader (mem_integer kind) hword (Literal.toOption_integer _ _)
  | float => exact answers_reader (mem_scalars (i := 0) rfl) hword (Literal.toOption_float _)
  | double => exact answers_reader (mem_scalars (i := 1) rfl) hword (Literal.toOption_double _)
  | bool => exact answers_reader (mem_scalars (i := 2) rfl) hword (Literal.toOption_truth _)
  | char => exact answers_reader (mem_scalars (i := 3) rfl) hword (Literal.toOption_character _)
  | string => exact answers_reader (mem_scalars (i := 4) rfl) hword (Literal.toOption_string _)
  | stringView => exact answers_reader (mem_scalars (i := 5) rfl) hword (Literal.toOption_string _)
  | any =>
      exact answers_reader (mem_compounds (i := 8) rfl) hword (Literal.toOption_empty hcanonical)
  | monostate =>
      exact answers_reader (mem_compounds (i := 9) rfl) hword (Literal.toOption_empty hcanonical)

theorem toOption_render_scalar (type : ScalarType) (value : Json) :
    (builtin.render type.name value).toOption = type.literal? value :=
  toOption_render_of_answers (answers_scalar type) value

/-- Types with their names and what they make of values. -/
def parts (trees : List TypeTree) : List (Text × (Json → Option Text)) :=
  trees.map fun tree => (tree.print, tree.literal?)

theorem map_fst_parts (trees : List TypeTree) : (parts trees).map (·.1) = trees.map print := by
  rw [parts, List.map_map]
  rfl

theorem map_snd_parts (trees : List TypeTree) : (parts trees).map (·.2) = trees.map literal? := by
  rw [parts, List.map_map]
  rfl

theorem forall_isName_parts (trees : List TypeTree) :
    ∀ name ∈ (parts trees).map (·.1), TypeName.IsName name := by
  rw [map_fst_parts]
  exact forall_isName_map fun tree _ => isName_print tree

theorem forall_answers_parts {answer : Text → Json → Option (Except RenderError Text)}
    {trees : List TypeTree} (htrees : ∀ tree ∈ trees, Answers answer tree.print tree.literal?) :
    ∀ part ∈ parts trees, Answers answer part.1 part.2 :=
  List.forall_mem_map.2 htrees

/-- One level of rendering: the handler of a tree asks for the types between its brackets only,
and makes of the answers what the tree makes of a value. -/
theorem answers_of_children {tree : TypeTree}
    (hchildren : ∀ child ∈ tree.children,
      Answers (renderWithin builtin depth) child.print child.literal?) :
    Answers (renderWithin builtin (depth + 1)) tree.print tree.literal? := by
  have hhead := isWord_head tree
  have hcanonical := (isName_print tree).canonical
  cases tree with
  | scalar type => exact answers_scalar type
  | sequence kind item =>
      have hitem := hchildren item (List.mem_singleton_self item)
      have hname := isName_print item
      exact answers_single (mem_sequence kind) hhead hname.isInner hname.ne_nil
        (Container.yields_sequence hcanonical hitem)
  | array item size =>
      have hitem := hchildren item (List.mem_singleton_self item)
      have hnames := forall_isName_array (isName_print item) size
      exact answers_list (mem_compounds (i := 0) rfl) hhead hnames
        (Container.yields_array hcanonical hitem ⟨size.nonempty, size.isDigit⟩)
  | pair first second =>
      have hfirst := hchildren first List.mem_cons_self
      have hsecond := hchildren second (List.mem_cons_of_mem _ List.mem_cons_self)
      exact answers_list (mem_compounds (i := 1) rfl) hhead (forall_isName_parts [first, second])
        (Container.yields_pair hcanonical hfirst hsecond)
  | tuple trees =>
      -- The names and the literals of the parts are taken from one list.
      rw [literal?, print, printEach_eq, literalEach?_eq, ← map_fst_parts, ← map_snd_parts]
      rw [print, printEach_eq, ← map_fst_parts] at hcanonical
      exact answers_list (mem_compounds (i := 2) rfl) hhead (forall_isName_parts trees)
        (Container.yields_tuple hcanonical (forall_answers_parts hchildren))
  | variant trees =>
      rw [literal?, print, printEach_eq, literalEach?_eq, ← map_fst_parts, ← map_snd_parts]
      exact answers_list (mem_compounds (i := 3) rfl) hhead (forall_isName_parts trees)
        (Container.yields_variant (forall_answers_parts hchildren))
  | map kind key value =>
      have hkey := hchildren key List.mem_cons_self
      have hvalue := hchildren value (List.mem_cons_of_mem _ List.mem_cons_self)
      exact answers_list (mem_map kind) hhead (forall_isName_parts [key, value])
        (Container.yields_mapping hcanonical hkey hvalue)
  | optional item =>
      have hitem := hchildren item (List.mem_singleton_self item)
      have hname := isName_print item
      exact answers_single (mem_compounds (i := 4) rfl) hhead hname.isInner hname.ne_nil
        (Container.yields_optional hcanonical hitem)
  | pointer kind item =>
      have hitem := hchildren item (List.mem_singleton_self item)
      have hname := isName_print item
      exact answers_single (mem_pointer kind) hhead hname.isInner hname.ne_nil
        (Container.yields_pointer kind.factory hname.canonical hitem)
  | weak item =>
      have hname := isName_print item
      exact answers_single (mem_compounds (i := 7) rfl) hhead hname.isInner hname.ne_nil
        (yields_scalar (Literal.toOption_empty hcanonical) _)
  | function signature =>
      exact answers_single (mem_compounds (i := 10) rfl) hhead signature.isInner
        signature.nonempty (yields_scalar (Literal.toOption_callable _) _)

/-- Any depth above the length of the name is enough, because the types between the brackets
have shorter names. -/
theorem answers_print (tree : TypeTree) (hdepth : tree.print.length ≤ depth) :
    Answers (renderWithin builtin (depth + 1)) tree.print tree.literal? := by
  induction tree using children_induction generalizing depth with
  | step tree ih =>
      refine answers_of_children fun child hmem => ?_
      have hshorter := length_print_lt hmem
      -- A type between brackets leaves at least one level for itself.
      obtain ⟨rest, rfl⟩ : ∃ rest, depth = rest + 1 := ⟨depth - 1, by omega⟩
      exact ih child hmem (by omega)

end TypeTree

/-- A map of tuples, some of them without parts. -/
example : TypeTree.print (.map .map (.scalar .string) (.variant [.tuple [], .scalar .bool])) =
    "std::map<std::string, std::variant<std::tuple<>, bool>>" := by
  decide +kernel

end Stencil
