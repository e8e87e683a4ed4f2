import Stencil.Render.Container
import Stencil.Render.Literal
import Stencil.Render.Registry

namespace Stencil
namespace TypeRegistry

/-!
# The built-in types

The patterns of the built-in C++ types with their handlers, in the order of
registration.
-/

/-- The handler of a type that asks for no other type. -/
def scalar (literal : Literal.Scalar) : TypeHandler := fun type _ value =>
  ExceptT.mk (Plan.done (literal type value))

def integers : List (Text × TypeHandler) :=
  Literal.integerTypes.map fun range => (range.name, scalar (Literal.integer range))

/-- The other types that ask for no type. -/
def scalars : List (Text × TypeHandler) :=
  [("float", scalar Literal.float),
   ("double", scalar Literal.double),
   ("bool", scalar Literal.truth),
   ("char", scalar Literal.character),
   ("std::string", scalar Literal.string),
   ("std::string_view", scalar Literal.string)]

def sequencePatterns : List Text :=
  ["std::vector<\x7b\x7d>", "std::list<\x7b\x7d>", "std::deque<\x7b\x7d>",
   "std::forward_list<\x7b\x7d>", "std::set<\x7b\x7d>", "std::multiset<\x7b\x7d>",
   "std::unordered_set<\x7b\x7d>", "std::unordered_multiset<\x7b\x7d>"]

def mapPatterns : List Text :=
  ["std::map<\x7b\x7d...>", "std::multimap<\x7b\x7d...>", "std::unordered_map<\x7b\x7d...>",
   "std::unordered_multimap<\x7b\x7d...>"]

def sequences : List (Text × TypeHandler) := sequencePatterns.map (·, Container.sequence)

def maps : List (Text × TypeHandler) := mapPatterns.map (·, Container.map)

/-- The types of a fixed number of parts, the pointers, and the types of one value. -/
def compounds : List (Text × TypeHandler) :=
  [("std::array<\x7b\x7d...>", Container.array),
   ("std::pair<\x7b\x7d...>", Container.pair),
   ("std::tuple<\x7b\x7d...>", Container.tuple),
   ("std::variant<\x7b\x7d...>", Container.variant),
   ("std::optional<\x7b\x7d>", Container.optional),
   ("std::unique_ptr<\x7b\x7d>", Container.pointer "std::make_unique"),
   ("std::shared_ptr<\x7b\x7d>", Container.pointer "std::make_shared"),
   ("std::weak_ptr<\x7b\x7d>", scalar Literal.empty),
   ("std::any", scalar Literal.empty),
   ("std::monostate", scalar Literal.empty),
   ("std::function<\x7b\x7d>", scalar Literal.callable)]

/-- The built-in types, in the order of registration. -/
def builtinTypes : List (Text × TypeHandler) :=
  integers ++ scalars ++ sequences ++ maps ++ compounds

/-- The registry of the built-in types alone. -/
def builtin : TypeRegistry :=
  match Dispatcher.empty.registerAll builtinTypes with
  | .ok types => types
  | .error _ => Dispatcher.empty

end TypeRegistry
end Stencil
