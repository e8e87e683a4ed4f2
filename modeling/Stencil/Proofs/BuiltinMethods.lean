import Mathlib.Data.List.Nodup
import Stencil.Engine.Basic

namespace Stencil

/-!
# What the built-in methods resolve to

No name is registered twice for one namespace among the built-in methods, so every
one of them is found under its name, for all the objects that it was registered
for.  `invoke_builtin` is the form in which this is used: a token with the name of
a built-in method has the value that the method gives.
-/

/-- The namespaces that a method is registered for, in order. -/
def Reach.namespaces : Reach → List Namespace
  | .one scope => [scope]
  | .both => [.comp, .attr]

namespace Context

/-- The context that a method of a namespace is given. -/
def seenBy (scope : Namespace) (context : Context) : Context :=
  match scope with
  | .comp => context.withoutAttribute
  | .attr => context

theorem seenBy_scope (context : Context) : context.seenBy context.scope = context := by
  obtain ⟨types, view, component, attr?⟩ := context
  cases attr? <;> rfl

end Context

namespace MethodRegistry

theorem mem_namespaces_both (scope : Namespace) : scope ∈ Reach.namespaces .both := by
  cases scope with
  | comp => decide
  | attr => decide

/-- What a method is registered under. -/
def Entry.key (entry : Entry) : Namespace × Text := (entry.scope, entry.name)

/-- Where no name is registered twice for a namespace, every method is found under its name. -/
theorem resolve_of_mem {methods : MethodRegistry} (hnodup : (methods.entries.map Entry.key).Nodup)
    {entry : Entry} (hmem : entry ∈ methods.entries) :
    methods.resolve entry.scope entry.name = some entry.handler := by
  unfold resolve
  cases hfind : methods.entries.find?
      fun other => other.scope = entry.scope && other.name = entry.name with
  | none =>
      rw [List.find?_eq_none] at hfind
      exact absurd (hfind entry hmem) (by simp)
  | some found =>
      have hfound : found ∈ methods.entries := List.mem_of_find?_eq_some hfind
      have hkeys := List.find?_some hfind
      simp only [Bool.and_eq_true, decide_eq_true_eq] at hkeys
      have hsame : found.key = entry.key := Prod.ext hkeys.1 hkeys.2
      rw [List.inj_on_of_nodup_map hnodup hfound hmem hsame]
      rfl

/-- What registering a method adds. -/
def Addition.entries (addition : Addition) : List Entry :=
  addition.reach.namespaces.map fun scope => ⟨scope, addition.name, addition.handler⟩

/-- None of the built-in methods is refused. -/
theorem entries_builtin : builtin.entries = builtinMethods.flatMap Addition.entries := rfl

theorem nodup_builtin : (builtin.entries.map Entry.key).Nodup := by
  rw [entries_builtin]
  decide

/-- A built-in method is found under its name for the objects that it is registered for. -/
theorem resolve_builtin {addition : Addition} (hmem : addition ∈ builtinMethods)
    {scope : Namespace} (hscope : scope ∈ addition.reach.namespaces) :
    builtin.resolve scope addition.name = some addition.handler := by
  have hentry : (⟨scope, addition.name, addition.handler⟩ : Entry) ∈ builtin.entries := by
    rw [entries_builtin]
    exact List.mem_flatMap.2 ⟨addition, hmem, List.mem_map.2 ⟨scope, hscope, rfl⟩⟩
  exact resolve_of_mem nodup_builtin hentry

/-- A token with a registered function has the value that the handler of the function gives, in the
context of the object that the token is about. -/
theorem invoke_of_active {methods : MethodRegistry} {token : Token} {context : Context}
    {handler : MethodHandler} (hactive : token.scope = .attr → context.scope = .attr)
    (hresolve : methods.resolve token.scope token.function = some handler) :
    methods.invoke token context = handler (context.seenBy token.scope) token.args := by
  have happly : ∀ seen, methods.apply token seen = handler seen token.args := by
    intro seen
    rw [apply, hresolve]
  obtain ⟨scope, name, args⟩ := token
  cases scope with
  | comp => exact happly context.withoutAttribute
  | attr =>
      obtain ⟨types, view, component, attr?⟩ := context
      cases attr? with
      | none => cases hactive rfl
      | some a => exact happly _

/-- A token about the active object with a registered function has the value that the handler of
the function gives. -/
theorem invoke_of_resolve {methods : MethodRegistry} {token : Token} {context : Context}
    {handler : MethodHandler} (hscope : token.scope = context.scope)
    (hresolve : methods.resolve token.scope token.function = some handler) :
    methods.invoke token context = handler context token.args := by
  rw [invoke_of_active (fun hattr => hscope.symm.trans hattr) hresolve, hscope,
    context.seenBy_scope]

/-- A token about the active object with the name of a built-in method has the value that the
method gives. -/
theorem invoke_builtin {addition : Addition} (hmem : addition ∈ builtinMethods)
    {context : Context} (hscope : context.scope ∈ addition.reach.namespaces) (args : List Text) :
    builtin.invoke ⟨context.scope, addition.name, args⟩ context =
      addition.handler context args :=
  invoke_of_resolve rfl (resolve_builtin hmem hscope)

end MethodRegistry
end Stencil
