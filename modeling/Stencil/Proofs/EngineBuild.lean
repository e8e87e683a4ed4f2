import Stencil.Diagnostic
import Stencil.Proofs.Registration

namespace Stencil

/-!
# When an engine is built

An engine is built by registering the types and methods of the built-in extension
and of all others, one extension after the other.  The two tables do not depend on
each other, so the whole is one registration of all types and one of all methods
(`foldlM_extend_eq_ok_iff`), and `Compatible` says when both succeed.  It does not
mention the order of the extensions, and methods are looked up by keys of which no
two are equal, so the order decides nothing about them.
-/

/-! ## Configuration errors -/

namespace Diagnostic

/-- Codes differ behind the prefix that all of them have. -/
theorem isConfiguration_plain (code message : Text) :
    (plain code message).isConfiguration = decide (code ∈ configurationCodes) := by
  have hcode : code ∈ configurationCodes ↔ ("datamatic::".toList ++ code : Text) ∈
      configurationCodes.map fun code => ("datamatic::".toList ++ code : Text) :=
    (List.mem_map_of_injective (List.append_right_injective _)).symm
  simp only [hcode]
  rfl

theorem isConfiguration_advised (code message help : Text) :
    (advised code message help).isConfiguration = decide (code ∈ configurationCodes) :=
  isConfiguration_plain code message

end Diagnostic

/-- Every error of a registration has one of the codes. -/
theorem ConfigurationError.isConfiguration_diagnostic (cause : ConfigurationError) :
    cause.diagnostic.isConfiguration = true := by
  cases cause with
  | pattern cause =>
      cases cause <;> exact (Diagnostic.isConfiguration_plain _ _).trans (by decide)
  | method cause =>
      cases cause with
      | duplicate => exact (Diagnostic.isConfiguration_plain _ _).trans (by decide)
      | unreachable => exact (Diagnostic.isConfiguration_advised _ _ _).trans (by decide)

theorem RenderError.isConfiguration_diagnostic (cause : RenderError) :
    cause.diagnostic.isConfiguration = false := by
  cases cause with
  | lookup cause =>
      cases cause with
      | malformedList => exact (Diagnostic.isConfiguration_advised _ _ _).trans (by decide)
      | unknownType => exact (Diagnostic.isConfiguration_plain _ _).trans (by decide)
  | mismatch | noAlternative | tooDeep =>
      exact (Diagnostic.isConfiguration_plain _ _).trans (by decide)

/-- No error of reading a template or of putting values in it has one of the codes. -/
theorem Template.Cause.isConfiguration_diagnostic (cause : Template.Cause) :
    cause.diagnostic.isConfiguration = false := by
  cases cause with
  | token cause =>
      cases cause <;> exact (Diagnostic.isConfiguration_advised _ _ _).trans (by decide)
  | marker | unterminatedBlock | unknownFlag =>
      exact (Diagnostic.isConfiguration_advised _ _ _).trans (by decide)
  | nestedBlock | unmatchedEnd => exact (Diagnostic.isConfiguration_plain _ _).trans (by decide)
  | eval cause =>
      cases cause with
      | unknownField => exact (Diagnostic.isConfiguration_advised _ _ _).trans (by decide)
      | badUse => exact (Diagnostic.isConfiguration_plain _ _).trans (by decide)
      | render cause => exact cause.isConfiguration_diagnostic

namespace Engine

/-! ## Many extensions as one -/

/-- Extensions add their types and their methods to tables of their own. -/
theorem extend_eq_ok_iff {engine engine' : Engine} {extension : Extension} :
    engine.extend extension = .ok engine' ↔
      engine.types.registerAll extension.types = .ok engine'.types ∧
        engine.methods.addAll extension.methods = .ok engine'.methods := by
  unfold extend
  simp only [Outcome.bind_eq_ok_iff, Outcome.mapError_eq_ok_iff]
  constructor
  · rintro ⟨types, htypes, methods, hmethods, hengine⟩
    cases hengine
    exact ⟨htypes, hmethods⟩
  · rintro ⟨htypes, hmethods⟩
    exact ⟨engine'.types, htypes, engine'.methods, hmethods, rfl⟩

theorem foldlM_extend_eq_ok_iff {engine engine' : Engine} {extensions : List Extension} :
    extensions.foldlM extend engine = .ok engine' ↔
      engine.types.registerAll (extensions.flatMap (·.types)) = .ok engine'.types ∧
        engine.methods.addAll (extensions.flatMap (·.methods)) = .ok engine'.methods := by
  induction extensions generalizing engine with
  | nil =>
      obtain ⟨types, methods⟩ := engine
      obtain ⟨types', methods'⟩ := engine'
      simp [Dispatcher.registerAll, MethodRegistry.addAll, pure, Except.pure]
  | cons extension rest ih =>
      rw [List.foldlM_cons, Outcome.bind_eq_ok_iff, List.flatMap_cons, List.flatMap_cons,
        Dispatcher.registerAll, MethodRegistry.addAll, List.foldlM_append, List.foldlM_append,
        Outcome.bind_eq_ok_iff, Outcome.bind_eq_ok_iff]
      simp only [extend_eq_ok_iff, ih]
      constructor
      · rintro ⟨middle, ⟨htypes, hmethods⟩, hmoreTypes, hmoreMethods⟩
        exact ⟨⟨middle.types, htypes, hmoreTypes⟩, middle.methods, hmethods, hmoreMethods⟩
      · rintro ⟨⟨types, htypes, hmoreTypes⟩, methods, hmethods, hmoreMethods⟩
        exact ⟨⟨types, methods⟩, ⟨htypes, hmethods⟩, hmoreTypes, hmoreMethods⟩

/-! ## Extensions that go together -/

/-- Extensions that can be registered with each other: all patterns and names are acceptable, no
two patterns are the same but for the kind of their placeholders, and no two methods have the
same name for the same namespace. -/
structure Compatible (extensions : List Extension) : Prop where
  patterns : ∀ extension ∈ extensions, ∀ type ∈ extension.types, Pattern.IsWellFormed type.1
  names : ∀ extension ∈ extensions, ∀ method ∈ extension.methods, Token.IsDotted method.name
  nodup_patterns : (extensions.flatMap fun extension =>
    extension.types.map fun type => Pattern.key type.1.trim).Nodup
  nodup_methods : (extensions.flatMap fun extension =>
    extension.methods.flatMap fun method => method.entries.map MethodRegistry.Entry.key).Nodup

theorem Compatible.of_perm {extensions others : List Extension} (hperm : extensions.Perm others)
    (hcompatible : Compatible extensions) : Compatible others where
  patterns extension hmem := hcompatible.patterns extension (hperm.mem_iff.2 hmem)
  names extension hmem := hcompatible.names extension (hperm.mem_iff.2 hmem)
  nodup_patterns := (hperm.flatMap_right _).nodup_iff.1 hcompatible.nodup_patterns
  nodup_methods := (hperm.flatMap_right _).nodup_iff.1 hcompatible.nodup_methods

/-- The engine of the entries of all extensions. -/
def assembled (extensions : List Extension) : Engine :=
  ⟨⟨(extensions.flatMap (·.types)).flatMap Dispatcher.added⟩,
    ⟨(extensions.flatMap (·.methods)).flatMap MethodRegistry.Addition.entries⟩⟩

theorem map_key_types {extensions : List Extension}
    (hpatterns : ∀ extension ∈ extensions, ∀ type ∈ extension.types,
      Pattern.IsWellFormed type.1) :
    (assembled extensions).types.entries.map (·.key) =
      extensions.flatMap fun extension =>
        extension.types.map fun type => Pattern.key type.1.trim := by
  rw [← List.map_flatMap]
  exact Dispatcher.map_key_added (List.forall_mem_flatMap.2 hpatterns)

theorem map_key_methods (extensions : List Extension) :
    (assembled extensions).methods.entries.map MethodRegistry.Entry.key =
      extensions.flatMap fun extension => extension.methods.flatMap fun method =>
        method.entries.map MethodRegistry.Entry.key := by
  simp only [assembled, List.flatMap_assoc, List.map_flatMap]

theorem Compatible.nodup_types {extensions : List Extension}
    (hcompatible : Compatible extensions) :
    ((assembled extensions).types.entries.map (·.key)).Nodup := by
  rw [map_key_types hcompatible.patterns]
  exact hcompatible.nodup_patterns

theorem Compatible.nodup_assembled {extensions : List Extension}
    (hcompatible : Compatible extensions) :
    ((assembled extensions).methods.entries.map MethodRegistry.Entry.key).Nodup := by
  rw [map_key_methods]
  exact hcompatible.nodup_methods

/-- The types and methods of extensions are registered exactly if the extensions go together. -/
theorem foldlM_extend_empty_eq_ok_iff {extensions : List Extension} {engine : Engine} :
    extensions.foldlM extend empty = .ok engine ↔
      Compatible extensions ∧ engine = assembled extensions := by
  have htypes : (empty.types.entries.map (·.key)).Nodup := Dispatcher.nodup_empty
  have hmethods : (empty.methods.entries.map MethodRegistry.Entry.key).Nodup :=
    MethodRegistry.nodup_empty
  rw [foldlM_extend_eq_ok_iff, Dispatcher.registerAll_eq_ok_iff htypes,
    MethodRegistry.addAll_eq_ok_iff hmethods, List.forall_mem_flatMap, List.forall_mem_flatMap]
  constructor
  · rintro ⟨⟨hpatterns, hkeys, htypes'⟩, hnames, hpairs, hmethods'⟩
    refine ⟨⟨hpatterns, hnames, ?_, ?_⟩, ?_⟩
    · rw [← map_key_types hpatterns]
      exact hkeys
    · rw [← map_key_methods]
      exact hpairs
    · obtain ⟨types, methods⟩ := engine
      simp only at htypes' hmethods'
      rw [htypes', hmethods']
      rfl
  · rintro ⟨hcompatible, rfl⟩
    exact ⟨⟨hcompatible.patterns, hcompatible.nodup_types, rfl⟩,
      hcompatible.names, hcompatible.nodup_assembled, rfl⟩

/-- An engine is built exactly if the extensions go together with each other and with the
built-in one. -/
theorem build_eq_ok_iff {extensions : List Extension} {engine : Engine} :
    build extensions = .ok engine ↔
      Compatible (builtinExtension :: extensions) ∧
        engine = assembled (builtinExtension :: extensions) :=
  foldlM_extend_empty_eq_ok_iff

/-- In an engine of extensions that go together a name has the handler of the one method that
was registered for it. -/
theorem resolve_assembled_iff {extensions : List Extension} (hcompatible : Compatible extensions)
    {scope : Namespace} {name : Text} {handler : MethodHandler} :
    (assembled extensions).methods.resolve scope name = some handler ↔
      ∃ extension ∈ extensions, ∃ method ∈ extension.methods,
        ⟨scope, name, handler⟩ ∈ method.entries := by
  rw [MethodRegistry.resolve_eq_some_iff hcompatible.nodup_assembled, assembled,
    List.mem_flatMap]
  simp only [List.mem_flatMap]
  constructor
  · rintro ⟨method, ⟨extension, hextension, hmethod⟩, hentry⟩
    exact ⟨extension, hextension, method, hmethod, hentry⟩
  · rintro ⟨extension, hextension, method, hmethod, hentry⟩
    exact ⟨method, ⟨extension, hextension, hmethod⟩, hentry⟩

/-! ## The order of extensions -/

theorem exists_build_iff {extensions : List Extension} :
    (∃ engine, build extensions = .ok engine) ↔
      Compatible (builtinExtension :: extensions) := by
  simp only [build_eq_ok_iff]
  exact ⟨fun ⟨_, hcompatible, _⟩ => hcompatible, fun hcompatible => ⟨_, hcompatible, rfl⟩⟩

/-- The order of extensions does not decide whether an engine is built, nor what a method name
stands for. -/
theorem resolve_eq_of_perm {extensions others : List Extension}
    (hperm : extensions.Perm others) {engine engine' : Engine}
    (hbuild : build extensions = .ok engine) (hbuild' : build others = .ok engine')
    (scope : Namespace) (name : Text) :
    engine.methods.resolve scope name = engine'.methods.resolve scope name := by
  obtain ⟨hcompatible, rfl⟩ := build_eq_ok_iff.1 hbuild
  obtain ⟨hcompatible', rfl⟩ := build_eq_ok_iff.1 hbuild'
  have hmem := fun extension => (hperm.cons builtinExtension).mem_iff (a := extension)
  refine Option.ext fun handler => ?_
  rw [resolve_assembled_iff hcompatible, resolve_assembled_iff hcompatible']
  simp only [hmem]

/-- The built-in methods are in every engine. -/
theorem resolve_builtin_of_build {extensions : List Extension} {engine : Engine}
    (hbuild : build extensions = .ok engine) {addition : MethodRegistry.Addition}
    (hmem : addition ∈ MethodRegistry.builtinMethods) {scope : Namespace}
    (hscope : scope ∈ addition.reach.namespaces) :
    engine.methods.resolve scope addition.name = some addition.handler := by
  obtain ⟨hcompatible, rfl⟩ := build_eq_ok_iff.1 hbuild
  exact (resolve_assembled_iff hcompatible).2 ⟨builtinExtension, List.mem_cons_self, addition,
    hmem, List.mem_map.2 ⟨scope, hscope, rfl⟩⟩

/-- An engine is built exactly if all patterns and method names are acceptable and none of them
is taken twice, among the built-in ones and those of all extensions.  The order of the extensions
decides neither this nor what a method name stands for, the built-in methods keep their handlers,
and what prevents a build is a configuration error. -/
theorem build_order_independent (extensions : List Extension) :
    ((∃ engine, build extensions = .ok engine) ↔
        Compatible (builtinExtension :: extensions)) ∧
      (∀ others, extensions.Perm others →
        ((∃ engine, build extensions = .ok engine) ↔ ∃ engine, build others = .ok engine) ∧
          ∀ engine engine', build extensions = .ok engine → build others = .ok engine' →
            ∀ scope name,
              engine.methods.resolve scope name = engine'.methods.resolve scope name) ∧
        (∀ engine, build extensions = .ok engine →
          ∀ addition ∈ MethodRegistry.builtinMethods, ∀ scope ∈ addition.reach.namespaces,
            engine.methods.resolve scope addition.name = some addition.handler) ∧
          ∀ cause, build extensions = .error cause → cause.diagnostic.isConfiguration = true := by
  refine ⟨exists_build_iff, fun others hperm => ⟨?_, ?_⟩, ?_, ?_⟩
  · rw [exists_build_iff, exists_build_iff]
    have hall := hperm.cons builtinExtension
    exact ⟨fun h => h.of_perm hall, fun h => h.of_perm hall.symm⟩
  · intro engine engine' hbuild hbuild'
    exact resolve_eq_of_perm hperm hbuild hbuild'
  · intro engine hbuild addition hmem scope hscope
    exact resolve_builtin_of_build hbuild hmem hscope
  · intro cause _
    exact cause.isConfiguration_diagnostic

/-- Two extensions in both orders, one of which gives attributes a method that components have,
and an extension with a pattern that differs from a built-in one in its placeholder only. -/
theorem build_swappedExtensions :
    let first : Extension :=
      ⟨[(" Grid<\x7b\x7d...>", Container.sequence)], [⟨.both, "pair.first", Method.name⟩]⟩
    let second : Extension :=
      ⟨[("Grid", TypeRegistry.scalar Literal.truth)],
        [⟨.one .attr, "attr_count", Method.attributeCount⟩]⟩
    let clashing : Extension := ⟨[("std::vector<\x7b\x7d...> ", Container.sequence)], []⟩
    (∃ engine engine', build [first, second] = .ok engine ∧ build [second, first] = .ok engine' ∧
      (∀ scope name, engine.methods.resolve scope name = engine'.methods.resolve scope name) ∧
        engine.methods.resolve .comp "attr_count" = some Method.attributeCount) ∧
      ∃ cause, build [first, clashing] = .error cause ∧
        cause.diagnostic.isConfiguration = true := by
  intro first second clashing
  have hruns : (build [first, second]).isOk = true ∧ (build [first, clashing]).isOk = false := by
    decide +kernel
  obtain ⟨engine, hbuild⟩ := Outcome.exists_eq_ok_of_isOk hruns.1
  obtain ⟨cause, hclash⟩ := Outcome.exists_eq_error_of_isOk hruns.2
  obtain ⟨-, hperm, hbuiltin, -⟩ := build_order_independent [first, second]
  obtain ⟨hbuilds, hresolve⟩ := hperm [second, first] (List.Perm.swap second first [])
  obtain ⟨engine', hbuild'⟩ := hbuilds.1 ⟨engine, hbuild⟩
  refine ⟨⟨engine, engine', hbuild, hbuild', hresolve _ _ hbuild hbuild', ?_⟩, cause, hclash,
    (build_order_independent [first, clashing]).2.2.2 cause hclash⟩
  have hcount : ⟨.one .comp, "attr_count", Method.attributeCount⟩ ∈
      MethodRegistry.builtinMethods := by simp [MethodRegistry.builtinMethods]
  exact hbuiltin _ hbuild _ hcount .comp (by decide)

end Engine
end Stencil
