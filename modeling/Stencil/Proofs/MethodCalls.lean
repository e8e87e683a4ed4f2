import Stencil.Proofs.Registration

namespace Stencil

/-!
# Calls that register methods

A registry is the result of calls, each of which registers a method for one
namespace or for both.  A call that registers for one namespace does all or
nothing.  A call for both registers for components before it looks at
attributes, so there is one state in which it is refused and still adds
something: `MethodRegistry.IsHalfTaken`.

`MethodRegistry.call_cases` says what a call can do, and
`MethodRegistry.call_after_calls` what this means for all that can be asked of a
registry.
-/

namespace MethodRegistry

variable {methods : MethodRegistry}

/-- The registry after a call that registers a method, and what the call answers. -/
def call (methods : MethodRegistry) (addition : Addition) :
    MethodRegistry × Except MethodError Unit :=
  match addition.reach with
  | .one scope =>
      match methods.register scope addition.name addition.handler with
      | .ok registered => (registered, .ok ())
      | .error cause => (methods, .error cause)
  | .both => methods.registerBoth addition.name addition.handler

/-- The registry after further calls, one after the other, refused or not. -/
def later (methods : MethodRegistry) (calls : List Addition) : MethodRegistry :=
  calls.foldl (fun methods addition => (methods.call addition).1) methods

/-- The registry after calls, one after the other, at first without methods. -/
def afterCalls (calls : List Addition) : MethodRegistry :=
  calls.foldl (fun methods addition => (methods.call addition).1) empty

theorem afterCalls_append_singleton (calls : List Addition) (addition : Addition) :
    afterCalls (calls ++ [addition]) = ((afterCalls calls).call addition).1 := by
  rw [afterCalls, afterCalls, List.foldl_append, List.foldl_cons, List.foldl_nil]

/-- What a call for both namespaces registers first. -/
def Addition.componentEntry (addition : Addition) : Entry :=
  ⟨.comp, addition.name, addition.handler⟩

/-- A call for both namespaces whose name is taken for attributes and free for components. -/
structure IsHalfTaken (methods : MethodRegistry) (addition : Addition) : Prop where
  reach : addition.reach = .both
  dotted : Token.IsDotted addition.name
  free : (.comp, addition.name) ∉ methods.entries.map Entry.key
  taken : (.attr, addition.name) ∈ methods.entries.map Entry.key

section Names

variable {name : Text} {handler : MethodHandler}

theorem register_of_free {scope : Namespace} (hdotted : Token.IsDotted name)
    (hfree : (scope, name) ∉ methods.entries.map Entry.key) :
    methods.register scope name handler = .ok ⟨methods.entries ++ [⟨scope, name, handler⟩]⟩ :=
  register_eq_ok_iff.2 ⟨hdotted, hfree, rfl⟩

theorem register_of_taken {scope : Namespace} (hdotted : Token.IsDotted name)
    (htaken : (scope, name) ∈ methods.entries.map Entry.key) :
    methods.register scope name handler = .error (.duplicate scope name) := by
  simp [register, Token.isFunctionName_iff.2 hdotted, contains_iff.2 htaken]

/-- A method for components takes no name for attributes. -/
theorem attribute_mem_append_iff :
    (Namespace.attr, name) ∈
        (methods.entries ++ [(⟨.comp, name, handler⟩ : Entry)]).map Entry.key ↔
      (Namespace.attr, name) ∈ methods.entries.map Entry.key := by
  rw [List.map_append, List.mem_append]
  exact or_iff_left (by simp [Entry.key])

theorem registerBoth_of_free (hdotted : Token.IsDotted name)
    (hcomp : (.comp, name) ∉ methods.entries.map Entry.key)
    (hattr : (.attr, name) ∉ methods.entries.map Entry.key) :
    methods.registerBoth name handler =
      (⟨methods.entries ++ [⟨.comp, name, handler⟩, ⟨.attr, name, handler⟩]⟩, .ok ()) := by
  simp only [registerBoth, register_of_free hdotted hcomp,
    register_of_free hdotted (mt attribute_mem_append_iff.1 hattr), List.append_assoc,
    List.singleton_append]

theorem registerBoth_of_taken (hdotted : Token.IsDotted name)
    (hcomp : (.comp, name) ∉ methods.entries.map Entry.key)
    (hattr : (.attr, name) ∈ methods.entries.map Entry.key) :
    methods.registerBoth name handler =
      (⟨methods.entries ++ [⟨.comp, name, handler⟩]⟩, .error (.duplicate .attr name)) := by
  simp only [registerBoth, register_of_free hdotted hcomp,
    register_of_taken hdotted (attribute_mem_append_iff.2 hattr)]

end Names

/-- A call registers its method for all its namespaces, or it is refused.  Then it changes nothing,
unless its name is taken for attributes alone. -/
theorem call_cases (methods : MethodRegistry) (addition : Addition) :
    ((∀ entry ∈ addition.entries, entry.key ∉ methods.entries.map Entry.key) ∧
        methods.call addition = (⟨methods.entries ++ addition.entries⟩, .ok ())) ∨
      (methods.IsHalfTaken addition ∧
        methods.call addition =
          (⟨methods.entries ++ [addition.componentEntry]⟩,
            .error (.duplicate .attr addition.name))) ∨
      (¬methods.IsHalfTaken addition ∧
        ∃ cause, methods.call addition = (methods, .error cause)) := by
  obtain ⟨reach, name, handler⟩ := addition
  cases reach with
  | one scope =>
      simp only [call]
      cases hregister : methods.register scope name handler with
      | ok registered =>
          obtain ⟨-, hfree, rfl⟩ := register_eq_ok_iff.1 hregister
          exact Or.inl ⟨List.forall_mem_singleton.2 hfree, rfl⟩
      | error cause => exact Or.inr (Or.inr ⟨fun h => Reach.noConfusion h.reach, cause, rfl⟩)
  | both =>
      show _ ∧ methods.registerBoth name handler = _ ∨ _ ∧ methods.registerBoth name handler = _ ∨
        _ ∧ ∃ cause, methods.registerBoth name handler = _
      cases hregister : methods.register .comp name handler with
      | error cause =>
          refine Or.inr (Or.inr ⟨fun hhalf => ?_, cause, by rw [registerBoth, hregister]⟩)
          rw [register_of_free hhalf.dotted hhalf.free] at hregister
          cases hregister
      | ok withComponent =>
          obtain ⟨hdotted, hcomp, -⟩ := register_eq_ok_iff.1 hregister
          by_cases hattr : (.attr, name) ∈ methods.entries.map Entry.key
          · exact Or.inr (Or.inl ⟨⟨rfl, hdotted, hcomp, hattr⟩,
              registerBoth_of_taken hdotted hcomp hattr⟩)
          · exact Or.inl ⟨List.forall_mem_cons.2 ⟨hcomp, List.forall_mem_singleton.2 hattr⟩,
              registerBoth_of_free hdotted hcomp hattr⟩

/-! ## What can be asked of a registry -/

/-- New methods change nothing for other names. -/
theorem resolve_append_of_ne {added : List Entry} {scope : Namespace} {name : Text}
    (hother : ∀ entry ∈ added, entry.key ≠ (scope, name)) :
    resolve ⟨methods.entries ++ added⟩ scope name = methods.resolve scope name := by
  have hnone : (added.find? fun entry => entry.scope = scope && entry.name = name) = none := by
    refine List.find?_eq_none.2 fun entry hentry hkey => hother entry hentry ?_
    simpa [Entry.key] using hkey
  rw [resolve, resolve, List.find?_append, hnone, Option.or_none]

theorem resolve_eq_none_iff {scope : Namespace} {name : Text} :
    methods.resolve scope name = none ↔ (scope, name) ∉ methods.entries.map Entry.key := by
  rw [← contains_iff, contains, Option.isSome_iff_ne_none, not_ne_iff]

/-- New methods with keys of their own are found, and are listed among the others. -/
structure IsExtension (before after : MethodRegistry) (added : List Entry) : Prop where
  size_eq : after.size = before.size + added.length
  listing_perm : after.listing.Perm
    (before.listing ++ added.map fun entry => entry.scope.word ++ Token.separator ++ entry.name)
  resolve_before : ∀ entry ∈ added, before.resolve entry.scope entry.name = none
  resolve_after : ∀ entry ∈ added, after.resolve entry.scope entry.name = some entry.handler
  resolve_other : ∀ scope name, (∀ entry ∈ added, entry.key ≠ (scope, name)) →
    after.resolve scope name = before.resolve scope name

theorem isExtension_of_eq {after : MethodRegistry} {added : List Entry}
    (hafter : after = ⟨methods.entries ++ added⟩)
    (hnodup : (after.entries.map Entry.key).Nodup) : methods.IsExtension after added := by
  subst hafter
  have hnew : ∀ entry ∈ added, entry.key ∉ methods.entries.map Entry.key := by
    rw [List.map_append] at hnodup
    intro entry hentry hmem
    exact List.disjoint_of_nodup_append hnodup hmem (List.mem_map_of_mem hentry)
  refine ⟨List.length_append, ?_, fun entry hentry => ?_, fun entry hentry => ?_,
    fun scope name hother => resolve_append_of_ne hother⟩
  · unfold listing
    rw [List.map_append]
    exact (List.mergeSort_perm _ _).trans ((List.mergeSort_perm _ _).symm.append_right _)
  · exact resolve_eq_none_iff.2 (hnew entry hentry)
  · exact resolve_of_mem hnodup (List.mem_append_right _ hentry)

theorem nodup_entries (addition : Addition) : (addition.entries.map Entry.key).Nodup := by
  obtain ⟨reach, name, handler⟩ := addition
  cases reach <;> simp [Addition.entries, Reach.namespaces, Entry.key]

/-- No call registers a name twice for a namespace. -/
theorem nodup_call (hmethods : (methods.entries.map Entry.key).Nodup) (addition : Addition) :
    ((methods.call addition).1.entries.map Entry.key).Nodup := by
  rcases call_cases methods addition with ⟨hfree, hcall⟩ | ⟨hhalf, hcall⟩ | ⟨-, cause, hcall⟩
  · rw [hcall, List.map_append, List.nodup_append']
    refine ⟨hmethods, nodup_entries addition, fun key hkey hadded => ?_⟩
    obtain ⟨entry, hentry, rfl⟩ := List.mem_map.1 hadded
    exact hfree entry hentry hkey
  · rw [hcall]
    exact (nodup_map_append_singleton hmethods).2 hhalf.free
  · rw [hcall]
    exact hmethods

theorem nodup_later (hmethods : (methods.entries.map Entry.key).Nodup) (calls : List Addition) :
    ((methods.later calls).entries.map Entry.key).Nodup := by
  induction calls generalizing methods with
  | nil => exact hmethods
  | cons addition rest ih => exact ih (nodup_call hmethods addition)

theorem nodup_afterCalls (calls : List Addition) :
    ((afterCalls calls).entries.map Entry.key).Nodup :=
  nodup_later nodup_empty calls

/-- After any calls, a further one does as follows.  If it is refused, it leaves the registry as it
was, exactly if it is not a call for both namespaces whose name is taken for attributes alone.  Such
a call is refused as a duplicate, and yet its method is registered for components.  If a call is not
refused, its method is registered for all its namespaces. -/
theorem call_after_calls (calls : List Addition) (addition : Addition) :
    let before := afterCalls calls
    let after := afterCalls (calls ++ [addition])
    let answer := (before.call addition).2
    (∀ cause, answer = .error cause → (after = before ↔ ¬before.IsHalfTaken addition)) ∧
      (before.IsHalfTaken addition → answer = .error (.duplicate .attr addition.name) ∧
        IsExtension before after [addition.componentEntry]) ∧
      (answer = .ok () → IsExtension before after addition.entries ∧
        ∀ scope ∈ addition.reach.namespaces, after.contains scope addition.name = true) := by
  intro before after answer
  have hnodup : (after.entries.map Entry.key).Nodup := nodup_afterCalls _
  have hlast : after = (before.call addition).1 := afterCalls_append_singleton calls addition
  rcases call_cases before addition with ⟨hfree, hcall⟩ | ⟨hhalf, hcall⟩ | ⟨hhalf, cause, hcall⟩
  · have hanswer : answer = .ok () := congrArg Prod.snd hcall
    have hafter := isExtension_of_eq (hlast.trans (congrArg Prod.fst hcall)) hnodup
    refine ⟨fun cause h => ?_, fun hhalf => ?_, fun _ => ⟨hafter, fun scope hscope => ?_⟩⟩
    · rw [hanswer] at h
      cases h
    · refine absurd hhalf.taken (hfree ⟨.attr, addition.name, addition.handler⟩ ?_)
      simp [Addition.entries, hhalf.reach, Reach.namespaces]
    · rw [contains, hafter.resolve_after _ (List.mem_map.2 ⟨scope, hscope, rfl⟩)]
      rfl
  · have hanswer : answer = .error (.duplicate .attr addition.name) := congrArg Prod.snd hcall
    have hafter := isExtension_of_eq (hlast.trans (congrArg Prod.fst hcall)) hnodup
    refine ⟨fun _ _ => iff_of_false (fun hsame => ?_) (not_not_intro hhalf),
      fun _ => ⟨hanswer, hafter⟩, fun h => ?_⟩
    · have hsize := hafter.size_eq
      rw [hsame] at hsize
      exact absurd hsize (Nat.ne_of_lt (Nat.lt_succ_self _))
    · rw [hanswer] at h
      cases h
  · have hanswer : answer = .error cause := congrArg Prod.snd hcall
    have hafter : after = before := hlast.trans (congrArg Prod.fst hcall)
    refine ⟨fun _ _ => iff_of_true hafter hhalf, fun h => absurd h hhalf, fun h => ?_⟩
    rw [hanswer] at h
    cases h

/-- A method for attributes. -/
def attributeCall : Addition := ⟨.one .attr, "x", Method.name⟩

/-- A method of the same name for both namespaces. -/
def bothCall : Addition := ⟨.both, "x", Method.name⟩

theorem isHalfTaken_bothCall : (afterCalls [attributeCall]).IsHalfTaken bothCall where
  reach := rfl
  dotted := Token.isFunctionName_iff.1 (by decide)
  free := by decide
  taken := by decide

/-- A name that is free, one that is taken for attributes, and one that is taken for both. -/
theorem call_after_attributeCall :
    ((empty.call bothCall).2 = .ok () ∧
        (afterCalls [bothCall]).contains .attr bothCall.name = true) ∧
      ((afterCalls [attributeCall]).IsHalfTaken bothCall ∧
        (afterCalls [attributeCall, bothCall]).size = 2) ∧
      ((∃ cause, ((afterCalls [bothCall]).call attributeCall).2 = .error cause) ∧
        ¬(afterCalls [bothCall]).IsHalfTaken attributeCall ∧
          afterCalls [bothCall, attributeCall] = afterCalls [bothCall]) := by
  obtain ⟨-, -, hfree⟩ := call_after_calls [] bothCall
  obtain ⟨-, hhalf, -⟩ := call_after_calls [attributeCall] bothCall
  obtain ⟨hrefused, -, -⟩ := call_after_calls [bothCall] attributeCall
  have hwhole : ¬(afterCalls [bothCall]).IsHalfTaken attributeCall :=
    fun h => Reach.noConfusion h.reach
  refine ⟨⟨rfl, (hfree rfl).2 .attr (by decide)⟩,
    ⟨isHalfTaken_bothCall, (hhalf isHalfTaken_bothCall).2.size_eq⟩, ⟨_, rfl⟩, hwhole,
    (hrefused _ rfl).2 hwhole⟩

/-- A call that is refused because its name is taken for attributes registers it for
components. -/
theorem call_adds_half :
    ((afterCalls [attributeCall]).call bothCall).2 = .error (.duplicate .attr "x") ∧
      (afterCalls [attributeCall]).contains .comp "x" = false ∧
      (afterCalls [attributeCall, bothCall]).contains .comp "x" = true ∧
      (afterCalls [attributeCall]).size = 1 ∧ (afterCalls [attributeCall, bothCall]).size = 2 :=
  ⟨rfl, rfl, rfl, rfl, rfl⟩

end MethodRegistry
end Stencil
