import Mathlib.Data.List.Nodup
import Stencil.Proofs.BuiltinMethods
import Stencil.Proofs.FunctionNames
import Stencil.Proofs.Occurrence
import Stencil.Proofs.Outcome
import Stencil.Pattern.Dispatcher

namespace Stencil

/-!
# Registering one after the other

Patterns and methods go into their tables in the same way: an item is checked by
itself, what it adds must have keys that the table does not have yet, and it goes
to the end.  So a whole list of items is registered exactly if each of them is
acceptable by itself and no two keys of the table and of the items are equal
(`Registers.foldlM_eq_ok_iff`).  Nothing of this depends on the order of the items
except the order of the entries.
-/

/-- A step that accepts an item if it is valid by itself and what it adds has keys that are new
to the table and differ from each other, and then puts this at the end. -/
structure Registers {σ α β κ ε : Type} (step : σ → α → Except ε σ) (table : List β → σ)
    (valid : α → Prop) (added : α → List β) (key : β → κ) : Prop where
  eq_ok_iff : ∀ {entries : List β} {item : α} {state : σ}, (entries.map key).Nodup →
    (step (table entries) item = .ok state ↔
      valid item ∧ ((entries ++ added item).map key).Nodup ∧
        state = table (entries ++ added item))

/-- Items are accepted one after the other exactly if they can be accepted all at once. -/
theorem Registers.foldlM_eq_ok_iff {σ α β κ ε : Type} {step : σ → α → Except ε σ}
    {table : List β → σ} {valid : α → Prop} {added : α → List β} {key : β → κ}
    (hstep : Registers step table valid added key) {entries : List β}
    (hentries : (entries.map key).Nodup) {items : List α} {state : σ} :
    items.foldlM step (table entries) = .ok state ↔
      (∀ item ∈ items, valid item) ∧ ((entries ++ items.flatMap added).map key).Nodup ∧
        state = table (entries ++ items.flatMap added) := by
  induction items generalizing entries with
  | nil => simp [hentries, pure, Except.pure, eq_comm]
  | cons item rest ih =>
      rw [List.foldlM_cons, Outcome.bind_eq_ok_iff, List.forall_mem_cons, List.flatMap_cons,
        ← List.append_assoc]
      constructor
      · rintro ⟨middle, hfirst, hrest⟩
        obtain ⟨hvalid, hnodup, rfl⟩ := (hstep.eq_ok_iff hentries).1 hfirst
        obtain ⟨hvalids, hall, rfl⟩ := (ih hnodup).1 hrest
        exact ⟨⟨hvalid, hvalids⟩, hall, rfl⟩
      · rintro ⟨⟨hvalid, hvalids⟩, hall, rfl⟩
        have hnodup : ((entries ++ added item).map key).Nodup := by
          rw [List.map_append] at hall
          exact hall.of_append_left
        exact ⟨_, (hstep.eq_ok_iff hentries).2 ⟨hvalid, hnodup, rfl⟩,
          (ih hnodup).2 ⟨hvalids, hall, rfl⟩⟩

theorem nodup_map_append_singleton {β κ : Type} {key : β → κ} {entries : List β}
    (hentries : (entries.map key).Nodup) {entry : β} :
    ((entries ++ [entry]).map key).Nodup ↔ key entry ∉ entries.map key := by
  rw [List.map_append, List.map_singleton, ← List.concat_eq_append, List.nodup_concat]
  exact and_iff_left hentries

/-! ## Patterns -/

namespace Pattern

/-- A pattern that is not blank and has at most one placeholder of either kind. -/
structure IsWellFormed (pattern : Text) : Prop where
  not_blank : pattern.trim ≠ []
  one_placeholder : ∀ front middle rest,
    pattern.trim ≠ front ++ placeholder ++ middle ++ placeholder ++ rest

/-- A pattern has a kind exactly if its placeholder does not occur twice; every placeholder of a
list begins with one for a type. -/
theorem exists_kindOf_iff {pattern : Text} :
    (∃ kind, kindOf pattern = .ok kind) ↔
      ∀ front middle rest, pattern ≠ front ++ placeholder ++ middle ++ placeholder ++ rest := by
  have hsingle : 2 ≤ Text.count placeholder pattern ↔
      ∃ front middle rest, pattern = front ++ placeholder ++ middle ++ placeholder ++ rest :=
    Text.two_le_count_iff (by decide)
  have hlist : 2 ≤ Text.count listPlaceholder pattern →
      2 ≤ Text.count placeholder pattern := by
    intro htwo
    obtain ⟨front, middle, rest, hcut⟩ := (Text.two_le_count_iff (by decide)).1 htwo
    refine hsingle.2 ⟨front, "..." ++ middle, "..." ++ rest, ?_⟩
    rw [hcut]
    simp [listPlaceholder, placeholder]
  have hkind : (∃ kind, kindOf pattern = .ok kind) ↔ ¬2 ≤ Text.count placeholder pattern := by
    unfold kindOf
    generalize Text.count placeholder pattern = single at hlist
    generalize Text.count listPlaceholder pattern = list at hlist
    match single, list with
    | 0, _ => simp
    | 1, 0 => simp
    | 1, 1 => simp
    | 1, list + 2 => exact absurd (hlist (by omega)) (by omega)
    | single + 2, 0 => simp
    | single + 2, list + 1 => simp
  rw [hkind, hsingle]
  simp only [not_exists, ne_eq]

end Pattern

namespace Dispatcher

variable {H : Type}

theorem exists_entry_iff {pattern : Text} {handler : H} :
    (∃ entry, entry? pattern handler = .ok entry) ↔ Pattern.IsWellFormed pattern := by
  have hwell : Pattern.IsWellFormed pattern ↔
      pattern.trim ≠ [] ∧ ∃ kind, Pattern.kindOf pattern.trim = .ok kind := by
    rw [Pattern.exists_kindOf_iff]
    exact ⟨fun h => ⟨h.not_blank, h.one_placeholder⟩, fun h => ⟨h.1, h.2⟩⟩
  rw [hwell, entry?]
  by_cases hblank : pattern.trim = []
  · simp [hblank]
  · simp [hblank, exists_comm]

/-- An entry has the key of its pattern. -/
theorem key_eq_of_entry {pattern : Text} {handler : H} {entry : Entry H}
    (hentry : entry? pattern handler = .ok entry) : entry.key = Pattern.key pattern.trim := by
  unfold entry? at hentry
  simp only at hentry
  split at hentry
  · cases hentry
  · obtain ⟨kind, -, rfl⟩ := Outcome.map_eq_ok_iff.1 hentry
    rfl

/-- A pattern is registered exactly if it has an entry with a new key, which goes to the end. -/
theorem register_eq_ok_iff {d d' : Dispatcher H} {pattern : Text} {handler : H} :
    d.register pattern handler = .ok d' ↔
      ∃ entry, entry? pattern handler = .ok entry ∧ entry.key ∉ d.entries.map (·.key) ∧
        d' = ⟨d.entries ++ [entry]⟩ := by
  have hkey : ∀ key, d.hasKey key = true ↔ key ∈ d.entries.map (·.key) := by
    intro key
    simp [hasKey]
  unfold register
  rw [Outcome.bind_eq_ok_iff]
  refine exists_congr fun entry => and_congr_right fun _ => ?_
  by_cases hnew : entry.key ∈ d.entries.map (·.key)
  · simp [hkey, hnew]
  · simp [hkey, hnew, eq_comm]

/-- The entries that registering a pattern adds: one, unless the pattern is refused. -/
def added (pattern : Text × H) : List (Entry H) :=
  ( entry? pattern.1 pattern.2).toOption.toList

theorem added_eq_singleton {pattern : Text × H} {entry : Entry H}
    (hentry : entry? pattern.1 pattern.2 = .ok entry) : added pattern = [entry] := by
  simp [added, hentry, Except.toOption]

theorem mem_added_iff {pattern : Text × H} {entry : Entry H} :
    entry ∈ added pattern ↔ entry? pattern.1 pattern.2 = .ok entry := by
  rw [added]
  cases entry? pattern.1 pattern.2 <;> simp [Except.toOption, eq_comm]

theorem map_key_added {patterns : List (Text × H)}
    (hpatterns : ∀ pattern ∈ patterns, Pattern.IsWellFormed pattern.1) :
    (patterns.flatMap added).map (·.key) =
      patterns.map fun pattern => Pattern.key pattern.1.trim := by
  induction patterns with
  | nil => rfl
  | cons pattern rest ih =>
      rw [List.forall_mem_cons] at hpatterns
      obtain ⟨entry, hentry⟩ := (@exists_entry_iff H _ pattern.2).2 hpatterns.1
      rw [List.flatMap_cons, List.map_append, ih hpatterns.2, added_eq_singleton hentry,
        List.map_singleton, key_eq_of_entry hentry]
      rfl

theorem registers_register :
    Registers (fun (d : Dispatcher H) (pattern : Text × H) => d.register pattern.1 pattern.2) mk
      (fun pattern => Pattern.IsWellFormed pattern.1) added (·.key) where
  eq_ok_iff := by
    intro entries pattern d' hentries
    rw [register_eq_ok_iff, ← @exists_entry_iff H pattern.1 pattern.2]
    constructor
    · rintro ⟨entry, hentry, hnew, rfl⟩
      rw [added_eq_singleton hentry]
      exact ⟨⟨entry, hentry⟩, (nodup_map_append_singleton hentries).2 hnew, rfl⟩
    · rintro ⟨⟨entry, hentry⟩, hnodup, rfl⟩
      rw [added_eq_singleton hentry] at hnodup ⊢
      exact ⟨entry, hentry, (nodup_map_append_singleton hentries).1 hnodup, rfl⟩

/-- Patterns are registered exactly if all are well formed and no two of them, and none of them
and none of those registered before, have the same key. -/
theorem registerAll_eq_ok_iff {d d' : Dispatcher H} {patterns : List (Text × H)}
    (hd : (d.entries.map (·.key)).Nodup) :
    d.registerAll patterns = .ok d' ↔
      (∀ pattern ∈ patterns, Pattern.IsWellFormed pattern.1) ∧
        ((d.entries ++ patterns.flatMap added).map (·.key)).Nodup ∧
          d' = ⟨d.entries ++ patterns.flatMap added⟩ :=
  registers_register.foldlM_eq_ok_iff hd

theorem nodup_empty : ((empty : Dispatcher H).entries.map (·.key)).Nodup := List.nodup_nil

section Registered

variable {d d' : Dispatcher H} {patterns : List (Text × H)}

/-- No two registered patterns have the same key. -/
theorem nodup_of_registerAll (hd : (d.entries.map (·.key)).Nodup)
    (hregister : d.registerAll patterns = .ok d') : (d'.entries.map (·.key)).Nodup := by
  obtain ⟨-, hnodup, rfl⟩ := (registerAll_eq_ok_iff hd).1 hregister
  exact hnodup

/-- The entries are those of the patterns that have been registered. -/
theorem mem_registerAll_iff (hd : (d.entries.map (·.key)).Nodup)
    (hregister : d.registerAll patterns = .ok d') {entry : Entry H} :
    entry ∈ d'.entries ↔ entry ∈ d.entries ∨ ∃ pattern ∈ patterns, entry ∈ added pattern := by
  obtain ⟨-, -, rfl⟩ := (registerAll_eq_ok_iff hd).1 hregister
  simp only [List.mem_append, List.mem_flatMap]

end Registered

end Dispatcher

/-! ## Methods -/

namespace MethodRegistry

theorem contains_iff {methods : MethodRegistry} {scope : Namespace} {name : Text} :
    methods.contains scope name = true ↔ (scope, name) ∈ methods.entries.map Entry.key := by
  unfold contains resolve
  rw [Option.isSome_map, List.find?_isSome, List.mem_map]
  refine exists_congr fun entry => and_congr_right fun _ => ?_
  simp [Entry.key]

theorem register_eq_ok_iff {methods methods' : MethodRegistry} {scope : Namespace} {name : Text}
    {handler : MethodHandler} :
    methods.register scope name handler = .ok methods' ↔
      Token.IsDotted name ∧ (scope, name) ∉ methods.entries.map Entry.key ∧
        methods' = ⟨methods.entries ++ [⟨scope, name, handler⟩]⟩ := by
  unfold register
  rw [← Token.isFunctionName_iff, ← contains_iff]
  by_cases hname : Token.isFunctionName name = true
  · by_cases htaken : methods.contains scope name = true
    · simp [hname, htaken]
    · simp [hname, htaken, eq_comm]
  · simp [hname]

theorem registers_register :
    Registers (fun (methods : MethodRegistry) (entry : Entry) =>
        methods.register entry.scope entry.name entry.handler) mk
      (fun entry => Token.IsDotted entry.name) (fun entry => [entry]) Entry.key where
  eq_ok_iff := by
    intro entries entry methods' hentries
    rw [register_eq_ok_iff, nodup_map_append_singleton hentries]
    rfl

/-- A method is registered for one namespace after the other. -/
theorem add_eq_foldlM (methods : MethodRegistry) (addition : Addition) :
    methods.add addition = addition.entries.foldlM (fun methods entry =>
      methods.register entry.scope entry.name entry.handler) methods := by
  obtain ⟨reach, name, handler⟩ := addition
  cases reach with
  | one scope =>
      show methods.register scope name handler = methods.register scope name handler >>= pure
      rw [bind_pure]
  | both =>
      show _ = methods.register .comp name handler >>= fun withComponent =>
        withComponent.register .attr name handler >>= pure
      simp only [add, registerBoth, bind_pure]
      cases methods.register .comp name handler with
      | error cause => rfl
      | ok withComponent =>
          show _ = withComponent.register .attr name handler
          cases hattr : withComponent.register .attr name handler <;> simp [hattr]

theorem registers_add :
    Registers add mk (fun addition => Token.IsDotted addition.name) Addition.entries
      Entry.key where
  eq_ok_iff := by
    intro entries addition methods' hentries
    have hnames : (∀ entry ∈ addition.entries, Token.IsDotted entry.name) ↔
        Token.IsDotted addition.name := by
      obtain ⟨reach, name, handler⟩ := addition
      cases reach <;> simp [Addition.entries, Reach.namespaces]
    rw [add_eq_foldlM, registers_register.foldlM_eq_ok_iff hentries, hnames,
      List.flatMap_singleton']

/-- Methods are registered exactly if each has the name of a function and no name is registered
twice for one namespace. -/
theorem addAll_eq_ok_iff {methods methods' : MethodRegistry} {additions : List Addition}
    (hmethods : (methods.entries.map Entry.key).Nodup) :
    methods.addAll additions = .ok methods' ↔
      (∀ addition ∈ additions, Token.IsDotted addition.name) ∧
        ((methods.entries ++ additions.flatMap Addition.entries).map Entry.key).Nodup ∧
          methods' = ⟨methods.entries ++ additions.flatMap Addition.entries⟩ :=
  registers_add.foldlM_eq_ok_iff hmethods

theorem nodup_empty : (empty.entries.map Entry.key).Nodup := List.nodup_nil

/-- Where no name is registered twice for a namespace, a name has the handler that it was
registered with, wherever that was. -/
theorem resolve_eq_some_iff {methods : MethodRegistry}
    (hmethods : (methods.entries.map Entry.key).Nodup) {scope : Namespace} {name : Text}
    {handler : MethodHandler} :
    methods.resolve scope name = some handler ↔ ⟨scope, name, handler⟩ ∈ methods.entries := by
  constructor
  · intro hresolve
    obtain ⟨entry, hfind, rfl⟩ := Option.map_eq_some_iff.1 hresolve
    have hkey := List.find?_some hfind
    simp only [Bool.and_eq_true, decide_eq_true_eq] at hkey
    obtain ⟨rfl, rfl⟩ := hkey
    exact List.mem_of_find?_eq_some hfind
  · exact fun hmem => resolve_of_mem hmethods hmem

end MethodRegistry
end Stencil
