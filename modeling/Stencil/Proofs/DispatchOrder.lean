import Stencil.Proofs.RegisteredPatterns
import Stencil.Proofs.TypeLists

namespace Stencil

/-!
# The order of registration

A dispatcher tries its patterns in the order in which they were registered.
This matters only where several patterns of one kind match a name.
`Pattern.Exclusive` excludes that, and `Dispatcher.resolve_of_perm` shows that
then the order decides nothing: neither what is found nor the error when nothing
is.  The built-in patterns are exclusive because the word before the first angle
bracket of a name belongs to one of them at most
(`TypeRegistry.eq_of_fits_builtin`).
-/

namespace Pattern

/-! ## Patterns and names -/

/-- A pattern of a kind with these texts around its placeholder. -/
def HasShape (pattern : Text) (kind : PatternKind) (shape : Shape) : Prop :=
  kindOf pattern.trim = .ok kind ∧ (Form.ofPattern pattern.trim kind).shape? = some shape

/-- A name begins and ends with the fixed texts of a pattern of a kind. -/
def Fits (kind : PatternKind) (pattern name : Text) : Prop :=
  ∃ shape inside, HasShape pattern kind shape ∧ name = shape.start ++ inside ++ shape.ending

/-- A pattern with one placeholder captures a type of a name: its fixed texts fit, and what is
between them is, once trimmed, not empty and has matching brackets. -/
def Captures (pattern name : Text) : Prop :=
  ∃ shape inside, HasShape pattern .single shape ∧ name = shape.start ++ inside ++ shape.ending ∧
    inside.trim ≠ [] ∧ Bracket.Matched inside.trim

/-- Patterns of which no two capture a type of the same name, and no two with a list placeholder
fit the same name.  Names are looked up without the white space at their ends. -/
structure Exclusive (patterns : List Text) : Prop where
  captures : ∀ name : Text, ∀ pattern ∈ patterns, ∀ other ∈ patterns,
    Captures pattern name.trim → Captures other name.trim → pattern = other
  fits : ∀ name : Text, ∀ pattern ∈ patterns, ∀ other ∈ patterns,
    Fits .list pattern name.trim → Fits .list other name.trim → pattern = other

theorem Captures.fits {pattern name : Text} (h : Captures pattern name) :
    Fits .single pattern name := by
  obtain ⟨shape, inside, hshape, hname, -⟩ := h
  exact ⟨shape, inside, hshape, hname⟩

end Pattern

namespace Dispatcher

variable {H : Type}

/-! ## Entries and their patterns -/

section Entry

variable {pattern name : Text} {handler : H} {entry : Entry H}

/-- The entry of an exact pattern has the key of the name that it matches. -/
theorem key_of_matchExact (hentry : entry? pattern handler = .ok entry)
    (hsome : (entry.matchExact name).isSome = true) : entry.key = Pattern.key name := by
  obtain ⟨kind, -, hform⟩ := form_of_entry hentry
  unfold Entry.matchExact at hsome
  rw [hform] at hsome
  cases kind with
  | exact =>
      by_cases hname : pattern.trim = name
      · rw [key_eq_of_entry hentry, hname]
      · simp [Pattern.Form.ofPattern, hname] at hsome
  | single | list => cases hsome

theorem captures_of_matchSingle (hentry : entry? pattern handler = .ok entry)
    (hsome : (entry.matchSingle name).isSome = true) : Pattern.Captures pattern name := by
  obtain ⟨kind, hkind, hform⟩ := form_of_entry hentry
  unfold Entry.matchSingle at hsome
  rw [hform] at hsome
  cases kind with
  | exact | list => cases hsome
  | single =>
      simp only [Pattern.Form.ofPattern] at hsome
      split at hsome
      · rename_i inner hcapture
        split at hsome
        · rename_i hinner
          obtain ⟨inside, hname, rfl⟩ := Pattern.Shape.capture?_eq_some_iff.1 hcapture
          simp only [Bool.and_eq_true, Bool.not_eq_true', List.isEmpty_eq_false_iff] at hinner
          exact ⟨_, inside, ⟨hkind, rfl⟩, hname, hinner.1, Text.isBalanced_iff.1 hinner.2⟩
        · cases hsome
      · cases hsome

theorem fits_of_matchList (hentry : entry? pattern handler = .ok entry)
    (hsome : (entry.matchList name).isSome = true) : Pattern.Fits .list pattern name := by
  obtain ⟨kind, hkind, hform⟩ := form_of_entry hentry
  unfold Entry.matchList at hsome
  rw [hform] at hsome
  cases kind with
  | exact | single => cases hsome
  | list =>
      simp only [Pattern.Form.ofPattern, Option.isSome_map] at hsome
      obtain ⟨list, hcapture⟩ := Option.isSome_iff_exists.1 hsome
      obtain ⟨inside, hname, -⟩ := Pattern.Shape.capture?_eq_some_iff.1 hcapture
      exact ⟨_, inside, ⟨hkind, rfl⟩, hname⟩

end Entry

/-! ## Permuted entries -/

/-- If at most one item has a value, the first one found does not depend on the order. -/
theorem findSome?_eq_of_perm {α β : Type} {f : α → Option β} {items others : List α}
    (hperm : items.Perm others)
    (hunique : ∀ item ∈ items, ∀ other ∈ items, (f item).isSome = true →
      (f other).isSome = true → item = other) :
    others.findSome? f = items.findSome? f := by
  cases hfound : items.findSome? f with
  | none =>
      have hnone := List.findSome?_eq_none_iff.1 hfound
      exact List.findSome?_eq_none_iff.2 fun other hother => hnone other (hperm.mem_iff.2 hother)
  | some b =>
      obtain ⟨item, hitem, hvalue⟩ := List.exists_of_findSome?_eq_some hfound
      refine findSome?_eq_some_of_unique (hperm.mem_iff.1 hitem) hvalue fun other hother hsome => ?_
      exact hunique other (hperm.mem_iff.2 hother) item hitem hsome (by rw [hvalue]; rfl)

/-- Dispatchers with the same entries find the same, if no two entries match a name in the same
way. -/
theorem resolve_of_perm {d d' : Dispatcher H} (hperm : d.entries.Perm d'.entries) {name : Text}
    (hexact : ∀ entry ∈ d.entries, ∀ other ∈ d.entries,
      (entry.matchExact name.trim).isSome = true →
        (other.matchExact name.trim).isSome = true → entry = other)
    (hsingle : ∀ entry ∈ d.entries, ∀ other ∈ d.entries,
      (entry.matchSingle name.trim).isSome = true →
        (other.matchSingle name.trim).isSome = true → entry = other)
    (hlist : ∀ entry ∈ d.entries, ∀ other ∈ d.entries,
      (entry.matchList name.trim).isSome = true →
        (other.matchList name.trim).isSome = true → entry = other) :
    d'.resolve name = d.resolve name := by
  unfold resolve
  simp only [findSome?_eq_of_perm hperm hexact, findSome?_eq_of_perm hperm hsingle,
    findSome?_eq_of_perm hperm hlist]

section Registered

variable {patterns : List (Text × H)} {d : Dispatcher H}

/-- An entry is that of a pattern that was registered. -/
theorem exists_pattern_of_mem (hregister : empty.registerAll patterns = .ok d) {entry : Entry H}
    (hentry : entry ∈ d.entries) :
    ∃ pattern ∈ patterns, entry? pattern.1 pattern.2 = .ok entry := by
  rcases (mem_registerAll_iff nodup_empty hregister).1 hentry with hnone | ⟨pattern, hmem, hadded⟩
  · cases hnone
  · exact ⟨pattern, hmem, mem_added_iff.1 hadded⟩

/-- No two patterns that were registered together have the same key. -/
theorem nodup_keys_of_registerAll (hregister : empty.registerAll patterns = .ok d) :
    (patterns.map fun pattern => Pattern.key pattern.1.trim).Nodup := by
  obtain ⟨hwell, hnodup, -⟩ := (registerAll_eq_ok_iff nodup_empty).1 hregister
  rw [← map_key_added hwell]
  exact hnodup

/-- Exclusive patterns have one entry at most for each way of matching a name. -/
theorem resolve_of_exclusive {d' : Dispatcher H} (hperm : d.entries.Perm d'.entries)
    (hregister : empty.registerAll patterns = .ok d)
    (hexclusive : Pattern.Exclusive (patterns.map (·.1))) (name : Text) :
    d'.resolve name = d.resolve name := by
  have hnodup := nodup_of_registerAll nodup_empty hregister
  have hkey : ∀ {entry other : Entry H}, entry ∈ d.entries → other ∈ d.entries →
      entry.key = other.key → entry = other := fun hentry hother =>
    List.inj_on_of_nodup_map hnodup hentry hother
  have hpattern : ∀ {entry other : Entry H}, entry ∈ d.entries → other ∈ d.entries →
      (∀ pattern ∈ patterns, ∀ another ∈ patterns, entry? pattern.1 pattern.2 = .ok entry →
        entry? another.1 another.2 = .ok other → pattern.1 = another.1) → entry = other := by
    intro entry other hentry hother hsame
    obtain ⟨pattern, hmem, hof⟩ := exists_pattern_of_mem hregister hentry
    obtain ⟨another, hanother, hofOther⟩ := exists_pattern_of_mem hregister hother
    refine hkey hentry hother ?_
    rw [key_eq_of_entry hof, key_eq_of_entry hofOther, hsame pattern hmem another hanother hof
      hofOther]
  refine resolve_of_perm hperm ?_ ?_ ?_
  · intro entry hentry other hother hsome hsomeOther
    obtain ⟨pattern, -, hof⟩ := exists_pattern_of_mem hregister hentry
    obtain ⟨another, -, hofOther⟩ := exists_pattern_of_mem hregister hother
    refine hkey hentry hother ?_
    rw [key_of_matchExact hof hsome, key_of_matchExact hofOther hsomeOther]
  · intro entry hentry other hother hsome hsomeOther
    refine hpattern hentry hother fun pattern hmem another hanother hof hofOther => ?_
    exact hexclusive.captures name _ (List.mem_map_of_mem hmem) _ (List.mem_map_of_mem hanother)
      (captures_of_matchSingle hof hsome) (captures_of_matchSingle hofOther hsomeOther)
  · intro entry hentry other hother hsome hsomeOther
    refine hpattern hentry hother fun pattern hmem another hanother hof hofOther => ?_
    exact hexclusive.fits name _ (List.mem_map_of_mem hmem) _ (List.mem_map_of_mem hanother)
      (fits_of_matchList hof hsome) (fits_of_matchList hofOther hsomeOther)

/-- Patterns that can be registered in one order can be registered in every other. -/
theorem exists_registerAll_of_perm {others : List (Text × H)} (hperm : patterns.Perm others)
    (hregister : empty.registerAll patterns = .ok d) :
    ∃ d', empty.registerAll others = .ok d' ∧ d.entries.Perm d'.entries := by
  obtain ⟨hwell, hnodup, rfl⟩ := (registerAll_eq_ok_iff nodup_empty).1 hregister
  have hentries : ((empty : Dispatcher H).entries ++ patterns.flatMap added).Perm
      ((empty : Dispatcher H).entries ++ others.flatMap added) :=
    (hperm.flatMap_right added).append_left _
  refine ⟨_, (registerAll_eq_ok_iff nodup_empty).2 ⟨?_, ?_, rfl⟩, hentries⟩
  · exact fun pattern hmem => hwell pattern (hperm.mem_iff.2 hmem)
  · exact (hentries.map (·.key)).nodup_iff.1 hnodup

end Registered

end Dispatcher

namespace TypeRegistry

open Stencil.TypeName (angled isWord)

/-! ## The built-in patterns -/

/-- The fixed texts of a built-in pattern are a word with an angle bracket and the bracket that
closes it. -/
theorem exists_head_of_hasShape {pattern : Text} {handler : TypeHandler}
    (hmem : (pattern, handler) ∈ builtinTypes) {kind : PatternKind} {shape : Pattern.Shape}
    (hshape : Pattern.HasShape pattern kind shape) :
    ∃ head, isWord head = true ∧ shape = .angled head ∧
      Pattern.key pattern.trim = angled head Pattern.placeholder := by
  obtain ⟨hkind, hform⟩ := hshape
  have hangular := List.all_eq_true.1 isAngular_builtinTypes _ (List.mem_map_of_mem hmem)
  have hne : pattern.trim.isEmpty = false := by
    refine Bool.eq_false_iff.2 fun hempty => ?_
    rw [List.isEmpty_iff.1 hempty] at hkind hform
    obtain rfl : PatternKind.exact = kind := by
      have hexact : Pattern.kindOf [] = .ok .exact := by decide
      exact Except.ok.inj (hexact.symm.trans hkind)
    cases hform
  have hentry : Pattern.keyAndForm? pattern =
      some (Pattern.key pattern.trim, Pattern.Form.ofPattern pattern.trim kind) := by
    rw [Pattern.keyAndForm?, hne, hkind]
    rfl
  have hcases := Pattern.isAngular_of_keyAndForm? hangular hentry
  generalize Pattern.key pattern.trim = key, Pattern.Form.ofPattern pattern.trim kind = form
    at hcases hform
  cases hcases with
  | exact hname => cases hform
  | placed mark hhead =>
      cases mark <;> exact ⟨_, hhead, (Option.some.inj hform).symm, rfl⟩

/-- At most one built-in pattern with a placeholder of either kind fits a name. -/
theorem eq_of_fits_builtin {name pattern other : Text} {kind kind' : PatternKind}
    (hpattern : pattern ∈ builtinTypes.map (·.1)) (hother : other ∈ builtinTypes.map (·.1))
    (hfits : Pattern.Fits kind pattern name) (hfitsOther : Pattern.Fits kind' other name) :
    pattern = other := by
  obtain ⟨⟨pattern, handler⟩, hmem, rfl⟩ := List.mem_map.1 hpattern
  obtain ⟨⟨other, handler'⟩, hmem', rfl⟩ := List.mem_map.1 hother
  obtain ⟨shape, inside, hshape, hname⟩ := hfits
  obtain ⟨shape', inside', hshape', hname'⟩ := hfitsOther
  obtain ⟨head, hhead, rfl, hkey⟩ := exists_head_of_hasShape hmem hshape
  obtain ⟨head', hhead', rfl, hkey'⟩ := exists_head_of_hasShape hmem' hshape'
  have hangle : head ++ '<' :: (inside ++ ['>']) = head' ++ '<' :: (inside' ++ ['>']) := by
    have heq := hname.symm.trans hname'
    simpa [Pattern.Shape.angled] using heq
  obtain rfl := Dispatcher.eq_of_append_angle hhead hhead' hangle
  have hkeys := Dispatcher.nodup_keys_of_registerAll registerAll_builtinTypes
  have hsame := List.inj_on_of_nodup_map hkeys hmem hmem' (hkey.trans hkey'.symm)
  rw [(Prod.mk.inj hsame).1]

theorem exclusive_builtinTypes : Pattern.Exclusive (builtinTypes.map (·.1)) where
  captures _ _ hpattern _ hother hcaptures hcapturesOther :=
    eq_of_fits_builtin hpattern hother hcaptures.fits hcapturesOther.fits
  fits _ _ hpattern _ hother hfits hfitsOther :=
    eq_of_fits_builtin hpattern hother hfits hfitsOther

end TypeRegistry

namespace Dispatcher

/-- Where no two patterns capture a type of the same name and no two with list placeholders fit
the same name, the order of registration decides nothing: patterns that are accepted in one order
are accepted in every other, and every name is sent to the same handler with the same types, or
refused for the same reason.  The built-in patterns are such patterns, for of those with a
placeholder one at most fits a name. -/
theorem resolve_order_independent :
    (∀ (H : Type) (patterns others : List (Text × H)) (d : Dispatcher H),
        patterns.Perm others → empty.registerAll patterns = .ok d →
        Pattern.Exclusive (patterns.map (·.1)) →
          ∃ d', empty.registerAll others = .ok d' ∧ ∀ name, d'.resolve name = d.resolve name) ∧
      Pattern.Exclusive (TypeRegistry.builtinTypes.map (·.1)) ∧
        ∀ name, ∀ pattern ∈ TypeRegistry.builtinTypes.map (·.1),
          ∀ other ∈ TypeRegistry.builtinTypes.map (·.1), ∀ kind kind',
            Pattern.Fits kind pattern name → Pattern.Fits kind' other name → pattern = other := by
  refine ⟨?_, TypeRegistry.exclusive_builtinTypes, ?_⟩
  · intro H patterns others d hperm hregister hexclusive
    obtain ⟨d', hregister', hentries⟩ := exists_registerAll_of_perm hperm hregister
    exact ⟨d', hregister', resolve_of_exclusive hentries hregister hexclusive⟩
  · intro name pattern hpattern other hother kind kind' hfits hfitsOther
    exact TypeRegistry.eq_of_fits_builtin hpattern hother hfits hfitsOther

/-- The built-in types, registered in the opposite order. -/
theorem resolve_reversed_builtin :
    ∃ d, empty.registerAll TypeRegistry.builtinTypes.reverse = .ok d ∧
      ∀ name, d.resolve name = TypeRegistry.builtin.resolve name := by
  obtain ⟨horder, hexclusive, -⟩ := resolve_order_independent
  exact horder TypeHandler TypeRegistry.builtinTypes TypeRegistry.builtinTypes.reverse
    TypeRegistry.builtin (List.reverse_perm _).symm TypeRegistry.registerAll_builtinTypes hexclusive

end Dispatcher
end Stencil
