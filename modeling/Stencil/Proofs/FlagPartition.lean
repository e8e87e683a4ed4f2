import Mathlib.Data.List.Perm.Basic
import Stencil.Proofs.ExpansionProgress
import Stencil.Proofs.FlagValues

namespace Stencil

/-!
# Blocks that ask for one more flag

In a spec that was read from a document every component and every attribute has a value for each
declared flag.  So if a predicate is made stricter by a flag, what it showed before is shown
either where the flag is to be true or where it is to be false, and never in both places; an
object without a value would be shown in neither.  `view_partition` states this for components
and for the attributes that are listed with them.

A predicate is written as the words of a marker, in any order: `predicate_eq_ok_iff` says which
words are accepted, and the order of the assignments does not matter to the view.
-/

/-! ## Predicates -/

namespace Flags

/-- What a predicate asks for is the same in any order. -/
theorem satisfies_perm {predicate other : Flags} (hperm : predicate.Perm other) (flags : Flags) :
    flags.satisfies predicate = flags.satisfies other :=
  hperm.all_eq

/-- A predicate with one more flag asks for the value of this flag, too. -/
theorem satisfies_append (predicate : Flags) (flag : Text) (value : Bool) (flags : Flags) :
    flags.satisfies (predicate ++ [(flag, value)]) =
      (flags.satisfies predicate && decide (Fields.get? flag flags = some value)) := by
  rw [satisfies, List.all_append]
  simp [satisfies, beq_eq_decide]

/-- Flags with a value for the flag satisfy the stricter predicate for exactly one value. -/
theorem existsUnique_satisfies_append {flags predicate : Flags} {flag : Text}
    (hflag : flag ∈ flags.names) (hsatisfied : flags.satisfies predicate = true) :
    ∃! value, flags.satisfies (predicate ++ [(flag, value)]) = true := by
  simp only [satisfies_append, hsatisfied, Bool.true_and, decide_eq_true_eq]
  rw [← Fields.contains_iff_mem_names, Fields.contains, Option.isSome_iff_exists] at hflag
  obtain ⟨value, hvalue⟩ := hflag
  exact ⟨value, hvalue, fun other hother => Option.some.inj (hother.symm.trans hvalue)⟩

end Flags

/-! ## The words of a marker -/

namespace Template

variable {spec : Spec}

theorem eq_ofBool_of_truthValue? {word : Text} {value : Bool}
    (h : truthValue? word = some value) : word = Text.ofBool value := by
  unfold truthValue? at h
  split at h
  · rename_i hword
    obtain rfl := Option.some.inj h
    exact hword
  · split at h
    · rename_i hword
      obtain rfl := Option.some.inj h
      exact hword
    · cases h

/-- A word that is read as an assignment is written as that. -/
theorem eq_of_assignment {line word flag : Text} {value : Bool}
    (h : assignment spec line word = .ok (flag, value)) :
    word = flag ++ "=" ++ Text.ofBool value ∧ (flag ≠ [] ∧ '=' ∉ flag) ∧
      (spec.usesFlags = true → spec.flagDefaults.contains flag = true) := by
  unfold assignment at h
  split at h
  · cases h
  · rename_i head tail hsplit
    split at h
    · cases h
    · rename_i hnamed
      split at h
      · cases h
      · rename_i truth htruth
        split at h
        · cases h
        · rename_i hknown
          simp only [Except.ok.injEq, Prod.mk.injEq] at h
          obtain ⟨rfl, rfl⟩ := h
          obtain ⟨hword, hfirst⟩ := Text.splitOnce?_eq_some_iff.1 hsplit
          refine ⟨by rw [hword, eq_ofBool_of_truthValue? htruth], ⟨by simpa using hnamed, ?_⟩, ?_⟩
          · -- An equals sign in the flag would come before the first one.
            intro hmem
            obtain ⟨front, rest, rfl⟩ := List.append_of_mem hmem
            have hle := hfirst front (rest ++ ("=" ++ tail)) (by simp [hword])
            rw [List.length_append, List.length_cons] at hle
            omega
          · intro huses
            simpa [huses] using hknown

/-- Words that are read as flags, after those of `seen`, assign values to other flags. -/
theorem exists_of_predicateFrom {line : Text} {words : List Text} {seen result : Flags}
    (hseen : seen.names.Nodup) (h : predicateFrom spec line seen words = .ok result) :
    ∃ flags, IsAssignments spec words flags ∧ result = seen ++ flags ∧ result.names.Nodup := by
  induction words generalizing seen with
  | nil =>
      obtain rfl : seen = result := Except.ok.inj h
      refine ⟨[], ⟨rfl, List.nodup_nil, ?_, ?_⟩, (List.append_nil seen).symm, hseen⟩
      · exact fun flag hflag => by cases hflag
      · exact fun _ flag hflag => by cases hflag
  | cons word rest ih =>
      rw [predicateFrom] at h
      obtain ⟨⟨flag, value⟩, hword, h⟩ := Outcome.bind_eq_ok_iff.1 h
      obtain ⟨hwritten, hnamed, hdeclared⟩ := eq_of_assignment hword
      dsimp only at h
      split at h
      · cases h
      · rename_i hfresh
        rw [Fields.contains_iff_mem_names] at hfresh
        have hnext : (Fields.names (seen ++ [(flag, value)])).Nodup := by
          rw [Fields.names_append]
          exact List.concat_eq_append ▸ List.Nodup.concat hfresh hseen
        obtain ⟨flags, hflags, rfl, hnodup⟩ := ih hnext h
        refine ⟨(flag, value) :: flags, ⟨?_, ?_, ?_, ?_⟩, by simp, hnodup⟩
        · rw [hwritten, hflags.words_eq, List.map_cons]
        · rw [List.append_assoc, Fields.names_append] at hnodup
          exact hnodup.of_append_right
        · exact List.forall_mem_cons.2 ⟨hnamed, hflags.named⟩
        · exact fun huses => List.forall_mem_cons.2 ⟨hdeclared huses, hflags.declared huses⟩

/-- A marker is accepted exactly if its words assign values to flags. -/
theorem predicate_eq_ok_iff {line words : Text} {flags : Flags} :
    predicate spec line words = .ok flags ↔ IsAssignments spec words.words flags := by
  refine ⟨fun h => ?_, predicate_eq_ok line⟩
  have hnone : (Fields.names ([] : Flags)).Nodup := List.nodup_nil
  obtain ⟨_, hflags, rfl, -⟩ := exists_of_predicateFrom hnone h
  exact hflags

/-- Words assign the same values in any order. -/
theorem IsAssignments.perm {words others : List Text} {flags : Flags}
    (hflags : IsAssignments spec words flags) (hperm : others.Perm words) :
    ∃ reordered : Flags, IsAssignments spec others reordered ∧ reordered.Perm flags := by
  have hwritten : List.Forall₂ (fun word (flag : Text × Bool) =>
      word = flag.1 ++ "=" ++ Text.ofBool flag.2) words flags := by
    rw [hflags.words_eq, List.forall₂_map_left_iff]
    exact List.forall₂_same.2 fun _ _ => rfl
  obtain ⟨reordered, hothers, hreordered⟩ := List.perm_comp_forall₂ hperm hwritten
  have hnames : (Fields.names reordered).Perm flags.names := hreordered.map Prod.fst
  refine ⟨reordered, ⟨?_, hnames.nodup_iff.2 hflags.nodup, ?_, ?_⟩, hreordered⟩
  · rw [← List.forall₂_eq_eq_eq, List.forall₂_map_right_iff]
    exact hothers
  · exact fun flag hflag => hflags.named flag (hnames.mem_iff.1 hflag)
  · exact fun huses flag hflag => hflags.declared huses flag (hnames.mem_iff.1 hflag)

end Template

/-! ## Views -/

/-- A component with all its attributes. -/
def ViewComponent.whole (c : Component) : ViewComponent :=
  { name := c.name
    displayName := c.displayName
    attributes := c.attributes.map ViewAttribute.ofAttribute }

/-- A component with those attributes that satisfy the predicate and have this value of the flag. -/
def ViewComponent.withValue (predicate : Flags) (flag : Text) (value : Bool) (c : Component) :
    ViewComponent :=
  { ofComponent predicate c with
    attributes := ((c.attributes.filter (·.flags.satisfies predicate)).filter
      fun a => Fields.get? flag a.flags = some value).map ViewAttribute.ofAttribute }

/-- To ask for one more flag leaves the attributes with the value that is asked for. -/
theorem ViewComponent.ofComponent_append (predicate : Flags) (flag : Text) (value : Bool) :
    ofComponent (predicate ++ [(flag, value)]) = withValue predicate flag value := by
  funext c
  simp only [ofComponent, withValue, Flags.satisfies_append, List.filter_filter, Bool.and_comm]

namespace View

/-- The names of the components of a view, in order. -/
def names (view : View) : List Text := view.components.map (·.name)

end View

namespace Spec

variable {spec : Spec}

theorem view_of_usesFlags (huses : spec.usesFlags = true) (predicate : Flags) :
    (spec.view predicate).components =
      (spec.components.filter (·.flags.satisfies predicate)).map
        (ViewComponent.ofComponent predicate) := by
  unfold view
  rw [huses]
  rfl

/-- A spec without flags is seen as a whole. -/
theorem view_of_not_usesFlags (huses : spec.usesFlags = false) (predicate : Flags) :
    spec.view predicate = ⟨spec.components.map ViewComponent.whole⟩ := by
  have hall : ∀ flags : Flags, flags.satisfies [] = true := fun _ => rfl
  have hwhole : ViewComponent.ofComponent [] = ViewComponent.whole := by
    funext c
    simp only [ViewComponent.ofComponent, ViewComponent.whole, hall, List.filter_true]
  unfold view
  simp only [huses, hall, List.filter_true, hwhole, Bool.false_eq_true, if_false]

/-- A view does not depend on the order of its predicate. -/
theorem view_perm {predicate other : Flags} (hperm : predicate.Perm other) :
    spec.view predicate = spec.view other := by
  cases huses : spec.usesFlags with
  | false => rw [view_of_not_usesFlags huses, view_of_not_usesFlags huses]
  | true =>
      have hcomponent : ViewComponent.ofComponent predicate = ViewComponent.ofComponent other := by
        funext c
        simp only [ViewComponent.ofComponent, Flags.satisfies_perm hperm]
      rw [View.mk.injEq, view_of_usesFlags huses, view_of_usesFlags huses, hcomponent]
      simp only [Flags.satisfies_perm hperm]

theorem names_view (huses : spec.usesFlags = true) (predicate : Flags) :
    (spec.view predicate).names =
      (spec.components.filter (·.flags.satisfies predicate)).map (·.name) := by
  rw [View.names, view_of_usesFlags huses, List.map_map]
  rfl

/-- If components have different names, a name is shown where its component is. -/
theorem mem_names_view_iff (huses : spec.usesFlags = true)
    (hnames : (spec.components.map (·.name)).Nodup) {c : Component} (hc : c ∈ spec.components)
    (predicate : Flags) :
    c.name ∈ (spec.view predicate).names ↔ c.flags.satisfies predicate = true := by
  rw [names_view huses, List.mem_map]
  refine ⟨fun ⟨other, hother, hname⟩ => ?_, fun h => ⟨c, List.mem_filter.2 ⟨hc, h⟩, rfl⟩⟩
  obtain ⟨hmem, hsatisfied⟩ := List.mem_filter.1 hother
  obtain rfl := List.inj_on_of_nodup_map hnames hmem hc hname
  exact hsatisfied

/-- The view splits in two if its predicate is made stricter by a flag. -/
structure SplitBy (spec : Spec) (predicate : Flags) (flag : Text) : Prop where
  /-- Every component goes to exactly one side. -/
  once : ∀ shown ∈ (spec.view predicate).components,
    ∃! value, shown.name ∈ (spec.view (predicate ++ [(flag, value)])).names
  /-- Both sides have components of the view, in its order, and no others. -/
  ordered : ∀ value,
    (spec.view (predicate ++ [(flag, value)])).names.Sublist (spec.view predicate).names
  /-- A component keeps the attributes that have the value of its side. -/
  attributes : ∀ value, ∀ shown ∈ (spec.view (predicate ++ [(flag, value)])).components,
    ∃ c ∈ spec.components, ViewComponent.ofComponent predicate c ∈
      (spec.view predicate).components ∧ shown = ViewComponent.withValue predicate flag value c

/-- Views split by every flag for which all components have a value. -/
theorem splitBy_of_hasFlags (huses : spec.usesFlags = true) (hflags : spec.HasFlags)
    (hnames : (spec.components.map (·.name)).Nodup) (predicate : Flags) {flag : Text}
    (hdeclared : spec.flagDefaults.contains flag = true) : spec.SplitBy predicate flag where
  once := by
    intro shown hshown
    rw [view_of_usesFlags huses] at hshown
    obtain ⟨c, hc, rfl⟩ := List.mem_map.1 hshown
    obtain ⟨hmem, hsatisfied⟩ := List.mem_filter.1 hc
    have hflag : flag ∈ c.flags.names := by
      rw [hflags.components c hmem]
      exact Fields.contains_iff_mem_names.1 hdeclared
    show ∃! value, c.name ∈ (spec.view (predicate ++ [(flag, value)])).names
    simp only [mem_names_view_iff huses hnames hmem]
    exact Flags.existsUnique_satisfies_append hflag hsatisfied
  ordered := by
    intro value
    rw [names_view huses, names_view huses]
    refine List.Sublist.map _ (List.monotone_filter_right _ fun c hc => ?_)
    rw [Flags.satisfies_append, Bool.and_eq_true] at hc
    exact hc.1
  attributes := by
    intro value shown hshown
    rw [view_of_usesFlags huses, ViewComponent.ofComponent_append] at hshown
    obtain ⟨c, hc, rfl⟩ := List.mem_map.1 hshown
    obtain ⟨hmem, hsatisfied⟩ := List.mem_filter.1 hc
    rw [Flags.satisfies_append, Bool.and_eq_true] at hsatisfied
    refine ⟨c, hmem, ?_, rfl⟩
    rw [view_of_usesFlags huses]
    exact List.mem_map_of_mem (List.mem_filter.2 ⟨hmem, hsatisfied.1⟩)

/-- In a spec that was read from a document, declared flags split every view, and if there are none
every view is the whole spec.  The words of a marker are accepted in every order or in none, and
the view is the same. -/
theorem view_partition {source : Text} (hparse : parse source = .ok spec) :
    (spec.usesFlags = true → ∀ predicate flag, spec.flagDefaults.contains flag = true →
      spec.SplitBy predicate flag) ∧
    (spec.usesFlags = false → ∀ predicate,
      spec.view predicate = ⟨spec.components.map ViewComponent.whole⟩) ∧
    ∀ line words flags, Template.predicate spec line words = .ok flags →
      ∀ line' words', words'.words.Perm words.words →
        ∃ flags', Template.predicate spec line' words' = .ok flags' ∧
          spec.view flags' = spec.view flags := by
  refine ⟨fun huses predicate flag hdeclared => ?_, view_of_not_usesFlags, ?_⟩
  · exact splitBy_of_hasFlags huses (hasFlags_of_parse hparse)
      (separated_of_parse hparse).components_nodup predicate hdeclared
  · intro line words flags hflags line' words' hperm
    obtain ⟨reordered, hreordered, hsame⟩ :=
      (Template.predicate_eq_ok_iff.1 hflags).perm hperm
    exact ⟨reordered, Template.predicate_eq_ok_iff.2 hreordered, view_perm hsame⟩

/-- One component has the flag, the other does not, and the words of a marker can be swapped. -/
theorem view_flaggedSpec :
    parse flaggedDocument = .ok flaggedSpec ∧ flaggedSpec.SplitBy [] "f" ∧
      (flaggedSpec.view []).names = ["a", "b"] ∧
      (flaggedSpec.view [("f", true)]).names = ["a"] ∧
      (flaggedSpec.view [("f", false)]).names = ["b"] ∧
      ∃ flags, Template.predicate flaggedSpec [] "g=true f=true" = .ok flags ∧
        flaggedSpec.view flags = flaggedSpec.view [("f", true), ("g", true)] := by
  have hparse : parse flaggedDocument = .ok flaggedSpec := parse_eq_ok_iff.2
    ⟨flaggedRaw, read_flaggedDocument, check_eq_ok_iff.2 ⟨by decide, accepted_flaggedRaw⟩, rfl⟩
  obtain ⟨hsplit, -, horder⟩ := view_partition hparse
  refine ⟨hparse, hsplit rfl [] "f" rfl, rfl, rfl, rfl, ?_⟩
  exact horder [] "f=true g=true" [("f", true), ("g", true)] rfl [] "g=true f=true" (.swap ..)

end Spec
end Stencil
