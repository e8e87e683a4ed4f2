import Mathlib.Data.List.Forall2
import Stencil.Proofs.FlagValues
import Stencil.Template.Expand

namespace Stencil

/-!
# What blocks do not see

A template is expanded with the components and the attributes that the predicates of its
markers select, and with nothing else of a spec.  So if two specs declare the same flags and
agree in what is selected, by every marker of a template, then the template becomes the same
text with both, or fails with the same error.  They may differ in all that is hidden, even in
the number of hidden components, and in the flags of what is shown.

A step of the expansion reads a spec at two places.  A marker that opens a block is checked
against the declared flags, and a marker that closes one takes the view of its predicate.  The
invariant of a run is therefore that the open block, if any, shows the same of both specs.
-/

/-! ## Agreement -/

/-- Two attributes that differ in flags at most. -/
structure Attribute.Agrees (a b : Attribute) : Prop where
  name : a.name = b.name
  displayName : a.displayName = b.displayName
  typeName : a.typeName = b.typeName
  default : a.default = b.default
  custom : a.custom = b.custom

/-- The attributes that a predicate selects. -/
def Component.selected (c : Component) (predicate : Flags) : List Attribute :=
  c.attributes.filter (·.flags.satisfies predicate)

/-- Two components with the same names, the selected attributes of which agree, in order. -/
structure Component.Agrees (predicate : Flags) (c d : Component) : Prop where
  name : c.name = d.name
  displayName : c.displayName = d.displayName
  attributes : List.Forall₂ Attribute.Agrees (c.selected predicate) (d.selected predicate)

namespace Spec

/-- The components that a predicate selects. -/
def selected (spec : Spec) (predicate : Flags) : List Component :=
  spec.components.filter (·.flags.satisfies predicate)

/-- The components that a predicate selects agree, in order. -/
def AgreeOn (spec other : Spec) (predicate : Flags) : Prop :=
  List.Forall₂ (Component.Agrees predicate) (spec.selected predicate) (other.selected predicate)

end Spec

/-- Lists that agree element by element are mapped to the same list. -/
theorem map_eq_of_forall₂ {α β : Type} {agrees : α → α → Prop} {f : α → β} {xs ys : List α}
    (hf : ∀ x y, agrees x y → f x = f y) (h : List.Forall₂ agrees xs ys) :
    xs.map f = ys.map f := by
  rw [← List.forall₂_eq_eq_eq, List.forall₂_map_left_iff, List.forall₂_map_right_iff]
  exact h.imp hf

theorem Attribute.Agrees.ofAttribute_eq {a b : Attribute} (h : a.Agrees b) :
    ViewAttribute.ofAttribute a = ViewAttribute.ofAttribute b := by
  rw [ViewAttribute.mk.injEq]
  exact ⟨h.name, h.displayName, h.typeName, h.default, h.custom⟩

theorem Component.Agrees.ofComponent_eq {predicate : Flags} {c d : Component}
    (h : c.Agrees predicate d) :
    ViewComponent.ofComponent predicate c = ViewComponent.ofComponent predicate d := by
  rw [ViewComponent.mk.injEq]
  exact ⟨h.name, h.displayName, map_eq_of_forall₂ (fun _ _ => Attribute.Agrees.ofAttribute_eq)
    h.attributes⟩

/-- A block whose predicate selects what agrees shows the same. -/
theorem Spec.view_eq_of_agreeOn {spec other : Spec} {predicate : Flags}
    (huses : spec.usesFlags = true) (huses' : other.usesFlags = true)
    (h : spec.AgreeOn other predicate) : spec.view predicate = other.view predicate := by
  unfold view
  rw [huses, huses', View.mk.injEq]
  exact map_eq_of_forall₂ (fun _ _ => Component.Agrees.ofComponent_eq) h

namespace Template

variable {spec other : Spec} {template : Text} {engine : Engine}

/-! ## Steps -/

/-- A marker is checked against the declared flags alone. -/
theorem predicate_congr (hdefaults : spec.flagDefaults = other.flagDefaults) (line words : Text) :
    predicate spec line words = predicate other line words := by
  have hassignment : assignment spec line = assignment other line := by
    funext word
    unfold assignment Spec.usesFlags
    rw [hdefaults]
  have hfrom : ∀ words seen,
      predicateFrom spec line seen words = predicateFrom other line seen words := by
    intro words
    induction words with
    | nil => exact fun seen => rfl
    | cons word rest ih =>
        intro seen
        simp only [predicateFrom, hassignment, ih]
  exact hfrom words.words []

theorem expandBlock_congr {block : Block}
    (h : spec.view block.predicate = other.view block.predicate) :
    expandBlock template engine spec block = expandBlock template engine other block := by
  unfold expandBlock
  rw [h]

/-- The predicate of a marker of a template. -/
def IsPredicate (spec : Spec) (source : Text) (flags : Flags) : Prop :=
  ∃ line ∈ sourceLines source, ∃ words,
    Marker.of line.text = .opens words ∧ predicate spec line.text.trim words = .ok flags

/-- The block that is open, if any, shows the same of both specs. -/
def SameShown (spec other : Spec) (state : State) : Prop :=
  ∀ block, state.block? = some block → spec.view block.predicate = other.view block.predicate

theorem SameShown.closed (output : List Text) : SameShown spec other ⟨output, none⟩ :=
  fun block h => by cases h

/-- A line does the same with both specs, and after it what is shown is the same again. -/
theorem step_congr (hdefaults : spec.flagDefaults = other.flagDefaults) {state : State}
    (hstate : SameShown spec other state) {line : SourceLine}
    (hline : ∀ words flags, Marker.of line.text = .opens words →
      predicate spec line.text.trim words = .ok flags → spec.view flags = other.view flags) :
    step template engine spec state line = step template engine other state line ∧
      ∀ next, step template engine spec state line = .ok next → SameShown spec other next := by
  obtain ⟨output, block?⟩ := state
  cases hmarker : Marker.of line.text with
  | text =>
      cases block? with
      | none =>
          rw [step_text_outside hmarker, step_text_outside hmarker]
          exact ⟨rfl, fun next h => Except.ok.inj h ▸ .closed _⟩
      | some block =>
          rw [step_text_inside hmarker, step_text_inside hmarker]
          refine ⟨rfl, fun next h => ?_⟩
          obtain rfl := Except.ok.inj h
          exact fun later hlater => Option.some.inj hlater ▸ hstate block rfl
  | opens words =>
      cases block? with
      | none =>
          rw [step_opens_outside hmarker, step_opens_outside hmarker, predicate_congr hdefaults]
          refine ⟨rfl, fun next h => ?_⟩
          cases hflags : predicate other line.text.trim words with
          | error cause =>
              rw [hflags] at h
              cases h
          | ok flags =>
              rw [hflags] at h
              obtain rfl := Except.ok.inj h
              intro block hblock
              obtain rfl := Option.some.inj hblock
              exact hline words flags hmarker ((predicate_congr hdefaults _ _).trans hflags)
      | some block =>
          rw [step_opens_inside hmarker, step_opens_inside hmarker]
          exact ⟨rfl, fun next h => by cases h⟩
  | closes words =>
      cases block? with
      | none =>
          rw [step_closes_outside hmarker, step_closes_outside hmarker]
          exact ⟨rfl, fun next h => by cases h⟩
      | some block =>
          cases words with
          | nil =>
              rw [step_closes_inside hmarker, step_closes_inside hmarker,
                expandBlock_congr (hstate block rfl)]
              refine ⟨rfl, fun next h => ?_⟩
              obtain ⟨texts, -, rfl⟩ := Outcome.map_eq_ok_iff.1 h
              exact .closed _
          | cons c rest =>
              rw [step_closes_arguments hmarker (by simp), step_closes_arguments hmarker (by simp)]
              exact ⟨rfl, fun next h => by cases h⟩

/-- Lines do the same with both specs if every marker among them shows the same. -/
theorem foldlM_step_congr (hdefaults : spec.flagDefaults = other.flagDefaults)
    {lines : List SourceLine} (hlines : ∀ line ∈ lines, ∀ words flags,
      Marker.of line.text = .opens words → predicate spec line.text.trim words = .ok flags →
        spec.view flags = other.view flags)
    {state : State} (hstate : SameShown spec other state) :
    lines.foldlM (step template engine spec) state =
      lines.foldlM (step template engine other) state := by
  induction lines generalizing state with
  | nil => rfl
  | cons line rest ih =>
      rw [List.forall_mem_cons] at hlines
      obtain ⟨hsame, hnext⟩ := @step_congr _ _ template engine hdefaults _ hstate _ hlines.1
      rw [List.foldlM_cons, List.foldlM_cons, ← hsame]
      cases hstep : step template engine spec state line with
      | error cause => rfl
      | ok next => exact ih hlines.2 (hnext next hstep)

/-! ## Whole templates -/

/-- What the predicates of a template do not select has no influence on its expansion, be it
a text or an error. -/
theorem expand_eq_of_agree (hdefaults : spec.flagDefaults = other.flagDefaults)
    (huses : spec.usesFlags = true) {source : Text}
    (hagree : ∀ flags, IsPredicate spec source flags → spec.AgreeOn other flags) :
    engine.expand template source spec = engine.expand template source other := by
  have huses' : other.usesFlags = true := by
    rw [← huses, Spec.usesFlags, Spec.usesFlags, hdefaults]
  have hlines : ∀ line ∈ sourceLines source, ∀ words flags,
      Marker.of line.text = .opens words → predicate spec line.text.trim words = .ok flags →
        spec.view flags = other.view flags :=
    fun line hline words flags hopens hflags =>
      Spec.view_eq_of_agreeOn huses huses' (hagree flags ⟨line, hline, words, hopens, hflags⟩)
  unfold Engine.expand
  rw [foldlM_step_congr hdefaults hlines (.closed [])]

/-- A template that asks for one of two flags. -/
def shownCounts : Text :=
  "DATAMATIC_BEGIN f=true\n" ++
    "\x7b\x7bComp::name\x7d\x7d has \x7b\x7bComp::attr_count\x7d\x7d\n" ++ "DATAMATIC_END\n"

/-- Other hidden components and attributes than those of `flaggedSpec`, and other values of the
flag that is not asked for. -/
def regroupedSpec : Spec where
  flagDefaults := [("f", true), ("g", false)]
  components :=
    [⟨"p", [], [], [("f", false), ("g", true)]⟩,
      ⟨"a", [], [Spec.flaggedAttribute "z" [("f", false), ("g", true)],
        Spec.flaggedAttribute "x" [("f", true), ("g", false)]], [("f", true), ("g", true)]⟩,
      ⟨"q", [], [Spec.flaggedAttribute "x" [("f", true), ("g", false)]],
        [("f", false), ("g", false)]⟩]

/-- The only marker of the template asks for the flag `f`. -/
theorem eq_of_isPredicate_shownCounts {flags : Flags}
    (h : IsPredicate Spec.flaggedSpec shownCounts flags) : flags = ([("f", true)] : Flags) := by
  have hlines : sourceLines shownCounts = [⟨1, 0, "DATAMATIC_BEGIN f=true"⟩,
      ⟨2, 23, "\x7b\x7bComp::name\x7d\x7d has \x7b\x7bComp::attr_count\x7d\x7d"⟩,
      ⟨3, 63, "DATAMATIC_END"⟩] := by
    decide +kernel
  obtain ⟨line, hline, words, hopens, hflags⟩ := h
  rw [hlines, List.mem_cons, List.mem_cons, List.mem_singleton] at hline
  rcases hline with rfl | rfl | rfl
  · obtain rfl : _ = words := Marker.opens.inj hopens
    exact (Except.ok.inj hflags).symm
  · cases hopens
  · cases hopens

/-- The same name and the same number of attributes are shown with both specs. -/
theorem expand_regrouped :
    (∀ flags, IsPredicate Spec.flaggedSpec shownCounts flags →
      Spec.flaggedSpec.AgreeOn regroupedSpec flags) ∧
    Engine.builtin.expand [] shownCounts Spec.flaggedSpec =
      Engine.builtin.expand [] shownCounts regroupedSpec := by
  have hagree : ∀ flags, IsPredicate Spec.flaggedSpec shownCounts flags →
      Spec.flaggedSpec.AgreeOn regroupedSpec flags := by
    intro flags hflags
    obtain rfl := eq_of_isPredicate_shownCounts hflags
    exact .cons ⟨rfl, rfl, .cons ⟨rfl, rfl, rfl, rfl, rfl⟩ .nil⟩ .nil
  have hdefaults : Spec.flaggedSpec.flagDefaults = regroupedSpec.flagDefaults := rfl
  have huses : Spec.flaggedSpec.usesFlags = true := rfl
  exact ⟨hagree, expand_eq_of_agree hdefaults huses hagree⟩

end Template
end Stencil
