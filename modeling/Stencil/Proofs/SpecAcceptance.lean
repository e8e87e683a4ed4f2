import Stencil.Proofs.JsonIdentity
import Stencil.Spec.Check

namespace Stencil

/-!
# What an accepted spec is like

A spec is accepted if its names tell its components apart, and the attributes of
each component; if neither names nor types are blank; and if its flags are
declared.  `check_eq_ok_iff` states this without the order in which the checks are
made.

`Spec.Separated` is the part of it that later stages lean on: names that differ,
and values that equal themselves.  It holds of every spec that is read from a
document.
-/

deriving instance DecidableEq for Attribute, Component, Spec

namespace SourceContext

theorem checkName_eq_ok_iff {context : SourceContext} {name kind : Text} :
    context.checkName name kind = .ok () ↔ name.isBlank = false := by
  unfold checkName
  cases name.isBlank with
  | true => simp
  | false => simp

theorem checkFlags_eq_ok_iff {context : SourceContext} {flags defaults : Flags} {kind : Text} :
    context.checkFlags flags defaults kind = .ok () ↔
      ∀ flag ∈ flags.names, defaults.contains flag = true := by
  unfold checkFlags
  cases hfind : flags.names.find? fun flag => !defaults.contains flag with
  | some flag =>
      have hflag := List.find?_some hfind
      have hmem := List.mem_of_find?_eq_some hfind
      simp only [reduceCtorEq, false_iff]
      intro hall
      rw [hall flag hmem] at hflag
      cases hflag
  | none =>
      rw [List.find?_eq_none] at hfind
      simpa using hfind

end SourceContext

/-- What is asked of an attribute by itself. -/
structure Attribute.Accepted (defaults : Flags) (a : Attribute) : Prop where
  name_not_blank : a.name.isBlank = false
  type_not_blank : a.typeName.isBlank = false
  flags_declared : ∀ flag ∈ a.flags.names, defaults.contains flag = true

/-- What is asked of a component by itself. -/
structure Component.Accepted (defaults : Flags) (c : Component) : Prop where
  name_not_blank : c.name.isBlank = false
  flags_declared : ∀ flag ∈ c.flags.names, defaults.contains flag = true
  attributes_nodup : (c.attributes.map (·.name)).Nodup
  attributes_accepted : ∀ a ∈ c.attributes, a.Accepted defaults

namespace Spec

/-- Insists on a condition. -/
def insist (condition : Bool) (cause : SpecError) : Except SpecError Unit :=
  if condition then .ok () else .error cause

theorem insist_eq_ok_iff {condition : Bool} {cause : SpecError} :
    insist condition cause = .ok () ↔ condition = true := by
  cases condition with
  | true => simp [insist]
  | false => simp [insist]

/-- The checks of an attribute, in their order, before those of the attributes after it. -/
theorem checkAttributes_cons (context : SourceContext) (component : Text) (defaults : Flags)
    (seen : List Text) (a : Attribute) (rest : List Attribute) :
    checkAttributes context component defaults seen (a :: rest) = (do
      context.checkName a.name "attribute"
      insist (a.name ∉ seen) (.duplicateAttribute component a.name (context.findSpan a.name))
      insist (!a.typeName.isBlank)
        (.blankType ((context.push a.name).describe "attribute") (context.findSpan a.name))
      (context.push a.name).checkFlags a.flags defaults "attribute"
      checkAttributes context component defaults (a.name :: seen) rest) := by
  rw [checkAttributes]
  refine bind_congr fun _ => ?_
  by_cases hseen : a.name ∈ seen
  · simp only [insist, hseen, not_true_eq_false, decide_false, if_true]
    rfl
  · simp only [insist, hseen, not_false_eq_true, decide_true, if_true, if_false]
    cases a.typeName.isBlank with
    | true => rfl
    | false => rfl

/-- The checks of a component, in their order, before those of the components after it. -/
theorem checkComponents_cons (context : SourceContext) (defaults : Flags) (seen : List Text)
    (c : Component) (rest : List Component) :
    checkComponents context defaults seen (c :: rest) = (do
      context.checkName c.name "component"
      insist (c.name ∉ seen) (.duplicateComponent c.name (context.findSpan c.name))
      (context.push c.name).checkFlags c.flags defaults "component"
      checkAttributes (context.push c.name) c.name defaults [] c.attributes
      checkComponents context defaults (c.name :: seen) rest) := by
  rw [checkComponents]
  refine bind_congr fun _ => ?_
  by_cases hseen : c.name ∈ seen
  · simp only [insist, hseen, not_true_eq_false, decide_false, if_true]
    rfl
  · simp only [insist, hseen, not_false_eq_true, decide_true, if_true, if_false]
    rfl

/-- What has a name other than the first one after it is new. -/
theorem nodup_and_fresh_iff {α : Type} {name : α → Text} {accepted : α → Prop} {first : Text}
    {seen : List Text} {rest : List α} :
    ((rest.map name).Nodup ∧ ∀ other ∈ rest, name other ∉ first :: seen ∧ accepted other) ↔
      (first ∉ rest.map name ∧ (rest.map name).Nodup) ∧
        ∀ other ∈ rest, name other ∉ seen ∧ accepted other := by
  have hfirst : first ∉ rest.map name ↔ ∀ other ∈ rest, name other ≠ first := by simp
  rw [hfirst]
  simp only [List.mem_cons, not_or, and_assoc, forall_and]
  exact and_left_comm

/-- Attributes pass exactly if their names are new and differ, and each is accepted. -/
theorem checkAttributes_eq_ok_iff {context : SourceContext} {component : Text} {defaults : Flags}
    {seen : List Text} {attributes : List Attribute} :
    checkAttributes context component defaults seen attributes = .ok () ↔
      (attributes.map (·.name)).Nodup ∧
        ∀ a ∈ attributes, a.name ∉ seen ∧ a.Accepted defaults := by
  induction attributes generalizing seen with
  | nil => simp [checkAttributes]
  | cons a rest ih =>
      rw [checkAttributes_cons, List.map_cons, List.nodup_cons, List.forall_mem_cons]
      simp only [Outcome.seq_eq_ok_iff, SourceContext.checkName_eq_ok_iff, insist_eq_ok_iff,
        SourceContext.checkFlags_eq_ok_iff, ih, decide_eq_true_eq, Bool.not_eq_true',
        nodup_and_fresh_iff]
      constructor
      · rintro ⟨hname, hseen, htype, hflags, hnodup, hrest⟩
        exact ⟨hnodup, ⟨hseen, hname, htype, hflags⟩, hrest⟩
      · rintro ⟨hnodup, ⟨hseen, ha⟩, hrest⟩
        exact ⟨ha.name_not_blank, hseen, ha.type_not_blank, ha.flags_declared, hnodup, hrest⟩

/-- Components pass exactly if their names are new and differ, and each is accepted. -/
theorem checkComponents_eq_ok_iff {context : SourceContext} {defaults : Flags} {seen : List Text}
    {components : List Component} :
    checkComponents context defaults seen components = .ok () ↔
      (components.map (·.name)).Nodup ∧
        ∀ c ∈ components, c.name ∉ seen ∧ c.Accepted defaults := by
  induction components generalizing seen with
  | nil => simp [checkComponents]
  | cons c rest ih =>
      rw [checkComponents_cons, List.map_cons, List.nodup_cons, List.forall_mem_cons]
      simp only [Outcome.seq_eq_ok_iff, SourceContext.checkName_eq_ok_iff, insist_eq_ok_iff,
        SourceContext.checkFlags_eq_ok_iff, checkAttributes_eq_ok_iff, ih, decide_eq_true_eq,
        nodup_and_fresh_iff, List.not_mem_nil, not_false_eq_true, true_and]
      constructor
      · rintro ⟨hname, hseen, hflags, ⟨hattributes, haccepted⟩, hnodup, hrest⟩
        exact ⟨hnodup, ⟨hseen, hname, hflags, hattributes, haccepted⟩, hrest⟩
      · rintro ⟨hnodup, ⟨hseen, hc⟩, hrest⟩
        exact ⟨hc.name_not_blank, hseen, hc.flags_declared,
          ⟨hc.attributes_nodup, hc.attributes_accepted⟩, hnodup, hrest⟩

/-- A spec passes exactly if the names of its components differ and each of them is accepted. -/
theorem check_eq_ok_iff {spec : Spec} {source : Text} :
    spec.check source = .ok () ↔
      (spec.components.map (·.name)).Nodup ∧
        ∀ c ∈ spec.components, c.Accepted spec.flagDefaults := by
  unfold check
  rw [checkComponents_eq_ok_iff]
  simp

/-- Reading a spec succeeds exactly if its document does and the spec passes. -/
theorem parse_eq_ok_iff {source : Text} {spec : Spec} :
    parse source = .ok spec ↔
      ∃ raw, Document.read source = .ok raw ∧ raw.check source = .ok () ∧
        spec = raw.resolveFlags := by
  unfold parse
  cases Document.read source with
  | error cause => simp
  | ok raw =>
      simp only [Outcome.map_eq_ok_iff, Except.ok.injEq, exists_eq_left']
      constructor
      · rintro ⟨_, hcheck, rfl⟩
        exact ⟨hcheck, rfl⟩
      · rintro ⟨hcheck, rfl⟩
        exact ⟨(), hcheck, rfl⟩

/-! ## Names and values -/

/-- The values of an attribute equal themselves. -/
def AttributeValues (a : Attribute) : Prop :=
  a.default.Distinct ∧ ∀ v, a.custom = some v → v.Distinct

/-- Names tell the components apart, and the attributes of each of them; and the values of
attributes equal themselves. -/
structure Separated (spec : Spec) : Prop where
  components_nodup : (spec.components.map (·.name)).Nodup
  attributes_nodup : ∀ c ∈ spec.components, (c.attributes.map (·.name)).Nodup
  values : ∀ c ∈ spec.components, ∀ a ∈ c.attributes, AttributeValues a

namespace Document

open Json Json.Reader

/-- The values of a draft equal themselves. -/
def DraftValues (draft : AttributeDraft) : Prop :=
  (∀ v, draft.default = some v → v.Distinct) ∧ ∀ v, draft.custom = some (some v) → v.Distinct

theorem gives_optionalValue :
    Gives optionalValue fun custom => ∀ v, custom = some v → v.Distinct := by
  refine gives_bind (gives_value valueDepth) fun v hv => ?_
  cases v with
  | null => exact gives_pure (by simp)
  | _ => exact gives_pure fun w hw => Option.some.inj hw ▸ hv

theorem gives_attributeFields {field : RecordField AttributeDraft}
    (hfield : field ∈ attributeFields) {draft : AttributeDraft} (hdraft : DraftValues draft) :
    Gives (field.read draft) DraftValues := by
  obtain ⟨hdefault, hcustom⟩ := hdraft
  simp only [attributeFields, List.mem_cons, List.not_mem_nil, or_false] at hfield
  rcases hfield with rfl | rfl | rfl | rfl | rfl | rfl
  · exact gives_after _ fun _ => gives_pure ⟨hdefault, hcustom⟩
  · exact gives_after _ fun _ => gives_pure ⟨hdefault, hcustom⟩
  · exact gives_after _ fun _ => gives_pure ⟨hdefault, hcustom⟩
  · refine gives_bind (gives_value valueDepth) fun v hv => gives_pure ⟨?_, hcustom⟩
    intro w hw
    exact Option.some.inj hw ▸ hv
  · exact gives_after _ fun _ => gives_pure ⟨hdefault, hcustom⟩
  · refine gives_bind gives_optionalValue fun v hv => gives_pure ⟨hdefault, ?_⟩
    intro w hw
    exact hv w (Option.some.inj hw)

/-- Attributes are read with values that equal themselves. -/
theorem gives_readAttribute : Gives readAttribute AttributeValues := by
  have hnone : DraftValues {} := by
    constructor
    · intro v hv
      cases hv
    · intro v hv
      cases hv
  refine gives_record (fun field hfield draft => gives_attributeFields hfield) hnone ?_
  intro last hlast a ha
  unfold AttributeDraft.finish? at ha
  simp only [Option.bind_eq_bind, Option.bind_eq_some_iff, pure, Option.some.injEq] at ha
  obtain ⟨name, -, displayName, -, typeName, -, default, hdefault, rfl⟩ := ha
  refine ⟨hlast.1 default hdefault, ?_⟩
  intro v hv
  cases hcustom : last.custom with
  | none =>
      rw [hcustom] at hv
      cases hv
  | some custom =>
      rw [hcustom] at hv
      exact hlast.2 v (by rw [hcustom, ← hv]; rfl)

/-- The values of the attributes that have been read equal themselves. -/
def ComponentValues (draft : ComponentDraft) : Prop :=
  ∀ attributes, draft.attributes = some attributes → ∀ a ∈ attributes, AttributeValues a

theorem gives_readComponent :
    Gives readComponent fun c => ∀ a ∈ c.attributes, AttributeValues a := by
  have hnone : ComponentValues {} := fun attributes h => by cases h
  refine gives_record (I := ComponentValues) ?_ hnone ?_
  · intro field hfield draft hdraft
    simp only [componentFields, List.mem_cons, List.not_mem_nil, or_false] at hfield
    rcases hfield with rfl | rfl | rfl | rfl
    · exact gives_after _ fun _ => gives_pure hdraft
    · exact gives_after _ fun _ => gives_pure hdraft
    · refine gives_bind (gives_listOf gives_readAttribute) fun attributes hattributes => ?_
      exact gives_pure fun found hfound => Option.some.inj hfound ▸ hattributes
    · exact gives_after _ fun _ => gives_pure hdraft
  · intro last hlast c hc
    unfold ComponentDraft.finish? at hc
    simp only [Option.bind_eq_bind, Option.bind_eq_some_iff, pure, Option.some.injEq] at hc
    obtain ⟨name, -, displayName, -, attributes, hattributes, rfl⟩ := hc
    exact hlast attributes hattributes

/-- The values in the components that have been read equal themselves. -/
def SpecValues (draft : SpecDraft) : Prop :=
  ∀ components, draft.components = some components →
    ∀ c ∈ components, ∀ a ∈ c.attributes, AttributeValues a

/-- The values in a document of a spec equal themselves. -/
theorem values_of_read {source : Text} {spec : Spec} (hread : read source = .ok spec) :
    ∀ c ∈ spec.components, ∀ a ∈ c.attributes, AttributeValues a := by
  have hnone : SpecValues {} := fun components h => by cases h
  refine gives_document (P := fun spec : Spec => ∀ c ∈ spec.components, ∀ a ∈ c.attributes,
    AttributeValues a) (gives_record (I := SpecValues) ?_ hnone ?_) hread
  · intro field hfield draft hdraft
    simp only [specFields, List.mem_cons, List.not_mem_nil, or_false] at hfield
    rcases hfield with rfl | rfl
    · exact gives_after _ fun _ => gives_pure hdraft
    · refine gives_bind (gives_listOf gives_readComponent) fun components hcomponents => ?_
      exact gives_pure fun found hfound => Option.some.inj hfound ▸ hcomponents
  · intro last hlast spec hspec
    unfold SpecDraft.finish? at hspec
    simp only [Option.bind_eq_bind, Option.bind_eq_some_iff, pure, Option.some.injEq] at hspec
    obtain ⟨components, hcomponents, rfl⟩ := hspec
    exact hlast components hcomponents

end Document

/-- Giving every flag a value changes neither names nor values. -/
theorem Separated.resolveFlags {spec : Spec} (hspec : spec.Separated) :
    spec.resolveFlags.Separated where
  components_nodup := by
    have hnames : spec.resolveFlags.components.map (·.name) = spec.components.map (·.name) := by
      simp [Spec.resolveFlags, resolveComponent, Function.comp_def]
    rw [hnames]
    exact hspec.components_nodup
  attributes_nodup := by
    intro c hc
    obtain ⟨raw, hraw, rfl⟩ := List.mem_map.1 hc
    have hnames : (resolveComponent spec.flagDefaults raw).attributes.map (·.name) =
        raw.attributes.map (·.name) := by
      simp [resolveComponent, resolveAttribute, Function.comp_def]
    rw [hnames]
    exact hspec.attributes_nodup raw hraw
  values := by
    intro c hc a ha
    obtain ⟨raw, hraw, rfl⟩ := List.mem_map.1 hc
    obtain ⟨rawAttribute, hattribute, rfl⟩ := List.mem_map.1 ha
    exact hspec.values raw hraw rawAttribute hattribute

/-- In a spec that is read from a document names tell the objects apart, and values equal
themselves. -/
theorem separated_of_parse {source : Text} {spec : Spec} (hparse : parse source = .ok spec) :
    spec.Separated := by
  obtain ⟨raw, hread, hcheck, rfl⟩ := parse_eq_ok_iff.1 hparse
  obtain ⟨hnodup, haccepted⟩ := check_eq_ok_iff.1 hcheck
  have hraw : raw.Separated :=
    { components_nodup := hnodup
      attributes_nodup := fun c hc => (haccepted c hc).attributes_nodup
      values := Document.values_of_read hread }
  exact hraw.resolveFlags

end Spec
end Stencil
