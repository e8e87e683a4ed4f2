import Stencil.Proofs.SpecAcceptance

namespace Stencil

/-!
# The values of flags

A component or an attribute gives values to some of the declared flags, and takes the
defaults of the others.  `Flags.completed` states the outcome flag by flag, in the order of
the declarations, and `resolve_eq_completed` says that to put the given values in the place
of the defaults, one after the other, comes to the same.

A map of flags that is read from a document has no flag twice.  So the objects of a spec
that was read have one value for each declared flag, and no other flags (`Spec.HasFlags`).
-/

namespace Fields

variable {α : Type}

/-- A name that is there already gets its new value in its place. -/
theorem insert_of_mem {name : Text} {fields : Fields α} (hnodup : (names fields).Nodup)
    (hmem : name ∈ names fields) (value : α) :
    insert name value fields =
      fields.map fun field => (field.1, if field.1 = name then value else field.2) := by
  induction fields with
  | nil => cases hmem
  | cons first rest ih =>
      obtain ⟨key, old⟩ := first
      rw [names_cons, List.nodup_cons] at hnodup
      by_cases hkey : key = name
      · -- The other names differ from this one, so their values stay.
        have hrest : ∀ field ∈ rest, field.1 ≠ name := by
          intro field hfield hname
          have hlater : field.1 ∈ names rest := List.mem_map_of_mem hfield
          rw [hname, ← hkey] at hlater
          exact hnodup.1 hlater
        have hsame : rest.map (fun field => (field.1, if field.1 = name then value else field.2)) =
            rest := by
          refine (List.map_congr_left fun field hfield => ?_).trans (List.map_id rest)
          rw [if_neg (hrest field hfield)]
          rfl
        rw [insert, if_pos hkey, List.map_cons, hsame, if_pos hkey]
      · rw [names_cons, List.mem_cons] at hmem
        rw [insert, if_neg hkey, ih hnodup.2 (hmem.resolve_left (Ne.symm hkey)), List.map_cons,
          if_neg hkey]

theorem get?_eq_none_iff {name : Text} {fields : Fields α} :
    get? name fields = none ↔ name ∉ names fields := by
  rw [← contains_iff_mem_names, contains, Option.isSome_iff_ne_none, not_not]

end Fields

namespace Flags

/-! ## Completed flags -/

/-- Every declared flag, in order, with the value of its own if there is one and with the default
otherwise. -/
def completed (defaults own : Flags) : Flags :=
  defaults.map fun flag => (flag.1, (Fields.get? flag.1 own).getD flag.2)

@[simp]
theorem names_completed (defaults own : Flags) : (completed defaults own).names = defaults.names := by
  simp [completed, Fields.names, Function.comp_def]

/-- The value of a flag is its own, or the default. -/
theorem get?_completed (flag : Text) (defaults own : Flags) :
    Fields.get? flag (completed defaults own) =
      (Fields.get? flag defaults).map fun value => (Fields.get? flag own).getD value := by
  induction defaults with
  | nil => rfl
  | cons first rest ih =>
      obtain ⟨key, value⟩ := first
      show Fields.get? flag ((key, (Fields.get? key own).getD value) :: completed rest own) = _
      by_cases hkey : key = flag
      · simp [Fields.get?, hkey]
      · simp [Fields.get?, hkey, ih]

/-- Flags that are complete already stay as they are. -/
theorem completed_completed {defaults : Flags} (hdefaults : defaults.names.Nodup) (own : Flags) :
    completed defaults (completed defaults own) = completed defaults own := by
  refine List.map_congr_left fun flag hflag => ?_
  rw [get?_completed, Fields.get?_of_mem hdefaults hflag]
  rfl

/-- A value of its own is put in the place of a default before the others are. -/
theorem completed_insert {defaults rest : Flags} {flag : Text} {value : Bool}
    (hdefaults : defaults.names.Nodup) (hdeclared : flag ∈ defaults.names)
    (hfresh : flag ∉ rest.names) :
    completed (Fields.insert flag value defaults) rest =
      completed defaults ((flag, value) :: rest) := by
  unfold completed
  rw [Fields.insert_of_mem hdefaults hdeclared, List.map_map]
  refine List.map_congr_left fun other _ => ?_
  by_cases hother : other.1 = flag
  · simp [hother, Fields.get?, Fields.get?_eq_none_iff.2 hfresh]
  · simp [hother, Fields.get?, Ne.symm hother]

/-- Declared flags are completed when their values are put in the place of the defaults. -/
theorem resolve_eq_completed {defaults own : Flags} (hdefaults : defaults.names.Nodup)
    (hown : own.names.Nodup) (hdeclared : ∀ flag ∈ own.names, flag ∈ defaults.names) :
    resolve defaults own = completed defaults own := by
  induction own generalizing defaults with
  | nil =>
      show defaults = completed defaults []
      exact (List.map_id defaults).symm
  | cons first rest ih =>
      obtain ⟨flag, value⟩ := first
      rw [Fields.names_cons, List.nodup_cons] at hown
      rw [Fields.names_cons, List.forall_mem_cons] at hdeclared
      have hnames : (Fields.insert flag value defaults).names = defaults.names := by
        rw [Fields.names_insert, if_pos hdeclared.1]
      show resolve (Fields.insert flag value defaults) rest = _
      rw [ih (hnames ▸ hdefaults) hown.2 (hnames ▸ hdeclared.2),
        completed_insert hdefaults hdeclared.1 hown.1]

end Flags

/-! ## Flags in documents -/

namespace Spec

/-- No flag is declared twice, and none is given twice by a component or an attribute. -/
structure FlagsOnce (spec : Spec) : Prop where
  defaults : spec.flagDefaults.names.Nodup
  components : ∀ c ∈ spec.components, c.flags.names.Nodup
  attributes : ∀ c ∈ spec.components, ∀ a ∈ c.attributes, a.flags.names.Nodup

namespace Document

open Json Json.Reader

theorem gives_flags : Gives (mapOf truth) fun flags : Flags => flags.names.Nodup := by
  refine gives_after _ fun _ => gives_after _ fun c? => ?_
  split
  · exact fun t flags rest h => (gives_objectOf (gives_any truth) t flags rest h).1
  · exact gives_wrongType _

/-- A map of flags that has been read, if any, has no flag twice. -/
def GivenOnce (flags? : Option Flags) : Prop := ∀ flags, flags? = some flags → flags.names.Nodup

theorem GivenOnce.none : GivenOnce none := fun flags h => by cases h

theorem GivenOnce.some {flags : Flags} (hflags : flags.names.Nodup) : GivenOnce (some flags) :=
  fun _ h => Option.some.inj h ▸ hflags

theorem GivenOnce.getD {flags? : Option Flags} (h : GivenOnce flags?) :
    (flags?.getD []).names.Nodup := by
  cases flags? with
  | none => exact List.nodup_nil
  | some flags => exact h flags rfl

theorem gives_attributeFlags : Gives readAttribute fun a => a.flags.names.Nodup := by
  refine gives_record (I := fun draft : AttributeDraft => GivenOnce draft.flags) ?_ .none ?_
  · intro field hfield draft hdraft
    simp only [attributeFields, List.mem_cons, List.not_mem_nil, or_false] at hfield
    rcases hfield with rfl | rfl | rfl | rfl | rfl | rfl
    · exact gives_after _ fun _ => gives_pure hdraft
    · exact gives_after _ fun _ => gives_pure hdraft
    · exact gives_after _ fun _ => gives_pure hdraft
    · exact gives_after _ fun _ => gives_pure hdraft
    · exact gives_bind gives_flags fun flags hflags => gives_pure (.some hflags)
    · exact gives_after _ fun _ => gives_pure hdraft
  · intro last hlast a ha
    unfold AttributeDraft.finish? at ha
    simp only [Option.bind_eq_bind, Option.bind_eq_some_iff, pure, Option.some.injEq] at ha
    obtain ⟨name, -, displayName, -, typeName, -, default, -, rfl⟩ := ha
    exact hlast.getD

/-- A component and its attributes give no flag twice. -/
def ComponentFlagsOnce (c : Component) : Prop :=
  c.flags.names.Nodup ∧ ∀ a ∈ c.attributes, a.flags.names.Nodup

theorem gives_componentFlags : Gives readComponent ComponentFlagsOnce := by
  refine gives_record (I := fun draft : ComponentDraft => GivenOnce draft.flags ∧
    ∀ attributes, draft.attributes = some attributes → ∀ a ∈ attributes, a.flags.names.Nodup)
    ?_ ⟨.none, fun attributes h => by cases h⟩ ?_
  · intro field hfield draft hdraft
    simp only [componentFields, List.mem_cons, List.not_mem_nil, or_false] at hfield
    rcases hfield with rfl | rfl | rfl | rfl
    · exact gives_after _ fun _ => gives_pure hdraft
    · exact gives_after _ fun _ => gives_pure hdraft
    · refine gives_bind (gives_listOf gives_attributeFlags) fun attributes hattributes => ?_
      exact gives_pure ⟨hdraft.1, fun found hfound => Option.some.inj hfound ▸ hattributes⟩
    · exact gives_bind gives_flags fun flags hflags => gives_pure ⟨.some hflags, hdraft.2⟩
  · intro last hlast c hc
    unfold ComponentDraft.finish? at hc
    simp only [Option.bind_eq_bind, Option.bind_eq_some_iff, pure, Option.some.injEq] at hc
    obtain ⟨name, -, displayName, -, attributes, hattributes, rfl⟩ := hc
    exact ⟨hlast.1.getD, hlast.2 attributes hattributes⟩

/-- No flag occurs twice in a map of flags of a document. -/
theorem flagsOnce_of_read {source : Text} {spec : Spec} (hread : read source = .ok spec) :
    spec.FlagsOnce := by
  refine gives_document (gives_record (I := fun draft : SpecDraft =>
    GivenOnce draft.flagDefaults ∧
      ∀ components, draft.components = some components → ∀ c ∈ components, ComponentFlagsOnce c)
    ?_ ⟨.none, fun components h => by cases h⟩ ?_) hread
  · intro field hfield draft hdraft
    simp only [specFields, List.mem_cons, List.not_mem_nil, or_false] at hfield
    rcases hfield with rfl | rfl
    · exact gives_bind gives_flags fun flags hflags => gives_pure ⟨.some hflags, hdraft.2⟩
    · refine gives_bind (gives_listOf gives_componentFlags) fun components hcomponents => ?_
      exact gives_pure ⟨hdraft.1, fun found hfound => Option.some.inj hfound ▸ hcomponents⟩
  · intro last hlast spec hspec
    unfold SpecDraft.finish? at hspec
    simp only [Option.bind_eq_bind, Option.bind_eq_some_iff, pure, Option.some.injEq] at hspec
    obtain ⟨components, hcomponents, rfl⟩ := hspec
    have hall := hlast.2 components hcomponents
    exact ⟨hlast.1.getD, fun c hc => (hall c hc).1, fun c hc => (hall c hc).2⟩

end Document

/-! ## Specs with a value for every flag -/

/-- The spec with other flags on its components and attributes. -/
def mapFlags (spec : Spec) (f : Flags → Flags) : Spec :=
  { spec with
    components := spec.components.map fun c =>
      { c with
        flags := f c.flags
        attributes := c.attributes.map fun a => { a with flags := f a.flags } } }

/-- Flags are given values object by object. -/
theorem resolveFlags_eq_mapFlags (spec : Spec) :
    spec.resolveFlags = spec.mapFlags (Flags.resolve spec.flagDefaults) := rfl

theorem mapFlags_mapFlags (spec : Spec) (f g : Flags → Flags) :
    (spec.mapFlags f).mapFlags g = spec.mapFlags (g ∘ f) := by
  simp [mapFlags, Function.comp_def]

/-- Only the flags that objects have matter to how they are changed. -/
theorem mapFlags_congr {spec : Spec} {f g : Flags → Flags}
    (hcomponents : ∀ c ∈ spec.components, f c.flags = g c.flags)
    (hattributes : ∀ c ∈ spec.components, ∀ a ∈ c.attributes, f a.flags = g a.flags) :
    spec.mapFlags f = spec.mapFlags g := by
  unfold mapFlags
  congr 1
  refine List.map_congr_left fun c hc => ?_
  rw [hcomponents c hc]
  congr 1
  exact List.map_congr_left fun a ha => by rw [hattributes c hc a ha]

/-- A spec that passes gets its flags completed, which changes nothing if it is done again. -/
theorem resolveFlags_eq_completed {spec : Spec} (honce : spec.FlagsOnce)
    (haccepted : ∀ c ∈ spec.components, c.Accepted spec.flagDefaults) :
    spec.resolveFlags = spec.mapFlags (Flags.completed spec.flagDefaults) ∧
      spec.resolveFlags.resolveFlags = spec.resolveFlags := by
  have hcompleted : ∀ own : Flags, own.names.Nodup →
      (∀ flag ∈ own.names, spec.flagDefaults.contains flag = true) →
      Flags.resolve spec.flagDefaults own = Flags.completed spec.flagDefaults own :=
    fun own hown hdeclared => Flags.resolve_eq_completed honce.defaults hown fun flag hflag =>
      Fields.contains_iff_mem_names.1 (hdeclared flag hflag)
  have hagain : ∀ own : Flags, Flags.resolve spec.flagDefaults
      (Flags.completed spec.flagDefaults own) = Flags.completed spec.flagDefaults own := by
    intro own
    have hnames := Flags.names_completed spec.flagDefaults own
    rw [Flags.resolve_eq_completed honce.defaults (hnames ▸ honce.defaults)
      fun flag hflag => hnames ▸ hflag, Flags.completed_completed honce.defaults]
  have hfirst : spec.resolveFlags = spec.mapFlags (Flags.completed spec.flagDefaults) :=
    mapFlags_congr
      (fun c hc => hcompleted c.flags (honce.components c hc) (haccepted c hc).flags_declared)
      fun c hc a ha => hcompleted a.flags (honce.attributes c hc a ha)
        ((haccepted c hc).attributes_accepted a ha).flags_declared
  refine ⟨hfirst, ?_⟩
  rw [hfirst, resolveFlags_eq_mapFlags]
  show (spec.mapFlags (Flags.completed spec.flagDefaults)).mapFlags
    (Flags.resolve spec.flagDefaults) = _
  rw [mapFlags_mapFlags]
  exact mapFlags_congr (fun c _ => hagain c.flags) fun c _ a _ => hagain a.flags

/-- Every component and every attribute has exactly the declared flags. -/
structure HasFlags (spec : Spec) : Prop where
  components : ∀ c ∈ spec.components, c.flags.names = spec.flagDefaults.names
  attributes : ∀ c ∈ spec.components, ∀ a ∈ c.attributes,
    a.flags.names = spec.flagDefaults.names

theorem hasFlags_mapFlags_completed (spec : Spec) :
    (spec.mapFlags (Flags.completed spec.flagDefaults)).HasFlags where
  components := by
    intro c hc
    obtain ⟨raw, -, rfl⟩ := List.mem_map.1 hc
    exact Flags.names_completed _ _
  attributes := by
    intro c hc a ha
    obtain ⟨raw, -, rfl⟩ := List.mem_map.1 hc
    obtain ⟨rawAttribute, -, rfl⟩ := List.mem_map.1 ha
    exact Flags.names_completed _ _

/-- The objects of a spec that is read from a document have exactly the declared flags. -/
theorem hasFlags_of_parse {source : Text} {spec : Spec} (hparse : parse source = .ok spec) :
    spec.HasFlags := by
  obtain ⟨raw, hread, hcheck, rfl⟩ := parse_eq_ok_iff.1 hparse
  rw [(resolveFlags_eq_completed (Document.flagsOnce_of_read hread)
    (check_eq_ok_iff.1 hcheck).2).1]
  exact hasFlags_mapFlags_completed raw

/-- A document with two flags and two components, the second of which gives a flag a value, as do
the attributes of the first. -/
def flaggedDocument : Text :=
  "[\x7b\"f\":true,\"g\":false\x7d,[[\"a\",\"\",[[\"x\",\"\",\"t\",0,\x7b\"g\":true\x7d]," ++
    "[\"y\",\"\",\"t\",0,\x7b\"f\":false\x7d]]],[\"b\",\"\",[],\x7b\"f\":false\x7d]]]"

def flaggedAttribute (name : Text) (flags : Flags) : Attribute :=
  ⟨name, [], "t", .number (.integer 0), flags, none⟩

/-- The spec of the document, with the flags as they are written. -/
def flaggedRaw : Spec where
  flagDefaults := [("f", true), ("g", false)]
  components :=
    [⟨"a", [], [flaggedAttribute "x" [("g", true)], flaggedAttribute "y" [("f", false)]], []⟩,
      ⟨"b", [], [], [("f", false)]⟩]

/-- The spec of the document, with a value for every flag. -/
def flaggedSpec : Spec where
  flagDefaults := [("f", true), ("g", false)]
  components :=
    [⟨"a", [], [flaggedAttribute "x" [("f", true), ("g", true)],
        flaggedAttribute "y" [("f", false), ("g", false)]], [("f", true), ("g", false)]⟩,
      ⟨"b", [], [], [("f", false), ("g", false)]⟩]

theorem read_flaggedDocument : Document.read flaggedDocument = .ok flaggedRaw := by
  decide +kernel

theorem accepted_flaggedRaw : ∀ c ∈ flaggedRaw.components, c.Accepted flaggedRaw.flagDefaults := by
  have hx : (flaggedAttribute "x" [("g", true)]).Accepted flaggedRaw.flagDefaults :=
    ⟨by decide, by decide, by decide⟩
  have hy : (flaggedAttribute "y" [("f", false)]).Accepted flaggedRaw.flagDefaults :=
    ⟨by decide, by decide, by decide⟩
  refine List.forall_mem_cons.2 ⟨⟨by decide, by decide, by decide, ?_⟩,
    List.forall_mem_singleton.2 ⟨by decide, by decide, by decide, by simp⟩⟩
  exact List.forall_mem_cons.2 ⟨hx, List.forall_mem_singleton.2 hy⟩

end Spec
end Stencil
