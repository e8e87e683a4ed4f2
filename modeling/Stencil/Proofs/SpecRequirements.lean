import Mathlib.Data.List.Infix
import Stencil.Proofs.FlagValues

namespace Stencil

/-!
# What is asked of a spec, and in which order

`Spec.requirements` lists all that is asked of a spec, in one order: of each component its name,
that no earlier component has it, and its flags; then of each of its attributes the name, that
no earlier attribute has it, the type, and the flags.  Every requirement comes with the error
that reports it.  The checks of a spec stop at the first problem and keep the names that they
have seen; `check_eq_checkAll` says that they report the first requirement that is not met.

With this, `parse_eq_of_read` states what a document that holds a spec is read as: the spec with
completed flags if all requirements are met, and the error of the first one otherwise.
-/

/-- A condition on a spec, and the error if it does not hold. -/
structure Requirement where
  isMet : Bool
  cause : SpecError
  deriving DecidableEq

namespace Requirement

/-- Reports the first requirement that is not met. -/
def checkAll (requirements : List Requirement) : Except SpecError Unit :=
  match requirements.find? fun requirement => !requirement.isMet with
  | some requirement => .error requirement.cause
  | none => .ok ()

/-- Requirements are checked one part after the other. -/
theorem checkAll_append (requirements others : List Requirement) :
    checkAll (requirements ++ others) = (checkAll requirements >>= fun _ => checkAll others) := by
  unfold checkAll
  rw [List.find?_append]
  cases requirements.find? fun requirement => !requirement.isMet with
  | some requirement => rfl
  | none => rfl

theorem checkAll_cons (condition : Bool) (cause : SpecError) (others : List Requirement) :
    checkAll (⟨condition, cause⟩ :: others) =
      (Spec.insist condition cause >>= fun _ => checkAll others) := by
  cases condition with
  | true => rfl
  | false => rfl

theorem checkAll_eq_error_iff {requirements : List Requirement} {cause : SpecError} :
    checkAll requirements = .error cause ↔
      ∃ requirement, requirements.find? (fun requirement => !requirement.isMet) =
        some requirement ∧ requirement.cause = cause := by
  unfold checkAll
  cases requirements.find? fun requirement => !requirement.isMet with
  | some requirement => simp
  | none => simp

end Requirement

open Requirement

/-! ## The list of requirements -/

namespace SourceContext

/-- A name is not blank. -/
def nameRequirement (context : SourceContext) (name kind : Text) : Requirement :=
  ⟨!name.isBlank, .blankName (context.describe kind)⟩

/-- All flags are declared. -/
def flagRequirements (context : SourceContext) (flags defaults : Flags) (kind : Text) :
    List Requirement :=
  flags.names.map fun flag =>
    ⟨defaults.contains flag,
      .undeclaredFlag flag (context.describe kind) (context.findSpan flag)⟩

theorem checkName_eq_insist (context : SourceContext) (name kind : Text) :
    context.checkName name kind =
      Spec.insist (context.nameRequirement name kind).isMet
        (context.nameRequirement name kind).cause := by
  unfold checkName nameRequirement
  cases name.isBlank with
  | true => rfl
  | false => rfl

theorem checkFlags_eq_checkAll (context : SourceContext) (flags defaults : Flags) (kind : Text) :
    context.checkFlags flags defaults kind =
      checkAll (context.flagRequirements flags defaults kind) := by
  unfold checkFlags checkAll flagRequirements
  simp only [List.find?_map, Function.comp_def]
  cases flags.names.find? fun flag => !defaults.contains flag with
  | some flag => rfl
  | none => rfl

end SourceContext

/-- What is asked of an attribute after those with the names `earlier`. -/
def Attribute.requirements (context : SourceContext) (component : Text) (defaults : Flags)
    (earlier : List Text) (a : Attribute) : List Requirement :=
  context.nameRequirement a.name "attribute" ::
    ⟨a.name ∉ earlier, .duplicateAttribute component a.name (context.findSpan a.name)⟩ ::
    ⟨!a.typeName.isBlank,
      .blankType ((context.push a.name).describe "attribute") (context.findSpan a.name)⟩ ::
    (context.push a.name).flagRequirements a.flags defaults "attribute"

/-- Items, each with the items before it. -/
def withEarlier {α : Type} (items : List α) : List (List α × α) := items.inits.zip items

/-- What is asked of a component after those with the names `earlier`. -/
def Component.requirements (context : SourceContext) (defaults : Flags) (earlier : List Text)
    (c : Component) : List Requirement :=
  context.nameRequirement c.name "component" ::
    ⟨c.name ∉ earlier, .duplicateComponent c.name (context.findSpan c.name)⟩ ::
    ((context.push c.name).flagRequirements c.flags defaults "component" ++
      (withEarlier c.attributes).flatMap fun (earlier, a) =>
        a.requirements (context.push c.name) c.name defaults (earlier.map (·.name)))

namespace Spec

/-- All that is asked of a spec that is read from a document. -/
def requirements (spec : Spec) (source : Text) : List Requirement :=
  (withEarlier spec.components).flatMap fun (earlier, c) =>
    c.requirements { source } spec.flagDefaults (earlier.map (·.name))

/-! ## The order of the checks -/

/-- The first item has no names before it, and adds its name to those before the others. -/
theorem flatMap_withEarlier_cons {α β : Type} (name : α → Text) (f : List Text → α → List β)
    (seen : List Text) (first : α) (rest : List α) :
    (withEarlier (first :: rest)).flatMap (fun item => f (seen ++ item.1.map name) item.2) =
      f seen first ++
        (withEarlier rest).flatMap fun item => f (seen ++ [name first] ++ item.1.map name) item.2 := by
  unfold withEarlier
  rw [List.inits_cons, List.zip_cons_cons, List.flatMap_cons, List.zip_map_left, List.flatMap_map,
    List.map_nil, List.append_nil]
  simp

/-- The checks of attributes after those with the names `seen`, the last one first. -/
theorem checkAttributes_eq_checkAll (context : SourceContext) (component : Text)
    (defaults : Flags) (seen : List Text) (attributes : List Attribute) :
    checkAttributes context component defaults seen attributes =
      checkAll ((withEarlier attributes).flatMap fun item =>
        item.2.requirements context component defaults
          (seen.reverse ++ item.1.map (·.name))) := by
  induction attributes generalizing seen with
  | nil => rfl
  | cons a rest ih =>
      have hrest := ih (a.name :: seen)
      rw [List.reverse_cons] at hrest
      rw [flatMap_withEarlier_cons Attribute.name fun earlier a =>
        a.requirements context component defaults earlier]
      rw [checkAttributes_cons, hrest, SourceContext.checkName_eq_insist,
        SourceContext.checkFlags_eq_checkAll, checkAll_append]
      simp only [Attribute.requirements, SourceContext.nameRequirement, checkAll_cons,
        List.mem_reverse, bind_assoc]

/-- The checks of components after those with the names `seen`, the last one first. -/
theorem checkComponents_eq_checkAll (context : SourceContext) (defaults : Flags)
    (seen : List Text) (components : List Component) :
    checkComponents context defaults seen components =
      checkAll ((withEarlier components).flatMap fun item =>
        item.2.requirements context defaults (seen.reverse ++ item.1.map (·.name))) := by
  induction components generalizing seen with
  | nil => rfl
  | cons c rest ih =>
      have hrest := ih (c.name :: seen)
      rw [List.reverse_cons] at hrest
      rw [flatMap_withEarlier_cons Component.name fun earlier c =>
        c.requirements context defaults earlier]
      rw [checkComponents_cons, hrest, SourceContext.checkName_eq_insist,
        SourceContext.checkFlags_eq_checkAll, checkAttributes_eq_checkAll, checkAll_append]
      simp only [Component.requirements, SourceContext.nameRequirement, checkAll_cons,
        checkAll_append, List.mem_reverse, List.reverse_nil, List.nil_append, bind_assoc]

/-- A spec is checked by its requirements, in their order. -/
theorem check_eq_checkAll (spec : Spec) (source : Text) :
    spec.check source = checkAll (spec.requirements source) :=
  checkComponents_eq_checkAll { source } spec.flagDefaults [] spec.components

/-! ## Reading -/

/-- A document that holds a spec is read exactly if the names of components differ, those of the
attributes of each component do, no name or type is blank, and all flags are declared.  What it is
read as is the spec with completed flags, in which giving values to the flags once more changes
nothing.  Otherwise the error is that of the first requirement that is not met. -/
theorem parse_eq_of_read {source : Text} {raw : Spec}
    (hread : Document.read source = .ok raw) :
    ((∃ spec, parse source = .ok spec) ↔
        (raw.components.map (·.name)).Nodup ∧
          ∀ c ∈ raw.components, c.Accepted raw.flagDefaults) ∧
      (∀ spec, parse source = .ok spec →
        spec = raw.mapFlags (Flags.completed raw.flagDefaults) ∧ spec.resolveFlags = spec) ∧
      ∀ cause, parse source = .error cause ↔
        ∃ requirement, (raw.requirements source).find? (fun requirement => !requirement.isMet) =
          some requirement ∧ requirement.cause = cause := by
  have hparse : parse source = (raw.check source).map fun _ => raw.resolveFlags := by
    unfold parse
    rw [hread]
  refine ⟨?_, ?_, ?_⟩
  · rw [← check_eq_ok_iff, hparse]
    cases raw.check source with
    | error cause => simp [Except.map]
    | ok _ => simp [Except.map]
  · intro spec hspec
    rw [hparse] at hspec
    obtain ⟨_, hcheck, rfl⟩ := Outcome.map_eq_ok_iff.1 hspec
    exact resolveFlags_eq_completed (Document.flagsOnce_of_read hread) (check_eq_ok_iff.1 hcheck).2
  · intro cause
    rw [← checkAll_eq_error_iff, ← check_eq_checkAll, hparse]
    cases raw.check source with
    | error other => simp [Except.map]
    | ok _ => simp [Except.map]

/-- A document whose component has an undeclared flag, and an attribute without a name. -/
def undeclaredDocument : Text :=
  "[\x7b\x7d,[[\"a\",\"\",[[\"\",\"\",\"t\",0]],\x7b\"h\":true\x7d]]]"

def undeclaredRaw : Spec where
  flagDefaults := []
  components := [⟨"a", [], [flaggedAttribute [] []], [("h", true)]⟩]

/-- Flags are completed on acceptance; and the flag of the component is reported before the
attribute. -/
theorem parse_flagged :
    Document.read flaggedDocument = .ok flaggedRaw ∧ parse flaggedDocument = .ok flaggedSpec ∧
      Document.read undeclaredDocument = .ok undeclaredRaw ∧
      parse undeclaredDocument =
        .error (.undeclaredFlag "h" "component 'a'" (some ⟨31, 1⟩)) := by
  have hundeclared : Document.read undeclaredDocument = .ok undeclaredRaw := by decide +kernel
  obtain ⟨haccepted, hresult, -⟩ := parse_eq_of_read read_flaggedDocument
  obtain ⟨spec, hspec⟩ := haccepted.2 ⟨by decide, accepted_flaggedRaw⟩
  obtain ⟨-, -, herror⟩ := parse_eq_of_read hundeclared
  refine ⟨read_flaggedDocument, ?_, hundeclared, (herror _).2 ⟨⟨false, _⟩, by decide +kernel, rfl⟩⟩
  rw [hspec, (hresult spec hspec).1]
  rfl

end Spec
end Stencil
