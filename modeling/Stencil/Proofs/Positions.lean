import Mathlib.Algebra.Group.Nat.Defs
import Mathlib.Algebra.Ring.Int.Defs
import Stencil.Proofs.BuiltinMethods
import Stencil.Proofs.SpecAcceptance

namespace Stencil

/-!
# Positions among the objects of a block

The active object is at a position if it equals the object that stands there.  In a
view of a spec that was read from a document the names of siblings differ and every
object equals itself, so equality with the object at an index is the same as having
this index.  `isNth_iff_of_parse` says so for components and for attributes, and for
the methods that ask for the first and the last object.
-/

/-! ## Equality of the objects of a view -/

namespace ViewAttribute

theorem name_eq_of_same {a b : ViewAttribute} (h : a.same b = true) : a.name = b.name := by
  simp only [same, Bool.and_eq_true, beq_iff_eq] at h
  exact h.1.1.1.1

theorem same_self {a : ViewAttribute} (hdefault : a.default.Distinct)
    (hcustom : ∀ v, a.custom = some v → v.Distinct) : a.same a = true := by
  have hsame : sameCustom a.custom a.custom = true := by
    cases h : a.custom with
    | none => rfl
    | some v => exact (hcustom v h).same_self
  simp [same, hdefault.same_self, hsame]

end ViewAttribute

namespace ViewComponent

theorem name_eq_of_same {a b : ViewComponent} (h : a.same b = true) : a.name = b.name := by
  simp only [same, Bool.and_eq_true, beq_iff_eq] at h
  exact h.1.1

theorem same_self {c : ViewComponent} (hattributes : ∀ a ∈ c.attributes, a.same a = true) :
    c.same c = true := by
  have hsame : ∀ attributes : List ViewAttribute, (∀ a ∈ attributes, a.same a = true) →
      sameAttributes attributes attributes = true := by
    intro attributes hall
    induction attributes with
    | nil => rfl
    | cons a rest ih =>
        rw [List.forall_mem_cons] at hall
        simp [sameAttributes, hall.1, ih hall.2]
  simp [same, hsame c.attributes hattributes]

end ViewComponent

/-- Names tell the siblings of a view apart, and every object equals itself. -/
structure View.Separated (view : View) : Prop where
  components_nodup : (view.components.map (·.name)).Nodup
  attributes_nodup : ∀ c ∈ view.components, (c.attributes.map (·.name)).Nodup
  components_same : ∀ c ∈ view.components, c.same c = true
  attributes_same : ∀ c ∈ view.components, ∀ a ∈ c.attributes, a.same a = true

/-- Leaving out objects leaves the others apart. -/
theorem Spec.Separated.view {spec : Spec} (hspec : spec.Separated) (predicate : Flags) :
    (spec.view predicate).Separated := by
  -- The component of the view comes from one of the spec, and so do its attributes.
  have hcomponent : ∀ c ∈ (spec.view predicate).components, ∃ raw ∈ spec.components,
      ∃ asked, c = ViewComponent.ofComponent asked raw := by
    intro c hc
    obtain ⟨raw, hraw, rfl⟩ := List.mem_map.1 hc
    exact ⟨raw, List.mem_of_mem_filter hraw, _, rfl⟩
  have hsame : ∀ c ∈ (spec.view predicate).components, ∀ a ∈ c.attributes,
      a.same a = true := by
    intro c hc a ha
    obtain ⟨raw, hraw, asked, rfl⟩ := hcomponent c hc
    obtain ⟨declared, hdeclared, rfl⟩ := List.mem_map.1 ha
    obtain ⟨hdefault, hcustom⟩ :=
      hspec.values raw hraw declared (List.mem_of_mem_filter hdeclared)
    exact ViewAttribute.same_self hdefault hcustom
  refine ⟨?_, ?_, ?_, hsame⟩
  · have hsublist : ((spec.view predicate).components.map (·.name)).Sublist
        (spec.components.map (·.name)) := by
      unfold Spec.view
      rw [List.map_map]
      exact (List.filter_sublist).map _
    exact hspec.components_nodup.sublist hsublist
  · intro c hc
    obtain ⟨raw, hraw, asked, rfl⟩ := hcomponent c hc
    have hsublist : ((ViewComponent.ofComponent asked raw).attributes.map (·.name)).Sublist
        (raw.attributes.map (·.name)) := by
      unfold ViewComponent.ofComponent
      rw [List.map_map]
      exact (List.filter_sublist).map _
    exact (hspec.attributes_nodup raw hraw).sublist hsublist
  · intro c hc
    exact ViewComponent.same_self (hsame c hc)

/-! ## Indices -/

namespace Context

/-- An index that is computed from a length and a position of 64 bits fits 64 bits, where a length
counts as at most the greatest such integer. -/
theorem indexAt_fits (length : Nat) {n : Int} (hleast : -2 ^ 63 ≤ n) (hgreatest : n < 2 ^ 63) :
    -2 ^ 63 ≤ indexAt (min length (2 ^ 63 - 1)) n ∧
      indexAt (min length (2 ^ 63 - 1)) n < 2 ^ 63 := by
  unfold indexAt
  split
  · constructor <;> omega
  · exact ⟨hleast, hgreatest⟩

/-- An item is at a position if it equals the item at the index that the position stands for. -/
theorem atPosition_eq_true_iff {α : Type} {same : α → α → Bool} {items : List α} {item : α}
    {n : Int} :
    atPosition same items item n = true ↔
      ∃ i : Nat, (n = i ∨ n < 0 ∧ items.length + n = i) ∧
        ∃ other, items[i]? = some other ∧ same other item = true := by
  have hindex : ∀ i : Nat,
      (n = i ∨ n < 0 ∧ items.length + n = i) ↔ indexAt items.length n = i := by
    intro i
    unfold indexAt
    split <;> omega
  simp only [hindex]
  unfold atPosition
  by_cases hneg : indexAt items.length n < 0
  · rw [if_pos hneg]
    refine iff_of_false Bool.false_ne_true ?_
    rintro ⟨i, hi, -⟩
    omega
  · obtain ⟨i, hi⟩ := Int.eq_ofNat_of_zero_le (Int.not_lt.1 hneg)
    rw [if_neg hneg, hi, Int.toNat_natCast]
    cases hfound : items[i]? with
    | none => simp [hfound]
    | some other => simp [hfound]

/-- Where an item equals no item at another index, it is at exactly the positions that stand for
its index. -/
theorem atPosition_iff {α : Type} {same : α → α → Bool} {items : List α} {i : Nat} {item : α}
    (hitem : items[i]? = some item) (hself : same item item = true)
    (hother : ∀ (j : Nat) (other : α), items[j]? = some other → same other item = true → j = i)
    (n : Int) :
    atPosition same items item n = true ↔ n = i ∨ n < 0 ∧ items.length + n = i := by
  rw [atPosition_eq_true_iff]
  constructor
  · rintro ⟨j, hposition, other, hfound, hsame⟩
    rwa [hother j other hfound hsame] at hposition
  · exact fun hposition => ⟨i, hposition, item, hitem, hself⟩

/-- The active object stands at an index of its siblings, of which there are `length`: the
components of the view, or the attributes of one of them. -/
inductive IsAt (context : Context) : (i length : Nat) → Prop where
  | amongComponents {i : Nat} (hnone : context.attr? = none)
      (hindex : context.view.components[i]? = some context.component) :
      IsAt context i context.view.components.length
  | amongAttributes {i : Nat} {a : ViewAttribute} (hsome : context.attr? = some a)
      (hmem : context.component ∈ context.view.components)
      (hindex : context.component.attributes[i]? = some a) :
      IsAt context i context.component.attributes.length

/-- Items with names that differ are at one index each. -/
theorem index_eq_of_name {α : Type} {name : α → Text} {items : List α}
    (hnodup : (items.map name).Nodup) {i j : Nat} {a b : α} (ha : items[i]? = some a)
    (hb : items[j]? = some b) (hname : name a = name b) : i = j := by
  obtain ⟨hi, rfl⟩ := List.getElem?_eq_some_iff.1 ha
  obtain ⟨hj, rfl⟩ := List.getElem?_eq_some_iff.1 hb
  have hi' : i < (items.map name).length := by simpa using hi
  have hj' : j < (items.map name).length := by simpa using hj
  have heq : (items.map name)[i] = (items.map name)[j] := by simpa using hname
  exact (List.Nodup.getElem_inj_iff hnodup).1 heq

/-- In a view whose objects are told apart, the active object is at the positions that stand for
its index. -/
theorem isNth_iff {context : Context} (hview : context.view.Separated) {i length : Nat}
    (hat : context.IsAt i length) (n : Int) :
    context.isNth n = true ↔ n = i ∨ n < 0 ∧ length + n = i := by
  cases hat with
  | amongComponents hnone hindex =>
      unfold isNth
      rw [hnone]
      refine atPosition_iff hindex (hview.components_same _ (List.mem_of_getElem? hindex)) ?_ n
      intro j other hother hsame
      exact index_eq_of_name hview.components_nodup hother hindex
        (ViewComponent.name_eq_of_same hsame)
  | amongAttributes hsome hmem hindex =>
      unfold isNth
      rw [hsome]
      refine atPosition_iff hindex
        (hview.attributes_same _ hmem _ (List.mem_of_getElem? hindex)) ?_ n
      intro j other hother hsame
      exact index_eq_of_name (hview.attributes_nodup _ hmem) hother hindex
        (ViewAttribute.name_eq_of_same hsame)

/-- An index is below the number of siblings. -/
theorem IsAt.lt {context : Context} {i length : Nat} (hat : context.IsAt i length) :
    i < length := by
  cases hat with
  | amongComponents hnone hindex => exact (List.getElem?_eq_some_iff.1 hindex).1
  | amongAttributes hsome hmem hindex => exact (List.getElem?_eq_some_iff.1 hindex).1

end Context

/-! ## The methods that look at positions -/

namespace MethodRegistry

/-- A built-in method that compares a position gives its argument or nothing. -/
theorem invoke_ifAt {function : Text} {n : Int} {expected : Bool}
    (hmem : ⟨.both, function, Method.ifAt function n expected⟩ ∈ builtinMethods)
    (context : Context) (text : Text) :
    builtin.invoke ⟨context.scope, function, [text]⟩ context =
      .ok (if context.isNth n = expected then text else []) :=
  invoke_builtin hmem (mem_namespaces_both context.scope) [text]

end MethodRegistry

open MethodRegistry in
/-- In every view of a spec that was read from a document, the positions of the active object are
its index and, counted from the end, its index less the number of its siblings; and no index that
is computed on the way leaves 64 bits.  So `if_first` gives its text for the object at index zero
alone, `if_last` for the last one alone, and `if_not_first` and `if_not_last` for all others. -/
theorem Context.isNth_iff_of_parse {source : Text} {spec : Spec}
    (hparse : Spec.parse source = .ok spec) (predicate : Flags) {context : Context}
    (hview : context.view = spec.view predicate) {i length : Nat}
    (hat : context.IsAt i length) :
    (∀ n : Int, context.isNth n = true ↔ n = i ∨ n < 0 ∧ length + n = i) ∧
      (∀ n : Int, -2 ^ 63 ≤ n → n < 2 ^ 63 →
        -2 ^ 63 ≤ indexAt (min length (2 ^ 63 - 1)) n ∧
          indexAt (min length (2 ^ 63 - 1)) n < 2 ^ 63) ∧
      ∀ text : Text,
        builtin.invoke ⟨context.scope, "if_first", [text]⟩ context =
            .ok (if i = 0 then text else []) ∧
          builtin.invoke ⟨context.scope, "if_not_first", [text]⟩ context =
            .ok (if i = 0 then [] else text) ∧
          builtin.invoke ⟨context.scope, "if_last", [text]⟩ context =
            .ok (if i + 1 = length then text else []) ∧
          builtin.invoke ⟨context.scope, "if_not_last", [text]⟩ context =
            .ok (if i + 1 = length then [] else text) := by
  have hseparated : context.view.Separated := by
    rw [hview]
    exact (Spec.separated_of_parse hparse).view predicate
  have hnth := Context.isNth_iff hseparated hat
  have hlt := hat.lt
  have hfirst : context.isNth 0 = decide (i = 0) := by
    rw [Bool.eq_iff_iff, hnth, decide_eq_true_eq]
    omega
  have hlast : context.isNth (-1) = decide (i + 1 = length) := by
    rw [Bool.eq_iff_iff, hnth, decide_eq_true_eq]
    omega
  refine ⟨hnth, fun n hleast hgreatest => indexAt_fits length hleast hgreatest, ?_⟩
  intro text
  refine ⟨?_, ?_, ?_, ?_⟩
  · refine (@invoke_ifAt "if_first" 0 true (by simp [builtinMethods]) _ _).trans ?_
    rw [hfirst]
    by_cases hi : i = 0 <;> simp [hi]
  · refine (@invoke_ifAt "if_not_first" 0 false (by simp [builtinMethods]) _ _).trans ?_
    rw [hfirst]
    by_cases hi : i = 0 <;> simp [hi]
  · refine (@invoke_ifAt "if_last" (-1) true (by simp [builtinMethods]) _ _).trans ?_
    rw [hlast]
    by_cases hi : i + 1 = length <;> simp [hi]
  · refine (@invoke_ifAt "if_not_last" (-1) false (by simp [builtinMethods]) _ _).trans ?_
    rw [hlast]
    by_cases hi : i + 1 = length <;> simp [hi]

/-- A document with one component that has two attributes. -/
def pairDocument : Text :=
  "[\x7b\x7d,[[\"a\",\"\",[[\"x\",\"\",\"t\",0],[\"y\",\"\",\"t\",0]]]]]"

/-- The spec of the document. -/
def pairSpec : Spec where
  flagDefaults := []
  components :=
    [⟨"a", [],
      [⟨"x", [], "t", .number (.integer 0), [], none⟩,
        ⟨"y", [], "t", .number (.integer 0), [], none⟩], []⟩]

/-- The second attribute of the component is active. -/
def pairContext : Context where
  types := Dispatcher.empty
  view := pairSpec.view []
  component :=
    ⟨"a", [], [⟨"x", [], "t", .number (.integer 0), none⟩,
      ⟨"y", [], "t", .number (.integer 0), none⟩]⟩
  attr? := some ⟨"y", [], "t", .number (.integer 0), none⟩

/-- The last of two attributes is at the position before the end. -/
theorem isNth_pairContext :
    Spec.parse pairDocument = .ok pairSpec ∧ pairContext.view = pairSpec.view [] ∧
      pairContext.IsAt 1 2 ∧ pairContext.isNth (-1) = true ∧
      MethodRegistry.builtin.invoke ⟨.attr, "if_last", [['.']]⟩ pairContext = .ok ['.'] := by
  have hparse : Spec.parse pairDocument = .ok pairSpec := by decide +kernel
  have hview : pairContext.view = pairSpec.view [] := rfl
  have hat : pairContext.IsAt 1 2 := .amongAttributes rfl List.mem_cons_self rfl
  obtain ⟨hnth, -, hmethods⟩ := Context.isNth_iff_of_parse hparse [] hview hat
  exact ⟨hparse, hview, hat, (hnth (-1)).2 (Or.inr (by decide)), (hmethods ['.']).2.2.1⟩

end Stencil
