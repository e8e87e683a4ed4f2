import Stencil.Proofs.SpacedRendering
import Stencil.Proofs.TypeLists

namespace Stencil

/-!
# The two forms of a map

A map is given as a list of pairs, or as an object, whose keys can only be
strings.  An object stands for the list of its fields, in order: a name is the
key itself if the type of the keys takes it as a string, and otherwise the value
of the document that it holds.

* `TypeName.IsMap` — the names that the pattern of a map captures two types of.
* `TypeRegistry.literal?_map` — a map makes of a value what
  `Composite.map` makes of it, whatever the types of its keys and values.
* `TypeRegistry.render_object_as_pairs` — so an object is rendered as its list
  of pairs, and its entries are the renderings of its fields one by one.
-/

namespace TypeName

/-- A name that the pattern of a map captures, with the types of the keys and of the values. -/
def IsMap (kind : MapKind) (keyType valueType type : Text) : Prop :=
  ∃ list, type.trim = angled kind.head list ∧
    Dispatcher.captureList list = .ok [keyType, valueType]

theorem isWord_mapHead (kind : MapKind) : isWord kind.head = true := by
  cases kind <;> decide

/-- The types of the keys and of the values are trimmed, and shorter than the map. -/
theorem IsMap.part {kind : MapKind} {keyType valueType type item : Text}
    (htype : IsMap kind keyType valueType type) (hitem : item ∈ [keyType, valueType]) :
    item.trim = item ∧ item.length < type.length := by
  obtain ⟨list, htrim, hcapture⟩ := htype
  have hsplit := Dispatcher.captureList_eq_ok_iff.1 hcapture
  obtain ⟨hitems, -⟩ := splitList?_eq_some_iff.1 hsplit
  refine ⟨(hitems item hitem).trimmed, ?_⟩
  calc item.length ≤ list.length := length_le_of_splitList? hsplit item hitem
    _ < (angled kind.head list).length := length_lt_angled kind.head list
    _ = type.trim.length := by rw [htrim]
    _ ≤ type.length := Text.length_trim_le type

end TypeName

namespace TypeRegistry

open Rendering
open Stencil.TypeName (angled IsMap trim_angled isWord_mapHead)

/-! ## Rendering maps -/

/-- The literal of a value, if it has one. -/
def literal? (type : Text) (value : Json) : Option Text := (builtin.render type value).toOption

theorem literal?_eq_some_iff {type : Text} {value : Json} {text : Text} :
    literal? type value = some text ↔ builtin.render type value = .ok text :=
  Outcome.toOption_eq_some_iff

theorem literal?_eq_none_iff {type : Text} {value : Json} :
    literal? type value = none ↔ ∃ cause, builtin.render type value = .error cause := by
  unfold literal?
  cases builtin.render type value <;> simp [Except.toOption]

theorem literal?_print (tree : TypeTree) {type : Text} (htype : tree.print = type) :
    literal? type = tree.literal? := by
  subst htype
  exact funext (toOption_render_of_answers (tree.answers_print (Nat.le_add_right _ _)))

/-- With enough levels left a question is answered as the renderer answers it from its start. -/
theorem answers_literal? {depth : Nat} {name : Text} (htrimmed : name.trim = name)
    (hdepth : name.length < depth) : Answers (renderWithin builtin depth) name (literal? name) := by
  have hrespelled : TypeName.Respelled name name := ⟨.refl name, htrimmed, htrimmed⟩
  have hspare : name.length < name.length + spareDepth := Nat.lt_add_of_pos_right (by decide)
  obtain ⟨literal, hleft, hright⟩ := sameAnswers_of_respelled hrespelled hdepth hspare
  intro value
  obtain ⟨result, hrun, hout⟩ := hleft value
  obtain ⟨start, hstart, houtStart⟩ := hright value
  refine ⟨result, hrun, ?_⟩
  rw [literal?, render, hstart]
  exact hout.trans houtStart.symm

variable {kind : MapKind} {type keyType valueType : Text}

/-- A map makes of a value what its description makes of it, whatever the two types are. -/
theorem literal?_map (htype : IsMap kind keyType valueType type) (value : Json) :
    literal? type value =
      Composite.map (TypeName.canonical type) (literal? keyType) (literal? valueType) value := by
  have hspare : type.length ≤ type.length + (spareDepth - 1) := Nat.le_add_right _ _
  have hanswers : ∀ item ∈ [keyType, valueType],
      Answers (renderWithin builtin (type.length + (spareDepth - 1))) item (literal? item) := by
    intro item hitem
    obtain ⟨htrimmed, hlength⟩ := htype.part hitem
    exact answers_literal? htrimmed (Nat.lt_of_lt_of_le hlength hspare)
  obtain ⟨list, htrim, hcapture⟩ := htype
  have hhead := isWord_mapHead kind
  have hentry := mem_builtin (mem_map kind) (Pattern.keyAndForm?_angled .list hhead)
  have htrimmed : Dispatcher.captureList list.trim = .ok [keyType, valueType] := by
    rw [Dispatcher.captureList_eq_ok_iff, TypeName.splitList?_trim,
      ← Dispatcher.captureList_eq_ok_iff, hcapture]
  have hresolve := Dispatcher.resolve_listed isAngular_builtin hentry hhead htrimmed
  have hname : TypeName.canonical (angled kind.head list) = TypeName.canonical type := by
    rw [← htrim, TypeName.canonical, TypeName.canonical, Text.trim_trim]
  have hyields := Container.yields_mapping hname (hanswers keyType List.mem_cons_self)
    (hanswers valueType (List.mem_cons_of_mem _ List.mem_cons_self))
  obtain ⟨result, hrun, hout⟩ := answers_of_resolve (trim_angled hhead list) hresolve hyields value
  have hdepth : type.length + (spareDepth - 1) + 1 = type.length + spareDepth := rfl
  rw [← htrim, renderWithin_trim, hdepth] at hrun
  rw [literal?, render, hrun]
  exact hout

/-! ## Objects and pairs -/

/-- What a name in an object is as a key: the string itself if it is rendered as one, and otherwise
the value of the document in it, if there is one. -/
def keyOf? (types : TypeRegistry) (keyType name : Text) : Option Json :=
  match types.render keyType (.string name) with
  | .ok _ => some (.string name)
  | .error _ => Json.parse? name

/-- A field of an object and the pair that it stands for. -/
def IsPair (keyType : Text) (field : Text × Json) (pair : Json) : Prop :=
  ∃ key, builtin.keyOf? keyType field.1 = some key ∧ pair = .array [key, field.2]

/-- A field of an object with the literals of its key and of its value. -/
structure IsEntry (keyType valueType : Text) (field : Text × Json) (entry : Text × Text) : Prop where
  key : ∃ key, builtin.keyOf? keyType field.1 = some key ∧ builtin.render keyType key = .ok entry.1
  value : builtin.render valueType field.2 = .ok entry.2

theorem keyOf?_of_ok {types : TypeRegistry} {name text : Text}
    (hrender : types.render keyType (.string name) = .ok text) :
    types.keyOf? keyType name = some (.string name) := by
  rw [keyOf?, hrender]

theorem keyOf?_of_error {types : TypeRegistry} {name : Text} {cause : RenderError}
    (hrender : types.render keyType (.string name) = .error cause) :
    types.keyOf? keyType name = Json.parse? name := by
  rw [keyOf?, hrender]

theorem keyOf?_of_string {name text : Text} (htaken : literal? keyType (.string name) = some text) :
    builtin.keyOf? keyType name = some (.string name) :=
  keyOf?_of_ok (literal?_eq_some_iff.1 htaken)

theorem keyOf?_of_refused {name : Text} (hrefused : literal? keyType (.string name) = none) :
    builtin.keyOf? keyType name = Json.parse? name := by
  obtain ⟨cause, hrender⟩ := literal?_eq_none_iff.1 hrefused
  exact keyOf?_of_error hrender

/-- The two readings of a name come to the literal of its key. -/
theorem key_literal? (keyType name : Text) :
    Composite.key (literal? keyType) name = (builtin.keyOf? keyType name).bind (literal? keyType) := by
  unfold Composite.key
  cases hstring : literal? keyType (.string name) with
  | some text => rw [keyOf?_of_string hstring, Option.some_or, Option.bind_some, hstring]
  | none => rw [keyOf?_of_refused hstring, Option.none_or]

/-- An entry of an object is that of its pair. -/
theorem entry_eq_of_isPair {field : Text × Json} {pair : Json} (h : IsPair keyType field pair)
    (value : Json → Option Text) :
    Composite.entry (Composite.key (literal? keyType) field.1) (value field.2) =
      Composite.pairEntry (literal? keyType) value pair := by
  obtain ⟨key, hkey, rfl⟩ := h
  rw [key_literal?, hkey, Option.bind_some, Composite.pairEntry]

theorem entry_eq_some_iff {field : Text × Json} {part : Text} :
    Composite.entry (Composite.key (literal? keyType) field.1) (literal? valueType field.2) =
        some part ↔
      ∃ entry, IsEntry keyType valueType field entry ∧
        part = Container.entry entry.1 entry.2 := by
  rw [key_literal?, Composite.entry]
  simp only [Option.bind_eq_some_iff, Option.map_eq_some_iff, literal?_eq_some_iff]
  constructor
  · rintro ⟨keyText, ⟨key, hkey, hrender⟩, valueText, hvalue, rfl⟩
    exact ⟨(keyText, valueText), ⟨⟨key, hkey, hrender⟩, hvalue⟩, rfl⟩
  · rintro ⟨⟨keyText, valueText⟩, ⟨⟨key, hkey, hrender⟩, hvalue⟩, rfl⟩
    exact ⟨keyText, ⟨key, hkey, hrender⟩, valueText, hvalue, rfl⟩

/-- Fields and pairs that stand for each other have the same entries. -/
theorem map_object_eq_map_array {fields : List (Text × Json)} {pairs : List Json}
    (hpairs : List.Forall₂ (IsPair keyType) fields pairs) (name : Text)
    (value : Json → Option Text) :
    Composite.map name (literal? keyType) value (.object fields) =
      Composite.map name (literal? keyType) value (.array pairs) := by
  have hentries : (fields.map fun field =>
      Composite.entry (Composite.key (literal? keyType) field.1) (value field.2)) =
        pairs.map (Composite.pairEntry (literal? keyType) value) := by
    induction hpairs with
    | nil => rfl
    | cons hpair _ ih => rw [List.map_cons, List.map_cons, entry_eq_of_isPair hpair, ih]
  rw [Composite.map, Composite.map, hentries]

/-- The entries of an object are those of its fields, one for each and in their order. -/
theorem all_entries_eq_some_iff {fields : List (Text × Json)} {parts : List Text} :
    Composite.all (fields.map fun field =>
        Composite.entry (Composite.key (literal? keyType) field.1) (literal? valueType field.2)) =
          some parts ↔
      ∃ entries, List.Forall₂ (IsEntry keyType valueType) fields entries ∧
        parts = entries.map fun entry => Container.entry entry.1 entry.2 := by
  induction fields generalizing parts with
  | nil => simp [Composite.all, eq_comm]
  | cons field rest ih =>
      rw [List.map_cons, Composite.all, Option.bind_eq_some_iff]
      simp only [Option.map_eq_some_iff, entry_eq_some_iff, ih, List.forall₂_cons_left_iff]
      constructor
      · rintro ⟨part, ⟨entry, hentry, rfl⟩, parts, ⟨entries, hentries, rfl⟩, rfl⟩
        exact ⟨entry :: entries, ⟨entry, entries, hentry, hentries, rfl⟩, rfl⟩
      · rintro ⟨_, ⟨entry, entries, hentry, hentries, rfl⟩, rfl⟩
        exact ⟨_, ⟨entry, hentry, rfl⟩, _, ⟨entries, hentries, rfl⟩, rfl⟩

theorem render_object_iff (htype : IsMap kind keyType valueType type)
    {fields : List (Text × Json)} {text : Text} :
    builtin.render type (.object fields) = .ok text ↔
      ∃ entries, List.Forall₂ (IsEntry keyType valueType) fields entries ∧
        text = Container.braced type (entries.map fun entry => Container.entry entry.1 entry.2) := by
  rw [← literal?_eq_some_iff, literal?_map htype, Composite.map, Option.map_eq_some_iff]
  simp only [all_entries_eq_some_iff]
  constructor
  · rintro ⟨_, ⟨entries, hentries, rfl⟩, rfl⟩
    exact ⟨entries, hentries, rfl⟩
  · rintro ⟨entries, hentries, rfl⟩
    exact ⟨_, ⟨entries, hentries, rfl⟩, rfl⟩

/-- A map makes of an object what it makes of the list of pairs that its fields stand for, and takes
both or neither.  An object with a name that is no key, neither as a string nor as a document, is
refused.  So the entries of an object are those of its fields: each has one, and they stand in the
order of the fields. -/
theorem render_object_as_pairs (htype : IsMap kind keyType valueType type)
    (fields : List (Text × Json)) :
    (∀ pairs, List.Forall₂ (IsPair keyType) fields pairs → ∀ text,
        (builtin.render type (.object fields) = .ok text ↔
          builtin.render type (.array pairs) = .ok text)) ∧
      ((∃ field ∈ fields, builtin.keyOf? keyType field.1 = none) →
        ∃ cause, builtin.render type (.object fields) = .error cause) ∧
        ∀ text, builtin.render type (.object fields) = .ok text ↔
          ∃ entries, List.Forall₂ (IsEntry keyType valueType) fields entries ∧
            text = Container.braced type
              (entries.map fun entry => Container.entry entry.1 entry.2) := by
  refine ⟨fun pairs hpairs text => ?_, ?_, fun text => render_object_iff htype⟩
  · rw [← literal?_eq_some_iff, ← literal?_eq_some_iff, literal?_map htype, literal?_map htype,
      map_object_eq_map_array hpairs]
  · rintro ⟨field, hmem, hnone⟩
    cases hrender : builtin.render type (.object fields) with
    | error cause => exact ⟨cause, rfl⟩
    | ok text =>
        obtain ⟨entries, hentries, -⟩ := (render_object_iff htype).1 hrender
        obtain ⟨i, hi, rfl⟩ := List.mem_iff_getElem.1 hmem
        obtain ⟨⟨key, hkey, -⟩, -⟩ := hentries.get hi (hentries.length_eq ▸ hi)
        rw [List.get_eq_getElem, hnone] at hkey
        cases hkey

/-- A key of a number or a character: the name `5` is a character, and with a space before it a
number. -/
theorem render_object_of_digitNames :
    let type : Text := " std::map<std::variant<int, char> ,bool>"
    let keyType : Text := "std::variant<int, char>"
    let fields : List (Text × Json) := [("5", .bool true), (" 5", .bool false)]
    let pairs : List Json :=
      [.array [.string "5", .bool true], .array [.number (.integer 5), .bool false]]
    let text : Text :=
      "std::map<std::variant<int, char>, bool>\x7b\x7b'5', true\x7d, \x7b5, false\x7d\x7d"
    IsMap .map keyType "bool" type ∧ List.Forall₂ (IsPair keyType) fields pairs ∧
      builtin.render type (.object fields) = .ok text ∧
        builtin.render type (.array pairs) = .ok text ∧
          ∃ cause, builtin.render type (.object [("five", .bool true)]) = .error cause := by
  intro type keyType fields pairs text
  let key : TypeTree := .variant [.scalar (.integer .int), .scalar .char]
  have hcapture : Dispatcher.captureList "std::variant<int, char> ,bool" = .ok [keyType, "bool"] :=
    Dispatcher.captureList_eq_ok_iff.2 (by decide +kernel)
  have htype : IsMap .map keyType "bool" type :=
    ⟨"std::variant<int, char> ,bool", by decide +kernel, hcapture⟩
  have hkey : literal? keyType = key.literal? := literal?_print key (by decide +kernel)
  have hvalue : literal? "bool" = TypeTree.literal? (.scalar .bool) := literal?_print _ rfl
  have htaken : literal? keyType (.string "5") = some ("'5'" : Text) := by
    rw [hkey]
    decide +kernel
  have hrefused : ∀ name ∈ ([" 5", "five"] : List Text),
      literal? keyType (.string name) = none := by
    rw [hkey]
    decide +kernel
  have hfields : List.Forall₂ (IsPair keyType) fields pairs := by
    refine .cons ⟨_, keyOf?_of_string htaken, rfl⟩ ?_
    have hnumber := keyOf?_of_refused (hrefused " 5" (by simp))
    exact .cons ⟨.number (.integer 5), hnumber.trans rfl, rfl⟩ .nil
  have hpairs : builtin.render type (.array pairs) = .ok text := by
    rw [← literal?_eq_some_iff, literal?_map htype, hkey, hvalue]
    decide +kernel
  have hnone : builtin.keyOf? keyType "five" = none :=
    (keyOf?_of_refused (hrefused "five" (by simp))).trans rfl
  obtain ⟨hagree, -, -⟩ := render_object_as_pairs htype fields
  obtain ⟨-, hrefuse, -⟩ := render_object_as_pairs htype [("five", .bool true)]
  exact ⟨htype, hfields, (hagree pairs hfields text).2 hpairs, hpairs,
    hrefuse ⟨_, List.mem_singleton_self _, hnone⟩⟩

end TypeRegistry
end Stencil
