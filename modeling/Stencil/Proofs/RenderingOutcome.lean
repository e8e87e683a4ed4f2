import Stencil.Render.Container

namespace Stencil

/-!
# What renderings come to

A rendering asks for other renderings and puts the answers together.  Here each
built-in container is described by the function that it computes when its
questions are answered as other functions say.  The descriptions, in
`Composite`, know nothing of questions and errors: they take what the parts of a
type make of a value and say what the type makes of it.

`Rendering.Yields` ties a rendering to such a description.  It has a rule for
each way in which renderings are composed, and the theorems on the containers
follow the handlers with these rules.
-/

/-! ## Descriptions -/

namespace Composite

/-- All values, if none is missing. -/
def all {α : Type} : List (Option α) → Option (List α)
  | [] => some []
  | a? :: rest => a?.bind fun a => (all rest).map (a :: ·)

/-- Texts between the braces of a type. -/
def braced (name : Text) (parts : List Text) : Text :=
  name ++ "\x7b" ++ Text.joined ", " parts ++ "\x7d"

/-- A list of values of one type. -/
def sequence (name : Text) (item : Json → Option Text) : Json → Option Text
  | .array items => (all (items.map item)).map (braced name)
  | _ => none

/-- A list of so many values of one type.  No list is as long as `2 ^ 64`. -/
def array (name : Text) (item : Json → Option Text) (size : Nat) : Json → Option Text
  | .array items =>
      if items.length = size ∧ size < Nat.pow 2 64 then (all (items.map item)).map (braced name)
      else none
  | _ => none

/-- A list with one value of each type. -/
def tuple (name : Text) (parts : List (Json → Option Text)) : Json → Option Text
  | .array items =>
      if items.length = parts.length then
        (all (parts.zipWith (fun part item => part item) items)).map (braced name)
      else none
  | _ => none

/-- A value of the first type that takes it. -/
def variant (alternatives : List (Json → Option Text)) (value : Json) : Option Text :=
  alternatives.findSome? fun alternative => alternative value

/-- The name of a field as a key: the string itself or, if this is refused, the document in it. -/
def key (key : Json → Option Text) (name : Text) : Option Text :=
  (key (.string name)).or ((Json.parse? name).bind key)

/-- An entry of a map. -/
def entry (key? value? : Option Text) : Option Text :=
  key?.bind fun key => value?.map fun value => Container.entry key value

/-- An entry of a map that is given as a pair. -/
def pairEntry (key value : Json → Option Text) : Json → Option Text
  | .array [k, v] => entry (key k) (value v)
  | _ => none

/-- An object, or a list of pairs. -/
def map (name : Text) (key value : Json → Option Text) : Json → Option Text
  | .object fields =>
      (all (fields.map fun field => entry (Composite.key key field.1) (value field.2))).map
        (braced name)
  | .array pairs => (all (pairs.map (pairEntry key value))).map (braced name)
  | _ => none

/-- Nothing, or a value between braces. -/
def optional (name : Text) (item : Json → Option Text) : Json → Option Text
  | .null => some "std::nullopt"
  | value => (item value).map fun text => braced name [text]

/-- Nothing, or a pointer to a new value of the named type. -/
def pointer (factory itemName : Text) (item : Json → Option Text) : Json → Option Text
  | .null => some "nullptr"
  | value => (item value).map fun text => factory ++ "<" ++ itemName ++ ">(" ++ text ++ ")"

end Composite

namespace Rendering

variable {α β : Type} {answer : Text → Json → Option (Except RenderError Text)}

/-- A rendering runs to a result whose value, or lack of one, is the outcome. -/
def Yields (answer : Text → Json → Option (Except RenderError Text)) (rendering : Rendering α)
    (outcome : Option α) : Prop :=
  ∃ result, Plan.run answer rendering.run = some result ∧ result.toOption = outcome

/-- Questions for a type are answered with the values that a function gives. -/
def Answers (answer : Text → Json → Option (Except RenderError Text)) (type : Text)
    (literal : Json → Option Text) : Prop :=
  ∀ value, ∃ result, answer type value = some result ∧ result.toOption = literal value

/-! ## Rules -/

theorem yields_pure (a : α) : Yields answer (pure a) (some a) := ⟨.ok a, rfl, rfl⟩

theorem yields_throw (cause : RenderError) :
    Yields answer (throw cause : Rendering α) none := ⟨.error cause, rfl, rfl⟩

/-- A rendering goes on with the value of another one. -/
theorem yields_bind {first : Rendering α} {next : α → Rendering β} {outcome : Option α}
    {after : α → Option β} (hfirst : Yields answer first outcome)
    (hnext : ∀ a, outcome = some a → Yields answer (next a) (after a)) :
    Yields answer (first >>= next) (outcome.bind after) := by
  obtain ⟨result, hrun, rfl⟩ := hfirst
  have hbind : Plan.run answer (first >>= next).run =
      (Plan.run answer first.run).bind fun result =>
        Plan.run answer (ExceptT.bindCont next result) := Plan.run_bind answer _ _
  cases result with
  | error cause =>
      refine ⟨.error cause, ?_, rfl⟩
      rw [hbind, hrun]
      rfl
  | ok a =>
      obtain ⟨last, hlast, hout⟩ := hnext a rfl
      refine ⟨last, ?_, hout⟩
      rw [hbind, hrun]
      exact hlast

/-- A rendering ends with a text made of the value of another one. -/
theorem yields_map {first : Rendering α} {outcome : Option α} (hfirst : Yields answer first outcome)
    (f : α → β) : Yields answer (do return f (← first)) (outcome.map f) := by
  rw [Option.map_eq_bind]
  exact yields_bind hfirst fun a _ => yields_pure (f a)

theorem yields_ask {type : Text} {literal : Json → Option Text}
    (htype : Answers answer type literal) (value : Json) :
    Yields answer (ask type value) (literal value) := by
  obtain ⟨result, hanswer, hout⟩ := htype value
  refine ⟨result, ?_, hout⟩
  show Plan.run answer (Plan.ask type value Plan.done) = some result
  rw [Plan.run_ask, hanswer]
  rfl

/-- Asked for several values, a rendering yields all the answers. -/
theorem yields_askEach {items : List β} {question : β → Text × Json} {outcome : β → Option Text}
    (hanswers : ∀ item ∈ items,
      Yields answer (ask (question item).1 (question item).2) (outcome item)) :
    Yields answer (askEach (items.map question)) (Composite.all (items.map outcome)) := by
  induction items with
  | nil => exact yields_pure []
  | cons item rest ih =>
      rw [List.forall_mem_cons] at hanswers
      exact yields_bind hanswers.1 fun text _ => yields_map (ih hanswers.2) (text :: ·)

end Rendering

/-! ## Containers -/

namespace Container

open Rendering

variable {answer : Text → Json → Option (Except RenderError Text)}
variable {type item name : Text} {literal : Json → Option Text}

theorem yields_mismatch {α : Type} (value : Json) (expectation : Expectation) :
    Yields answer (mismatch type value expectation : Rendering α) none :=
  yields_throw _

theorem yields_sequence (hname : TypeName.canonical type = name)
    (hitem : Answers answer item literal) (value : Json) :
    Yields answer (sequence type [item] value) (Composite.sequence name literal value) := by
  subst hname
  cases value with
  | array items =>
      have hparts : Yields answer (askEach (items.map fun value => (item, value)))
          (Composite.all (items.map literal)) :=
        yields_askEach fun value _ => yields_ask hitem value
      exact yields_map hparts (braced type)
  | null | bool | number | string | object => exact yields_mismatch _ _

/-- The number of captured types is checked before anything else. -/
theorem yields_parameters {α : Type} {args : List Text} {expected : Nat}
    (hlength : args.length ≠ expected) (value : Json) (next : Unit → Rendering α) :
    Yields answer (parameters type args expected value >>= next) none := by
  have hcheck : Yields answer (parameters type args expected value) none := by
    rw [parameters, if_neg hlength]
    exact yields_mismatch _ _
  have hnext : ∀ a, (none : Option Unit) = some a → Yields answer (next a) none := nofun
  exact yields_bind hcheck hnext

theorem array_eq (type item size : Text) (value : Json) :
    array type [item, size] value =
      (size? size).elim (mismatch type value (.decimalSize size)) fun size => do
        let items ← items type value
        if items.length ≠ size then mismatch type value (.elements size items.length)
        else
          let parts ← Rendering.askEach (items.map (item, ·))
          return braced type parts := by
  dsimp only [array]
  cases size? size <;> rfl

theorem size?_eq_none {size : Text} (hsize : ¬(size ≠ [] ∧ size.all Char.isDigit = true)) :
    size? size = none := by
  refine if_neg fun hsome => hsize ?_
  simp only [Bool.and_eq_true, Bool.not_eq_true', List.isEmpty_eq_false_iff] at hsome
  exact hsome.1

/-- A size that is no number, or too large, is refused. -/
theorem yields_array_of_size? {size : Text} (hsize : size? size = none) (value : Json) :
    Yields answer (array type [item, size] value) none := by
  rw [array_eq, hsize]
  exact yields_mismatch _ _

theorem yields_array (hname : TypeName.canonical type = name)
    (hitem : Answers answer item literal) {size : Text}
    (hsize : size ≠ [] ∧ size.all Char.isDigit = true) (value : Json) :
    Yields answer (array type [item, size] value)
      (Composite.array name literal (Text.digitsToNat size) value) := by
  subst hname
  have hdigits : (!size.isEmpty && size.all Char.isDigit) = true := by simp [hsize.1, hsize.2]
  by_cases hsmall : Text.digitsToNat size < Nat.pow 2 64
  · have hread : size? size = some (Text.digitsToNat size) := by
      unfold size?
      simp only [hdigits, hsmall, decide_true, Bool.and_self, if_true]
    rw [array_eq, hread]
    cases value with
    | array items =>
        by_cases hlength : items.length = Text.digitsToNat size
        · have hparts : Yields answer (askEach (items.map fun value => (item, value)))
              (Composite.all (items.map literal)) :=
            yields_askEach fun value _ => yields_ask hitem value
          show Yields answer (ite _ _ _) (ite _ _ _)
          rw [if_neg (not_not_intro hlength), if_pos ⟨hlength, hsmall⟩]
          exact yields_map hparts (braced type)
        · show Yields answer (ite _ _ _) (ite _ _ _)
          rw [if_pos hlength, if_neg fun h => hlength h.1]
          exact yields_mismatch _ _
    | null | bool | number | string | object => exact yields_mismatch _ _
  · have hread : size? size = none := by
      unfold size?
      simp only [hdigits, hsmall, decide_false, Bool.and_false, Bool.false_eq_true, if_false]
    have hnone : Composite.array (TypeName.canonical type) literal (Text.digitsToNat size) value =
        none := by
      cases value with
      | array items => exact if_neg fun h => hsmall h.2
      | null | bool | number | string | object => rfl
    rw [hnone]
    exact yields_array_of_size? hread value

/-- Parts of a type with their names and what they make of values. -/
theorem yields_zip {parts : List (Text × (Json → Option Text))}
    (hparts : ∀ part ∈ parts, Answers answer part.1 part.2) (items : List Json) :
    Yields answer (askEach ((parts.map (·.1)).zip items))
      (Composite.all ((parts.map (·.2)).zipWith (fun part item => part item) items)) := by
  have hquestions : (parts.map (·.1)).zip items =
      (parts.zip items).map fun pair => (pair.1.1, pair.2) := by
    rw [List.zip_map_left]
    rfl
  have houtcomes : (parts.map (·.2)).zipWith (fun part item => part item) items =
      (parts.zip items).map fun pair => pair.1.2 pair.2 := by
    rw [List.zipWith_map_left, List.zip, List.map_zipWith]
  rw [hquestions, houtcomes]
  refine yields_askEach fun pair hmem => ?_
  exact yields_ask (hparts pair.1 (List.of_mem_zip hmem).1) pair.2

theorem yields_tuple (hname : TypeName.canonical type = name)
    {parts : List (Text × (Json → Option Text))}
    (hparts : ∀ part ∈ parts, Answers answer part.1 part.2) (value : Json) :
    Yields answer (tuple type (parts.map (·.1)) value)
      (Composite.tuple name (parts.map (·.2)) value) := by
  subst hname
  cases value with
  | array items =>
      show Yields answer (ite (items.length ≠ (parts.map (·.1)).length) _ _)
        (ite (items.length = (parts.map (·.2)).length) _ _)
      rw [List.length_map, List.length_map]
      by_cases hlength : items.length = parts.length
      · rw [if_neg (not_not_intro hlength), if_pos hlength]
        exact yields_map (yields_zip hparts items) (braced type)
      · rw [if_pos hlength, if_neg hlength]
        exact yields_mismatch _ _
  | null | bool | number | string | object => exact yields_mismatch _ _

/-- A pair is a tuple of two. -/
theorem yields_pair (hname : TypeName.canonical type = name) {first second : Text}
    {firstLiteral secondLiteral : Json → Option Text} (hfirst : Answers answer first firstLiteral)
    (hsecond : Answers answer second secondLiteral) (value : Json) :
    Yields answer (pair type [first, second] value)
      (Composite.tuple name [firstLiteral, secondLiteral] value) := by
  subst hname
  cases value with
  | array items =>
      show Yields answer (ite (items.length ≠ 2) _ _) (ite (items.length = 2) _ _)
      by_cases hlength : items.length = 2
      · have hparts : ∀ part ∈ [(first, firstLiteral), (second, secondLiteral)],
            Answers answer part.1 part.2 :=
          List.forall_mem_cons.2 ⟨hfirst, List.forall_mem_singleton.2 hsecond⟩
        rw [if_neg (not_not_intro hlength), if_pos hlength]
        exact yields_map (yields_zip hparts items) (braced type)
      · rw [if_pos hlength, if_neg hlength]
        exact yields_mismatch _ _
  | null | bool | number | string | object => exact yields_mismatch _ _

/-- Alternatives are tried in order, whatever the errors before. -/
theorem yields_firstOf {parts : List (Text × (Json → Option Text))}
    (hparts : ∀ part ∈ parts, Answers answer part.1 part.2) (value : Json)
    (attempts : List RenderError) :
    Yields answer (firstOf type value attempts (parts.map (·.1)))
      (Composite.variant (parts.map (·.2)) value) := by
  induction parts generalizing attempts with
  | nil => exact yields_throw _
  | cons part rest ih =>
      rw [List.forall_mem_cons] at hparts
      obtain ⟨result, hanswer, hout⟩ := hparts.1 value
      cases result with
      | ok text =>
          have hfound : part.2 value = some text := hout.symm
          have hvariant :
              Composite.variant ((part :: rest).map (·.2)) value = some text := by
            simp [Composite.variant, hfound]
          refine ⟨.ok text, ?_, hvariant.symm⟩
          show Plan.run answer (Plan.ask part.1 value _) = _
          rw [Plan.run_ask, hanswer]
          rfl
      | error cause =>
          have hnone : part.2 value = none := hout.symm
          -- The errors so far are only reported, so the rest may be tried with any of them.
          obtain ⟨last, hlast, hlater⟩ := ih hparts.2 (attempts ++ [cause])
          refine ⟨last, ?_, by simp [Composite.variant, hnone, hlater]⟩
          show Plan.run answer (Plan.ask part.1 value _) = _
          rw [Plan.run_ask, hanswer]
          exact hlast

theorem yields_variant {parts : List (Text × (Json → Option Text))}
    (hparts : ∀ part ∈ parts, Answers answer part.1 part.2) (value : Json) :
    Yields answer (variant type (parts.map (·.1)) value)
      (Composite.variant (parts.map (·.2)) value) :=
  yields_firstOf hparts value []

/-! ### Maps -/

variable {keyType valueType : Text} {keyLiteral valueLiteral : Json → Option Text}

/-- A name is tried as a string and then as the document in it. -/
theorem yields_key (hkey : Answers answer keyType keyLiteral) (name : Text) :
    Yields answer (key keyType name) (Composite.key keyLiteral name) := by
  obtain ⟨result, hanswer, hout⟩ := hkey (.string name)
  show ∃ last, Plan.run answer (Plan.ask keyType (.string name) _) = some last ∧ _
  rw [Plan.run_ask, hanswer, Composite.key, ← hout]
  cases result with
  | ok text => exact ⟨.ok text, rfl, rfl⟩
  | error cause =>
      -- The second attempt is made only if the name is a document.
      cases hparse : Json.parse? name with
      | none =>
          refine ⟨.error cause, ?_, rfl⟩
          simp
      | some value =>
          obtain ⟨last, hlast, hvalue⟩ := yields_ask hkey value
          refine ⟨last, ?_, hvalue⟩
          simp only [Option.bind_some, Function.comp_apply]
          exact hlast

/-- An entry needs its key and its value. -/
theorem yields_entry {keyRendering valueRendering : Rendering Text} {key? value? : Option Text}
    {rest : Rendering (List Text)} {rest? : Option (List Text)}
    (hkey : Yields answer keyRendering key?) (hvalue : Yields answer valueRendering value?)
    (hrest : Yields answer rest rest?) :
    Yields answer
      (do
        let key ← keyRendering
        let value ← valueRendering
        let entries ← rest
        return entry key value :: entries)
      ((Composite.entry key? value?).bind fun entry => rest?.map (entry :: ·)) := by
  have houtcome : (Composite.entry key? value?).bind (fun entry => rest?.map (entry :: ·)) =
      key?.bind fun key => value?.bind fun value => rest?.map (entry key value :: ·) := by
    cases key? with
    | none => rfl
    | some key =>
        cases value? with
        | none => rfl
        | some value => rfl
  rw [houtcome]
  refine yields_bind hkey fun key _ => yields_bind hvalue fun value _ => ?_
  exact yields_map hrest (entry key value :: ·)

theorem yields_entriesOfFields (hkey : Answers answer keyType keyLiteral)
    (hvalue : Answers answer valueType valueLiteral) (fields : List (Text × Json)) :
    Yields answer (entriesOfFields keyType valueType fields)
      (Composite.all (fields.map fun field =>
        Composite.entry (Composite.key keyLiteral field.1) (valueLiteral field.2))) := by
  induction fields with
  | nil => exact yields_pure []
  | cons field rest ih =>
      exact yields_entry (yields_key hkey field.1) (yields_ask hvalue field.2) ih

theorem yields_entriesOfPairs (hkey : Answers answer keyType keyLiteral)
    (hvalue : Answers answer valueType valueLiteral) (pairs : List Json) :
    Yields answer (entriesOfPairs type keyType valueType pairs)
      (Composite.all (pairs.map (Composite.pairEntry keyLiteral valueLiteral))) := by
  induction pairs with
  | nil => exact yields_pure []
  | cons pair rest ih =>
      -- Only a list of two values is an entry, and everything else ends the rendering.
      match pair with
      | .array [key, value] => exact yields_entry (yields_ask hkey key) (yields_ask hvalue value) ih
      | .array [] | .array [_] | .array (_ :: _ :: _ :: _) => exact yields_mismatch _ _
      | .null | .bool _ | .number _ | .string _ | .object _ => exact yields_mismatch _ _

theorem yields_mapping (hname : TypeName.canonical type = name)
    (hkey : Answers answer keyType keyLiteral)
    (hvalue : Answers answer valueType valueLiteral) (value : Json) :
    Yields answer (map type [keyType, valueType] value)
      (Composite.map name keyLiteral valueLiteral value) := by
  subst hname
  cases value with
  | object fields =>
      exact yields_map (yields_entriesOfFields hkey hvalue fields) (braced type)
  | array pairs => exact yields_map (yields_entriesOfPairs hkey hvalue pairs) (braced type)
  | null | bool | number | string => exact yields_mismatch _ _

/-! ### Types of one value -/

theorem yields_optional (hname : TypeName.canonical type = name)
    (hitem : Answers answer item literal) (value : Json) :
    Yields answer (optional type [item] value) (Composite.optional name literal value) := by
  subst hname
  cases value with
  | null => exact yields_pure _
  | bool | number | string | array | object =>
      exact yields_map (yields_ask hitem _) fun part => braced type [part]

theorem yields_pointer (factory : Text) (hname : TypeName.canonical item = name)
    (hitem : Answers answer item literal) (value : Json) :
    Yields answer (pointer factory type [item] value)
      (Composite.pointer factory name literal value) := by
  subst hname
  cases value with
  | null => exact yields_pure _
  | bool | number | string | array | object =>
      exact yields_map (yields_ask hitem _) fun part =>
        factory ++ "<" ++ TypeName.canonical item ++ ">(" ++ part ++ ")"

end Container
end Stencil
