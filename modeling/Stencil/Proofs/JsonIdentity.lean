import Mathlib.Data.List.Nodup
import Stencil.Json.Record
import Stencil.Proofs.Outcome

namespace Stencil

/-!
# Values that equal themselves

Objects are compared by looking each field of the one up in the other.  So a value
equals itself only if no name occurs twice in an object, since a look-up finds the
first occurrence alone.  `Json.Distinct` says this of all objects in a value.  It is
not the equality of the values as terms, which `Json.decEq` decides.

Readers give no other values: a repeated name takes the place of the one before.
`Reader.Gives` states what holds of everything that a reader gives, with a rule for
each way readers are put together, and `gives_value` is the conclusion for JSON
values.
-/

namespace Fields

variable {α : Type}

/-- A value that is put in is found again, and the others stay. -/
theorem mem_insert {name : Text} {value : α} {fields : Fields α} {field : Text × α}
    (hmem : field ∈ insert name value fields) : field = (name, value) ∨ field ∈ fields := by
  induction fields with
  | nil => exact Or.inl (List.mem_singleton.1 hmem)
  | cons first rest ih =>
      obtain ⟨key, old⟩ := first
      by_cases hkey : key = name
      · rw [insert, if_pos hkey, List.mem_cons] at hmem
        rcases hmem with rfl | hrest
        · exact Or.inl (by rw [hkey])
        · exact Or.inr (List.mem_cons_of_mem _ hrest)
      · rw [insert, if_neg hkey, List.mem_cons] at hmem
        rcases hmem with rfl | hrest
        · exact Or.inr List.mem_cons_self
        · rcases ih hrest with rfl | hold
          · exact Or.inl rfl
          · exact Or.inr (List.mem_cons_of_mem _ hold)

/-- A name that is put in is new at the end, or has its place already. -/
theorem names_insert (name : Text) (value : α) (fields : Fields α) :
    names (insert name value fields) =
      if name ∈ names fields then names fields else names fields ++ [name] := by
  induction fields with
  | nil => rfl
  | cons first rest ih =>
      obtain ⟨key, old⟩ := first
      by_cases hkey : key = name
      · rw [insert, if_pos hkey, names_cons, names_cons, hkey, if_pos List.mem_cons_self]
      · rw [insert, if_neg hkey, names_cons, names_cons, ih]
        by_cases hmem : name ∈ names rest
        · rw [if_pos hmem, if_pos (List.mem_cons_of_mem key hmem)]
        · have hnot : name ∉ key :: names rest := by
            simp [hmem, Ne.symm hkey]
          rw [if_neg hmem, if_neg hnot, List.cons_append]

theorem nodup_names_insert (name : Text) (value : α) {fields : Fields α}
    (hnodup : (names fields).Nodup) : (names (insert name value fields)).Nodup := by
  rw [names_insert]
  by_cases hmem : name ∈ names fields
  · rwa [if_pos hmem]
  · rw [if_neg hmem]
    exact List.nodup_append.2
      ⟨hnodup, List.nodup_singleton name, fun other hother same hsame heq =>
        hmem (List.mem_singleton.1 hsame ▸ heq ▸ hother)⟩

/-- Where no name occurs twice, every field is the one that is found under its name. -/
theorem get?_of_mem {fields : Fields α} (hnodup : (names fields).Nodup) {field : Text × α}
    (hmem : field ∈ fields) : get? field.1 fields = some field.2 := by
  induction fields with
  | nil => cases hmem
  | cons first rest ih =>
      rw [names_cons, List.nodup_cons] at hnodup
      rcases List.mem_cons.1 hmem with rfl | hrest
      · simp [get?]
      · have hne : first.1 ≠ field.1 := by
          intro heq
          exact hnodup.1 (heq ▸ List.mem_map_of_mem hrest)
        rw [get?, if_neg hne]
        exact ih hnodup.2 hrest

end Fields

namespace Json

/-! ## Decidable equality -/

mutual

/-- Decides whether two values are the same, the order of fields included. -/
def decEq : (a b : Json) → Decidable (a = b)
  | null, null => isTrue rfl
  | bool a, bool b => decidable_of_iff (a = b) ⟨congrArg _, bool.inj⟩
  | number a, number b => decidable_of_iff (a = b) ⟨congrArg _, number.inj⟩
  | string a, string b => decidable_of_iff (a = b) ⟨congrArg _, string.inj⟩
  | array a, array b =>
      have := decEqItems a b
      decidable_of_iff (a = b) ⟨congrArg _, array.inj⟩
  | object a, object b =>
      have := decEqFields a b
      decidable_of_iff (a = b) ⟨congrArg _, object.inj⟩
  | null, bool _ | null, number _ | null, string _ | null, array _ | null, object _
  | bool _, null | bool _, number _ | bool _, string _ | bool _, array _ | bool _, object _
  | number _, null | number _, bool _ | number _, string _ | number _, array _
  | number _, object _ | string _, null | string _, bool _ | string _, number _
  | string _, array _ | string _, object _ | array _, null | array _, bool _ | array _, number _
  | array _, string _ | array _, object _ | object _, null | object _, bool _
  | object _, number _ | object _, string _ | object _, array _ => isFalse nofun

def decEqItems : (items others : List Json) → Decidable (items = others)
  | [], [] => isTrue rfl
  | [], _ :: _ | _ :: _, [] => isFalse nofun
  | a :: items, b :: others =>
      have := decEq a b
      have := decEqItems items others
      decidable_of_iff (a = b ∧ items = others) (by simp)

def decEqFields : (fields others : List (Text × Json)) → Decidable (fields = others)
  | [], [] => isTrue rfl
  | [], _ :: _ | _ :: _, [] => isFalse nofun
  | (name, a) :: fields, (name', b) :: others =>
      have := decEq a b
      have := decEqFields fields others
      decidable_of_iff ((name = name' ∧ a = b) ∧ fields = others) (by simp)

end

instance : DecidableEq Json := decEq

/-! ## Equality of values -/

/-- A value in whose objects no name occurs twice. -/
inductive Distinct : Json → Prop where
  | null : Distinct .null
  | bool (b : Bool) : Distinct (.bool b)
  | number (n : Number) : Distinct (.number n)
  | string (s : Text) : Distinct (.string s)
  | array {items : List Json} (hitems : ∀ item ∈ items, Distinct item) :
      Distinct (.array items)
  | object {fields : Fields Json} (hnames : fields.names.Nodup)
      (hvalues : ∀ field ∈ fields, Distinct field.2) : Distinct (.object fields)

theorem Number.same_self (n : Number) : n.same n = true := by
  cases n with
  | integer n => simp [same]
  | double d => simp [same, Double.sameNumber]

/-- Lists whose items equal themselves equal themselves. -/
theorem sameItems_self {items : List Json} (hitems : ∀ item ∈ items, item.same item = true) :
    sameItems items items = true := by
  induction items with
  | nil => rw [sameItems]
  | cons item rest ih =>
      rw [List.forall_mem_cons] at hitems
      rw [sameItems, hitems.1, ih hitems.2]
      rfl

/-- Fields that are all found in a list, with values that equal themselves, are its fields. -/
theorem sameFields_of_get? {fields others : List (Text × Json)}
    (hfound : ∀ field ∈ fields, Fields.get? field.1 others = some field.2)
    (hvalues : ∀ field ∈ fields, field.2.same field.2 = true) :
    sameFields fields others = true := by
  induction fields with
  | nil => rw [sameFields]
  | cons field rest ih =>
      obtain ⟨name, value⟩ := field
      rw [List.forall_mem_cons] at hfound hvalues
      rw [sameFields, hfound.1, ih hfound.2 hvalues.2]
      simp only [hvalues.1, Bool.and_self]

/-- A value without repeated names equals itself. -/
theorem Distinct.same_self {v : Json} (hv : v.Distinct) : v.same v = true := by
  induction hv with
  | null => rw [same]
  | bool b => simp [same]
  | number n => rw [same, Number.same_self]
  | string s => simp [same]
  | array hitems ih => rw [same, sameItems_self ih]
  | object hnames hvalues ih =>
      rw [same, sameFields_of_get? (fun field hmem => Fields.get?_of_mem hnames hmem) ih]
      simp

namespace Reader

variable {α β σ : Type}

/-- Everything that a reader gives satisfies `P`. -/
def Gives (reader : Reader α) (P : α → Prop) : Prop :=
  ∀ t a rest, reader t = .ok (a, rest) → P a

theorem gives_any (reader : Reader α) : Gives reader fun _ => True := fun _ _ _ _ => trivial

theorem gives_pure {P : α → Prop} {a : α} (ha : P a) : Gives (pure a) P := by
  intro t b rest h
  obtain ⟨rfl, -⟩ := Prod.mk.inj (Except.ok.inj h)
  exact ha

theorem gives_failHere (problem : Problem) (P : α → Prop) : Gives (failHere problem) P := by
  intro t a rest h
  cases h

theorem gives_failNext (problem : Problem) (P : α → Prop) : Gives (failNext problem) P := by
  intro t a rest h
  cases h

/-- One reader after another gives what the second one gives, whatever the first one gave. -/
theorem gives_bind {Q : α → Prop} {P : β → Prop} {reader : Reader α} {next : α → Reader β}
    (hreader : Gives reader Q) (hnext : ∀ a, Q a → Gives (next a) P) :
    Gives (reader >>= next) P := by
  intro t b rest h
  obtain ⟨⟨a, middle⟩, hfirst, hsecond⟩ := Outcome.bind_eq_ok_iff.1 h
  exact hnext a (hreader t a middle hfirst) middle b rest hsecond

/-- A reader after one of which nothing has to be known. -/
theorem gives_after {P : β → Prop} (reader : Reader α) {next : α → Reader β}
    (hnext : ∀ a, Gives (next a) P) : Gives (reader >>= next) P :=
  gives_bind (gives_any reader) fun a _ => hnext a

theorem gives_document {P : α → Prop} {reader : Reader α} (hreader : Gives reader P) {t : Text}
    {a : α} (hread : document reader t = .ok a) : P a := by
  unfold document at hread
  obtain ⟨⟨b, rest⟩, hrun, hrest⟩ := Outcome.bind_eq_ok_iff.1 hread
  have hb : P b := hreader t b rest hrun
  dsimp only at hrest
  split at hrest
  · obtain rfl := Except.ok.inj hrest
    exact hb
  · cases hrest

/-! ## Arrays, objects and values -/

theorem gives_itemsWithin {P : α → Prop} {item : Reader α} (hitem : Gives item P) (rounds : Nat)
    (first : Bool) : Gives (itemsWithin item rounds first) fun items => ∀ x ∈ items, P x := by
  induction rounds generalizing first with
  | zero => exact gives_failHere _ _
  | succ rounds ih =>
      refine gives_after _ fun more => ?_
      cases more with
      | false => exact gives_pure (by simp)
      | true =>
          refine gives_bind hitem fun x hx => gives_bind (ih false) fun items hitems => ?_
          exact gives_pure (List.forall_mem_cons.2 ⟨hx, hitems⟩)

theorem gives_arrayOf {P : α → Prop} {item : Reader α} (hitem : Gives item P) :
    Gives (arrayOf item) fun items => ∀ x ∈ items, P x := by
  refine gives_after _ fun _ => gives_after _ fun t => ?_
  refine gives_bind (gives_itemsWithin hitem _ _) fun items hitems => gives_after _ fun _ => ?_
  exact gives_pure hitems

/-- Fields that were read have names that occur once. -/
def FieldsOf (P : α → Prop) (fields : Fields α) : Prop :=
  fields.names.Nodup ∧ ∀ field ∈ fields, P field.2

theorem gives_fieldsWithin {P : α → Prop} {item : Reader α} (hitem : Gives item P) (rounds : Nat)
    (first : Bool) {fields : Fields α} (hfields : FieldsOf P fields) :
    Gives (fieldsWithin item rounds first fields) (FieldsOf P) := by
  induction rounds generalizing first fields with
  | zero => exact gives_failHere _ _
  | succ rounds ih =>
      refine gives_after _ fun more => ?_
      cases more with
      | false => exact gives_pure hfields
      | true =>
          refine gives_after _ fun name => gives_after _ fun _ => ?_
          refine gives_bind hitem fun x hx => ih false ⟨?_, ?_⟩
          · exact Fields.nodup_names_insert name x hfields.1
          · intro field hmem
            rcases Fields.mem_insert hmem with rfl | hold
            · exact hx
            · exact hfields.2 field hold

theorem gives_objectOf {P : α → Prop} {item : Reader α} (hitem : Gives item P) :
    Gives (objectOf item) (FieldsOf P) := by
  have hnone : FieldsOf P [] := ⟨List.nodup_nil, fun field hmem => by cases hmem⟩
  refine gives_after _ fun _ => gives_after _ fun t => ?_
  refine gives_bind (gives_fieldsWithin hitem _ _ hnone) fun fields hfields => ?_
  exact gives_after _ fun _ => gives_pure hfields

theorem gives_valueWith {inner? : Option (Reader Json)}
    (hinner : ∀ inner, inner? = some inner → Gives inner Distinct) :
    Gives (valueWith inner?) Distinct := by
  refine gives_after _ fun _ => gives_after _ fun c? => ?_
  split
  · exact gives_failNext _ _
  · exact gives_after _ fun _ => gives_after _ fun _ => gives_pure .null
  · exact gives_after _ fun _ => gives_after _ fun _ => gives_pure (.bool true)
  · exact gives_after _ fun _ => gives_after _ fun _ => gives_pure (.bool false)
  · exact gives_after _ fun s => gives_pure (.string s)
  · cases inner? with
    | none => exact gives_failNext _ _
    | some inner =>
        exact gives_bind (gives_arrayOf (hinner inner rfl)) fun items hitems =>
          gives_pure (.array hitems)
  · cases inner? with
    | none => exact gives_failNext _ _
    | some inner =>
        exact gives_bind (gives_objectOf (hinner inner rfl)) fun fields hfields =>
          gives_pure (.object hfields.1 hfields.2)
  · split
    · exact gives_after _ fun n => gives_pure (.number n)
    · exact gives_failNext _ _

/-- Values are read without repeated names. -/
theorem gives_value (depth : Nat) : Gives (value depth) Distinct := by
  induction depth with
  | zero =>
      apply gives_valueWith
      intro inner h
      cases h
  | succ depth ih =>
      apply gives_valueWith
      intro inner h
      obtain rfl := Option.some.inj h
      exact ih

/-! ## Typed values -/

/-- A reader that reports a wrong type gives nothing. -/
theorem gives_wrongType (P : α → Prop) : Gives (wrongType : Reader α) P := by
  refine gives_after _ fun c? => ?_
  split
  · exact gives_after _ fun _ => gives_after _ fun _ => gives_failHere _ _
  · exact gives_after _ fun _ => gives_after _ fun _ => gives_failHere _ _
  · exact gives_after _ fun _ => gives_after _ fun _ => gives_failHere _ _
  · exact gives_after _ fun _ => gives_failHere _ _
  · exact gives_failHere _ _
  · exact gives_failHere _ _
  · split
    · exact gives_after _ fun _ => gives_failHere _ _
    · exact gives_failNext _ _
  · exact gives_failNext _ _

theorem gives_listOf {P : α → Prop} {item : Reader α} (hitem : Gives item P) :
    Gives (listOf item) fun items => ∀ x ∈ items, P x := by
  refine gives_after _ fun _ => gives_after _ fun c? => ?_
  split
  · exact gives_arrayOf hitem
  · exact gives_wrongType _

theorem gives_abandonObject (P : α → Prop) : Gives (abandonObject : Reader α) P := by
  refine gives_after _ fun _ => gives_after _ fun c? => ?_
  split
  · exact gives_after _ fun _ => gives_failHere _ _
  · exact gives_failHere _ _

theorem gives_abandonArray (P : α → Prop) : Gives (abandonArray : Reader α) P := by
  refine gives_after _ fun _ => gives_after _ fun c? => ?_
  split
  · exact gives_after _ fun _ => gives_failHere _ _
  · exact gives_failHere _ _

/-- What every field keeps of a draft is kept by the fields of an object. -/
theorem gives_recordFields {I : σ → Prop} {fields : List (RecordField σ)}
    (hfields : ∀ field ∈ fields, ∀ draft, I draft → Gives (field.read draft) I) (rounds : Nat)
    (first : Bool) {draft : σ} (hdraft : I draft) :
    Gives (recordFields fields rounds first draft) I := by
  induction rounds generalizing first draft with
  | zero => exact gives_failHere _ _
  | succ rounds ih =>
      refine gives_after _ fun more => ?_
      cases more with
      | false => exact gives_pure hdraft
      | true =>
          refine gives_after _ fun name => ?_
          split
          · exact gives_abandonObject _
          · rename_i field hfind
            have hmem := List.mem_of_find?_eq_some hfind
            split
            · exact gives_abandonObject _
            · refine gives_after _ fun _ => ?_
              exact gives_bind (hfields field hmem draft hdraft) fun next hnext =>
                ih false hnext

/-- What every field keeps of a draft is kept by the items of an array. -/
theorem gives_recordItems {I : σ → Prop} {fields : List (RecordField σ)}
    (hfields : ∀ field ∈ fields, ∀ draft, I draft → Gives (field.read draft) I)
    (first : Bool) {draft : σ} (hdraft : I draft) :
    Gives (recordItems fields first draft) I := by
  induction fields generalizing first draft with
  | nil => exact gives_pure hdraft
  | cons field rest ih =>
      rw [List.forall_mem_cons] at hfields
      refine gives_after _ fun more => ?_
      cases more with
      | false => exact ih hfields.2 first hdraft
      | true =>
          exact gives_bind (hfields.1 draft hdraft) fun next hnext => ih hfields.2 false hnext

/-- A record gives what its last draft finishes to. -/
theorem gives_record {I : σ → Prop} {P : β → Prop} {fields : List (RecordField σ)}
    (hfields : ∀ field ∈ fields, ∀ draft, I draft → Gives (field.read draft) I) {draft : σ}
    (hdraft : I draft) {finish : σ → Option β}
    (hfinish : ∀ last, I last → ∀ result, finish last = some result → P result) :
    Gives (record fields draft finish) P := by
  refine gives_after _ fun _ => gives_after _ fun c? => ?_
  split
  · refine gives_after _ fun _ => gives_after _ fun t => ?_
    refine gives_bind (gives_recordFields hfields _ _ hdraft) fun last hlast => ?_
    cases hresult : finish last with
    | none => exact gives_abandonObject _
    | some result => exact gives_after _ fun _ => gives_pure (hfinish last hlast result hresult)
  · refine gives_after _ fun _ => ?_
    refine gives_bind (gives_recordItems hfields _ hdraft) fun last hlast => ?_
    cases hresult : finish last with
    | none => exact gives_abandonArray _
    | some result => exact gives_after _ fun _ => gives_pure (hfinish last hlast result hresult)
  · exact gives_wrongType _

end Reader
end Json
end Stencil
