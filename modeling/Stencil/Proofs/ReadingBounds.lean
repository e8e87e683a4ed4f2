import Stencil.Proofs.LineColumns
import Stencil.Proofs.SpecRequirements

namespace Stencil

/-!
# Reading stays inside a document

A reader takes characters from the front of a text and never gives any back, so
what it leaves, or what it says to follow a problem, is no larger than the text
that it was given (`Reader.IsBounded`).  There is a rule for each way in which
readers are composed, and the reader of specs is built up with these rules.

So as many bytes come before a problem as are left of the document without those
that follow it, and the problem is attributed to the byte to which the position
behind these bytes leads back (`Spec.place_of_malformed`).
-/

namespace Text

theorem byteSize_le_of_isSuffix {s t : Text} (h : s <:+ t) : byteSize s ≤ byteSize t := by
  obtain ⟨front, rfl⟩ := h
  rw [byteSize_append]
  exact Nat.le_add_left _ _

theorem byteSize_drop_le (n : Nat) (t : Text) : byteSize (t.drop n) ≤ byteSize t :=
  byteSize_le_of_isSuffix (List.drop_suffix n t)

theorem byteSize_le_cons (c : Char) (t : Text) : byteSize t ≤ byteSize (c :: t) :=
  byteSize_le_of_isSuffix (List.suffix_cons c t)

theorem byteSize_dropWhile_le (p : Char → Bool) (t : Text) :
    byteSize (t.dropWhile p) ≤ byteSize t :=
  byteSize_le_of_isSuffix (List.dropWhile_suffix p)

theorem byteSize_takeWhile_add (p : Char → Bool) (t : Text) :
    byteSize (t.takeWhile p) + byteSize (t.dropWhile p) = byteSize t := by
  rw [← byteSize_append, List.takeWhile_append_dropWhile]

theorem length_le_byteSize (t : Text) : t.length ≤ byteSize t := by
  induction t with
  | nil => exact Nat.le_refl 0
  | cons c rest ih =>
      have hpos := Char.utf8Size_pos c
      rw [List.length_cons, byteSize_cons]
      omega

end Text

namespace Json
namespace Reader

open Stencil.Text (byteSize byteSize_le_cons byteSize_drop_le byteSize_dropWhile_le)

variable {α β σ : Type}

/-! ## Outcomes -/

/-- What an outcome leaves, or says to follow a problem, takes at most `n` bytes. -/
def Within (size : α → Nat) (n : Nat) : Except ReadError α → Prop
  | .ok a => size a ≤ n
  | .error e => e.remaining ≤ n

/-- The bytes that follow what was read. -/
def restSize (result : α × Text) : Nat := byteSize result.2

/-- An outcome that leaves nothing to be measured. -/
abbrev ReportsWithin (n : Nat) (outcome : Except ReadError α) : Prop :=
  Within (fun _ => 0) n outcome

theorem Within.mono {size : α → Nat} {n m : Nat} {outcome : Except ReadError α}
    (h : Within size n outcome) (hle : n ≤ m) : Within size m outcome := by
  cases outcome with
  | ok a => exact Nat.le_trans h hle
  | error e => exact Nat.le_trans h hle

theorem Within.map {size : α → Nat} {size' : β → Nat} {n : Nat} {outcome : Except ReadError α}
    (h : Within size n outcome) {f : α → β} (hsize : ∀ a, size a ≤ n → size' (f a) ≤ n) :
    Within size' n (outcome.map f) := by
  cases outcome with
  | ok a => exact hsize a h
  | error e => exact h

/-- An outcome that is paired with the text behind it. -/
theorem Within.before {outcome : Except ReadError α} {rest : Text}
    (h : ReportsWithin (byteSize rest) outcome) :
    Within restSize (byteSize rest) (outcome.map (·, rest)) :=
  h.map fun _ _ => Nat.le_refl (byteSize rest)

/-- One outcome that is used to get another one. -/
theorem Within.bind {size : α → Nat} {size' : β → Nat} {n : Nat} {outcome : Except ReadError α}
    (h : Within size n outcome) {next : α → Except ReadError β}
    (hnext : ∀ a, size a ≤ n → Within size' n (next a)) : Within size' n (outcome >>= next) := by
  cases outcome with
  | ok a => exact hnext a h
  | error e => exact h

/-! ## Readers -/

/-- A reader leaves no more than it was given, and reports no more to follow. -/
def IsBounded (reader : Reader α) : Prop := ∀ t, Within restSize (byteSize t) (reader t)

theorem isBounded_pure (a : α) : IsBounded (pure a) := fun _ => Nat.le_refl _

theorem isBounded_failHere (problem : Problem) : IsBounded (failHere problem : Reader α) :=
  fun _ => Nat.le_refl _

theorem isBounded_failNext (problem : Problem) : IsBounded (failNext problem : Reader α) :=
  fun _ => Nat.sub_le _ _

/-- One reader after another. -/
theorem isBounded_bind {reader : Reader α} {next : α → Reader β} (hreader : IsBounded reader)
    (hnext : ∀ a, IsBounded (next a)) : IsBounded (reader >>= next) := fun t =>
  (hreader t).bind fun result hrest => (hnext result.1 result.2).mono hrest

theorem isBounded_get : IsBounded (get : Reader Text) := fun _ => Nat.le_refl _

theorem isBounded_peek? : IsBounded peek? := isBounded_bind isBounded_get fun _ => isBounded_pure _

theorem isBounded_skip : IsBounded skip := fun t => byteSize_drop_le 1 t

theorem isBounded_skipSpace : IsBounded skipSpace := fun t => byteSize_dropWhile_le isSpace t

/-- A look at what follows the white space. -/
theorem isBounded_afterSpace {next : Option Char → Reader α} (hnext : ∀ c?, IsBounded (next c?)) :
    IsBounded (skipSpace >>= fun _ => peek? >>= next) :=
  isBounded_bind isBounded_skipSpace fun _ => isBounded_bind isBounded_peek? hnext

theorem isBounded_letters (expected : Text) : IsBounded (letters expected) := by
  induction expected with
  | nil => exact isBounded_pure ()
  | cons c rest ih =>
      refine isBounded_bind isBounded_peek? fun d? => ?_
      split
      · exact isBounded_failHere _
      · split
        · exact isBounded_bind isBounded_skip fun _ => ih
        · exact isBounded_failNext _

/-! ## Strings -/

theorem hexEscape_within (t : Text) : ReportsWithin (byteSize t) (hexEscape t) := by
  unfold hexEscape
  split
  · exact Nat.zero_le _
  · split
    · exact Nat.zero_le _
    · exact Nat.sub_le _ _

theorem lowSurrogate_within (high : Nat) (t : Text) :
    ReportsWithin (byteSize t) (lowSurrogate high t) := by
  unfold lowSurrogate
  split
  · exact Nat.zero_le _
  · rename_i rest
    refine Within.mono ?_ (byteSize_le_cons '\\' rest)
    split
    · exact Nat.zero_le _
    · rename_i digits
      refine Within.mono ?_ (byteSize_le_cons 'u' digits)
      refine (hexEscape_within digits).bind fun low _ => ?_
      split
      · exact Nat.zero_le _
      · exact byteSize_drop_le 4 digits
    · exact Nat.sub_le _ _
  · exact Nat.sub_le _ _

theorem escape_within (t : Text) : ReportsWithin (byteSize t) (escape t) := by
  unfold escape
  split
  case h_10 rest =>
    refine Within.mono ?_ (byteSize_le_cons 'u' rest)
    refine (hexEscape_within rest).bind fun n _ => ?_
    split
    · exact byteSize_drop_le 4 rest
    · split
      · refine ((lowSurrogate_within n (rest.drop 4)).mono (byteSize_drop_le 4 rest)).bind ?_
        exact fun c _ => Nat.zero_le _
      · exact Nat.zero_le _
  case h_11 => exact Nat.sub_le _ _
  all_goals exact Nat.zero_le _

theorem stringBody_within (t : Text) : Within restSize (byteSize t) (stringBody t) := by
  fun_induction stringBody t with
  | case1 => exact Nat.zero_le _
  | case2 rest => exact byteSize_le_cons _ rest
  | case3 rest e hescape =>
      have hbound := escape_within rest
      rw [hescape] at hbound
      exact Within.mono hbound (byteSize_le_cons _ rest)
  | case4 rest d used hescape hquote ih =>
      have hrest : byteSize (rest.drop used) ≤ byteSize ('\\' :: rest) :=
        Nat.le_trans (byteSize_drop_le used rest) (byteSize_le_cons _ rest)
      exact (ih.mono hrest).map fun _ hsize => hsize
  | case5 c rest => exact byteSize_le_cons c rest
  | case6 c rest hquote hescape hcontrol ih =>
      exact (ih.mono (byteSize_le_cons c rest)).map fun _ hsize => hsize

theorem isBounded_string : IsBounded string :=
  isBounded_bind isBounded_skip fun _ => stringBody_within

/-! ## Numbers -/

theorem excess?_le {digits : Text} {unread : Nat} (h : excess? digits = some unread) :
    unread ≤ digits.length := by
  obtain ⟨k, -, rfl⟩ := Option.map_eq_some_iff.1 h
  exact Nat.sub_le _ _

theorem doubleOf_within (negative : Bool) (n : Decimal.Numeral) (rest : Text) :
    ReportsWithin (byteSize rest) (doubleOf negative n rest) := by
  unfold doubleOf
  split
  · exact Nat.zero_le _
  · exact Nat.le_refl _

theorem exponentPart_within (negative : Bool) (n : Decimal.Numeral) (t : Text) :
    Within restSize (byteSize t) (exponentPart negative n t) := by
  unfold exponentPart
  split
  rename_i minus body hsign
  have hbody : byteSize body ≤ byteSize t := by
    split at hsign <;> obtain ⟨-, rfl⟩ := Prod.mk.inj hsign
    · exact byteSize_le_cons '+' _
    · exact byteSize_le_cons '-' _
    · exact Nat.le_refl _
  refine Within.mono ?_ hbody
  clear hsign hbody
  split
  · exact Nat.zero_le _
  · rename_i c tail
    generalize c :: tail = body
    have hrest := byteSize_dropWhile_le Char.isDigit body
    split
    · exact Nat.sub_le _ _
    · dsimp only
      split
      · rename_i unread hexcess
        split
        · -- The digits that are not read are some of those of the exponent.
          have hunread := Nat.le_trans (excess?_le hexcess) (Text.length_le_byteSize _)
          have hcut := Text.byteSize_takeWhile_add Char.isDigit body
          show _ + _ ≤ _
          omega
        · exact hrest
      · exact (doubleOf_within _ _ _).before.mono hrest

theorem integerOf_within (negative : Bool) (n : Decimal.Numeral) (rest : Text) :
    ReportsWithin (byteSize rest) (integerOf negative n rest) := by
  unfold integerOf
  split
  · exact doubleOf_within negative n rest
  · split
    · split
      · exact Nat.zero_le _
      · exact doubleOf_within negative n rest
    · exact Nat.zero_le _

theorem afterDigits_within (negative : Bool) (n : Decimal.Numeral) (t : Text) :
    Within restSize (byteSize t) (afterDigits negative n t) := by
  unfold afterDigits
  split
  · rename_i tail
    have hrest : byteSize (tail.dropWhile Char.isDigit) ≤ byteSize ('.' :: tail) :=
      Nat.le_trans (byteSize_dropWhile_le Char.isDigit tail) (byteSize_le_cons '.' tail)
    refine Within.mono ?_ hrest
    dsimp only
    generalize tail.dropWhile Char.isDigit = rest
    split
    · exact Nat.zero_le _
    · exact Nat.sub_le _ _
    · exact (exponentPart_within _ _ _).mono (byteSize_le_cons 'e' _)
    · exact (exponentPart_within _ _ _).mono (byteSize_le_cons 'E' _)
    · exact (doubleOf_within _ _ _).before
  · exact (exponentPart_within _ _ _).mono (byteSize_le_cons 'e' _)
  · exact (exponentPart_within _ _ _).mono (byteSize_le_cons 'E' _)
  · exact (integerOf_within _ _ _).before

theorem numeral_within (t : Text) : Within restSize (byteSize t) (numeral t) := by
  unfold numeral
  split
  rename_i negative body hsign
  have hbody : byteSize body ≤ byteSize t := by
    split at hsign <;> obtain ⟨-, rfl⟩ := Prod.mk.inj hsign
    · exact byteSize_le_cons '-' _
    · exact Nat.le_refl _
  refine Within.mono ?_ hbody
  clear hsign hbody
  split
  · exact Nat.zero_le _
  · rename_i rest
    refine Within.mono ?_ (byteSize_le_cons '0' rest)
    split
    · exact afterDigits_within _ _ _
    · split
      · exact Nat.sub_le _ _
      · exact afterDigits_within _ _ _
  · rename_i c tail hzero
    split
    · exact (afterDigits_within _ _ _).mono (byteSize_dropWhile_le Char.isDigit (c :: tail))
    · exact Nat.sub_le _ _

theorem isBounded_number : IsBounded number := numeral_within

/-! ## Arrays, objects and values -/

theorem isBounded_nextItem (first : Bool) : IsBounded (nextItem first) := by
  refine isBounded_afterSpace fun c? => ?_
  split
  · exact isBounded_failNext _
  · exact isBounded_pure _
  · split
    · exact isBounded_pure _
    · split
      · refine isBounded_bind isBounded_skip fun _ => isBounded_afterSpace fun d? => ?_
        split
        · exact isBounded_failNext _
        · exact isBounded_failNext _
        · exact isBounded_pure _
      · exact isBounded_failNext _

theorem isBounded_nextField (first : Bool) : IsBounded (nextField first) := by
  refine isBounded_afterSpace fun c? => ?_
  split
  · exact isBounded_failNext _
  · exact isBounded_pure _
  · split
    · split
      · exact isBounded_pure _
      · exact isBounded_failNext _
    · split
      · refine isBounded_bind isBounded_skip fun _ => isBounded_afterSpace fun d? => ?_
        split
        · exact isBounded_failNext _
        · exact isBounded_pure _
        · exact isBounded_failNext _
      · exact isBounded_failNext _

theorem isBounded_colon : IsBounded colon := by
  refine isBounded_afterSpace fun c? => ?_
  split
  · exact isBounded_failNext _
  · exact isBounded_skip
  · exact isBounded_failNext _

theorem isBounded_closeArray : IsBounded closeArray := by
  refine isBounded_afterSpace fun c? => ?_
  split
  · exact isBounded_failNext _
  · exact isBounded_skip
  · refine isBounded_bind isBounded_skip fun _ => isBounded_bind isBounded_skipSpace fun _ => ?_
    exact isBounded_failNext _
  · exact isBounded_failNext _

theorem isBounded_closeObject : IsBounded closeObject := by
  refine isBounded_afterSpace fun c? => ?_
  split
  · exact isBounded_failNext _
  · exact isBounded_skip
  · exact isBounded_failNext _

theorem isBounded_itemsWithin {item : Reader α} (hitem : IsBounded item) (rounds : Nat)
    (first : Bool) : IsBounded (itemsWithin item rounds first) := by
  induction rounds generalizing first with
  | zero => exact isBounded_failHere _
  | succ rounds ih =>
      refine isBounded_bind (isBounded_nextItem first) fun more => ?_
      split
      · refine isBounded_bind hitem fun x => isBounded_bind (ih false) fun items => ?_
        exact isBounded_pure _
      · exact isBounded_pure _

theorem isBounded_arrayOf {item : Reader α} (hitem : IsBounded item) :
    IsBounded (arrayOf item) := by
  refine isBounded_bind isBounded_skip fun _ => isBounded_bind isBounded_get fun t => ?_
  refine isBounded_bind (isBounded_itemsWithin hitem _ _) fun items => ?_
  exact isBounded_bind isBounded_closeArray fun _ => isBounded_pure _

theorem isBounded_fieldsWithin {item : Reader α} (hitem : IsBounded item) (rounds : Nat)
    (first : Bool) (fields : Fields α) : IsBounded (fieldsWithin item rounds first fields) := by
  induction rounds generalizing first fields with
  | zero => exact isBounded_failHere _
  | succ rounds ih =>
      refine isBounded_bind (isBounded_nextField first) fun more => ?_
      split
      · refine isBounded_bind isBounded_string fun name => ?_
        refine isBounded_bind isBounded_colon fun _ => isBounded_bind hitem fun x => ?_
        exact ih false _
      · exact isBounded_pure _

theorem isBounded_objectOf {item : Reader α} (hitem : IsBounded item) :
    IsBounded (objectOf item) := by
  refine isBounded_bind isBounded_skip fun _ => isBounded_bind isBounded_get fun t => ?_
  refine isBounded_bind (isBounded_fieldsWithin hitem _ _ _) fun fields => ?_
  exact isBounded_bind isBounded_closeObject fun _ => isBounded_pure _

/-- A word of which the first letter has been seen. -/
theorem isBounded_word (rest : Text) {next : Reader α} (hnext : IsBounded next) :
    IsBounded (skip >>= fun _ => letters rest >>= fun _ => next) :=
  isBounded_bind isBounded_skip fun _ => isBounded_bind (isBounded_letters rest) fun _ => hnext

theorem isBounded_valueWith {inner? : Option (Reader Json)}
    (hinner : ∀ inner, inner? = some inner → IsBounded inner) : IsBounded (valueWith inner?) := by
  refine isBounded_afterSpace fun c? => ?_
  split
  · exact isBounded_failNext _
  · exact isBounded_word _ (isBounded_pure _)
  · exact isBounded_word _ (isBounded_pure _)
  · exact isBounded_word _ (isBounded_pure _)
  · exact isBounded_bind isBounded_string fun _ => isBounded_pure _
  · cases inner? with
    | none => exact isBounded_failNext _
    | some inner =>
        exact isBounded_bind (isBounded_arrayOf (hinner inner rfl)) fun _ => isBounded_pure _
  · cases inner? with
    | none => exact isBounded_failNext _
    | some inner =>
        exact isBounded_bind (isBounded_objectOf (hinner inner rfl)) fun _ => isBounded_pure _
  · split
    · exact isBounded_bind isBounded_number fun _ => isBounded_pure _
    · exact isBounded_failNext _

theorem isBounded_value (depth : Nat) : IsBounded (value depth) := by
  induction depth with
  | zero =>
      apply isBounded_valueWith
      intro inner h
      cases h
  | succ depth ih =>
      apply isBounded_valueWith
      intro inner h
      obtain rfl := Option.some.inj h
      exact ih

/-! ## Typed values -/

theorem isBounded_wrongType : IsBounded (wrongType : Reader α) := by
  refine isBounded_bind isBounded_peek? fun c? => ?_
  split
  · exact isBounded_word _ (isBounded_failHere _)
  · exact isBounded_word _ (isBounded_failHere _)
  · exact isBounded_word _ (isBounded_failHere _)
  · exact isBounded_bind isBounded_string fun _ => isBounded_failHere _
  · exact isBounded_failHere _
  · exact isBounded_failHere _
  · split
    · exact isBounded_bind isBounded_number fun _ => isBounded_failHere _
    · exact isBounded_failNext _
  · exact isBounded_failNext _

theorem isBounded_text : IsBounded text := by
  refine isBounded_afterSpace fun c? => ?_
  split
  · exact isBounded_string
  · exact isBounded_wrongType

theorem isBounded_truth : IsBounded truth := by
  refine isBounded_afterSpace fun c? => ?_
  split
  · exact isBounded_word _ (isBounded_pure _)
  · exact isBounded_word _ (isBounded_pure _)
  · exact isBounded_wrongType

theorem isBounded_listOf {item : Reader α} (hitem : IsBounded item) : IsBounded (listOf item) := by
  refine isBounded_afterSpace fun c? => ?_
  split
  · exact isBounded_arrayOf hitem
  · exact isBounded_wrongType

theorem isBounded_mapOf {item : Reader α} (hitem : IsBounded item) : IsBounded (mapOf item) := by
  refine isBounded_afterSpace fun c? => ?_
  split
  · exact isBounded_objectOf hitem
  · exact isBounded_wrongType

theorem isBounded_abandonObject : IsBounded (abandonObject : Reader α) := by
  refine isBounded_afterSpace fun c? => ?_
  split
  · exact isBounded_bind isBounded_skip fun _ => isBounded_failHere _
  · exact isBounded_failHere _

theorem isBounded_abandonArray : IsBounded (abandonArray : Reader α) := by
  refine isBounded_afterSpace fun c? => ?_
  split
  · exact isBounded_bind isBounded_skip fun _ => isBounded_failHere _
  · exact isBounded_failHere _

section Records

variable {fields : List (RecordField σ)}

theorem isBounded_recordFields
    (hfields : ∀ field ∈ fields, ∀ draft, IsBounded (field.read draft)) (rounds : Nat)
    (first : Bool) (draft : σ) : IsBounded (recordFields fields rounds first draft) := by
  induction rounds generalizing first draft with
  | zero => exact isBounded_failHere _
  | succ rounds ih =>
      refine isBounded_bind (isBounded_nextField first) fun more => ?_
      split
      · refine isBounded_bind isBounded_string fun name => ?_
        split
        · exact isBounded_abandonObject
        · rename_i field hfind
          have hmem := List.mem_of_find?_eq_some hfind
          split
          · exact isBounded_abandonObject
          · refine isBounded_bind isBounded_colon fun _ => ?_
            exact isBounded_bind (hfields field hmem draft) fun next => ih false next
      · exact isBounded_pure _

theorem isBounded_recordItems
    (hfields : ∀ field ∈ fields, ∀ draft, IsBounded (field.read draft)) (first : Bool)
    (draft : σ) : IsBounded (recordItems fields first draft) := by
  induction fields generalizing first draft with
  | nil => exact isBounded_pure _
  | cons field rest ih =>
      rw [List.forall_mem_cons] at hfields
      refine isBounded_bind (isBounded_nextItem first) fun more => ?_
      split
      · exact isBounded_bind (hfields.1 draft) fun next => ih hfields.2 false next
      · exact ih hfields.2 first draft

theorem isBounded_record (hfields : ∀ field ∈ fields, ∀ draft, IsBounded (field.read draft))
    (draft : σ) (finish : σ → Option β) : IsBounded (record fields draft finish) := by
  refine isBounded_afterSpace fun c? => ?_
  split
  · refine isBounded_bind isBounded_skip fun _ => isBounded_bind isBounded_get fun t => ?_
    refine isBounded_bind (isBounded_recordFields hfields _ _ draft) fun last => ?_
    split
    · exact isBounded_abandonObject
    · exact isBounded_bind isBounded_closeObject fun _ => isBounded_pure _
  · refine isBounded_bind isBounded_skip fun _ => ?_
    refine isBounded_bind (isBounded_recordItems hfields _ draft) fun last => ?_
    split
    · exact isBounded_abandonArray
    · exact isBounded_bind isBounded_closeArray fun _ => isBounded_pure _
  · exact isBounded_wrongType

end Records

/-- A document is given no more problems than its reader. -/
theorem IsBounded.document_within {reader : Reader α} (hreader : IsBounded reader) (t : Text) :
    ReportsWithin (byteSize t) (document reader t) := by
  refine (hreader t).bind fun result hrest => ?_
  dsimp only
  split
  · exact Nat.zero_le _
  · have hspace := byteSize_dropWhile_le isSpace result.2
    exact Nat.le_trans (Nat.sub_le _ 1) (Nat.le_trans hspace hrest)

end Reader
end Json

namespace Spec
namespace Document

open Json.Reader

theorem isBounded_optionalValue : IsBounded optionalValue := by
  refine isBounded_bind (isBounded_value valueDepth) fun v => ?_
  split
  · exact isBounded_pure _
  · exact isBounded_pure _

theorem isBounded_attributeFields {field : RecordField AttributeDraft}
    (hfield : field ∈ attributeFields) (draft : AttributeDraft) : IsBounded (field.read draft) := by
  simp only [attributeFields, List.mem_cons, List.not_mem_nil, or_false] at hfield
  rcases hfield with rfl | rfl | rfl | rfl | rfl | rfl
  · exact isBounded_bind isBounded_text fun _ => isBounded_pure _
  · exact isBounded_bind isBounded_text fun _ => isBounded_pure _
  · exact isBounded_bind isBounded_text fun _ => isBounded_pure _
  · exact isBounded_bind (isBounded_value _) fun _ => isBounded_pure _
  · exact isBounded_bind (isBounded_mapOf isBounded_truth) fun _ => isBounded_pure _
  · exact isBounded_bind isBounded_optionalValue fun _ => isBounded_pure _

theorem isBounded_readAttribute : IsBounded readAttribute :=
  isBounded_record (fun _ hfield draft => isBounded_attributeFields hfield draft) _ _

theorem isBounded_componentFields {field : RecordField ComponentDraft}
    (hfield : field ∈ componentFields) (draft : ComponentDraft) : IsBounded (field.read draft) := by
  simp only [componentFields, List.mem_cons, List.not_mem_nil, or_false] at hfield
  rcases hfield with rfl | rfl | rfl | rfl
  · exact isBounded_bind isBounded_text fun _ => isBounded_pure _
  · exact isBounded_bind isBounded_text fun _ => isBounded_pure _
  · exact isBounded_bind (isBounded_listOf isBounded_readAttribute) fun _ => isBounded_pure _
  · exact isBounded_bind (isBounded_mapOf isBounded_truth) fun _ => isBounded_pure _

theorem isBounded_readComponent : IsBounded readComponent :=
  isBounded_record (fun _ hfield draft => isBounded_componentFields hfield draft) _ _

theorem isBounded_specFields {field : RecordField SpecDraft} (hfield : field ∈ specFields)
    (draft : SpecDraft) : IsBounded (field.read draft) := by
  simp only [specFields, List.mem_cons, List.not_mem_nil, or_false] at hfield
  rcases hfield with rfl | rfl
  · exact isBounded_bind (isBounded_mapOf isBounded_truth) fun _ => isBounded_pure _
  · exact isBounded_bind (isBounded_listOf isBounded_readComponent) fun _ => isBounded_pure _

/-- A problem with the document of a spec is followed by no more than the document. -/
theorem remaining_le_of_read {source : Text} {cause : Json.ReadError}
    (hread : read source = .error cause) : cause.remaining ≤ Text.byteSize source := by
  have hreader : IsBounded (record specFields {} SpecDraft.finish?) :=
    isBounded_record (fun _ hfield draft => isBounded_specFields hfield draft) _ _
  have hbound := hreader.document_within source
  rw [← read, hread] at hbound
  exact hbound

end Document

open Stencil.Text (byteSize utf8)

/-- What is asked of a spec is asked of well-formed documents only. -/
theorem cause_ne_malformed {spec : Spec} {source : Text} {requirement : Requirement}
    (hmem : requirement ∈ spec.requirements source) (cause : Json.ReadError)
    (place : Option Nat) : requirement.cause ≠ .malformed cause place := by
  intro heq
  simp only [requirements, Component.requirements, Attribute.requirements,
    SourceContext.nameRequirement, SourceContext.flagRequirements, List.mem_flatMap,
    List.mem_cons, List.mem_append, List.mem_map] at hmem
  obtain ⟨c, -, rfl | rfl | ⟨flag, -, rfl⟩ | ⟨a, -, rfl | rfl | rfl | ⟨flag, -, rfl⟩⟩⟩ := hmem
  all_goals cases heq

theorem parse_eq_malformed_iff {source : Text} {cause : Json.ReadError} {place : Option Nat} :
    parse source = .error (.malformed cause place) ↔
      Document.read source = .error cause ∧ place = cause.place? source := by
  unfold parse
  cases Document.read source with
  | error found =>
      simp only [Except.error.injEq, SpecError.malformed.injEq]
      constructor
      · rintro ⟨rfl, rfl⟩
        exact ⟨rfl, rfl⟩
      · rintro ⟨rfl, rfl⟩
        exact ⟨rfl, rfl⟩
  | ok spec =>
      refine iff_of_false ?_ (by simp)
      rw [Outcome.map_eq_error_iff, check_eq_checkAll, Requirement.checkAll_eq_error_iff]
      rintro ⟨requirement, hfind, hcause⟩
      exact cause_ne_malformed (List.mem_of_find?_eq_some hfind) cause place hcause

/-- Positions lead back to their bytes, or to the bytes before them on their lines; and a problem
with the document of a spec is attributed to such a byte, inside the document or at its end. -/
theorem place_of_malformed (source : Text) :
    (∀ offset ≤ byteSize source,
      Position.ofOffset source offset = Position.ofBytes ((utf8 source).take offset) ∧
        Position.byteBefore? source (Position.ofBytes ((utf8 source).take offset)) =
          some (if (Position.ofBytes ((utf8 source).take offset)).column = 0 then offset
            else offset - 1)) ∧
      ∀ cause place, parse source = .error (.malformed cause place) →
        ∃ offset label, offset + cause.remaining = byteSize source ∧
          place = some label ∧ label ≤ byteSize source ∧
            label = if (Position.ofBytes ((utf8 source).take offset)).column = 0 then offset
              else offset - 1 := by
  constructor
  · intro offset hoffset
    exact ⟨Position.ofOffset_eq source offset, Position.byteBefore?_ofBytes hoffset⟩
  · intro cause place hparse
    obtain ⟨hread, rfl⟩ := parse_eq_malformed_iff.1 hparse
    have hremaining := Document.remaining_le_of_read hread
    obtain ⟨offset, hoffset⟩ := Nat.exists_eq_add_of_le' hremaining
    have hcut : byteSize source - cause.remaining = offset := by omega
    refine ⟨offset, _, hoffset.symm, ?_, ?_, rfl⟩
    · rw [Json.ReadError.place?, hcut, Position.ofOffset_eq]
      exact Position.byteBefore?_ofBytes (by omega)
    · split <;> omega

/-- In the middle of a character, the place is the byte before; at the start of a line, it is the
byte itself, also if the document ends there. -/
theorem place_of_malformed_cut :
    (2 ≤ byteSize " é\n" ∧ Position.byteBefore? " é\n" ⟨1, 2⟩ = some 1) ∧
      parse "\x7b\n" = .error (.malformed ⟨.unfinished, 0⟩ (some 2)) := by
  have hinside : 2 ≤ byteSize " é\n" := by decide
  have hread : Document.read "\x7b\n" = .error ⟨.unfinished, 0⟩ := by decide +kernel
  have hparse := parse_eq_malformed_iff.2 ⟨hread, rfl⟩
  obtain ⟨offset, label, hoffset, hplace, -, hlabel⟩ := (place_of_malformed "\x7b\n").2 _ _ hparse
  obtain rfl : offset = 2 := hoffset
  obtain rfl : label = 2 := hlabel
  exact ⟨⟨hinside, ((place_of_malformed " é\n").1 2 hinside).2⟩, hplace ▸ hparse⟩

end Spec
end Stencil
