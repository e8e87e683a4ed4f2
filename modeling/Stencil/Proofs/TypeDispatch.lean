import Mathlib.Data.List.Nodup
import Stencil.Proofs.Occurrence
import Stencil.Proofs.Outcome
import Stencil.Proofs.Registration
import Stencil.Proofs.TypeSpelling
import Stencil.Render.Builtin

namespace Stencil

/-!
# Dispatch on spelled names

All built-in patterns are words or have a placeholder between angle brackets
after a word.  Such a dispatcher sends each name to one handler only: a name
with brackets is captured by the pattern with its own head, and the types that
the pattern captures are those that stand between the brackets.

`Dispatcher.resolve_word`, `Dispatcher.resolve_single` and
`Dispatcher.resolve_list` say so for the three kinds of patterns, and
`TypeRegistry.isAngular_builtin` makes them available for the built-in types.
-/

namespace Pattern

open Stencil.TypeName (angled isWord IsInner isName_of_isWord isName_angled)

variable {pattern name head : Text}

/-- A shape captures what stands between its fixed texts, trimmed. -/
theorem Shape.capture?_eq_some_iff {shape : Shape} {name found : Text} :
    shape.capture? name = some found ↔
      ∃ inside, name = shape.start ++ inside ++ shape.ending ∧ inside.trim = found := by
  simp only [capture?, Option.map_eq_some_iff, Option.bind_eq_some_iff, Text.after?_eq_some_iff,
    Text.before?_eq_some_iff]
  constructor
  · rintro ⟨inside, ⟨-, rfl, rfl⟩, htrim⟩
    exact ⟨inside, (List.append_assoc _ _ _).symm, htrim⟩
  · rintro ⟨inside, rfl, htrim⟩
    exact ⟨inside, ⟨inside ++ shape.ending, List.append_assoc _ _ _, rfl⟩, htrim⟩

/-! ## Patterns with angle brackets -/

/-- The shape of a pattern with a placeholder between angle brackets. -/
def Shape.angled (head : Text) : Shape := ⟨head ++ ['<'], ['>']⟩

/-- The key and the form of a pattern that can be registered. -/
def keyAndForm? (pattern : Text) : Option (Text × Form) :=
  if pattern.trim.isEmpty then none
  else
    (kindOf pattern.trim).toOption.map fun kind =>
      (key pattern.trim, .ofPattern pattern.trim kind)

theorem keyAndForm?_eq_some {kind : PatternKind} (htrimmed : pattern.trim = pattern)
    (hne : pattern ≠ []) (hkind : kindOf pattern = .ok kind) :
    keyAndForm? pattern = some (key pattern, .ofPattern pattern kind) := by
  have hempty : pattern.isEmpty = false := by simpa using hne
  rw [keyAndForm?, htrimmed, hempty, hkind]
  rfl

/-- No braces stand in a word. -/
theorem brace_not_mem_word (hname : isWord name = true) : '\x7b' ∉ name := by
  intro hmem
  cases TypeName.step_of_mem_word hname hmem []

/-- A word is its own key and matches only itself. -/
theorem keyAndForm?_word (hname : isWord name = true) :
    keyAndForm? name = some (name, .exact name) := by
  have hbrace := brace_not_mem_word hname
  have hpieces : ∀ {needle : Text}, needle.head? = some '\x7b' →
      Text.pieces needle name = [name] := by
    intro needle hneedle
    have happend := Text.pieces_append (t := []) hneedle hbrace rfl
    rwa [List.append_nil] at happend
  have hsingle : Text.pieces placeholder name = [name] := hpieces rfl
  have hlist : Text.pieces listPlaceholder name = [name] := hpieces rfl
  have hkind : kindOf name = .ok .exact := by simp [kindOf, Text.count, hsingle, hlist]
  have hkey : key name = name := by simp [key, Text.replace, hlist, Text.joined]
  have hspelled := isName_of_isWord hname
  rw [keyAndForm?_eq_some hspelled.trimmed hspelled.ne_nil hkind, hkey]
  rfl

/-- The kinds of placeholders. -/
inductive Placeholder where
  /-- Of one captured type. -/
  | single
  /-- Of a captured list of types. -/
  | list

namespace Placeholder

def mark : Placeholder → Text
  | single => placeholder
  | list => listPlaceholder

def patternKind : Placeholder → PatternKind
  | single => .single
  | list => .list

/-- The form of a pattern with such a placeholder in a shape. -/
def form : Placeholder → Shape → Form
  | single => .single
  | list => .list

theorem ofPattern_patternKind (kind : Placeholder) (pattern : Text) :
    Form.ofPattern pattern kind.patternKind = kind.form (.around kind.mark pattern) := by
  cases kind <;> rfl

theorem form_ne_exact (kind : Placeholder) (shape : Shape) (name : Text) :
    kind.form shape ≠ .exact name := by
  cases kind <;> simp [form]

theorem eq_of_form {kind kind' : Placeholder} {shape shape' : Shape}
    (hform : kind.form shape = kind'.form shape') : shape = shape' := by
  cases kind <;> cases kind' <;> cases hform <;> rfl

end Placeholder

/-- A placeholder stands between the brackets of its shape, and the key hides its kind. -/
theorem keyAndForm?_angled (kind : Placeholder) (hhead : isWord head = true) :
    keyAndForm? (angled head kind.mark) =
      some (angled head placeholder, kind.form (.angled head)) := by
  have hbrace := brace_not_mem_word hhead
  -- No brace stands in the head, so what is found behind it is found in the pattern.
  have hpieces : ∀ {needle first : Text} {others : List Text}, needle.head? = some '\x7b' →
      Text.pieces needle ('<' :: (kind.mark ++ ['>'])) = first :: others →
      Text.pieces needle (angled head kind.mark) = (head ++ first) :: others :=
    fun hneedle hrest => Text.pieces_append hneedle hbrace hrest
  have hsplit : Text.splitOnce? kind.mark (angled head kind.mark) =
      some (head ++ ['<'], ['>']) := by
    cases kind <;> exact Text.splitOnce?_append_left rfl hbrace (by decide)
  have hlist : Text.pieces listPlaceholder (angled head kind.mark) =
      match kind with
      | .single => [angled head placeholder]
      | .list => [head ++ ['<'], ['>']] := by
    cases kind <;> exact hpieces rfl (by decide)
  have hkind : kindOf (angled head kind.mark) = .ok kind.patternKind := by
    have hsingle : (Text.pieces placeholder (angled head kind.mark)).length = 2 := by
      cases kind with
      | single => rw [@hpieces placeholder ['<'] [['>']] rfl (by decide)]; rfl
      | list => rw [@hpieces placeholder ['<'] [['.', '.', '.', '>']] rfl (by decide)]; rfl
    simp only [kindOf, Text.count, hsingle, hlist]
    cases kind <;> rfl
  have hkey : key (angled head kind.mark) = angled head placeholder := by
    rw [key, Text.replace, hlist]
    cases kind with
    | single => rfl
    | list => simp [Text.joined, angled]
  have hinner : IsInner kind.mark := by
    cases kind <;> exact ⟨by decide, by decide, by decide⟩
  have hspelled := isName_angled hhead hinner
  rw [keyAndForm?_eq_some hspelled.trimmed hspelled.ne_nil hkind, hkey,
    Placeholder.ofPattern_patternKind, Shape.around, hsplit]
  rfl

/-- Whether a pattern is a word or has its placeholder between angle brackets after one. -/
def isAngular (pattern : Text) : Bool :=
  let head := pattern.takeWhile (· ≠ '<')
  isWord pattern ||
    isWord head && (pattern = angled head placeholder || pattern = angled head listPlaceholder)

/-- The keys and forms of such patterns. -/
inductive IsAngular : Text → Form → Prop where
  | exact {name : Text} (hname : isWord name = true) : IsAngular name (.exact name)
  | placed (kind : Placeholder) {head : Text} (hhead : isWord head = true) :
      IsAngular (angled head placeholder) (kind.form (.angled head))

theorem isAngular_of_keyAndForm? {key : Text} {form : Form} (hpattern : isAngular pattern = true)
    (hform : keyAndForm? pattern = some (key, form)) : IsAngular key form := by
  simp only [isAngular, Bool.or_eq_true, Bool.and_eq_true, decide_eq_true_eq] at hpattern
  rcases hpattern with hword | ⟨hhead, hmark⟩
  · rw [keyAndForm?_word hword] at hform
    cases hform
    exact .exact hword
  · obtain ⟨kind, hkind⟩ : ∃ kind : Placeholder, pattern = angled _ kind.mark :=
      hmark.elim (⟨.single, ·⟩) (⟨.list, ·⟩)
    rw [hkind, keyAndForm?_angled kind hhead] at hform
    cases hform
    exact .placed kind hhead

end Pattern

namespace Dispatcher

open Stencil.TypeName (angled isWord IsInner IsName)

variable {H : Type} {d : Dispatcher H}

/-! ## Entries -/

/-- The entry of a pattern has its key, its form and its handler. -/
theorem entry?_eq_ok_iff {pattern : Text} {handler : H} {entry : Entry H} :
    entry? pattern handler = .ok entry ↔
      Pattern.keyAndForm? pattern = some (entry.key, entry.form) ∧ entry.handler = handler := by
  unfold entry? Pattern.keyAndForm?
  simp only
  split
  · simp
  · cases hkind : Pattern.kindOf pattern.trim with
    | error cause => simp [Except.map, Except.toOption]
    | ok kind =>
        simp only [Except.map, Except.toOption, Except.ok.injEq, Option.map_some,
          Option.some.injEq, Prod.mk.injEq]
        constructor
        · rintro rfl
          exact ⟨⟨rfl, rfl⟩, rfl⟩
        · rintro ⟨⟨hkey, hform⟩, rfl⟩
          rw [hkey, hform]

/-! ## Words and angle brackets -/

/-- All patterns are words or have their placeholders between angle brackets, and no two have
the same key. -/
structure IsAngular (d : Dispatcher H) : Prop where
  nodup : (d.entries.map (·.key)).Nodup
  angular : ∀ entry ∈ d.entries, Pattern.IsAngular entry.key entry.form

namespace IsAngular

variable {entry : Entry H} {shape : Pattern.Shape}

/-- Entries with the same key are the same. -/
theorem eq_of_key (hd : d.IsAngular) {other : Entry H} (hentry : entry ∈ d.entries)
    (hother : other ∈ d.entries) (hkey : entry.key = other.key) : entry = other :=
  List.inj_on_of_nodup_map hd.nodup hentry hother hkey

theorem of_exact (hd : d.IsAngular) (hentry : entry ∈ d.entries) {name : Text}
    (hform : entry.form = .exact name) : isWord name = true ∧ entry.key = name := by
  have hangular := hd.angular entry hentry
  generalize entry.key = key, entry.form = form at hangular hform ⊢
  cases hangular with
  | exact hname =>
      cases hform
      exact ⟨hname, rfl⟩
  | placed kind => exact absurd hform (kind.form_ne_exact _ _)

/-- A pattern with a placeholder of any kind has it between angle brackets after a word. -/
theorem of_placeholder (hd : d.IsAngular) (hentry : entry ∈ d.entries)
    (kind : Pattern.Placeholder) (hform : entry.form = kind.form shape) :
    ∃ head, isWord head = true ∧ shape = .angled head ∧
      entry.key = angled head Pattern.placeholder := by
  have hangular := hd.angular entry hentry
  generalize entry.key = key, entry.form = form at hangular hform ⊢
  cases hangular with
  | exact hname => exact absurd hform.symm (kind.form_ne_exact _ _)
  | placed kind' hhead => exact ⟨_, hhead, (Pattern.Placeholder.eq_of_form hform).symm, rfl⟩

end IsAngular

/-! ## Captured types -/

/-- A shape with angle brackets captures what stands between them. -/
theorem capture?_angled_iff {head name found : Text} :
    (Pattern.Shape.angled head).capture? name = some found ↔
      ∃ inner, name = angled head inner ∧ inner.trim = found := by
  have hname : ∀ inner, head ++ ['<'] ++ inner ++ ['>'] = angled head inner := by simp [angled]
  simp only [Pattern.Shape.capture?_eq_some_iff, Pattern.Shape.angled, hname]

theorem capture?_angled (head : Text) {inner : Text} (htrimmed : inner.trim = inner) :
    (Pattern.Shape.angled head).capture? (angled head inner) = some inner :=
  capture?_angled_iff.2 ⟨inner, rfl, htrimmed⟩

/-- Two words before the first angle bracket of a text are the same. -/
theorem eq_of_append_angle {head head' rest rest' : Text} (hhead : isWord head = true)
    (hhead' : isWord head' = true) (heq : head ++ '<' :: rest = head' ++ '<' :: rest') :
    head = head' := by
  rcases List.append_eq_append_iff.1 heq with ⟨middle, hlonger, hrest⟩ | ⟨middle, hlonger, hrest⟩
  · cases middle with
    | nil => rw [hlonger, List.append_nil]
    | cons c middle =>
        -- The longer word would hold the bracket that ends the shorter one.
        obtain ⟨rfl, -⟩ := List.cons.inj hrest
        refine absurd ?_ (TypeName.angle_not_mem_word hhead')
        simp [hlonger]
  · cases middle with
    | nil => rw [hlonger, List.append_nil]
    | cons c middle =>
        obtain ⟨rfl, -⟩ := List.cons.inj hrest
        refine absurd ?_ (TypeName.angle_not_mem_word hhead)
        simp [hlonger]

/-- A shape captures nothing of a name with another head. -/
theorem eq_of_capture? {head head' inner found : Text} (hhead : isWord head = true)
    (hhead' : isWord head' = true)
    (hcapture : (Pattern.Shape.angled head').capture? (angled head inner) = some found) :
    head' = head := by
  obtain ⟨inner', heq, -⟩ := capture?_angled_iff.1 hcapture
  exact (eq_of_append_angle hhead hhead' heq).symm

/-! ## Resolution -/

/-- If only one item of a list has a value, this is the first one found. -/
theorem findSome?_eq_some_of_unique {α β : Type} {f : α → Option β} {items : List α} {item : α}
    {b : β} (hmem : item ∈ items) (hvalue : f item = some b)
    (hunique : ∀ other ∈ items, (f other).isSome = true → other = item) :
    items.findSome? f = some b := by
  cases hfound : items.findSome? f with
  | none =>
      rw [List.findSome?_eq_none_iff.1 hfound item hmem] at hvalue
      cases hvalue
  | some c =>
      obtain ⟨other, hother, hc⟩ := List.exists_of_findSome?_eq_some hfound
      rw [hunique other hother (by rw [hc]; rfl), hvalue] at hc
      exact hc.symm

/-- A word goes to its exact pattern. -/
theorem resolve_word (hd : d.IsAngular) {name : Text} {handler : H}
    (hmem : ⟨name, .exact name, handler⟩ ∈ d.entries) :
    d.resolve name = .ok ⟨handler, .exact, []⟩ := by
  have hname := TypeName.isName_of_isWord (hd.of_exact hmem rfl).1
  have hexact : d.entries.findSome? (Entry.matchExact name) = some ⟨handler, .exact, []⟩ := by
    refine findSome?_eq_some_of_unique hmem (by simp [Entry.matchExact]) ?_
    intro other hother hsome
    refine hd.eq_of_key hother hmem ?_
    unfold Entry.matchExact at hsome
    split at hsome
    · rename_i pattern hform
      split at hsome
      · rename_i hpattern
        rw [(hd.of_exact hother hform).2, hpattern]
      · cases hsome
    · cases hsome
  unfold resolve
  simp only [hname.trimmed, hexact]

/-- No exact pattern has angle brackets. -/
theorem findSome?_matchExact_angled (hd : d.IsAngular) (head inner : Text) :
    d.entries.findSome? (Entry.matchExact (angled head inner)) = none := by
  refine List.findSome?_eq_none_iff.2 fun entry hentry => ?_
  unfold Entry.matchExact
  split
  · rename_i pattern hform
    refine if_neg ?_
    rintro rfl
    exact TypeName.angle_not_mem_word (hd.of_exact hentry hform).1 (by simp [angled])
  · rfl

/-- A pattern that captures something of a name has the head of the name. -/
theorem key_of_capture? (hd : d.IsAngular) {entry : Entry H} (hentry : entry ∈ d.entries)
    (kind : Pattern.Placeholder) {shape : Pattern.Shape} (hform : entry.form = kind.form shape)
    {head inner : Text} (hhead : isWord head = true)
    (hsome : (shape.capture? (angled head inner)).isSome = true) :
    entry.key = angled head Pattern.placeholder := by
  obtain ⟨head', hhead', rfl, hkey⟩ := hd.of_placeholder hentry kind hform
  obtain ⟨found, hcapture⟩ := Option.isSome_iff_exists.1 hsome
  rw [hkey, eq_of_capture? hhead hhead' hcapture]

theorem key_of_matchSingle (hd : d.IsAngular) {entry : Entry H} (hentry : entry ∈ d.entries)
    {head inner : Text} (hhead : isWord head = true)
    (hsome : (entry.matchSingle (angled head inner)).isSome = true) :
    entry.key = angled head Pattern.placeholder ∧ entry.form.kind = .single := by
  unfold Entry.matchSingle at hsome
  split at hsome
  · rename_i shape hform
    split at hsome
    · rename_i found hcapture
      have hcaptured : (shape.capture? (angled head inner)).isSome = true := by
        rw [hcapture]
        rfl
      exact ⟨key_of_capture? hd hentry .single hform hhead hcaptured, congrArg _ hform⟩
    · cases hsome
  · cases hsome

theorem key_of_matchList (hd : d.IsAngular) {entry : Entry H} (hentry : entry ∈ d.entries)
    {head inner : Text} (hhead : isWord head = true)
    (hsome : (entry.matchList (angled head inner)).isSome = true) :
    entry.key = angled head Pattern.placeholder := by
  unfold Entry.matchList at hsome
  split at hsome
  · rename_i shape hform
    rw [Option.isSome_map] at hsome
    exact key_of_capture? hd hentry .list hform hhead hsome
  · cases hsome

/-- A name with angle brackets goes to the pattern with its head, which captures one type. -/
theorem resolve_single (hd : d.IsAngular) {head inner : Text} {handler : H}
    (hmem : ⟨angled head Pattern.placeholder, .single (.angled head), handler⟩ ∈ d.entries)
    (hhead : isWord head = true) (hinner : IsInner inner) (hne : inner ≠ []) :
    d.resolve (angled head inner) = .ok ⟨handler, .single, [inner]⟩ := by
  have hname := TypeName.isName_angled hhead hinner
  have hsingle : d.entries.findSome? (Entry.matchSingle (angled head inner)) =
      some ⟨handler, .single, [inner]⟩ := by
    refine findSome?_eq_some_of_unique hmem ?_ ?_
    · have hempty : inner.isEmpty = false := by simpa using hne
      simp [Entry.matchSingle, capture?_angled head hinner.trimmed, hinner.balanced, hempty]
    · -- Another pattern that captures something has the same head, hence the same key.
      intro other hother hsome
      exact hd.eq_of_key hother hmem (key_of_matchSingle hd hother hhead hsome).1
  unfold resolve
  simp only [hname.trimmed, findSome?_matchExact_angled hd, hsingle]

/-- A name with angle brackets goes to the pattern with its head, which captures the types that
are listed between the brackets. -/
theorem resolve_listed (hd : d.IsAngular) {head list : Text} {items : List Text} {handler : H}
    (hmem : ⟨angled head Pattern.placeholder, .list (.angled head), handler⟩ ∈ d.entries)
    (hhead : isWord head = true) (hitems : captureList list.trim = .ok items) :
    d.resolve (angled head list) = .ok ⟨handler, .list, items⟩ := by
  have hsingle : d.entries.findSome? (Entry.matchSingle (angled head list)) = none := by
    refine List.findSome?_eq_none_iff.2 fun entry hentry => ?_
    cases hmatch : entry.matchSingle (angled head list) with
    | none => rfl
    | some found =>
        -- The pattern would have the key of the list pattern, and so be this one.
        obtain ⟨hkey, hkind⟩ := key_of_matchSingle hd hentry hhead (by rw [hmatch]; rfl)
        rw [hd.eq_of_key hentry hmem hkey] at hkind
        cases hkind
  have hcapture : (Pattern.Shape.angled head).capture? (angled head list) = some list.trim :=
    capture?_angled_iff.2 ⟨list, rfl, rfl⟩
  have hlist : d.entries.findSome? (Entry.matchList (angled head list)) =
      some (.ok ⟨handler, .list, items⟩) := by
    refine findSome?_eq_some_of_unique hmem ?_ ?_
    · simp only [Entry.matchList, hcapture, Option.map_some, hitems]
      rfl
    · intro other hother hsome
      exact hd.eq_of_key hother hmem (key_of_matchList hd hother hhead hsome)
  unfold resolve
  simp only [TypeName.trim_angled hhead, findSome?_matchExact_angled hd, hsingle, hlist]

/-- Names that are joined by commas are listed. -/
theorem resolve_list (hd : d.IsAngular) {head : Text} {names : List Text} {handler : H}
    (hmem : ⟨angled head Pattern.placeholder, .list (.angled head), handler⟩ ∈ d.entries)
    (hhead : isWord head = true) (hnames : ∀ name ∈ names, IsName name) :
    d.resolve (angled head (Text.joined ", " names)) = .ok ⟨handler, .list, names⟩ := by
  have hinner := TypeName.isInner_joined hnames
  refine resolve_listed hd hmem hhead ?_
  rw [hinner.trimmed, captureList, TypeName.splitList?_joined hnames]

end Dispatcher

namespace TypeRegistry

/-! ## The built-in types -/

/-- All built-in patterns are accepted. -/
theorem registerAll_builtinTypes :
    Dispatcher.empty.registerAll builtinTypes = .ok builtin := by
  rfl

theorem mem_builtin_iff {entry : Dispatcher.Entry TypeHandler} :
    entry ∈ builtin.entries ↔ ∃ pattern ∈ builtinTypes, entry ∈ Dispatcher.added pattern := by
  rw [Dispatcher.mem_registerAll_iff Dispatcher.nodup_empty registerAll_builtinTypes]
  exact or_iff_right List.not_mem_nil

theorem isAngular_builtinTypes :
    (builtinTypes.map (·.1)).all Pattern.isAngular = true := by
  decide +kernel

/-- The built-in patterns are words or have angle brackets, and no two share a key. -/
theorem isAngular_builtin : builtin.IsAngular where
  nodup := Dispatcher.nodup_of_registerAll Dispatcher.nodup_empty registerAll_builtinTypes
  angular := by
    intro entry hentry
    obtain ⟨pattern, hmem, hpattern⟩ := mem_builtin_iff.1 hentry
    have hangular := List.all_eq_true.1 isAngular_builtinTypes _ (List.mem_map_of_mem hmem)
    have hentry := Dispatcher.entry?_eq_ok_iff.1 (Dispatcher.mem_added_iff.1 hpattern)
    exact Pattern.isAngular_of_keyAndForm? hangular hentry.1

/-- Every built-in pattern has its entry. -/
theorem mem_builtin {pattern key : Text} {form : Pattern.Form} {handler : TypeHandler}
    (hmem : (pattern, handler) ∈ builtinTypes)
    (hform : Pattern.keyAndForm? pattern = some (key, form)) :
    ⟨key, form, handler⟩ ∈ builtin.entries := by
  refine mem_builtin_iff.2 ⟨(pattern, handler), hmem, Dispatcher.mem_added_iff.2 ?_⟩
  exact Dispatcher.entry?_eq_ok_iff.2 ⟨hform, rfl⟩

end TypeRegistry
end Stencil
