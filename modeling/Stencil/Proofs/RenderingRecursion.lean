import Stencil.Proofs.HandlerQuestions
import Stencil.Proofs.TypeLists
import Stencil.Proofs.TypeTree

namespace Stencil

/-!
# Rendering by recursion on the type

Rendering is one level after the other: the handler of a type, with its questions
answered by the levels below (`TypeRegistry.renderOnce`).  A handler may ask for
the same value again, for parts of it, or for a value that it has read out of a
name, so nothing about the value says that this ends.  What gets smaller is the
type: a built-in handler asks for captured types only, and these stand inside the
name, with a text on either side.

Handlers outside the built-in ones may ask without an end, so a rendering need
not come to a result.  `TypeRegistry.Renders` says that it does, whatever the
number of handlers that wait for each other, and `TypeRegistry.Ends` that
`TypeRegistry.render` gives this result.

* `TypeRegistry.renderWithin_mono` — more handlers change no result.
* `TypeRegistry.Shrinks` — the registries whose handlers ask for shorter names;
  one handler more than a name has characters is enough for them.
* `TypeRegistry.render_builtin_by_recursion` — the built-in types are such a
  registry, and the renderer is the one function that satisfies the recursion.
-/

namespace Text

/-- A text inside another one, with something on either side of it. -/
def IsInside (part whole : Text) : Prop :=
  ∃ front back, front ≠ [] ∧ back ≠ [] ∧ whole = front ++ part ++ back

theorem IsInside.byteSize_lt {part whole : Text} (h : IsInside part whole) :
    byteSize part < byteSize whole := by
  obtain ⟨front, back, -, hback, rfl⟩ := h
  calc byteSize part
    _ ≤ byteSize front + byteSize part := Nat.le_add_left _ _
    _ = byteSize (front ++ part) := (byteSize_append front part).symm
    _ < byteSize (front ++ part ++ back) := byteSize_lt_append (front ++ part) hback

end Text

/-! ## Captured types -/

namespace Dispatcher

variable {H : Type} {d : Dispatcher H} {name arg : Text}

/-- A captured type is trimmed, and the angle brackets of the name are outside of it. -/
theorem IsCaptured.trimmed_inside (harg : IsCaptured name arg) :
    arg.trim = arg ∧ arg.IsInside name := by
  obtain ⟨head, inner, rfl, hcapture⟩ := harg
  have hinside : arg <:+: inner → arg.IsInside (TypeName.angled head inner) := by
    rintro ⟨front, back, rfl⟩
    exact ⟨head ++ '<' :: front, back ++ ['>'], by simp, by simp, by simp [TypeName.angled]⟩
  rcases hcapture with rfl | ⟨names, hsplit, hmem⟩
  · exact ⟨Text.trim_trim inner, hinside (Text.isInfix_trim inner)⟩
  · obtain ⟨hitems, hlists⟩ := TypeName.splitList?_eq_some_iff.1 hsplit
    exact ⟨(hitems arg hmem).trimmed,
      hinside ((hlists.isInfix_of_mem hmem).trans (Text.isInfix_trim inner))⟩

theorem resolve_trim (d : Dispatcher H) (name : Text) : d.resolve name.trim = d.resolve name := by
  unfold resolve
  simp only [Text.trim_trim]

end Dispatcher

namespace Plan

variable {α : Type} {answer answer' : Text → Json → Option (Except RenderError Text)}

/-- A result stays the same when more questions are answered. -/
theorem run_mono (hanswer : ∀ type value reply,
      answer type value = some reply → answer' type value = some reply)
    {plan : Plan α} {result : α} (hrun : run answer plan = some result) :
    run answer' plan = some result := by
  induction plan with
  | done result' => exact hrun
  | ask type value next ih =>
      rw [run_ask, Option.bind_eq_some_iff] at hrun ⊢
      obtain ⟨reply, hreply, hnext⟩ := hrun
      exact ⟨reply, hanswer type value reply hreply, ih reply hnext⟩

end Plan

namespace TypeRegistry

open Rendering (AsksOnly)
open Stencil.Text (byteSize)

/-! ## The recursion -/

variable {types : TypeRegistry} {type : Text} {value : Json} {result : Except RenderError Text}

/-- One level of rendering: the handler of the type, with its questions answered by a function. -/
def renderOnce (types : TypeRegistry) (answer : Text → Json → Option (Except RenderError Text))
    (type : Text) (value : Json) : Option (Except RenderError Text) :=
  match types.resolve type with
  | .error cause => some (.error (.lookup cause))
  | .ok found => (found.handler type.trim found.args value).run.run answer

theorem renderWithin_succ (types : TypeRegistry) (depth : Nat) (type : Text) (value : Json) :
    renderWithin types (depth + 1) type value =
      renderOnce types (renderWithin types depth) type value := by
  have htrim := Dispatcher.resolve_trim types type
  cases hresolve : types.resolve type with
  | error cause => simp only [renderWithin, renderOnce, htrim, hresolve]
  | ok found => simp only [renderWithin, renderOnce, htrim, hresolve]

/-- A result stays the same when more questions are answered. -/
theorem renderOnce_mono {answer answer' : Text → Json → Option (Except RenderError Text)}
    (hanswer : ∀ part value reply, answer part value = some reply → answer' part value = some reply)
    (hresult : renderOnce types answer type value = some result) :
    renderOnce types answer' type value = some result := by
  unfold renderOnce at hresult ⊢
  split at hresult
  · exact hresult
  · exact Plan.run_mono hanswer hresult

/-- More handlers at work change no result. -/
theorem renderWithin_mono {depth depth' : Nat} (hle : depth ≤ depth')
    (hresult : renderWithin types depth type value = some result) :
    renderWithin types depth' type value = some result := by
  induction depth generalizing depth' type value result with
  | zero => cases hresult
  | succ depth ih =>
      obtain ⟨more, rfl⟩ : ∃ more, depth' = more + 1 := ⟨depth' - 1, by omega⟩
      rw [renderWithin_succ] at hresult ⊢
      have hmore : depth ≤ more := Nat.le_of_succ_le_succ hle
      exact renderOnce_mono (fun part value reply hreply => ih hmore hreply) hresult

/-- Whatever satisfies the recursion agrees with the renderer wherever that comes to a result. -/
theorem eq_of_renderWithin {answer : Text → Json → Except RenderError Text}
    (hanswer : ∀ type value,
      renderOnce types (fun part value => some (answer part value)) type value =
        some (answer type value))
    {depth : Nat} (hresult : renderWithin types depth type value = some result) :
    answer type value = result := by
  induction depth generalizing type value result with
  | zero => cases hresult
  | succ depth ih =>
      rw [renderWithin_succ] at hresult
      have hreplies : ∀ part value reply, renderWithin types depth part value = some reply →
          some (answer part value) = some reply :=
        fun part value reply hreply => congrArg some (ih hreply)
      have honce := renderOnce_mono hreplies hresult
      rw [hanswer] at honce
      exact Option.some.inj honce

/-! ## Results -/

/-- Rendering a value comes to a result, however many handlers wait for each other. -/
def Renders (types : TypeRegistry) (type : Text) (value : Json)
    (result : Except RenderError Text) : Prop :=
  ∃ depth, renderWithin types depth type value = some result

/-- Rendering a value comes to a result within the bound for its type. -/
def Ends (types : TypeRegistry) (type : Text) (value : Json) : Prop :=
  ∃ result, renderWithin types (type.length + spareDepth) type value = some result

theorem Renders.unique {result' : Except RenderError Text}
    (h : types.Renders type value result) (h' : types.Renders type value result') :
    result = result' := by
  obtain ⟨depth, hdepth⟩ := h
  obtain ⟨depth', hdepth'⟩ := h'
  have hmax := renderWithin_mono (Nat.le_max_left depth depth') hdepth
  rw [renderWithin_mono (Nat.le_max_right depth depth') hdepth'] at hmax
  exact (Option.some.inj hmax).symm

/-- Within the bound, the result is what the renderer gives. -/
theorem Ends.renders_iff (hends : types.Ends type value) :
    types.Renders type value result ↔ types.render type value = result := by
  obtain ⟨result', hresult'⟩ := hends
  have hrender : types.render type value = result' := by rw [render, hresult']
  rw [hrender]
  constructor
  · exact fun h => Renders.unique ⟨_, hresult'⟩ h
  · rintro rfl
    exact ⟨_, hresult'⟩

/-! ## Shorter names -/

/-- A registry whose handlers ask only for types with shorter names. -/
def Shrinks (types : TypeRegistry) : Prop :=
  ∀ ⦃type found⦄, types.resolve type = .ok found → ∀ value,
    AsksOnly (fun part => part.trim.length < type.trim.length)
      (found.handler type.trim found.args value)

namespace Shrinks

/-- One handler for each character, and one more, are enough. -/
theorem exists_renderWithin (htypes : types.Shrinks) {depth : Nat}
    (hdepth : type.trim.length < depth) (value : Json) :
    ∃ result, renderWithin types depth type value = some result := by
  induction depth generalizing type value with
  | zero => exact absurd hdepth (Nat.not_lt_zero _)
  | succ depth ih =>
      rw [renderWithin_succ, renderOnce]
      cases hresolve : types.resolve type with
      | error cause => exact ⟨_, rfl⟩
      | ok found =>
          refine (htypes hresolve value).exists_run fun part value hshorter => ?_
          exact ih (by omega) value

theorem ends (htypes : types.Shrinks) (type : Text) (value : Json) : types.Ends type value := by
  refine htypes.exists_renderWithin ?_ value
  exact Nat.lt_of_le_of_lt (Text.length_trim_le type) (Nat.lt_add_of_pos_right (by decide))

/-- The renderer gives the result at every depth that is enough. -/
theorem renderWithin_eq (htypes : types.Shrinks) {depth : Nat} (hdepth : type.trim.length < depth)
    (value : Json) : renderWithin types depth type value = some (types.render type value) := by
  obtain ⟨result, hresult⟩ := htypes.exists_renderWithin hdepth value
  rw [hresult, (htypes.ends type value).renders_iff.1 ⟨depth, hresult⟩]

/-- The renderer is the only function that satisfies the recursion. -/
theorem recursion_iff (htypes : types.Shrinks) (answer : Text → Json → Except RenderError Text) :
    (∀ type value,
      renderOnce types (fun part value => some (answer part value)) type value =
        some (answer type value)) ↔ answer = types.render := by
  constructor
  · intro hanswer
    funext type value
    exact eq_of_renderWithin hanswer (htypes.renderWithin_eq (Nat.lt_succ_self _) value)
  · rintro rfl type value
    have hlevel := htypes.renderWithin_eq (Nat.lt_succ_self type.trim.length) value
    rw [renderWithin_succ] at hlevel
    refine renderOnce_mono (fun part value reply hreply => ?_) hlevel
    rw [(htypes.ends part value).renders_iff.1 ⟨_, hreply⟩]

end Shrinks

/-! ## The built-in types -/

/-- The built-in handlers ask for types from inside of the name. -/
theorem asks_inside_builtin {found : Dispatcher.Found TypeHandler}
    (hresolve : builtin.resolve type = .ok found) :
    (∀ arg ∈ found.args, Dispatcher.IsCaptured type.trim arg) ∧
      ∀ value, AsksOnly (· ∈ found.args) (found.handler type.trim found.args value) := by
  have hwithin := isAngular_builtin.within_of_resolve hresolve
  obtain ⟨entry, hentry, hhandler, hkind⟩ := hwithin.registered
  refine ⟨hwithin.captured, fun value => ?_⟩
  rw [← hhandler]
  exact (isBuiltinHandler_of_mem_builtin hentry).asksForArgs
    (fun hsingle => hwithin.single (hkind ▸ hsingle)) value

/-- The built-in handlers ask for shorter names only. -/
theorem shrinks_builtin : builtin.Shrinks := by
  intro type found hresolve value
  obtain ⟨hcaptured, hasks⟩ := asks_inside_builtin hresolve
  refine (hasks value).mono fun part hmem => ?_
  exact Nat.lt_of_le_of_lt (Text.length_trim_le part) (hcaptured part hmem).length_lt

/-- The built-in types never reach the bound. -/
theorem ends_builtin (type : Text) (value : Json) : builtin.Ends type value :=
  shrinks_builtin.ends type value

/-- Rendering ends for every type, well formed or not, and every value.  The types that a name
captures are trimmed and stand inside of it, and all questions of its handler, whatever the answers
before, are for captured types, which take fewer bytes.  So one handler more than the name has
characters is always enough, and the renderer is the one function that gives, for each type and
value, what the handler makes of the answers of the function itself. -/
theorem render_builtin_by_recursion :
    (∀ type found, builtin.resolve type = .ok found →
        (∀ arg ∈ found.args, arg.trim = arg ∧ arg.IsInside type.trim) ∧
          ∀ value, AsksOnly (fun part => part ∈ found.args ∧ byteSize part < byteSize type.trim)
            (found.handler type.trim found.args value)) ∧
      (∀ type value depth, type.trim.length < depth →
        renderWithin builtin depth type value = some (builtin.render type value)) ∧
        ∀ answer : Text → Json → Except RenderError Text,
          (∀ type value,
            renderOnce builtin (fun part value => some (answer part value)) type value =
              some (answer type value)) ↔ answer = builtin.render := by
  refine ⟨?_, fun type value depth hdepth => shrinks_builtin.renderWithin_eq hdepth value,
    shrinks_builtin.recursion_iff⟩
  intro type found hresolve
  obtain ⟨hcaptured, hasks⟩ := asks_inside_builtin hresolve
  refine ⟨fun arg hmem => (hcaptured arg hmem).trimmed_inside, fun value => ?_⟩
  refine (hasks value).mono fun part hmem => ?_
  exact ⟨hmem, (hcaptured part hmem).trimmed_inside.2.byteSize_lt⟩

/-- A map with an unknown type of keys: its parts are inside of it, and 31 handlers are enough. -/
theorem render_builtin_by_recursion_map :
    let type : Text := " std::map<é ,\tstd::vector<int>>"
    let found : Dispatcher.Found TypeHandler :=
      ⟨Container.map, .list, ["é", "std::vector<int>"]⟩
    builtin.resolve type = .ok found ∧
      (∀ arg ∈ found.args, arg.trim = arg ∧ arg.IsInside type.trim) ∧
      type.trim.length < 31 ∧
      renderWithin builtin 31 type (.array []) = some (builtin.render type (.array [])) ∧
      renderOnce builtin (fun part value => some (builtin.render part value)) type (.array []) =
        some (builtin.render type (.array [])) := by
  intro type found
  have hhead : TypeName.isWord "std::map" = true := by decide
  have hentry := mem_builtin (mem_map .map) (Pattern.keyAndForm?_angled .list hhead)
  have htrim : type.trim = TypeName.angled "std::map" "é ,\tstd::vector<int>" := by decide +kernel
  have hitems : Dispatcher.captureList (Text.trim "é ,\tstd::vector<int>") = .ok found.args := by
    decide +kernel
  have hresolve : builtin.resolve type = .ok found := by
    rw [← Dispatcher.resolve_trim, htrim]
    exact Dispatcher.resolve_listed isAngular_builtin hentry hhead hitems
  have hlength : type.trim.length < 31 := by decide +kernel
  obtain ⟨hparts, hdepth, hanswer⟩ := render_builtin_by_recursion
  exact ⟨hresolve, (hparts type found hresolve).1, hlength, hdepth type _ 31 hlength,
    (hanswer builtin.render).2 rfl type _⟩

end TypeRegistry
end Stencil
