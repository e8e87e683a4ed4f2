import Stencil.Proofs.MapForms
import Stencil.Proofs.RenderingRecursion

namespace Stencil

/-!
# The choice of a variant

A variant makes of a value what its first alternative makes of it that takes the
value.  The alternatives before may fail for any reason; their errors are seen
only if no alternative takes the value, and then all of them, in order.

* `Rendering.FirstTaken` — the ordered choice among alternatives.
* `TypeRegistry.render_variant` — a variant is the ordered choice, and the
  alternatives of a variant that is an alternative can stand in its place.
-/

/-! ## Ordered choice -/

namespace Rendering

variable {settles settles' : Text → Except RenderError Text → Prop}
variable {refusal : List RenderError → RenderError} {alternatives : List Text}
variable {result : Except RenderError Text}

/-- The result of trying alternatives in order: the text of the first one that takes the value,
if those before it refuse, and otherwise a refusal with the errors of all of them. -/
inductive FirstTaken (settles : Text → Except RenderError Text → Prop)
    (refusal : List RenderError → RenderError) (alternatives : List Text) :
    Except RenderError Text → Prop where
  | taken {before after : List Text} {alternative text : Text}
      (hcut : alternatives = before ++ alternative :: after)
      (hbefore : ∀ earlier ∈ before, ∃ cause, settles earlier (.error cause))
      (htaken : settles alternative (.ok text)) :
      FirstTaken settles refusal alternatives (.ok text)
  | refused {attempts : List RenderError}
      (hattempts : List.Forall₂ (fun alternative attempt => settles alternative (.error attempt))
        alternatives attempts) :
      FirstTaken settles refusal alternatives (.error (refusal attempts))

theorem firstTaken_nil :
    FirstTaken settles refusal [] result ↔ result = .error (refusal []) := by
  constructor
  · intro h
    cases h with
    | taken hcut => simp at hcut
    | refused hattempts =>
        cases hattempts
        rfl
  · rintro rfl
    exact .refused .nil

/-- The first alternative takes the value, or its error is the first one of a refusal. -/
theorem firstTaken_cons {alternative : Text} :
    FirstTaken settles refusal (alternative :: alternatives) result ↔
      (∃ text, settles alternative (.ok text) ∧ result = .ok text) ∨
        ∃ cause, settles alternative (.error cause) ∧
          FirstTaken settles (fun later => refusal (cause :: later)) alternatives result := by
  constructor
  · intro h
    cases h with
    | @taken before after _ text hcut hbefore htaken =>
        cases before with
        | nil =>
            obtain ⟨rfl, rfl⟩ := List.cons.inj hcut
            exact Or.inl ⟨text, htaken, rfl⟩
        | cons first before =>
            obtain ⟨rfl, rfl⟩ := List.cons.inj hcut
            rw [List.forall_mem_cons] at hbefore
            obtain ⟨⟨cause, hcause⟩, hbefore⟩ := hbefore
            exact Or.inr ⟨cause, hcause, .taken rfl hbefore htaken⟩
    | refused hattempts =>
        cases hattempts with
        | cons hfirst hrest => exact Or.inr ⟨_, hfirst, .refused hrest⟩
  · rintro (⟨text, htaken, rfl⟩ | ⟨cause, hcause, hrest⟩)
    · have hcut : alternative :: alternatives = [] ++ alternative :: alternatives := rfl
      exact .taken hcut nofun htaken
    · cases hrest with
      | taken hcut hbefore htaken =>
          exact .taken (congrArg (alternative :: ·) hcut)
            (List.forall_mem_cons.2 ⟨⟨cause, hcause⟩, hbefore⟩) htaken
      | refused hattempts => exact .refused (.cons hcause hattempts)

/-- The choice depends on the results of the alternatives only. -/
theorem FirstTaken.imp (h : FirstTaken settles refusal alternatives result)
    (himp : ∀ alternative ∈ alternatives, ∀ result,
      settles alternative result → settles' alternative result) :
    FirstTaken settles' refusal alternatives result := by
  induction alternatives generalizing refusal with
  | nil => exact firstTaken_nil.2 (firstTaken_nil.1 h)
  | cons alternative rest ih =>
      rw [List.forall_mem_cons] at himp
      rw [firstTaken_cons] at h ⊢
      rcases h with ⟨text, htaken, hresult⟩ | ⟨cause, hcause, hrest⟩
      · exact Or.inl ⟨text, himp.1 _ htaken, hresult⟩
      · exact Or.inr ⟨cause, himp.1 _ hcause, ih hrest himp.2⟩

/-- Where every alternative has a result, so has the choice. -/
theorem exists_firstTaken (answer : Text → Except RenderError Text)
    (refusal : List RenderError → RenderError) (alternatives : List Text) :
    ∃ result, FirstTaken (fun alternative result => answer alternative = result) refusal
      alternatives result := by
  induction alternatives generalizing refusal with
  | nil => exact ⟨_, firstTaken_nil.2 rfl⟩
  | cons alternative rest ih =>
      cases hanswer : answer alternative with
      | ok text => exact ⟨_, firstTaken_cons.2 (Or.inl ⟨text, hanswer, rfl⟩)⟩
      | error cause =>
          obtain ⟨result, hresult⟩ := ih fun later => refusal (cause :: later)
          exact ⟨result, firstTaken_cons.2 (Or.inr ⟨cause, hanswer, hresult⟩)⟩

/-- Where every alternative has a result, the choice has a text exactly if one of them has. -/
theorem FirstTaken.exists_ok_iff {answer : Text → Except RenderError Text}
    (h : FirstTaken (fun alternative result => answer alternative = result) refusal alternatives
      result) :
    (∃ text, result = .ok text) ↔
      ∃ alternative ∈ alternatives, ∃ text, answer alternative = .ok text := by
  cases h with
  | @taken before after alternative text hcut hbefore htaken =>
      exact iff_of_true ⟨text, rfl⟩ ⟨alternative, by simp [hcut], text, htaken⟩
  | refused hattempts =>
      refine iff_of_false nofun ?_
      rintro ⟨alternative, hmem, text, htext⟩
      obtain ⟨i, hi, rfl⟩ := List.mem_iff_getElem.1 hmem
      have herror := hattempts.get hi (hattempts.length_eq ▸ hi)
      rw [List.get_eq_getElem, htext] at herror
      cases herror

/-- A refusal has one error for each alternative. -/
theorem FirstTaken.exists_attempts {cause : RenderError}
    (h : FirstTaken settles refusal alternatives (.error cause)) :
    ∃ attempts, List.Forall₂ (fun alternative attempt => settles alternative (.error attempt))
      alternatives attempts ∧ cause = refusal attempts := by
  cases h with
  | refused hattempts => exact ⟨_, hattempts, rfl⟩

theorem FirstTaken.toOption_eq {answer : Text → Except RenderError Text}
    (h : FirstTaken (fun alternative result => answer alternative = result) refusal alternatives
      result) :
    result.toOption = alternatives.findSome? fun alternative => (answer alternative).toOption := by
  induction alternatives generalizing refusal with
  | nil =>
      rw [firstTaken_nil.1 h]
      rfl
  | cons alternative rest ih =>
      rw [List.findSome?_cons]
      rcases firstTaken_cons.1 h with ⟨text, htaken, rfl⟩ | ⟨cause, hcause, hrest⟩
      · rw [htaken]
        rfl
      · rw [hcause]
        exact ih hrest

end Rendering

open Rendering (FirstTaken firstTaken_nil firstTaken_cons exists_firstTaken)

namespace TypeRegistry

/-- Alternatives that each need a number of handlers are all served by the greatest one. -/
theorem exists_depth_of_firstTaken {types : TypeRegistry} {value : Json}
    {refusal : List RenderError → RenderError} {alternatives : List Text}
    {result : Except RenderError Text}
    (h : FirstTaken (fun alternative => types.Renders alternative value) refusal alternatives
      result) :
    ∃ depth, FirstTaken
      (fun alternative result => renderWithin types depth alternative value = some result)
      refusal alternatives result := by
  induction alternatives generalizing refusal with
  | nil => exact ⟨0, firstTaken_nil.2 (firstTaken_nil.1 h)⟩
  | cons alternative rest ih =>
      rcases firstTaken_cons.1 h with ⟨text, ⟨depth, htaken⟩, hresult⟩ |
        ⟨cause, ⟨depth, hcause⟩, hrest⟩
      · exact ⟨depth, firstTaken_cons.2 (Or.inl ⟨text, htaken, hresult⟩)⟩
      · obtain ⟨depth', hlater⟩ := ih hrest
        refine ⟨max depth depth', firstTaken_cons.2 (Or.inr ⟨cause, ?_, ?_⟩)⟩
        · exact renderWithin_mono (Nat.le_max_left depth depth') hcause
        · exact hlater.imp fun _ _ _ => renderWithin_mono (Nat.le_max_right depth depth')

end TypeRegistry

/-! ## Variants -/

/-- Trying alternatives comes to a result exactly if this is the ordered choice among what is
answered. -/
theorem Container.run_firstOf_iff {answer : Text → Json → Option (Except RenderError Text)}
    {type : Text} {value : Json} {attempts : List RenderError} {alternatives : List Text}
    {result : Except RenderError Text} :
    Plan.run answer (firstOf type value attempts alternatives).run = some result ↔
      FirstTaken (fun alternative result => answer alternative value = some result)
        (fun later => .noAlternative (TypeName.canonical type) value (attempts ++ later))
        alternatives result := by
  induction alternatives generalizing attempts with
  | nil =>
      rw [firstTaken_nil, List.append_nil]
      show some (Except.error _) = some result ↔ _
      rw [Option.some.injEq, eq_comm]
  | cons alternative rest ih =>
      rw [firstTaken_cons]
      show Plan.run answer (Plan.ask alternative value _) = _ ↔ _
      rw [Plan.run_ask]
      cases hanswer : answer alternative value with
      | none => simp
      | some reply =>
          cases reply with
          | ok text =>
              show some (Except.ok text) = some result ↔ _
              simp [eq_comm]
          | error cause =>
              show Plan.run answer (firstOf type value (attempts ++ [cause]) rest).run = _ ↔ _
              simp [ih]

namespace TypeRegistry

open Stencil.TypeName (angled)

variable {types : TypeRegistry} {type : Text} {alternatives : List Text}

/-- A name that goes to the built-in pattern of variants, which captures the alternatives. -/
structure IsVariant (types : TypeRegistry) (type : Text) (alternatives : List Text) : Prop where
  captured : ∃ list, type.trim = angled "std::variant" list ∧
    Dispatcher.captureList list = .ok alternatives
  resolved : types.resolve type = .ok ⟨Container.variant, .list, alternatives⟩

namespace IsVariant

/-- The alternatives are shorter than the variant. -/
theorem length_lt (hvariant : types.IsVariant type alternatives) :
    ∀ alternative ∈ alternatives, alternative.length < type.length := by
  intro alternative hmem
  obtain ⟨list, htrim, hcapture⟩ := hvariant.captured
  have hsplit := Dispatcher.captureList_eq_ok_iff.1 hcapture
  calc alternative.length
    _ ≤ list.length := TypeName.length_le_of_splitList? hsplit alternative hmem
    _ < (angled "std::variant" list).length := TypeName.length_lt_angled "std::variant" list
    _ = type.trim.length := by rw [htrim]
    _ ≤ type.length := Text.length_trim_le type

theorem isItem (hvariant : types.IsVariant type alternatives) :
    ∀ alternative ∈ alternatives, TypeName.IsItem alternative := by
  obtain ⟨list, -, hcapture⟩ := hvariant.captured
  exact (TypeName.splitList?_eq_some_iff.1 (Dispatcher.captureList_eq_ok_iff.1 hcapture)).1

variable {value : Json} {result : Except RenderError Text}

/-- One level of rendering. -/
theorem renderWithin_iff (hvariant : types.IsVariant type alternatives) {depth : Nat} :
    renderWithin types (depth + 1) type value = some result ↔
      FirstTaken
        (fun alternative result => renderWithin types depth alternative value = some result)
        (.noAlternative (TypeName.canonical type) value) alternatives result := by
  have hname : TypeName.canonical type.trim = TypeName.canonical type := by
    rw [TypeName.canonical, TypeName.canonical, Text.trim_trim]
  rw [← hname, renderWithin_succ, renderOnce, hvariant.resolved]
  exact Container.run_firstOf_iff

/-- Rendering as a variant comes to a result exactly if trying the alternatives does. -/
theorem renders_iff (hvariant : types.IsVariant type alternatives) :
    types.Renders type value result ↔
      FirstTaken (fun alternative => types.Renders alternative value)
        (.noAlternative (TypeName.canonical type) value) alternatives result := by
  constructor
  · rintro ⟨depth, hresult⟩
    cases depth with
    | zero => cases hresult
    | succ depth =>
        exact (hvariant.renderWithin_iff.1 hresult).imp fun _ _ _ h => ⟨depth, h⟩
  · intro h
    obtain ⟨depth, hdepth⟩ := exists_depth_of_firstTaken h
    exact ⟨depth + 1, hvariant.renderWithin_iff.2 hdepth⟩

/-- If the alternatives end, so does the variant, and the renderer chooses among its own results
for the alternatives. -/
theorem firstTaken_render (hvariant : types.IsVariant type alternatives)
    (hends : ∀ alternative ∈ alternatives, types.Ends alternative value) :
    types.Ends type value ∧
      FirstTaken (fun alternative result => types.render alternative value = result)
        (.noAlternative (TypeName.canonical type) value) alternatives
        (types.render type value) := by
  obtain ⟨result, hresult⟩ := exists_firstTaken (fun alternative => types.render alternative value)
    (.noAlternative (TypeName.canonical type) value) alternatives
  have hdepth : type.length + (spareDepth - 1) + 1 = type.length + spareDepth := rfl
  have hwithin : renderWithin types (type.length + spareDepth) type value = some result := by
    rw [← hdepth]
    refine hvariant.renderWithin_iff.2 (hresult.imp fun alternative hmem result hrender => ?_)
    -- An alternative is shorter, so its own bound is left for it.
    have hshorter := hvariant.length_lt alternative hmem
    obtain ⟨found, hfound⟩ := hends alternative hmem
    rw [render, hfound] at hrender
    subst hrender
    refine renderWithin_mono ?_ hfound
    omega
  have hrender : types.render type value = result := by rw [render, hwithin]
  exact ⟨⟨result, hwithin⟩, hrender ▸ hresult⟩

theorem toOption_render (hvariant : types.IsVariant type alternatives)
    (hends : ∀ alternative ∈ alternatives, types.Ends alternative value) :
    (types.render type value).toOption =
      alternatives.findSome? fun alternative => (types.render alternative value).toOption :=
  (hvariant.firstTaken_render hends).2.toOption_eq

end IsVariant

/-! ### Variants in variants -/

/-- Items can be listed as the alternatives of a variant. -/
theorem isVariant_builtin (hitems : ∀ item ∈ alternatives, TypeName.IsItem item) :
    builtin.IsVariant (angled "std::variant" (Text.joined ", " alternatives)) alternatives := by
  have hword : TypeName.isWord "std::variant" = true := by decide
  have hentry := mem_builtin (mem_compounds (i := 3) rfl) (Pattern.keyAndForm?_angled .list hword)
  have hlists := TypeName.lists_joined_spaced alternatives
  have hsplit := TypeName.splitList?_eq_some_iff.2 ⟨hitems, hlists⟩
  refine ⟨⟨_, TypeName.trim_angled hword _, Dispatcher.captureList_eq_ok_iff.2 hsplit⟩, ?_⟩
  refine Dispatcher.resolve_listed isAngular_builtin hentry hword ?_
  rw [Dispatcher.captureList_eq_ok_iff, TypeName.splitList?_trim, hsplit]

/-- A built-in variant takes what one of its alternatives takes. -/
theorem literal?_variant (hvariant : builtin.IsVariant type alternatives) (value : Json) :
    literal? type value = alternatives.findSome? fun alternative => literal? alternative value :=
  hvariant.toOption_render fun alternative _ => ends_builtin alternative value

/-- An item can be replaced by items among which the search comes to the same. -/
theorem findSome?_append_cons {α β : Type} {f : α → Option β} {item : α} {inner : List α}
    (hitem : f item = inner.findSome? f) (before after : List α) :
    (before ++ item :: after).findSome? f = (before ++ inner ++ after).findSome? f := by
  rw [List.findSome?_append, List.findSome?_append, List.findSome?_append, List.findSome?_cons,
    ← hitem, Option.or_assoc]
  cases f item <;> rfl

theorem literal?_variant_nested {before inner after : List Text} {nested flat : Text}
    (hvariant : builtin.IsVariant type (before ++ nested :: after))
    (hnested : builtin.IsVariant nested inner)
    (hflat : builtin.IsVariant flat (before ++ inner ++ after)) (value : Json) :
    literal? type value = literal? flat value := by
  rw [literal?_variant hvariant, literal?_variant hflat]
  exact findSome?_append_cons (literal?_variant hnested value) before after

/-- A variant is the ordered choice among its alternatives, whatever else is registered.  Rendering
a value as a variant comes to a result exactly if trying the alternatives in order does, and to the
same one; and if the renderings of the alternatives end, the renderer chooses among its own results
for them, so that it takes a value exactly if it takes the value as one of them.  Among the built-in
types, whose renderings always end, an alternative that is a variant itself can be replaced by its
own alternatives: these can be listed in its place, and every variant that lists them takes the same
values and renders them as the same texts. -/
theorem render_variant (hvariant : types.IsVariant type alternatives) (value : Json) :
    (∀ result, types.Renders type value result ↔
        FirstTaken (fun alternative => types.Renders alternative value)
          (.noAlternative (TypeName.canonical type) value) alternatives result) ∧
      ((∀ alternative ∈ alternatives, types.Ends alternative value) →
        FirstTaken (fun alternative result => types.render alternative value = result)
            (.noAlternative (TypeName.canonical type) value) alternatives
            (types.render type value) ∧
          ((∃ text, types.render type value = .ok text) ↔
            ∃ alternative ∈ alternatives, ∃ text, types.render alternative value = .ok text)) ∧
        (types = builtin → (∀ name, types.Ends name value) ∧
          ∀ before nested after inner, alternatives = before ++ nested :: after →
            builtin.IsVariant nested inner →
              builtin.IsVariant (angled "std::variant"
                  (Text.joined ", " (before ++ inner ++ after))) (before ++ inner ++ after) ∧
                ∀ flat, builtin.IsVariant flat (before ++ inner ++ after) →
                  ∀ text, builtin.render type value = .ok text ↔
                    builtin.render flat value = .ok text) := by
  refine ⟨fun result => hvariant.renders_iff, fun hends => ?_, fun htypes => ⟨?_, ?_⟩⟩
  · obtain ⟨-, hchoice⟩ := hvariant.firstTaken_render hends
    exact ⟨hchoice, hchoice.exists_ok_iff⟩
  · rw [htypes]
    exact fun name => ends_builtin name value
  · intro before nested after inner halternatives hnested
    subst halternatives
    rw [htypes] at hvariant
    have houter := hvariant.isItem
    have hitems : ∀ item ∈ before ++ inner ++ after, TypeName.IsItem item := by
      simp only [List.mem_append, List.mem_cons] at houter ⊢
      rintro item ((hbefore | hmem) | hafter)
      · exact houter item (Or.inl hbefore)
      · exact hnested.isItem item hmem
      · exact houter item (Or.inr (Or.inr hafter))
    refine ⟨isVariant_builtin hitems, fun flat hflat text => ?_⟩
    rw [← literal?_eq_some_iff, ← literal?_eq_some_iff,
      literal?_variant_nested hvariant hnested hflat]

/-- A variant in a variant: a list that no alternative takes, and a string that the second one
takes, as the list of three alternatives does. -/
theorem render_variant_nestedString :
    let nested : Text := "std::variant<bool, std::string>"
    let type : Text := "std::variant<int, std::variant<bool, std::string>>"
    let flat : Text := "std::variant<int, bool, std::string>"
    builtin.IsVariant type ["int", nested] ∧ builtin.IsVariant nested ["bool", "std::string"] ∧
      (∀ alternative ∈ (["int", nested] : List Text), builtin.Ends alternative (.array [])) ∧
      (∃ attempts, attempts.length = 2 ∧
        builtin.render type (.array []) = .error (.noAlternative type (.array []) attempts)) ∧
      builtin.render flat (.string "x") = .ok "\"x\"" ∧
      builtin.render type (.string "x") = .ok "\"x\"" := by
  intro nested type flat
  have hvariant : builtin.IsVariant type ["int", nested] :=
    @isVariant_builtin ["int", nested] (by decide +kernel)
  have hnested : builtin.IsVariant nested ["bool", "std::string"] :=
    @isVariant_builtin ["bool", "std::string"] (by decide +kernel)
  have hends : ∀ alternative ∈ (["int", nested] : List Text),
      builtin.Ends alternative (.array []) :=
    fun alternative _ => ends_builtin alternative _
  have hcanonical : TypeName.canonical type = type := by decide +kernel
  let int : TypeTree := .scalar (.integer .int)
  let inner : TypeTree := .variant [.scalar .bool, .scalar .string]
  have hrefused : literal? type (.array []) = none := by
    rw [literal?_print (.variant [int, inner]) (by decide +kernel)]
    decide +kernel
  have htext : builtin.render flat (.string "x") = .ok "\"x\"" := by
    rw [← literal?_eq_some_iff,
      literal?_print (.variant [int, .scalar .bool, .scalar .string]) (by decide +kernel)]
    decide +kernel
  obtain ⟨cause, hcause⟩ := literal?_eq_none_iff.1 hrefused
  obtain ⟨-, hchoice, -⟩ := render_variant hvariant (.array [])
  have hrefusal := (hchoice hends).1
  rw [hcause, hcanonical] at hrefusal
  obtain ⟨attempts, hattempts, rfl⟩ := hrefusal.exists_attempts
  obtain ⟨-, -, hnest⟩ := render_variant hvariant (.string "x")
  obtain ⟨hflat, hagree⟩ := (hnest rfl).2 ["int"] nested [] ["bool", "std::string"] rfl hnested
  exact ⟨hvariant, hnested, hends, ⟨attempts, hattempts.length_eq.symm, hcause⟩, htext,
    (hagree flat hflat _).2 htext⟩

end TypeRegistry
end Stencil
