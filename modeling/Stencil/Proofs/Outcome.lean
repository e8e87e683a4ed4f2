import Mathlib.Data.List.Forall2
import Stencil.Text.Basic

namespace Stencil
namespace Outcome

/-!
# Outcomes of composed computations

Every stage of the program answers with a value or with an error.  A composed
stage succeeds exactly if its parts do, and fails with the first of their
failures; the lemmas here take such an outcome apart.
-/

variable {ε δ α β : Type}

@[simp]
theorem map_eq_ok_iff {f : α → β} {x : Except ε α} {b : β} :
    x.map f = .ok b ↔ ∃ a, x = .ok a ∧ f a = b := by
  cases x <;> simp [Except.map]

@[simp]
theorem mapError_eq_ok_iff {f : ε → δ} {x : Except ε α} {a : α} :
    x.mapError f = .ok a ↔ x = .ok a := by
  cases x with
  | error cause =>
      show Except.error _ = _ ↔ _
      simp
  | ok b =>
      show Except.ok b = Except.ok a ↔ _
      rw [Except.ok.injEq, Except.ok.injEq]

@[simp]
theorem bind_eq_ok_iff {f : α → Except ε β} {x : Except ε α} {b : β} :
    (x >>= f) = .ok b ↔ ∃ a, x = .ok a ∧ f a = .ok b := by
  cases x <;> simp [bind, Except.bind]

/-- A check before a computation. -/
@[simp]
theorem seq_eq_ok_iff {check : Except ε Unit} {x : Except ε β} {b : β} :
    (check >>= fun _ => x) = .ok b ↔ check = .ok () ∧ x = .ok b := by
  cases check <;> simp [bind, Except.bind]

theorem toOption_eq_some_iff {x : Except ε α} {a : α} : x.toOption = some a ↔ x = .ok a := by
  cases x <;> simp [Except.toOption]

/-! ## Failures -/

theorem map_eq_error_iff {f : α → β} {x : Except ε α} {e : ε} :
    x.map f = .error e ↔ x = .error e := by
  cases x <;> simp [Except.map]

theorem mapError_eq_error_iff {f : ε → δ} {x : Except ε α} {e : δ} :
    x.mapError f = .error e ↔ ∃ cause, x = .error cause ∧ f cause = e := by
  cases x with
  | error cause =>
      show Except.error (f cause) = Except.error e ↔ _
      simp
  | ok a =>
      show Except.ok a = Except.error e ↔ _
      simp

/-- The first failure ends a composed computation. -/
theorem bind_eq_error_iff {f : α → Except ε β} {x : Except ε α} {e : ε} :
    (x >>= f) = .error e ↔ x = .error e ∨ ∃ a, x = .ok a ∧ f a = .error e := by
  cases x <;> simp [bind, Except.bind]

/-- Whether a computation succeeds can be evaluated also where its value cannot be compared. -/
theorem exists_eq_ok_of_isOk {x : Except ε α} (hok : x.isOk = true) : ∃ a, x = .ok a := by
  cases x with
  | error cause => cases hok
  | ok a => exact ⟨a, rfl⟩

theorem exists_eq_error_of_isOk {x : Except ε α} (hok : x.isOk = false) :
    ∃ cause, x = .error cause := by
  cases x with
  | error cause => exact ⟨cause, rfl⟩
  | ok a => cases hok

/-! ## Lists of computations -/

section

variable {f : α → Except ε β} {items : List α}

/-- A list is gone through if every item has a value, and it has these in order. -/
theorem mapM_eq_ok_iff {values : List β} :
    items.mapM f = .ok values ↔
      List.Forall₂ (fun item value => f item = .ok value) items values := by
  induction items generalizing values with
  | nil => cases values <;> simp [pure, Except.pure]
  | cons item rest ih =>
      rw [List.mapM_cons, bind_eq_ok_iff, List.forall₂_cons_left_iff]
      refine exists_congr fun value => ?_
      rw [bind_eq_ok_iff]
      simp [ih, pure, Except.pure, eq_comm]

/-- Going through a list fails with the error of the first item that has no value. -/
theorem mapM_eq_error_iff {cause : ε} :
    items.mapM f = .error cause ↔ ∃ before item after, items = before ++ item :: after ∧
      (∀ earlier ∈ before, ∃ value, f earlier = .ok value) ∧ f item = .error cause := by
  induction items with
  | nil => simp [pure, Except.pure]
  | cons item rest ih =>
      have hrest : (item :: rest).mapM f = .error cause ↔ f item = .error cause ∨
          (∃ value, f item = .ok value) ∧ rest.mapM f = .error cause := by
        rw [List.mapM_cons]
        cases f item <;> cases rest.mapM f <;> simp [bind, Except.bind, pure, Except.pure]
      rw [hrest, ih]
      constructor
      · rintro (hitem | ⟨hitem, before, later, after, rfl, hbefore, hlater⟩)
        · exact ⟨[], item, rest, rfl, List.forall_mem_nil _, hitem⟩
        · exact ⟨item :: before, later, after, rfl,
            List.forall_mem_cons.2 ⟨hitem, hbefore⟩, hlater⟩
      · rintro ⟨before, later, after, hcut, hbefore, hlater⟩
        cases before with
        | nil =>
            obtain ⟨rfl, rfl⟩ := List.cons.inj hcut
            exact Or.inl hlater
        | cons first before =>
            obtain ⟨rfl, rfl⟩ := List.cons.inj hcut
            rw [List.forall_mem_cons] at hbefore
            exact Or.inr ⟨hbefore.1, before, later, after, rfl, hbefore.2, hlater⟩

/-- If an item has a value on a condition, and it is known which, the list is gone through if all
items meet the condition. -/
theorem mapM_eq_ok_iff_of_item {condition : α → Prop} {g : α → β}
    (hitem : ∀ item value, f item = .ok value ↔ condition item ∧ g item = value)
    {values : List β} :
    items.mapM f = .ok values ↔ (∀ item ∈ items, condition item) ∧ items.map g = values := by
  have hmap : List.Forall₂ (fun item value => g item = value) items values ↔
      items.map g = values := by
    rw [← List.forall₂_map_left_iff, List.forall₂_eq_eq_eq]
  simp only [mapM_eq_ok_iff, hitem, List.forall₂_and_left, hmap]

end

/-! ## Two outcomes -/

/-- Two outcomes that are both values, and related, or both errors. -/
inductive Rel (related : α → β → Prop) : Except ε α → Except δ β → Prop where
  | ok {a : α} {b : β} (h : related a b) : Rel related (.ok a) (.ok b)
  | error (e : ε) (e' : δ) : Rel related (.error e) (.error e')

variable {α' β' : Type} {related : α → β → Prop}

theorem optionRel_map {related' : α' → β' → Prop} {f : α → α'} {g : β → β'} {a? : Option α}
    {b? : Option β} (h : Option.Rel related a? b?)
    (hfg : ∀ {a b}, related a b → related' (f a) (g b)) :
    Option.Rel related' (a?.map f) (b?.map g) := by
  cases h with
  | none => exact .none
  | some h => exact .some (hfg h)

/-- If all items have related values, then so do the first that have any. -/
theorem optionRel_findSome? {ι : Type} {f : ι → Option α} {g : ι → Option β} {items : List ι}
    (h : ∀ item ∈ items, Option.Rel related (f item) (g item)) :
    Option.Rel related (items.findSome? f) (items.findSome? g) := by
  induction items with
  | nil => exact .none
  | cons item rest ih =>
      rw [List.forall_mem_cons] at h
      rw [List.findSome?_cons, List.findSome?_cons]
      have hitem := h.1
      cases hf : f item <;> cases hg : g item <;> rw [hf, hg] at hitem <;> cases hitem
      · exact ih h.2
      · rename_i hab
        exact .some hab

end Outcome
end Stencil
