import Stencil.Proofs.Relocation

namespace Stencil

/-!
# Templates put together

A template that is empty or ends with a line feed can be followed by another one
without the two sharing a line.  What the second template becomes does not depend
on the first: its lines only have other numbers and other offsets.

The machine that has taken the first template and a part of the second one is the
machine that has taken this part alone, moved (`State.moved`).  This holds when
the second template begins and is kept by every line, and `expand_append` draws
the conclusion for whole templates, errors and their places included.
-/

namespace Text

/-- A text that is empty or ends with a line feed shares no line with what follows it. -/
theorem lines_append {a : Text} (ha : a = [] ∨ a.getLast? = some '\n') (b : Text) :
    lines (a ++ b) = lines a ++ lines b := by
  induction a with
  | nil => rfl
  | cons c rest ih =>
      -- What comes after the first character ends with a line feed too, if it is anything.
      have hrest : rest = [] ∨ rest.getLast? = some '\n' := by
        cases rest with
        | nil => exact Or.inl rfl
        | cons d rest => exact Or.inr (by simpa using ha)
      have happend := ih hrest
      by_cases hc : c = '\n'
      · simp [lines, hc, happend]
      · have hne : rest ≠ [] := by
          rintro rfl
          simp [hc] at ha
        have hlines : lines rest ≠ [] := by
          intro hnil
          have hflat := flatten_lines rest
          rw [hnil] at hflat
          exact hne hflat.symm
        obtain ⟨line, others, heq⟩ := List.exists_cons_of_ne_nil hlines
        simp [lines, hc, happend, heq, extendFirst]

end Text

namespace Template

/-- The place behind a text that comes before the template. -/
def placeBehind (t : Text) (place : Place) : Place :=
  ⟨place.number + (Text.lines t).length, place.offset + Text.byteSize t⟩

/-! ## Numbered lines -/

theorem numberedFrom_append (number offset : Nat) (raws others : List Text) :
    numberedFrom number offset (raws ++ others) =
      numberedFrom number offset raws ++
        numberedFrom (number + raws.length) (offset + Text.byteSize raws.flatten) others := by
  induction raws generalizing number offset with
  | nil => simp [numberedFrom]
  | cons raw raws ih =>
      simp only [List.cons_append, numberedFrom, ih, List.length_cons, List.flatten_cons,
        Text.byteSize_append]
      congr 3 <;> omega

/-- Lines that are counted on from behind a text are the lines counted from the start, moved. -/
theorem numberedFrom_moved (t : Text) (number offset : Nat) (raws : List Text) :
    numberedFrom (number + (Text.lines t).length) (offset + Text.byteSize t) raws =
      (numberedFrom number offset raws).map (SourceLine.moved (placeBehind t)) := by
  induction raws generalizing number offset with
  | nil => rfl
  | cons raw raws ih =>
      have hnumber : number + (Text.lines t).length + 1 = number + 1 + (Text.lines t).length := by
        omega
      have hoffset : offset + Text.byteSize t + Text.byteSize raw =
          offset + Text.byteSize raw + Text.byteSize t := by omega
      rw [numberedFrom, numberedFrom, List.map_cons, hnumber, hoffset, ih]
      rfl

/-- The lines of two templates are those of the first one and, behind it, those of the second. -/
theorem sourceLines_append {a : Text} (ha : a = [] ∨ a.getLast? = some '\n') (b : Text) :
    sourceLines (a ++ b) =
      sourceLines a ++ (sourceLines b).map (SourceLine.moved (placeBehind a)) := by
  have hmoved := numberedFrom_moved a 1 0 (Text.lines b)
  unfold sourceLines
  rw [Text.lines_append ha, numberedFrom_append, Text.flatten_lines, ← hmoved]

variable {template : Text} {engine : Engine} {spec : Spec}

/-! ## Templates -/

/-- A machine that has taken a whole template and has no block open goes on with the next
template as if it were the first. -/
theorem expand_append_of_run {a : Text} (ha : a = [] ∨ a.getLast? = some '\n') (b : Text)
    {output : List Text}
    (hrun : (sourceLines a).foldlM (step template engine spec) ⟨[], none⟩ = .ok ⟨output, none⟩) :
    engine.expand template (a ++ b) spec =
      outcomeMoved (placeBehind a) (output.flatten ++ ·) (engine.expand template b spec) := by
  have hstart : (⟨output, none⟩ : State) = State.moved output (placeBehind a) ⟨[], none⟩ := by
    simp [State.moved]
  unfold Engine.expand
  rw [sourceLines_append ha, List.foldlM_append, hrun]
  show ((List.map _ _).foldlM _ (⟨output, none⟩ : State) >>= _) = _
  rw [hstart, foldlM_step_moved]
  cases (sourceLines b).foldlM (step template engine spec) ⟨[], none⟩ with
  | error e => rfl
  | ok final => exact finish_moved output (placeBehind a) final

/-- A template that is expanded has left no block open. -/
theorem exists_run_of_expand {a out : Text} (hexpand : engine.expand template a spec = .ok out) :
    ∃ output, (sourceLines a).foldlM (step template engine spec) ⟨[], none⟩ =
      .ok ⟨output, none⟩ ∧ output.flatten = out := by
  unfold Engine.expand at hexpand
  obtain ⟨⟨output, block?⟩, hrun, hfinish⟩ := Outcome.bind_eq_ok_iff.1 hexpand
  cases block? with
  | some block => cases hfinish
  | none => exact ⟨output, hrun, Except.ok.inj hfinish⟩

/-- A failure at a line of the first template is met before the second template is reached. -/
theorem expand_append_of_error {a : Text} (ha : a = [] ∨ a.getLast? = some '\n') (b : Text)
    {e : Error} (hexpand : engine.expand template a spec = .error e)
    (hcause : e.cause ≠ .unterminatedBlock) :
    engine.expand template (a ++ b) spec = .error e := by
  unfold Engine.expand at hexpand ⊢
  rw [sourceLines_append ha, List.foldlM_append]
  cases hrun : (sourceLines a).foldlM (step template engine spec) ⟨[], none⟩ with
  | error cause =>
      rw [hrun] at hexpand
      exact hexpand
  | ok final =>
      -- The lines were all taken, so what failed is that a block is left open.
      rw [hrun] at hexpand
      obtain ⟨output, block?⟩ := final
      cases block? with
      | some block =>
          obtain rfl := Except.error.inj hexpand
          exact absurd rfl hcause
      | none => cases hexpand

/-- Expansion of a template that another one follows, where the first one is empty or ends with a
line feed.  If the first one is expanded, the outcome is that of the second one: its text comes
behind the text of the first one, and its error is placed behind the lines and the bytes of the
first one.  If the first one fails at one of its lines, so do both together, and there. -/
theorem expand_append (engine : Engine) (template : Text) (spec : Spec) {a : Text}
    (ha : a = [] ∨ a.getLast? = some '\n') (b : Text) :
    (∀ out, engine.expand template a spec = .ok out →
      (∀ more, engine.expand template b spec = .ok more →
        engine.expand template (a ++ b) spec = .ok (out ++ more)) ∧
      ∀ e, engine.expand template b spec = .error e →
        engine.expand template (a ++ b) spec = .error
          { e with
            line := e.line + (Text.lines a).length
            offset := e.offset + Text.byteSize a }) ∧
    ∀ e, engine.expand template a spec = .error e → e.cause ≠ .unterminatedBlock →
      engine.expand template (a ++ b) spec = .error e := by
  constructor
  · intro out hout
    obtain ⟨output, hrun, rfl⟩ := exists_run_of_expand hout
    have happend := expand_append_of_run ha b hrun
    constructor
    · intro more hmore
      rw [happend, hmore]
      rfl
    · intro e he
      rw [happend, he]
      rfl
  · intro e he hcause
    exact expand_append_of_error ha b he hcause

/-- A template with a block, and one whose second line closes a block that is not open. -/
theorem expand_append_unmatched :
    let a : Text := "DATAMATIC_BEGIN\nDATAMATIC_END\nx\n"
    let b : Text := "y\nDATAMATIC_END"
    let spec : Spec := ⟨[], []⟩
    (a = [] ∨ a.getLast? = some '\n') ∧
      Engine.empty.expand [] a spec = .ok ['x', '\n'] ∧
      Engine.empty.expand [] b spec = .error ⟨[], 2, 2, 13, .unmatchedEnd⟩ ∧
      Engine.empty.expand [] (a ++ b) spec = .error ⟨[], 5, 34, 13, .unmatchedEnd⟩ := by
  intro a b spec
  have ha : a = [] ∨ a.getLast? = some '\n' := Or.inr (by decide)
  have hfirst : Engine.empty.expand [] a spec = .ok ['x', '\n'] := rfl
  have hsecond : Engine.empty.expand [] b spec = .error ⟨[], 2, 2, 13, .unmatchedEnd⟩ := rfl
  refine ⟨ha, hfirst, hsecond, ?_⟩
  exact ((expand_append Engine.empty [] spec ha b).1 _ hfirst).2 _ hsecond

end Template
end Stencil
