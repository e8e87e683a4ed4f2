import Stencil.Proofs.Outcome
import Stencil.Template.Expand

namespace Stencil
namespace Template

/-!
# Lines at other places

What a line does depends on its text.  Its number and its offset are only carried
along, for the case that it has to be named in an error.  So a template whose
lines are moved, each to the place that a function gives for its own place, has
the same outcome, where an error is moved with the line that it is about.

`State.moved` says how the machine that has taken moved lines, after others that
wrote some texts, compares with the machine that has taken the lines.  The
relation is kept by every line (`step_moved`), and so by a run
(`foldlM_step_moved`).
-/

/-- Where a line stands: its number and the bytes before it. -/
structure Place where
  number : Nat
  offset : Nat

namespace SourceLine

def place (line : SourceLine) : Place := ⟨line.number, line.offset⟩

/-- The line at the place that a function gives for its own place. -/
def moved (move : Place → Place) (line : SourceLine) : SourceLine :=
  { line with number := (move line.place).number, offset := (move line.place).offset }

@[simp]
theorem text_moved (move : Place → Place) (line : SourceLine) :
    (line.moved move).text = line.text := rfl

end SourceLine

/-- The scanned line at another place. -/
def ScannedLine.moved (move : Place → Place) (scanned : ScannedLine) : ScannedLine :=
  { scanned with line := scanned.line.moved move }

/-- The block with its lines at other places. -/
def Block.moved (move : Place → Place) (block : Block) : Block :=
  { block with
    begin := block.begin.moved move
    lines := block.lines.map (SourceLine.moved move) }

/-- The place of the line that an error is about. -/
def Error.place (e : Error) : Place := ⟨e.line, e.offset⟩

/-- The error with the line that it is about at another place. -/
def Error.moved (move : Place → Place) (e : Error) : Error :=
  { e with line := (move e.place).number, offset := (move e.place).offset }

/-- The outcome with the lines that it is about at other places, where `f` says what becomes of a
success. -/
def outcomeMoved {α β : Type} (move : Place → Place) (f : α → β) :
    Except Error α → Except Error β
  | .ok a => .ok (f a)
  | .error e => .error (e.moved move)

variable {template : Text} {engine : Engine} {spec : Spec}

/-! ## Blocks -/

theorem scanLines_moved (move : Place → Place) (lines : List SourceLine) :
    scanLines template (lines.map (SourceLine.moved move)) =
      outcomeMoved move (List.map (ScannedLine.moved move)) (scanLines template lines) := by
  induction lines with
  | nil => rfl
  | cons line rest ih =>
      simp only [List.map_cons, scanLines, SourceLine.text_moved]
      cases Token.scan line.text with
      | error cause => rfl
      | ok segments =>
          simp only [ih]
          cases scanLines template rest with
          | error e => rfl
          | ok others => rfl

theorem expandLines_moved (move : Place → Place) (methods : MethodRegistry) (context : Context)
    (lines : List ScannedLine) :
    expandLines template methods context (lines.map (ScannedLine.moved move)) =
      outcomeMoved move id (expandLines template methods context lines) := by
  induction lines with
  | nil => rfl
  | cons scanned rest ih =>
      have hsegments : (scanned.moved move).segments = scanned.segments := rfl
      simp only [List.map_cons, expandLines, hsegments]
      cases expandLine methods context scanned.segments with
      | error cause => rfl
      | ok texts =>
          simp only [ih]
          cases expandLines template methods context rest with
          | error e => rfl
          | ok others => rfl

theorem expandComponents_moved (move : Place → Place) (view : View) (lines : List ScannedLine)
    (components : List ViewComponent) :
    expandComponents template engine view (lines.map (ScannedLine.moved move)) components =
      outcomeMoved move id (expandComponents template engine view lines components) := by
  induction components with
  | nil => rfl
  | cons component rest ih =>
      simp only [expandComponents, expandLines_moved, ih]
      cases expandLines template engine.methods
          { types := engine.types, view, component } lines with
      | error e => rfl
      | ok texts =>
          cases expandComponents template engine view lines rest with
          | error e => rfl
          | ok others => rfl

/-- What a block becomes does not depend on where it stands. -/
theorem expandBlock_moved (move : Place → Place) (block : Block) :
    expandBlock template engine spec (block.moved move) =
      outcomeMoved move id (expandBlock template engine spec block) := by
  have hlines : (block.moved move).lines = block.lines.map (SourceLine.moved move) := rfl
  have hpredicate : (block.moved move).predicate = block.predicate := rfl
  unfold expandBlock
  rw [hlines, hpredicate, scanLines_moved]
  cases scanLines template block.lines with
  | error e => rfl
  | ok scanned => exact expandComponents_moved move _ scanned _

/-! ## Runs -/

/-- The state with texts written before it and its lines at other places. -/
def State.moved (before : List Text) (move : Place → Place) (state : State) : State :=
  ⟨before ++ state.output, state.block?.map (Block.moved move)⟩

@[simp]
theorem State.moved_outside (before : List Text) (move : Place → Place) (output : List Text) :
    State.moved before move ⟨output, none⟩ = ⟨before ++ output, none⟩ := rfl

@[simp]
theorem State.moved_inside (before : List Text) (move : Place → Place) (output : List Text)
    (block : Block) :
    State.moved before move ⟨output, some block⟩ =
      ⟨before ++ output, some (block.moved move)⟩ := rfl

/-- A line that is moved does to the moved state what the line does to the state. -/
theorem step_moved (before : List Text) (move : Place → Place) (state : State)
    (line : SourceLine) :
    step template engine spec (state.moved before move) (line.moved move) =
      outcomeMoved move (State.moved before move) (step template engine spec state line) := by
  obtain ⟨output, block?⟩ := state
  -- The text of the line decides on its marker, and the text stays.
  have hmoved : Marker.of (line.moved move).text = Marker.of line.text := rfl
  cases hmarker : Marker.of line.text with
  | opens words =>
      rw [hmarker] at hmoved
      cases block? with
      | some block =>
          rw [State.moved_inside, step_opens_inside hmoved, step_opens_inside hmarker]
          rfl
      | none =>
          rw [State.moved_outside, step_opens_outside hmoved, step_opens_outside hmarker,
            SourceLine.text_moved]
          cases predicate spec line.text.trim words with
          | error cause => rfl
          | ok flags => rfl
  | closes words =>
      rw [hmarker] at hmoved
      cases block? with
      | none =>
          rw [State.moved_outside, step_closes_outside hmoved, step_closes_outside hmarker]
          rfl
      | some block =>
          rw [State.moved_inside]
          by_cases hwords : words = []
          · subst hwords
            rw [step_closes_inside hmoved, step_closes_inside hmarker, expandBlock_moved]
            cases expandBlock template engine spec block with
            | error e => rfl
            | ok texts =>
                show Except.ok (⟨before ++ output ++ texts, none⟩ : State) =
                  .ok ⟨before ++ (output ++ texts), none⟩
                rw [List.append_assoc]
          · rw [step_closes_arguments hmoved hwords, step_closes_arguments hmarker hwords]
            rfl
  | text =>
      rw [hmarker] at hmoved
      cases block? with
      | some block =>
          rw [State.moved_inside, step_text_inside hmoved, step_text_inside hmarker]
          simp [outcomeMoved, Block.moved]
      | none =>
          rw [State.moved_outside, step_text_outside hmoved, step_text_outside hmarker]
          simp [outcomeMoved]

/-- A run over moved lines is the run over the lines, moved. -/
theorem foldlM_step_moved (before : List Text) (move : Place → Place) (lines : List SourceLine)
    (state : State) :
    (lines.map (SourceLine.moved move)).foldlM (step template engine spec)
        (state.moved before move) =
      outcomeMoved move (State.moved before move)
        (lines.foldlM (step template engine spec) state) := by
  induction lines generalizing state with
  | nil => rfl
  | cons line rest ih =>
      rw [List.map_cons, List.foldlM_cons, List.foldlM_cons, step_moved]
      cases step template engine spec state line with
      | error e => rfl
      | ok next => exact ih next

theorem finish_moved (before : List Text) (move : Place → Place) (state : State) :
    finish template (state.moved before move) =
      outcomeMoved move (before.flatten ++ ·) (finish template state) := by
  obtain ⟨output, block?⟩ := state
  cases block? with
  | some block => rfl
  | none => simp [finish, State.moved, outcomeMoved]

end Template
end Stencil
