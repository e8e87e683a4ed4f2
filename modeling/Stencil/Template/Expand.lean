import Stencil.Engine.Basic
import Stencil.Template.Error
import Stencil.Template.Line
import Stencil.Token.Scan

namespace Stencil
namespace Template

/-!
# Expansion

Lines outside blocks are copied.  A block runs from a line that opens it to the
next line that closes it, and is repeated for every component that its view
shows.  In a block, a line without tokens is copied, a line with tokens of the
component alone is written once, and a line with tokens of the attribute,
written on it or produced by a token of the component, is written for every
attribute shown.  A line that becomes blank by its tokens is left out.

The tokens of a whole block are read before it is expanded.
-/

/-- A block that is being read. -/
structure Block where
  begin : SourceLine
  predicate : Flags
  lines : List SourceLine

def errorAt (template : Text) (line : SourceLine) (cause : Cause) : Error :=
  { template
    line := line.number
    offset := line.offset
    length := Text.byteSize line.text
    cause }

/-! ## Predicates -/

def truthValue? (word : Text) : Option Bool :=
  if word = "true" then some true
  else if word = "false" then some false
  else none

/-- The flag and the value that a word of a marker assigns.  A spec with flags has to
declare the flag. -/
def assignment (spec : Spec) (line word : Text) : Except Cause (Text × Bool) :=
  match Text.splitOnce? "=" word with
  | none => .error (.marker line (.noAssignment word))
  | some (flag, value) =>
      if flag.isEmpty then .error (.marker line (.noFlag word))
      else
        match truthValue? value with
        | none => .error (.marker line (.noTruthValue value))
        | some truth =>
            if spec.usesFlags && !spec.flagDefaults.contains flag then
              .error (.unknownFlag flag)
            else .ok (flag, truth)

/-- The assignments of words, after those of `predicate`. -/
def predicateFrom (spec : Spec) (line : Text) : Flags → List Text → Except Cause Flags
  | predicate, [] => .ok predicate
  | predicate, word :: rest => do
      let (flag, value) ← assignment spec line word
      if predicate.contains flag then throw (.marker line (.repeatedFlag flag))
      predicateFrom spec line (predicate ++ [(flag, value)]) rest

/-- The predicate that the words of a marker make up. -/
def predicate (spec : Spec) (line words : Text) : Except Cause Flags :=
  predicateFrom spec line [] words.words

/-! ## Lines of a block -/

/-- A written line: no white space at its end, and a line feed. -/
def written (text : Text) : Text := text.trimEnd ++ "\n"

/-- A line with replaced tokens, unless it has become blank. -/
def writtenUnlessBlank (text : Text) : List Text :=
  if text.isBlank then [] else [written text]

/-- A part of a line after the tokens of the component have got their values. -/
inductive Part where
  | plain (text : Text)
  | value (text : Text)
  | pending (source : Text)
  deriving DecidableEq, Repr

namespace Part

/-- The text of a part, where tokens without a value stay as they are. -/
def text : Part → Text
  | plain text => text
  | value text => text
  | pending source => source

/-- The beginning of a token of the attribute. -/
def attributeOpening : Text := Token.opening ++ Namespace.attr.word ++ Token.separator

/-- Whether the part is a token of the attribute, or a value in which one begins. -/
def needsAttribute : Part → Bool
  | plain _ => false
  | value text => Text.has attributeOpening text
  | pending _ => true

end Part

/-- The parts of a line with the values of the tokens of the component. -/
def parts (methods : MethodRegistry) (context : Context) :
    List Segment → Except EvalError (List Part)
  | [] => .ok []
  | .plain text :: rest => do return .plain text :: (← parts methods context rest)
  | .token source token :: rest =>
      match token.scope with
      | .attr => do return .pending source :: (← parts methods context rest)
      | .comp => do
          let value ← methods.invoke token context
          return .value value :: (← parts methods context rest)

/-- A line with the values of the tokens of the attribute; other tokens stay. -/
def attributeLine (methods : MethodRegistry) (context : Context) :
    List Segment → Except EvalError Text
  | [] => .ok []
  | .plain text :: rest => do return text ++ (← attributeLine methods context rest)
  | .token source token :: rest =>
      match token.scope with
      | .comp => do return source ++ (← attributeLine methods context rest)
      | .attr => do
          let value ← methods.invoke token context
          return value ++ (← attributeLine methods context rest)

/-- A line for each of the attributes. -/
def attributeLines (methods : MethodRegistry) (context : Context) (line : List Segment) :
    List ViewAttribute → Except EvalError (List Text)
  | [] => .ok []
  | a :: rest => do
      let text ← attributeLine methods (context.withAttribute a) line
      return writtenUnlessBlank text ++ (← attributeLines methods context line rest)

/-- What a line of a block becomes for a component. -/
def expandLine (methods : MethodRegistry) (context : Context) (line : List Segment) :
    Except Cause (List Text) :=
  if (Segment.tokens line).isEmpty then .ok [written (line.flatMap Segment.source)]
  else do
    let parts ← (parts methods context line).mapError .eval
    let text := parts.flatMap Part.text
    if parts.any Part.needsAttribute then
      -- This reads the values of the component too, which are now part of the line.
      let line ← (Token.scan text).mapError .token
      (attributeLines methods context line context.component.attributes).mapError .eval
    else return writtenUnlessBlank text

/-! ## Blocks -/

/-- A line of a block with its tokens. -/
structure ScannedLine where
  line : SourceLine
  segments : List Segment

/-- Reads the tokens of the lines of a block. -/
def scanLines (template : Text) : List SourceLine → Except Error (List ScannedLine)
  | [] => .ok []
  | line :: rest =>
      match Token.scan line.text with
      | .error cause => .error (errorAt template line (.token cause))
      | .ok segments => (scanLines template rest).map (⟨line, segments⟩ :: ·)

/-- What the lines of a block become for a component. -/
def expandLines (template : Text) (methods : MethodRegistry) (context : Context) :
    List ScannedLine → Except Error (List Text)
  | [] => .ok []
  | scanned :: rest =>
      match expandLine methods context scanned.segments with
      | .error cause => .error (errorAt template scanned.line cause)
      | .ok texts => (expandLines template methods context rest).map (texts ++ ·)

/-- What the lines of a block become for components of a view. -/
def expandComponents (template : Text) (engine : Engine) (view : View)
    (lines : List ScannedLine) : List ViewComponent → Except Error (List Text)
  | [] => .ok []
  | component :: rest => do
      let context : Context := { types := engine.types, view, component }
      let texts ← expandLines template engine.methods context lines
      return texts ++ (← expandComponents template engine view lines rest)

/-- What a block becomes. -/
def expandBlock (template : Text) (engine : Engine) (spec : Spec) (block : Block) :
    Except Error (List Text) := do
  let lines ← scanLines template block.lines
  let view := spec.view block.predicate
  expandComponents template engine view lines view.components

/-! ## Templates -/

/-- The texts written so far, and the block that is open. -/
structure State where
  output : List Text
  block? : Option Block

/-- Takes a line of a template. -/
def step (template : Text) (engine : Engine) (spec : Spec) (state : State) (line : SourceLine) :
    Except Error State :=
  match Marker.of line.text, state.block? with
  | .opens _, some _ => .error (errorAt template line .nestedBlock)
  | .opens words, none =>
      match predicate spec line.text.trim words with
      | .error cause => .error (errorAt template line cause)
      | .ok predicate => .ok { state with block? := some ⟨line, predicate, []⟩ }
  | .closes _, none => .error (errorAt template line .unmatchedEnd)
  | .closes words, some block =>
      if !words.isEmpty then
        .error (errorAt template line (.marker line.text.trim .endWithArguments))
      else
        (expandBlock template engine spec block).map fun texts =>
          { output := state.output ++ texts, block? := none }
  | .text, some block =>
      .ok { state with block? := some { block with lines := block.lines ++ [line] } }
  | .text, none => .ok { state with output := state.output ++ [written line.text] }

/-! What a line does is settled by its marker and by whether a block is open. -/

section step

variable {template : Text} {engine : Engine} {spec : Spec} {line : SourceLine} {words : Text}

theorem step_text_outside (hmarker : Marker.of line.text = .text) (output : List Text) :
    step template engine spec ⟨output, none⟩ line = .ok ⟨output ++ [written line.text], none⟩ := by
  unfold step
  rw [hmarker]

theorem step_text_inside (hmarker : Marker.of line.text = .text) (output : List Text)
    (block : Block) :
    step template engine spec ⟨output, some block⟩ line =
      .ok ⟨output, some { block with lines := block.lines ++ [line] }⟩ := by
  unfold step
  rw [hmarker]

theorem step_opens_outside (hmarker : Marker.of line.text = .opens words) (output : List Text) :
    step template engine spec ⟨output, none⟩ line =
      match predicate spec line.text.trim words with
      | .error cause => .error (errorAt template line cause)
      | .ok flags => .ok ⟨output, some ⟨line, flags, []⟩⟩ := by
  unfold step
  rw [hmarker]

theorem step_opens_inside (hmarker : Marker.of line.text = .opens words) (output : List Text)
    (block : Block) :
    step template engine spec ⟨output, some block⟩ line =
      .error (errorAt template line .nestedBlock) := by
  unfold step
  rw [hmarker]

theorem step_closes_outside (hmarker : Marker.of line.text = .closes words)
    (output : List Text) :
    step template engine spec ⟨output, none⟩ line =
      .error (errorAt template line .unmatchedEnd) := by
  unfold step
  rw [hmarker]

theorem step_closes_inside (hmarker : Marker.of line.text = .closes []) (output : List Text)
    (block : Block) :
    step template engine spec ⟨output, some block⟩ line =
      (expandBlock template engine spec block).map fun texts => ⟨output ++ texts, none⟩ := by
  unfold step
  rw [hmarker]
  rfl

theorem step_closes_arguments (hmarker : Marker.of line.text = .closes words)
    (hwords : words ≠ []) (output : List Text) (block : Block) :
    step template engine spec ⟨output, some block⟩ line =
      .error (errorAt template line (.marker line.text.trim .endWithArguments)) := by
  obtain ⟨c, rest, rfl⟩ := List.exists_cons_of_ne_nil hwords
  unfold step
  rw [hmarker]
  rfl

end step

/-- The text of a template whose lines have all been taken. -/
def finish (template : Text) (state : State) : Except Error Text :=
  match state.block? with
  | some block => .error (errorAt template block.begin .unterminatedBlock)
  | none => .ok state.output.flatten

end Template

namespace Engine

/-- The name of templates without a name. -/
def defaultTemplateName : Text := "<template>"

/-- Expands a template.  Its name occurs in errors only. -/
def expand (engine : Engine) (template source : Text) (spec : Spec) :
    Except Template.Error Text := do
  let state ← (Template.sourceLines source).foldlM (Template.step template engine spec) ⟨[], none⟩
  Template.finish template state

end Engine
end Stencil
