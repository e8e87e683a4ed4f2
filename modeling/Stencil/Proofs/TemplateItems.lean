import Mathlib.Data.List.TakeWhile
import Stencil.Proofs.LineEvaluation
import Stencil.Proofs.TokenScan

namespace Stencil
namespace Template

/-!
# Templates as lists of items

Expansion takes the lines of a template one after the other and keeps what it
has written and the block that is open.  This module gives a second reading of
the same templates in two phases.  `items?` groups the lines first: a line
outside blocks is an item, and so is a block with its predicate and its lines.
`Item.output` then says what each item becomes, from the values of the tokens
that `Item.calls` lists.

`expand_eq_ok_iff_items` shows that the two readings agree.  On templates whose
lines can be grouped and scanned, expansion succeeds exactly if all the calls
do, and writes the outputs of the items in order; on all others it fails.
-/

/-! ## Grouping the lines -/

/-- Whether a line is text and no marker. -/
def SourceLine.isText (line : SourceLine) : Bool := Marker.of line.text = .text

/-- A line outside blocks, or a block with its predicate and its lines. -/
inductive Item where
  | text (line : SourceLine)
  | block (predicate : Flags) (lines : List SourceLine)

/-- The items that lines make up.  A block has a predicate of the spec and takes the text lines
up to the next marker, which has to close it and has no arguments. -/
def items? (spec : Spec) : List SourceLine → Option (List Item)
  | [] => some []
  | line :: rest =>
      match Marker.of line.text with
      | .text => (items? spec rest).map (.text line :: ·)
      | .closes _ => none
      | .opens words =>
          match predicate spec line.text.trim words with
          | .error _ => none
          | .ok flags =>
              match _hrest : rest.dropWhile SourceLine.isText with
              | [] => none
              | stop :: after =>
                  if Marker.of stop.text = .closes [] then
                    (items? spec after).map (.block flags (rest.takeWhile SourceLine.isText) :: ·)
                  else none
termination_by lines => lines.length
decreasing_by
  · simp
  · have hshorter := (List.dropWhile_sublist SourceLine.isText (l := rest)).length_le
    rw [_hrest] at hshorter
    simp only [List.length_cons] at hshorter ⊢
    omega

/-- A line that opens a block makes up an item with the text lines after it and the line that
closes it. -/
theorem items?_of_block {spec : Spec} {line stop : SourceLine} {rest after : List SourceLine}
    {words : Text} {flags : Flags} (hopens : Marker.of line.text = .opens words)
    (hflags : predicate spec line.text.trim words = .ok flags)
    (hrest : rest.dropWhile SourceLine.isText = stop :: after)
    (hcloses : Marker.of stop.text = .closes []) :
    items? spec (line :: rest) =
      (items? spec after).map (.block flags (rest.takeWhile SourceLine.isText) :: ·) := by
  rw [items?, hopens]
  simp only [hflags]
  split
  · rename_i hnone
    rw [hrest] at hnone
    cases hnone
  · rename_i hsome
    rw [hrest] at hsome
    obtain ⟨rfl, rfl⟩ := List.cons.inj hsome
    rw [if_pos hcloses]

/-! ## What items become -/

namespace SourceLine

/-- Whether the scanner accepts a line. -/
def Scans (line : SourceLine) : Prop := ∃ segments, Token.scan line.text = .ok segments

/-- The parts of a line; a line that does not scan is given none. -/
def segments (line : SourceLine) : List Segment :=
  match Token.scan line.text with
  | .ok segments => segments
  | .error _ => []

/-- The tokens of a line. -/
def tokens (line : SourceLine) : List Token := Segment.tokens line.segments

theorem scan_eq_ok_iff {line : SourceLine} {found : List Segment} :
    Token.scan line.text = .ok found ↔ line.Scans ∧ found = line.segments := by
  unfold Scans segments
  cases Token.scan line.text with
  | error cause => simp
  | ok parts => simp [eq_comm]

end SourceLine

/-- A token and what it is evaluated in. -/
structure Call where
  token : Token
  context : Context

namespace SourceLine

/-- The calls of a line for a component: each of its tokens once, and each token of the attribute
once for every attribute. -/
def calls (context : Context) (line : SourceLine) : List Call :=
  line.tokens.flatMap fun token =>
    match token.scope with
    | .comp => [⟨token, context⟩]
    | .attr => context.component.attributes.map fun a => ⟨token, context.withAttribute a⟩

/-- The line with the values of all its tokens. -/
def substituted (methods : MethodRegistry) (context : Context) (line : SourceLine) : Text :=
  line.segments.flatMap (Segment.textBy fun _ => methods.value context)

/-- What a line becomes for a component: itself if it has no tokens, and else the line with the
values, once for the component or once for every attribute. -/
def output (methods : MethodRegistry) (context : Context) (line : SourceLine) : List Text :=
  match line.tokens with
  | [] => [written line.text]
  | token :: _ =>
      match token.scope with
      | .comp => writtenUnlessBlank (line.substituted methods context)
      | .attr => context.component.attributes.flatMap fun a =>
          writtenUnlessBlank (line.substituted methods (context.withAttribute a))

/-- The tokens of a line are all the component's or all the attribute's, and no token of an
attribute begins in a value of the component. -/
structure IsPlain (methods : MethodRegistry) (context : Context) (line : SourceLine) : Prop where
  exists_scope : ∃ scope, ∀ token ∈ line.tokens, token.scope = scope
  not_opening : ∀ token ∈ line.tokens, token.scope = .comp →
    Text.has Part.attributeOpening (methods.value context token) = false

end SourceLine

/-- What the tokens of a block are evaluated in, for its components in order. -/
def contexts (engine : Engine) (spec : Spec) (predicate : Flags) : List Context :=
  (spec.view predicate).components.map fun component =>
    { types := engine.types, view := spec.view predicate, component }

namespace Item

/-- The lines that are scanned for tokens. -/
def blockLines : Item → List SourceLine
  | text _ => []
  | block _ lines => lines

/-- The calls of an item. -/
def calls (engine : Engine) (spec : Spec) : Item → List Call
  | text _ => []
  | block predicate lines => (contexts engine spec predicate).flatMap fun context =>
      lines.flatMap (SourceLine.calls context)

/-- What an item becomes. -/
def output (engine : Engine) (spec : Spec) : Item → List Text
  | text line => [written line.text]
  | block predicate lines => (contexts engine spec predicate).flatMap fun context =>
      lines.flatMap (SourceLine.output engine.methods context)

/-- Every line of the item is plain for every component. -/
def IsPlain (engine : Engine) (spec : Spec) : Item → Prop
  | text _ => True
  | block predicate lines => ∀ context ∈ contexts engine spec predicate, ∀ line ∈ lines,
      SourceLine.IsPlain engine.methods context line

end Item

/-! ## Lines of a block -/

variable {methods : MethodRegistry} {context : Context}

/-- A statement about the calls of a line is one about its tokens. -/
theorem SourceLine.forall_mem_calls_iff {line : SourceLine} {p : Call → Prop} :
    (∀ call ∈ line.calls context, p call) ↔
      ∀ token ∈ line.tokens, (token.scope = .comp → p ⟨token, context⟩) ∧
        (token.scope = .attr →
          ∀ a ∈ context.component.attributes, p ⟨token, context.withAttribute a⟩) := by
  simp only [calls, List.forall_mem_flatMap]
  refine forall₂_congr fun token _ => ?_
  cases token.scope with
  | comp => simp
  | attr => simp

/-- A plain line becomes its output exactly if its calls succeed. -/
theorem expandLine_eq_ok_iff_of_isPlain {line : SourceLine} (hscans : line.Scans)
    (hplain : line.IsPlain methods context) {out : List Text} :
    expandLine methods context line.segments = .ok out ↔
      (∀ call ∈ line.calls context, methods.Evaluates call.context call.token) ∧
        out = line.output methods context := by
  have hscan : Token.scan line.text = .ok line.segments :=
    SourceLine.scan_eq_ok_iff.2 ⟨hscans, rfl⟩
  have hsource := Token.flatMap_source_of_scan hscan
  obtain ⟨scope, hscope⟩ := hplain.exists_scope
  rw [SourceLine.forall_mem_calls_iff]
  cases htokens : line.tokens with
  | nil =>
      rw [expandLine_of_plain htokens, hsource]
      simp [SourceLine.output, htokens, eq_comm]
  | cons first rest =>
      have hfirst : first ∈ line.tokens := by simp [htokens]
      have hne : Segment.tokens line.segments ≠ [] := List.ne_nil_of_mem hfirst
      rw [← htokens]
      cases scope with
      | comp =>
          -- Every token is the component's, so all of them are put in place in the first pass.
          have hout : line.output methods context =
              writtenUnlessBlank (spliced (methods.value context) line.segments) := by
            unfold SourceLine.output
            simp only [htokens, hscope first hfirst, SourceLine.substituted, spliced]
            refine congrArg _ (Segment.flatMap_textBy_congr fun token hmem source => ?_)
            exact (if_pos (hscope token hmem)).symm
          rw [expandLine_eq_ok_iff_of_comp hne hscope fun token hmem =>
            hplain.not_opening token hmem (hscope token hmem), hout]
          refine and_congr_left fun _ => forall₂_congr fun token hmem => ?_
          simp [hscope token hmem]
      | attr =>
          -- The first pass has nothing to put in place, so the second scan finds the line again.
          have hspliced : spliced (methods.value context) line.segments = line.text := by
            rw [← hsource]
            exact flatMap_scopedValues_of_ne (fun token hmem => by simp [hscope token hmem]) _
          have hout : line.output methods context =
              context.component.attributes.flatMap fun a => writtenUnlessBlank
                (line.segments.flatMap (Segment.textBy
                  (scopedValues .attr (methods.value (context.withAttribute a))))) := by
            unfold SourceLine.output
            simp only [htokens, hscope first hfirst, SourceLine.substituted]
            congr 1
            funext a
            refine congrArg _ (Segment.flatMap_textBy_congr fun token hmem source => ?_)
            exact (if_pos (hscope token hmem)).symm
          rw [expandLine_eq_ok_iff_of_attr ⟨first, hfirst, hscope first hfirst⟩, hspliced, hout]
          simp only [SourceLine.scan_eq_ok_iff, attributeLines_eq_ok_iff]
          constructor
          · rintro ⟨-, again, ⟨-, rfl⟩, hall, hout⟩
            refine ⟨fun token hmem => ⟨fun hcomp => ?_, fun hattr a ha => ?_⟩, hout⟩
            · rw [hscope token hmem] at hcomp
              cases hcomp
            · exact hall a ha token hmem hattr
          · rintro ⟨hall, hout⟩
            refine ⟨fun token hmem => (hall token hmem).1, _, ⟨hscans, rfl⟩, ?_, hout⟩
            exact fun a ha token hmem hattr => (hall token hmem).2 hattr a ha

/-! ## Blocks -/

/-- A line with its parts. -/
def SourceLine.scanned (line : SourceLine) : ScannedLine := ⟨line, line.segments⟩

theorem scanLines_eq_ok_iff {template : Text} {lines : List SourceLine}
    {found : List ScannedLine} :
    scanLines template lines = .ok found ↔
      (∀ line ∈ lines, line.Scans) ∧ found = lines.map SourceLine.scanned := by
  induction lines generalizing found with
  | nil => simp [scanLines, eq_comm]
  | cons line rest ih =>
      unfold scanLines
      cases hscan : Token.scan line.text with
      | error cause => simp [SourceLine.Scans, hscan]
      | ok segments =>
          obtain ⟨hscans, rfl⟩ := SourceLine.scan_eq_ok_iff.1 hscan
          simp only [Outcome.map_eq_ok_iff, ih, List.forall_mem_cons, List.map_cons]
          constructor
          · rintro ⟨others, ⟨hall, rfl⟩, rfl⟩
            exact ⟨⟨hscans, hall⟩, rfl⟩
          · rintro ⟨⟨-, hall⟩, rfl⟩
            exact ⟨_, ⟨hall, rfl⟩, rfl⟩

/-- Plain lines become their outputs exactly if their calls succeed. -/
theorem expandLines_eq_ok_iff {template : Text} {lines : List SourceLine}
    (hscans : ∀ line ∈ lines, line.Scans)
    (hplain : ∀ line ∈ lines, line.IsPlain methods context) {out : List Text} :
    expandLines template methods context (lines.map SourceLine.scanned) = .ok out ↔
      (∀ call ∈ lines.flatMap (SourceLine.calls context),
        methods.Evaluates call.context call.token) ∧
        out = lines.flatMap (SourceLine.output methods context) := by
  induction lines generalizing out with
  | nil => simp [expandLines, eq_comm]
  | cons line rest ih =>
      rw [List.forall_mem_cons] at hscans hplain
      have hline := @expandLine_eq_ok_iff_of_isPlain _ _ _ hscans.1 hplain.1
      have hrest := @ih hscans.2 hplain.2
      simp only [List.map_cons, expandLines, SourceLine.scanned, List.flatMap_cons,
        List.forall_mem_append]
      cases hfound : expandLine methods context line.segments with
      | error cause =>
          -- If all the calls of the line succeeded, the line would not have failed.
          simp only [reduceCtorEq, false_iff]
          rintro ⟨⟨hcalls, -⟩, -⟩
          have hok := hline.2 ⟨hcalls, rfl⟩
          rw [hfound] at hok
          cases hok
      | ok texts =>
          obtain ⟨hcalls, rfl⟩ := hline.1 hfound
          simp only [Outcome.map_eq_ok_iff, hrest]
          constructor
          · rintro ⟨others, ⟨hall, rfl⟩, rfl⟩
            exact ⟨⟨hcalls, hall⟩, rfl⟩
          · rintro ⟨⟨-, hall⟩, rfl⟩
            exact ⟨_, ⟨hall, rfl⟩, rfl⟩

/-- The components of a view are expanded in order. -/
theorem expandComponents_eq_ok_iff {template : Text} {engine : Engine} {view : View}
    {lines : List SourceLine} (hscans : ∀ line ∈ lines, line.Scans)
    {components : List ViewComponent}
    (hplain : ∀ component ∈ components, ∀ line ∈ lines,
      line.IsPlain engine.methods { types := engine.types, view, component }) {out : List Text} :
    expandComponents template engine view (lines.map SourceLine.scanned) components = .ok out ↔
      (∀ component ∈ components,
        ∀ call ∈ lines.flatMap (SourceLine.calls { types := engine.types, view, component }),
          engine.methods.Evaluates call.context call.token) ∧
        out = components.flatMap fun component => lines.flatMap
          (SourceLine.output engine.methods { types := engine.types, view, component }) := by
  induction components generalizing out with
  | nil => simp [expandComponents, eq_comm]
  | cons component rest ih =>
      rw [List.forall_mem_cons] at hplain
      simp only [expandComponents, Outcome.bind_eq_ok_iff, expandLines_eq_ok_iff hscans hplain.1,
        ih hplain.2, List.forall_mem_cons, List.flatMap_cons, pure, Except.pure,
        Except.ok.injEq]
      constructor
      · rintro ⟨texts, ⟨hcalls, rfl⟩, others, ⟨hall, rfl⟩, rfl⟩
        exact ⟨⟨hcalls, hall⟩, rfl⟩
      · rintro ⟨⟨hcalls, hall⟩, rfl⟩
        exact ⟨_, ⟨hcalls, rfl⟩, _, ⟨hall, rfl⟩, rfl⟩

/-- A block is expanded only if its lines scan. -/
theorem scans_of_expandBlock {template : Text} {engine : Engine} {spec : Spec} {block : Block}
    {out : List Text} (hexpand : expandBlock template engine spec block = .ok out) :
    ∀ line ∈ block.lines, line.Scans := by
  unfold expandBlock at hexpand
  obtain ⟨found, hfound, -⟩ := Outcome.bind_eq_ok_iff.1 hexpand
  exact (scanLines_eq_ok_iff.1 hfound).1

/-- A block of plain lines becomes the output of its item exactly if the calls succeed. -/
theorem expandBlock_eq_ok_iff {template : Text} {engine : Engine} {spec : Spec} {block : Block}
    (hscans : ∀ line ∈ block.lines, line.Scans)
    (hplain : (Item.block block.predicate block.lines).IsPlain engine spec) {out : List Text} :
    expandBlock template engine spec block = .ok out ↔
      (∀ call ∈ (Item.block block.predicate block.lines).calls engine spec,
        engine.methods.Evaluates call.context call.token) ∧
        out = (Item.block block.predicate block.lines).output engine spec := by
  have hcomponents : ∀ component ∈ (spec.view block.predicate).components,
      ∀ line ∈ block.lines, line.IsPlain engine.methods
        { types := engine.types, view := spec.view block.predicate, component } :=
    fun component hmem => hplain _ (List.mem_map_of_mem hmem)
  have hblock : expandBlock template engine spec block =
      expandComponents template engine (spec.view block.predicate)
        (block.lines.map SourceLine.scanned) (spec.view block.predicate).components := by
    unfold expandBlock
    rw [scanLines_eq_ok_iff.2 ⟨hscans, rfl⟩]
    rfl
  rw [hblock, expandComponents_eq_ok_iff hscans hcomponents]
  simp only [Item.calls, Item.output, contexts, List.flatMap_map, List.forall_mem_flatMap]

/-! ## Whole templates -/

variable {template : Text} {engine : Engine} {spec : Spec}

/-- The lines of a block that is open are kept. -/
theorem foldlM_step_of_text {lines : List SourceLine}
    (htext : ∀ line ∈ lines, Marker.of line.text = .text) (output : List Text) (block : Block) :
    lines.foldlM (step template engine spec) ⟨output, some block⟩ =
      .ok ⟨output, some { block with lines := block.lines ++ lines }⟩ := by
  induction lines generalizing block with
  | nil => simp [pure, Except.pure]
  | cons line rest ih =>
      rw [List.forall_mem_cons] at htext
      rw [List.foldlM_cons, step_text_inside htext.1]
      show rest.foldlM (step template engine spec) _ = _
      rw [ih htext.2]
      simp

/-- Whether a block of lines that ends the text lines of a template is closed. -/
theorem mem_takeWhile_isText {lines : List SourceLine} :
    ∀ line ∈ lines.takeWhile SourceLine.isText, Marker.of line.text = .text := by
  intro line hmem
  have htext := List.mem_takeWhile_imp hmem
  simpa [SourceLine.isText] using htext

/-- The line after the text lines is a marker. -/
theorem not_text_of_dropWhile {rest after : List SourceLine} {stop : SourceLine}
    (hrest : rest.dropWhile SourceLine.isText = stop :: after) :
    Marker.of stop.text ≠ .text := by
  have hhead := List.head?_dropWhile_not SourceLine.isText rest
  rw [hrest] at hhead
  simpa [SourceLine.isText] using hhead

/-- A line that opens a block starts to collect the text lines after it. -/
theorem foldlM_step_of_opens {line : SourceLine} {rest : List SourceLine} {words : Text}
    {flags : Flags} (hopens : Marker.of line.text = .opens words)
    (hflags : predicate spec line.text.trim words = .ok flags) (output : List Text) :
    (line :: rest).foldlM (step template engine spec) ⟨output, none⟩ =
      (rest.dropWhile SourceLine.isText).foldlM (step template engine spec)
        ⟨output, some ⟨line, flags, rest.takeWhile SourceLine.isText⟩⟩ := by
  have hstep : step template engine spec ⟨output, none⟩ line =
      .ok ⟨output, some ⟨line, flags, []⟩⟩ := by
    rw [step_opens_outside hopens, hflags]
  rw [List.foldlM_cons, hstep]
  show rest.foldlM (step template engine spec) _ = _
  -- The text lines are collected one by one, up to the next marker.
  have hrun : (rest.takeWhile SourceLine.isText ++ rest.dropWhile SourceLine.isText).foldlM
      (step template engine spec) ⟨output, some ⟨line, flags, []⟩⟩ =
        (rest.dropWhile SourceLine.isText).foldlM (step template engine spec)
          ⟨output, some ⟨line, flags, rest.takeWhile SourceLine.isText⟩⟩ := by
    rw [List.foldlM_append, foldlM_step_of_text mem_takeWhile_isText]
    rfl
  rwa [List.takeWhile_append_dropWhile] at hrun

/-- A block that is closed is expanded, and what it becomes is written. -/
theorem foldlM_step_of_block {line stop : SourceLine} {rest after : List SourceLine} {words : Text}
    {flags : Flags} (hopens : Marker.of line.text = .opens words)
    (hflags : predicate spec line.text.trim words = .ok flags)
    (hrest : rest.dropWhile SourceLine.isText = stop :: after)
    (hcloses : Marker.of stop.text = .closes []) (output : List Text) :
    (line :: rest).foldlM (step template engine spec) ⟨output, none⟩ = (do
      let texts ← expandBlock template engine spec
        ⟨line, flags, rest.takeWhile SourceLine.isText⟩
      after.foldlM (step template engine spec) ⟨output ++ texts, none⟩) := by
  rw [foldlM_step_of_opens hopens hflags, hrest, List.foldlM_cons, step_closes_inside hcloses]
  cases expandBlock template engine spec ⟨line, flags, rest.takeWhile SourceLine.isText⟩ with
  | error cause => rfl
  | ok texts => rfl

/-- A text line outside blocks is written. -/
theorem foldlM_step_of_isText {line : SourceLine} (htext : Marker.of line.text = .text)
    (rest : List SourceLine) (output : List Text) :
    (line :: rest).foldlM (step template engine spec) ⟨output, none⟩ =
      rest.foldlM (step template engine spec) ⟨output ++ [written line.text], none⟩ := by
  rw [List.foldlM_cons, step_text_outside htext]
  rfl

/-- On lines that make up items whose lines scan, the machine writes the outputs of the items
exactly if their calls succeed. -/
theorem foldlM_step_eq_ok_iff {lines : List SourceLine} {items : List Item}
    (hitems : items? spec lines = some items)
    (hscans : ∀ item ∈ items, ∀ line ∈ item.blockLines, line.Scans)
    (hplain : ∀ item ∈ items, item.IsPlain engine spec) {output : List Text} {final : State} :
    lines.foldlM (step template engine spec) ⟨output, none⟩ = .ok final ↔
      (∀ item ∈ items, ∀ call ∈ item.calls engine spec,
        engine.methods.Evaluates call.context call.token) ∧
        final = ⟨output ++ items.flatMap (Item.output engine spec), none⟩ := by
  fun_induction items? spec lines generalizing items output with
  | case1 =>
      obtain rfl := Option.some.inj hitems
      simp [pure, Except.pure, eq_comm]
  | case2 line rest htext ih =>
      obtain ⟨others, hothers, rfl⟩ := Option.map_eq_some_iff.1 hitems
      rw [List.forall_mem_cons] at hscans hplain
      rw [foldlM_step_of_isText htext, ih hothers hscans.2 hplain.2]
      simp [Item.calls, Item.output]
  | case3 line rest words hcloses => cases hitems
  | case4 line rest words hopens cause hflags => cases hitems
  | case5 line rest words hopens flags hflags hrest => cases hitems
  | case6 line rest words hopens flags hflags stop after hrest hcloses ih =>
      obtain ⟨others, hothers, rfl⟩ := Option.map_eq_some_iff.1 hitems
      rw [List.forall_mem_cons] at hscans hplain
      have hblock := fun texts => @expandBlock_eq_ok_iff template engine spec
        ⟨line, flags, rest.takeWhile SourceLine.isText⟩ hscans.1 hplain.1 texts
      rw [foldlM_step_of_block hopens hflags hrest hcloses, Outcome.bind_eq_ok_iff]
      simp only [hblock, ih hothers hscans.2 hplain.2, List.forall_mem_cons, List.flatMap_cons,
        ← List.append_assoc]
      constructor
      · rintro ⟨texts, ⟨hcalls, rfl⟩, hall, rfl⟩
        exact ⟨⟨hcalls, hall⟩, rfl⟩
      · rintro ⟨⟨hcalls, hall⟩, rfl⟩
        exact ⟨_, ⟨hcalls, rfl⟩, hall, rfl⟩
  | case7 line rest words hopens flags hflags stop after hrest hcloses => cases hitems

/-- If the machine ends outside blocks, the lines make up items whose lines scan. -/
theorem exists_items_of_foldlM {lines : List SourceLine} {output : List Text} {final : State}
    (hrun : lines.foldlM (step template engine spec) ⟨output, none⟩ = .ok final)
    (hfinal : final.block? = none) :
    ∃ items, items? spec lines = some items ∧
      ∀ item ∈ items, ∀ line ∈ item.blockLines, line.Scans := by
  fun_induction items? spec lines generalizing output with
  | case1 => exact ⟨[], rfl, by simp⟩
  | case2 line rest htext ih =>
      rw [foldlM_step_of_isText htext] at hrun
      obtain ⟨others, hothers, hscans⟩ := ih hrun
      refine ⟨.text line :: others, by rw [hothers]; rfl, ?_⟩
      exact List.forall_mem_cons.2 ⟨by simp [Item.blockLines], hscans⟩
  | case3 line rest words hcloses =>
      -- No block is open that the line could close.
      rw [List.foldlM_cons, step_closes_outside hcloses] at hrun
      cases hrun
  | case4 line rest words hopens cause hflags =>
      -- The block has no predicate of the spec.
      rw [List.foldlM_cons, step_opens_outside hopens, hflags] at hrun
      cases hrun
  | case5 line rest words hopens flags hflags hrest =>
      -- No marker follows, and the block stays open.
      rw [foldlM_step_of_opens hopens hflags, hrest] at hrun
      obtain rfl := Except.ok.inj hrun
      cases hfinal
  | case6 line rest words hopens flags hflags stop after hrest hcloses ih =>
      rw [foldlM_step_of_block hopens hflags hrest hcloses, Outcome.bind_eq_ok_iff] at hrun
      obtain ⟨texts, hexpand, hafter⟩ := hrun
      obtain ⟨others, hothers, hscans⟩ := ih hafter
      refine ⟨.block flags (rest.takeWhile SourceLine.isText) :: others, by rw [hothers]; rfl, ?_⟩
      exact List.forall_mem_cons.2 ⟨scans_of_expandBlock hexpand, hscans⟩
  | case7 line rest words hopens flags hflags stop after hrest hcloses =>
      -- The next marker opens a block in the block or has arguments.
      rw [foldlM_step_of_opens hopens hflags, hrest, List.foldlM_cons] at hrun
      obtain ⟨state, hstep, -⟩ := Outcome.bind_eq_ok_iff.1 hrun
      cases hmarker : Marker.of stop.text with
      | text => exact absurd hmarker (not_text_of_dropWhile hrest)
      | opens inner =>
          rw [step_opens_inside hmarker] at hstep
          cases hstep
      | closes extra =>
          have hextra : extra ≠ [] := fun hnone => hcloses (hnone ▸ hmarker)
          rw [step_closes_arguments hmarker hextra] at hstep
          cases hstep

/-! ## Expansion -/

/-- Expansion agrees with the reading of a template as items.  If the lines of the template make
up items and those of its blocks scan and are plain, it succeeds exactly if all calls of the items
do, and then gives their outputs in order.  If they do not, it fails. -/
theorem expand_eq_ok_iff_items (engine : Engine) (template source : Text) (spec : Spec) :
    (∀ items, items? spec (sourceLines source) = some items →
      (∀ item ∈ items, ∀ line ∈ item.blockLines, line.Scans) →
      (∀ item ∈ items, item.IsPlain engine spec) →
      ∀ out, engine.expand template source spec = .ok out ↔
        (∀ item ∈ items, ∀ call ∈ item.calls engine spec,
          engine.methods.Evaluates call.context call.token) ∧
          out = (items.flatMap (Item.output engine spec)).flatten) ∧
    ((¬∃ items, items? spec (sourceLines source) = some items ∧
        ∀ item ∈ items, ∀ line ∈ item.blockLines, line.Scans) →
      ∃ cause, engine.expand template source spec = .error cause) := by
  constructor
  · intro items hitems hscans hplain out
    unfold Engine.expand
    simp only [Outcome.bind_eq_ok_iff, foldlM_step_eq_ok_iff hitems hscans hplain]
    constructor
    · rintro ⟨final, ⟨hcalls, rfl⟩, hfinish⟩
      exact ⟨hcalls, (Except.ok.inj hfinish).symm⟩
    · rintro ⟨hcalls, rfl⟩
      exact ⟨_, ⟨hcalls, rfl⟩, rfl⟩
  · intro hnone
    cases hexpand : engine.expand template source spec with
    | error cause => exact ⟨cause, rfl⟩
    | ok out =>
        unfold Engine.expand at hexpand
        obtain ⟨final, hrun, hfinish⟩ := Outcome.bind_eq_ok_iff.1 hexpand
        have hfinal : final.block? = none := by
          unfold finish at hfinish
          split at hfinish
          · cases hfinish
          · assumption
        exact absurd (exists_items_of_foldlM hrun hfinal) hnone

/-- A template of one block with one line. -/
def greeting : Text :=
  "DATAMATIC_BEGIN\n\x7b\x7bComp::name\x7d\x7d!\nDATAMATIC_END\n"

/-- The line of the block. -/
def greetingLine : SourceLine := ⟨2, 16, "\x7b\x7bComp::name\x7d\x7d!"⟩

/-- A spec with one component of this name. -/
def oneComponentSpec (name : Text) : Spec :=
  { flagDefaults := []
    components := [{ name, displayName := name, attributes := [], flags := [] }] }

theorem items?_greeting (name : Text) :
    items? (oneComponentSpec name) (sourceLines greeting) =
      some [.block [] [greetingLine]] := by
  have hlines : sourceLines greeting =
      [⟨1, 0, "DATAMATIC_BEGIN"⟩, greetingLine, ⟨3, 32, "DATAMATIC_END"⟩] := by
    decide +kernel
  have hopens : Marker.of (String.toList "DATAMATIC_BEGIN") = .opens [] := by decide
  have hrest : [greetingLine, ⟨3, 32, "DATAMATIC_END"⟩].dropWhile SourceLine.isText =
      [⟨3, 32, "DATAMATIC_END"⟩] := by
    decide +kernel
  have hbody : [greetingLine, ⟨3, 32, "DATAMATIC_END"⟩].takeWhile SourceLine.isText =
      [greetingLine] := by
    decide +kernel
  have hcloses : Marker.of (String.toList "DATAMATIC_END") = .closes [] := by decide
  rw [hlines, items?_of_block hopens rfl hrest hcloses, hbody, items?]
  rfl

/-- The block is written for the one component. -/
theorem expand_greeting :
    Engine.empty.expand [] greeting (oneComponentSpec "P") = .ok ['P', '!', '\n'] := by
  have hscan : Token.scan greetingLine.text = .ok [.plain [],
      .token "\x7b\x7bComp::name\x7d\x7d" ⟨.comp, "name", []⟩, .plain "!"] := by
    refine Token.scan_of_scans (@Token.Scans.token _ [] "Comp::name\x7d\x7d!" "Comp::name" "!"
      _ _ ?_ ?_ ?_ rfl ?_)
    · decide
    · decide
    · decide
    · exact .plain (by decide)
  obtain ⟨hscans, hsegments⟩ := SourceLine.scan_eq_ok_iff.1 hscan
  have htokens : greetingLine.tokens = [⟨.comp, "name", []⟩] := by
    rw [SourceLine.tokens, ← hsegments]
    rfl
  have hinvoke : ∀ context, Engine.empty.methods.invoke ⟨.comp, "name", []⟩ context =
      .ok context.component.name := fun _ => rfl
  have hvalue : ∀ context, Engine.empty.methods.value context ⟨.comp, "name", []⟩ =
      context.component.name := fun _ => rfl
  obtain ⟨context, hcontexts, hname⟩ : ∃ context,
      contexts Engine.empty (oneComponentSpec "P") [] = [context] ∧
        context.component.name = ['P'] := ⟨_, rfl, rfl⟩
  refine ((expand_eq_ok_iff_items Engine.empty [] greeting (oneComponentSpec "P")).1 _
    (items?_greeting "P") ?_ ?_ _).2 ⟨?_, ?_⟩
  · simpa [Item.blockLines] using hscans
  · rw [List.forall_mem_singleton, Item.IsPlain, hcontexts, List.forall_mem_singleton,
      List.forall_mem_singleton]
    refine ⟨⟨.comp, by simp [htokens]⟩, fun token htoken _ => ?_⟩
    rw [htokens] at htoken
    rw [List.mem_singleton.1 htoken, hvalue, hname]
    rfl
  · rw [List.forall_mem_singleton, Item.calls, hcontexts, List.flatMap_singleton,
      List.flatMap_singleton, SourceLine.forall_mem_calls_iff, htokens, List.forall_mem_singleton]
    exact ⟨fun _ => ⟨_, hinvoke context⟩, fun hattr => by cases hattr⟩
  · rw [List.flatMap_singleton, Item.output, hcontexts, List.flatMap_singleton,
      List.flatMap_singleton]
    unfold SourceLine.output SourceLine.substituted
    rw [htokens, ← hsegments]
    simp only [List.flatMap_cons, List.flatMap_nil, Segment.textBy, hvalue, hname]
    decide

end Template
end Stencil
