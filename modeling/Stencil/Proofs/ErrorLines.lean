import Stencil.Proofs.ByteSlices
import Stencil.Proofs.SourceLines
import Stencil.Proofs.TemplateItems

namespace Stencil
namespace Template

/-!
# Where expansion stops

An error of expansion names a line by its number and by the bytes of its text.
This module shows that these belong together and to the template, and that the
line is the one that the cause is about.

`Stops` lists the places where the lines from outside blocks on cannot be taken
any further.  `Reached` says what a state of the machine knows about the lines
taken so far; it holds at the start and is kept by every line that is taken
(`Reached.step`), and where a line is not taken, or a block is open at the end,
the machine is at one of the places listed (`stopsAt_of_run`).
-/

/-! ## Lines of blocks -/

variable {methods : MethodRegistry} {context : Context}

/-- A token of the component on the line has no value. -/
theorem exists_of_parts {line : List Segment} {cause : EvalError}
    (h : parts methods context line = .error cause) :
    ∃ token ∈ Segment.tokens line, token.scope = .comp ∧
      methods.invoke token context = .error cause := by
  rw [parts_eq_mapM] at h
  exact Part.exists_of_mapM_evaluated h

/-- A token of the attribute on the line has no value. -/
theorem exists_of_attributeLine {line : List Segment} {cause : EvalError}
    (h : attributeLine methods context line = .error cause) :
    ∃ token ∈ Segment.tokens line, token.scope = .attr ∧
      methods.invoke token context = .error cause := by
  rw [attributeLine_eq_mapM, Outcome.map_eq_error_iff] at h
  exact Part.exists_of_mapM_evaluated h

theorem exists_of_attributeLines {line : List Segment} {attributes : List ViewAttribute}
    {cause : EvalError} (h : attributeLines methods context line attributes = .error cause) :
    ∃ a ∈ attributes, ∃ token ∈ Segment.tokens line, token.scope = .attr ∧
      methods.invoke token (context.withAttribute a) = .error cause := by
  induction attributes with
  | nil => cases h
  | cons a rest ih =>
      simp only [attributeLines, Outcome.bind_eq_error_iff] at h
      rcases h with hhere | ⟨_, -, hrest | ⟨_, -, hpure⟩⟩
      · exact ⟨a, List.mem_cons_self, exists_of_attributeLine hhere⟩
      · obtain ⟨b, hmem, hb⟩ := ih hrest
        exact ⟨b, List.mem_cons_of_mem _ hmem, hb⟩
      · cases hpure

/-- What is wrong with a token on a line of a block, for one of the components that the block is
repeated for.  The text is that of the line, or of the line with the values of the component. -/
inductive TokenFails (methods : MethodRegistry) (contexts : List Context) (text : Text) :
    Cause → Prop where
  /-- The line does not scan. -/
  | malformed {cause : TokenError} (hscan : Token.scan text = .error cause) :
      TokenFails methods contexts text (.token cause)
  /-- A token written on the line has no value. -/
  | written {line : List Segment} {context : Context} {token : Token} {cause : EvalError}
      (hscan : Token.scan text = .ok line) (hcontext : context ∈ contexts)
      (htoken : token ∈ Segment.tokens line) (hcomp : token.scope = .comp)
      (hinvoke : methods.invoke token context = .error cause) :
      TokenFails methods contexts text (.eval cause)
  /-- With the values of the component in place the line does not scan. -/
  | spliced {line : List Segment} {context : Context} {cause : TokenError}
      (hscan : Token.scan text = .ok line) (hcontext : context ∈ contexts)
      (hagain : Token.scan (spliced (methods.value context) line) = .error cause) :
      TokenFails methods contexts text (.token cause)
  /-- With the values of the component in place a token of the attribute has no value. -/
  | attribute {line again : List Segment} {context : Context} {a : ViewAttribute} {token : Token}
      {cause : EvalError} (hscan : Token.scan text = .ok line) (hcontext : context ∈ contexts)
      (hagain : Token.scan (Template.spliced (methods.value context) line) = .ok again)
      (ha : a ∈ context.component.attributes) (htoken : token ∈ Segment.tokens again)
      (hattr : token.scope = .attr)
      (hinvoke : methods.invoke token (context.withAttribute a) = .error cause) :
      TokenFails methods contexts text (.eval cause)

/-- A line that is not expanded for a component has a token that fails. -/
theorem tokenFails_of_expandLine {text : Text} {line : List Segment}
    (hscan : Token.scan text = .ok line) {contexts : List Context} (hcontext : context ∈ contexts)
    {cause : Cause} (h : expandLine methods context line = .error cause) :
    TokenFails methods contexts text cause := by
  unfold expandLine at h
  split at h
  · cases h
  · rw [Outcome.bind_eq_error_iff] at h
    rcases h with hparts | ⟨found, hparts, h⟩
    · obtain ⟨flaw, hflaw, rfl⟩ := Outcome.mapError_eq_error_iff.1 hparts
      obtain ⟨token, htoken, hcomp, hinvoke⟩ := exists_of_parts hflaw
      exact .written hscan hcontext htoken hcomp hinvoke
    · obtain ⟨-, rfl⟩ := parts_eq_ok_iff.1 (Outcome.mapError_eq_ok_iff.1 hparts)
      rw [flatMap_text_ofSegment, ← spliced] at h
      split at h
      · rw [Outcome.bind_eq_error_iff] at h
        rcases h with hagain | ⟨again, hagain, h⟩
        · obtain ⟨flaw, hflaw, rfl⟩ := Outcome.mapError_eq_error_iff.1 hagain
          exact .spliced hscan hcontext hflaw
        · obtain ⟨flaw, hlines, rfl⟩ := Outcome.mapError_eq_error_iff.1 h
          obtain ⟨a, ha, token, htoken, hattr, hinvoke⟩ := exists_of_attributeLines hlines
          exact .attribute hscan hcontext (Outcome.mapError_eq_ok_iff.1 hagain) ha htoken hattr
            hinvoke
      · cases h

/-! ## Blocks -/

variable {template : Text} {engine : Engine} {spec : Spec}

theorem exists_of_scanLines {lines : List SourceLine} {e : Error}
    (h : scanLines template lines = .error e) :
    ∃ line ∈ lines, ∃ cause, Token.scan line.text = .error cause ∧
      e = errorAt template line (.token cause) := by
  induction lines with
  | nil => cases h
  | cons line rest ih =>
      unfold scanLines at h
      split at h
      · rename_i cause hscan
        exact ⟨line, List.mem_cons_self, cause, hscan, (Except.error.inj h).symm⟩
      · obtain ⟨found, hmem, hfound⟩ := ih (Outcome.map_eq_error_iff.1 h)
        exact ⟨found, List.mem_cons_of_mem _ hmem, hfound⟩

theorem exists_of_expandLines {lines : List ScannedLine} {e : Error}
    (h : expandLines template methods context lines = .error e) :
    ∃ scanned ∈ lines, ∃ cause, expandLine methods context scanned.segments = .error cause ∧
      e = errorAt template scanned.line cause := by
  induction lines with
  | nil => cases h
  | cons scanned rest ih =>
      unfold expandLines at h
      split at h
      · rename_i cause hline
        exact ⟨scanned, List.mem_cons_self, cause, hline, (Except.error.inj h).symm⟩
      · obtain ⟨found, hmem, hfound⟩ := ih (Outcome.map_eq_error_iff.1 h)
        exact ⟨found, List.mem_cons_of_mem _ hmem, hfound⟩

theorem exists_of_expandComponents {view : View} {lines : List ScannedLine}
    {components : List ViewComponent} {e : Error}
    (h : expandComponents template engine view lines components = .error e) :
    ∃ component ∈ components, expandLines template engine.methods
      { types := engine.types, view, component } lines = .error e := by
  induction components with
  | nil => cases h
  | cons component rest ih =>
      simp only [expandComponents, Outcome.bind_eq_error_iff] at h
      rcases h with hhere | ⟨_, -, hrest | ⟨_, -, hpure⟩⟩
      · exact ⟨component, List.mem_cons_self, hhere⟩
      · obtain ⟨other, hmem, hother⟩ := ih hrest
        exact ⟨other, List.mem_cons_of_mem _ hmem, hother⟩
      · cases hpure

/-- A block that is not expanded has a line with a token that fails. -/
theorem exists_of_expandBlock {block : Block} {e : Error}
    (h : expandBlock template engine spec block = .error e) :
    ∃ line ∈ block.lines, e = errorAt template line e.cause ∧
      TokenFails engine.methods (contexts engine spec block.predicate) line.text e.cause := by
  unfold expandBlock at h
  rw [Outcome.bind_eq_error_iff] at h
  rcases h with hscan | ⟨scanned, hscanned, h⟩
  · obtain ⟨line, hmem, cause, hcause, rfl⟩ := exists_of_scanLines hscan
    exact ⟨line, hmem, rfl, .malformed hcause⟩
  · obtain ⟨hscans, rfl⟩ := scanLines_eq_ok_iff.1 hscanned
    obtain ⟨component, hcomponent, hlines⟩ := exists_of_expandComponents h
    obtain ⟨_, hmem, cause, hcause, rfl⟩ := exists_of_expandLines hlines
    obtain ⟨line, hline, rfl⟩ := List.mem_map.1 hmem
    have hscan := SourceLine.scan_eq_ok_iff.2 ⟨hscans line hline, rfl⟩
    exact ⟨line, hline, rfl,
      tokenFails_of_expandLine hscan (List.mem_map_of_mem hcomponent) hcause⟩

/-! ## The machine -/

/-- A line that opens a block, where `flags` are those that its words make up. -/
def SourceLine.Opens (spec : Spec) (line : SourceLine) (flags : Flags) : Prop :=
  ∃ words, Marker.of line.text = .opens words ∧ predicate spec line.text.trim words = .ok flags

/-- The line at which lines that begin outside blocks cannot be taken any further, and why.  The
lines before it are text of a block that is open there. -/
inductive Stops (engine : Engine) (spec : Spec) : List SourceLine → SourceLine → Cause → Prop where
  /-- No block is open that the line could close. -/
  | unmatched {line : SourceLine} {rest : List SourceLine} {words : Text}
      (hcloses : Marker.of line.text = .closes words) :
      Stops engine spec (line :: rest) line .unmatchedEnd
  /-- The words of the line make up no predicate. -/
  | predicate {line : SourceLine} {rest : List SourceLine} {words : Text} {cause : Cause}
      (hopens : Marker.of line.text = .opens words)
      (hcause : Template.predicate spec line.text.trim words = .error cause) :
      Stops engine spec (line :: rest) line cause
  /-- A block is open already. -/
  | nested {start line : SourceLine} {flags : Flags} {body rest : List SourceLine} {words : Text}
      (hstart : start.Opens spec flags) (hbody : ∀ text ∈ body, Marker.of text.text = .text)
      (hopens : Marker.of line.text = .opens words) :
      Stops engine spec (start :: body ++ line :: rest) line .nestedBlock
  /-- A line that closes a block has arguments. -/
  | arguments {start line : SourceLine} {flags : Flags} {body rest : List SourceLine}
      {words : Text} (hstart : start.Opens spec flags)
      (hbody : ∀ text ∈ body, Marker.of text.text = .text)
      (hcloses : Marker.of line.text = .closes words) (hwords : words ≠ []) :
      Stops engine spec (start :: body ++ line :: rest) line
        (.marker line.text.trim .endWithArguments)
  /-- The block that the line opens is not closed. -/
  | unterminated {line : SourceLine} {flags : Flags} {body : List SourceLine}
      (hstart : line.Opens spec flags) (hbody : ∀ text ∈ body, Marker.of text.text = .text) :
      Stops engine spec (line :: body) line .unterminatedBlock
  /-- A token fails on a line of a block that is closed. -/
  | token {start stop line : SourceLine} {flags : Flags} {body rest : List SourceLine}
      {cause : Cause} (hstart : start.Opens spec flags)
      (hbody : ∀ text ∈ body, Marker.of text.text = .text)
      (hstop : Marker.of stop.text = .closes []) (hline : line ∈ body)
      (hfails : TokenFails engine.methods (contexts engine spec flags) line.text cause) :
      Stops engine spec (start :: body ++ stop :: rest) line cause

/-- The machine stops at one of the lines that are left. -/
theorem Stops.mem {lines : List SourceLine} {line : SourceLine} {cause : Cause}
    (h : Stops engine spec lines line cause) : line ∈ lines := by
  cases h with
  | unmatched | predicate | unterminated => exact List.mem_cons_self
  | nested | arguments => simp
  | token _ _ _ hline => simp [hline]

/-- What a state knows about the lines that have been taken.  They have led to it, and if a block
is open, those before the block have led outside blocks, and the others are its lines. -/
structure Reached (template : Text) (engine : Engine) (spec : Spec) (earlier : List SourceLine)
    (state : State) : Prop where
  run : earlier.foldlM (step template engine spec) ⟨[], none⟩ = .ok state
  exists_block : ∀ block, state.block? = some block →
    ∃ before output, earlier = before ++ block.begin :: block.lines ∧
      before.foldlM (step template engine spec) ⟨[], none⟩ = .ok ⟨output, none⟩ ∧
      block.begin.Opens spec block.predicate ∧ ∀ line ∈ block.lines, Marker.of line.text = .text

theorem Reached.nil : Reached template engine spec [] ⟨[], none⟩ :=
  ⟨rfl, fun block hblock => absurd hblock (Option.some_ne_none block).symm⟩

/-- A line that is taken keeps what the state knows. -/
theorem Reached.step {earlier : List SourceLine} {state next : State} {line : SourceLine}
    (h : Reached template engine spec earlier state)
    (hstep : Template.step template engine spec state line = .ok next) :
    Reached template engine spec (earlier ++ [line]) next := by
  have hrun : (earlier ++ [line]).foldlM (Template.step template engine spec) ⟨[], none⟩ =
      .ok next := by
    rw [List.foldlM_append, h.run]
    show [line].foldlM (Template.step template engine spec) state = _
    rw [List.foldlM_cons, hstep]
    rfl
  refine ⟨hrun, fun block hblock => ?_⟩
  obtain ⟨output, block?⟩ := state
  cases hmarker : Marker.of line.text with
  | opens words =>
      cases block? with
      | some old =>
          rw [step_opens_inside hmarker] at hstep
          cases hstep
      | none =>
          rw [step_opens_outside hmarker] at hstep
          split at hstep
          · cases hstep
          · rename_i flags hflags
            obtain rfl := Except.ok.inj hstep
            obtain rfl := Option.some.inj hblock
            exact ⟨earlier, output, rfl, h.run, ⟨words, hmarker, hflags⟩, by simp⟩
  | closes words =>
      cases block? with
      | none =>
          rw [step_closes_outside hmarker] at hstep
          cases hstep
      | some old =>
          -- A line that closes a block leaves none open.
          by_cases hwords : words = []
          · subst hwords
            rw [step_closes_inside hmarker, Outcome.map_eq_ok_iff] at hstep
            obtain ⟨texts, -, rfl⟩ := hstep
            cases hblock
          · rw [step_closes_arguments hmarker hwords] at hstep
            cases hstep
  | text =>
      cases block? with
      | none =>
          rw [step_text_outside hmarker] at hstep
          obtain rfl := Except.ok.inj hstep
          cases hblock
      | some old =>
          rw [step_text_inside hmarker] at hstep
          obtain rfl := Except.ok.inj hstep
          obtain rfl := Option.some.inj hblock
          obtain ⟨before, output', rfl, hbefore, hopens, hbody⟩ := h.exists_block old rfl
          refine ⟨before, output', by simp, hbefore, hopens, ?_⟩
          exact List.forall_mem_append.2 ⟨hbody, List.forall_mem_singleton.2 hmarker⟩

/-- The lines of a template up to a place outside blocks are taken, and those from there on stop
at a line. -/
def StopsAt (template : Text) (engine : Engine) (spec : Spec) (lines : List SourceLine)
    (line : SourceLine) (cause : Cause) : Prop :=
  ∃ before rest output, lines = before ++ rest ∧
    before.foldlM (step template engine spec) ⟨[], none⟩ = .ok ⟨output, none⟩ ∧
    Stops engine spec rest line cause

/-- A line that is not taken stops the machine, at this line or at one of the block that it
closes. -/
theorem stopsAt_of_step {earlier after : List SourceLine} {state : State} {line : SourceLine}
    {e : Error} (h : Reached template engine spec earlier state)
    (hstep : step template engine spec state line = .error e) :
    ∃ place, e = errorAt template place e.cause ∧
      StopsAt template engine spec (earlier ++ line :: after) place e.cause := by
  obtain ⟨output, block?⟩ := state
  cases block? with
  | none =>
      cases hmarker : Marker.of line.text with
      | text =>
          rw [step_text_outside hmarker] at hstep
          cases hstep
      | closes words =>
          rw [step_closes_outside hmarker] at hstep
          obtain rfl := Except.error.inj hstep
          exact ⟨line, rfl, earlier, _, output, rfl, h.run, .unmatched hmarker⟩
      | opens words =>
          rw [step_opens_outside hmarker] at hstep
          split at hstep
          · rename_i cause hcause
            obtain rfl := Except.error.inj hstep
            exact ⟨line, rfl, earlier, _, output, rfl, h.run, .predicate hmarker hcause⟩
          · cases hstep
  | some block =>
      obtain ⟨before, output', rfl, hbefore, hopens, hbody⟩ := h.exists_block block rfl
      have hlines : before ++ block.begin :: block.lines ++ line :: after =
          before ++ (block.begin :: block.lines ++ line :: after) := List.append_assoc _ _ _
      cases hmarker : Marker.of line.text with
      | text =>
          rw [step_text_inside hmarker] at hstep
          cases hstep
      | opens words =>
          rw [step_opens_inside hmarker] at hstep
          obtain rfl := Except.error.inj hstep
          exact ⟨line, rfl, before, _, output', hlines, hbefore, .nested hopens hbody hmarker⟩
      | closes words =>
          by_cases hwords : words = []
          · subst hwords
            rw [step_closes_inside hmarker, Outcome.map_eq_error_iff] at hstep
            obtain ⟨text, hmem, he, hfails⟩ := exists_of_expandBlock hstep
            exact ⟨text, he, before, _, output', hlines, hbefore,
              .token hopens hbody hmarker hmem hfails⟩
          · rw [step_closes_arguments hmarker hwords] at hstep
            obtain rfl := Except.error.inj hstep
            exact ⟨line, rfl, before, _, output', hlines, hbefore,
              .arguments hopens hbody hmarker hwords⟩

/-- A block that is open at the end stops the machine at the line that opened it. -/
theorem stopsAt_of_finish {earlier : List SourceLine} {state : State} {e : Error}
    (h : Reached template engine spec earlier state) (hfinish : finish template state = .error e) :
    ∃ place, e = errorAt template place e.cause ∧
      StopsAt template engine spec earlier place e.cause := by
  obtain ⟨output, block?⟩ := state
  cases block? with
  | none => cases hfinish
  | some block =>
      obtain rfl := Except.error.inj hfinish
      obtain ⟨before, output', rfl, hbefore, hopens, hbody⟩ := h.exists_block block rfl
      exact ⟨block.begin, rfl, before, _, output', rfl, hbefore, .unterminated hopens hbody⟩

/-- A run that fails stops at a line that it has not taken, or at the end. -/
theorem stopsAt_of_run {earlier rest : List SourceLine} {state : State} {e : Error}
    (h : Reached template engine spec earlier state)
    (hrun : (rest.foldlM (step template engine spec) state >>= finish template) = .error e) :
    ∃ place, e = errorAt template place e.cause ∧
      StopsAt template engine spec (earlier ++ rest) place e.cause := by
  induction rest generalizing earlier state with
  | nil =>
      rw [List.append_nil]
      exact stopsAt_of_finish h hrun
  | cons line rest ih =>
      rw [List.foldlM_cons] at hrun
      cases hstep : step template engine spec state line with
      | error cause =>
          rw [hstep] at hrun
          obtain rfl := Except.error.inj hrun
          exact stopsAt_of_step h hstep
      | ok next =>
          rw [hstep] at hrun
          have hnext := ih (h.step hstep) hrun
          rwa [List.append_assoc] at hnext

/-! ## Places -/

/-- A numbered line is one of the raw lines, at its place. -/
theorem exists_of_mem_numberedFrom {number offset : Nat} {raws : List Text} {line : SourceLine}
    (hmem : line ∈ numberedFrom number offset raws) :
    ∃ index raw, raws[index]? = some raw ∧ line.number = number + index ∧
      line.offset = offset + Text.byteSize (raws.take index).flatten ∧
      line.text = withoutEnd raw := by
  induction raws generalizing number offset with
  | nil => cases hmem
  | cons raw raws ih =>
      rcases List.mem_cons.1 hmem with rfl | hmem
      · exact ⟨0, raw, rfl, rfl, rfl, rfl⟩
      · obtain ⟨index, found, hfound, hnumber, hoffset, htext⟩ := ih hmem
        refine ⟨index + 1, found, hfound, by omega, ?_, htext⟩
        rw [hoffset, List.take_succ_cons, List.flatten_cons, Text.byteSize_append]
        omega

/-- A line of a template is one of its raw lines without the end of it, and its offset and its text
are where they stand in the template. -/
theorem exists_of_mem_sourceLines {source : Text} {line : SourceLine}
    (hmem : line ∈ sourceLines source) :
    1 ≤ line.number ∧ line.number ≤ (Text.lines source).length ∧
      Text.slice? line.offset (line.offset + Text.byteSize line.text) source = some line.text ∧
      ∃ raw, (Text.lines source)[line.number - 1]? = some raw ∧ EndsLine raw line.text := by
  obtain ⟨index, raw, hraw, hnumber, hoffset, htext⟩ := exists_of_mem_numberedFrom hmem
  obtain ⟨hindex, rfl⟩ := List.getElem?_eq_some_iff.1 hraw
  have hends : EndsLine (Text.lines source)[index] line.text :=
    htext ▸ endsLine_withoutEnd (List.getElem_mem hindex)
  obtain ⟨returns, feed, hcut, -, -⟩ := hends.exists_end
  have hsource : source = ((Text.lines source).take index).flatten ++ line.text ++
      (returns ++ feed ++ ((Text.lines source).drop (index + 1)).flatten) := by
    have hlines := (List.take_append_drop index (Text.lines source)).symm
    rw [List.drop_eq_getElem_cons hindex, hcut] at hlines
    conv_lhs => rw [← Text.flatten_lines source, hlines]
    simp
  have hslice : Text.slice? line.offset (line.offset + Text.byteSize line.text) source =
      some line.text :=
    Text.slice?_eq_some_iff.2 ⟨_, _, hsource, by omega, rfl⟩
  refine ⟨by omega, by omega, hslice, _, ?_, hends⟩
  rw [hnumber, Nat.add_sub_cancel_left]
  exact hraw

/-! ## Errors -/

/-- An error is about a line: it has the number of the line, it covers the text of the line where
that stands in the template, and the line is where the machine stops because of its cause. -/
structure Error.IsAbout (e : Error) (template : Text) (engine : Engine) (source : Text)
    (spec : Spec) (line : SourceLine) : Prop where
  eq_errorAt : e = errorAt template line e.cause
  one_le : 1 ≤ e.line
  le : e.line ≤ (Text.lines source).length
  exists_raw : ∃ raw, (Text.lines source)[e.line - 1]? = some raw ∧ EndsLine raw line.text
  slice : Text.slice? e.offset (e.offset + e.length) source = some line.text
  stopsAt : StopsAt template engine spec (sourceLines source) line e.cause

/-- A template that is not expanded fails at one of its lines, with one place in the error. -/
theorem exists_line_of_expand {source : Text} {e : Error}
    (hexpand : engine.expand template source spec = .error e) :
    ∃ line, e.IsAbout template engine source spec line := by
  obtain ⟨line, he, hstops⟩ := stopsAt_of_run Reached.nil hexpand
  rw [List.nil_append] at hstops
  have hmem : line ∈ sourceLines source := by
    obtain ⟨before, rest, -, hlines, -, hrest⟩ := hstops
    rw [hlines]
    exact List.mem_append_right before hrest.mem
  obtain ⟨hone, hle, hslice, hraw⟩ := exists_of_mem_sourceLines hmem
  refine ⟨line, he, ?_, ?_, ?_, ?_, hstops⟩ <;> rw [he]
  · exact hone
  · exact hle
  · exact hraw
  · exact hslice

/-- A line that closes no block, after a line of two bytes that ends with a carriage return. -/
theorem exists_line_of_expand_unmatched :
    let source : Text := "é\r\nDATAMATIC_END\r\n"
    let e : Error := ⟨[], 2, 4, 13, .unmatchedEnd⟩
    Engine.empty.expand [] source ⟨[], []⟩ = .error e ∧
      ∃ line, e.IsAbout [] Engine.empty source ⟨[], []⟩ line := by
  intro source e
  have hexpand : Engine.empty.expand [] source ⟨[], []⟩ = .error e := rfl
  exact ⟨hexpand, exists_line_of_expand hexpand⟩

end Template
end Stencil
