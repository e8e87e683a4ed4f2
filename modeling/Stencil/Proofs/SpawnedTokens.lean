import Stencil.Proofs.InterleavedTokens
import Stencil.Proofs.SourceLines
import Stencil.Proofs.TemplateItems

namespace Stencil
namespace Template

/-!
# Tokens of the attribute in values of the component

A token of the component can have a value in which tokens of the attribute begin.
The line is then scanned again with the value in place, so it should not matter
whether these tokens come out of a value or are written on the line.  Both lines
reach the second scan with the same text, the one because a value needs an
attribute and the other because its tokens do (`expandLine_of_needs`), and what
follows the second scan depends on this text alone.
-/

/-! ## One line -/

/-- A line that needs an attribute is scanned again with the values of the component in place, and
its text then decides what becomes of it. -/
theorem expandLine_of_needs {methods : MethodRegistry} {context : Context} {line : List Segment}
    {found : List Part} (htokens : Segment.tokens line ≠ [])
    (hparts : parts methods context line = .ok found)
    (hneeds : found.any Part.needsAttribute = true) :
    expandLine methods context line = (do
      let again ← (Token.scan (found.flatMap Part.text)).mapError .token
      (attributeLines methods context again context.component.attributes).mapError .eval) := by
  unfold expandLine
  rw [if_neg (by simpa using htokens), hparts]
  show (if found.any Part.needsAttribute = true then _ else _) = _
  rw [if_pos hneeds]

/-- A token of the component on a line between two texts, and a value of it with which the line
has tokens, all of them the attribute's. -/
structure Spawns (before source after value : Text) (token : Token) (spawned : List Segment) :
    Prop where
  written : Token.IsWritten source token
  comp : token.scope = .comp
  opening : Text.has Part.attributeOpening value = true
  before_plain : Token.openBrace ∉ before
  after_plain : Token.openBrace ∉ after
  scans : Token.scan (before ++ value ++ after) = .ok spawned
  tokens_ne_nil : Segment.tokens spawned ≠ []
  attr : ∀ found ∈ Segment.tokens spawned, found.scope = .attr

section

variable {before source after value : Text} {token : Token} {spawned : List Segment}

theorem Spawns.scan_written (h : Spawns before source after value token spawned) :
    Token.scan (before ++ source ++ after) =
      .ok [.plain before, .token source token, .plain after] :=
  @LineCut.scan_text (.cut before source token (.last after))
    ⟨h.before_plain, h.written, h.after_plain⟩

/-- The line with the token and the line with the value become the same. -/
theorem Spawns.expandLine_eq (h : Spawns before source after value token spawned)
    {methods : MethodRegistry} {context : Context}
    (hvalue : methods.invoke token context = .ok value) :
    expandLine methods context [.plain before, .token source token, .plain after] =
      expandLine methods context spawned := by
  -- The value of the token needs an attribute.
  have hwritten : parts methods context [.plain before, .token source token, .plain after] =
      .ok [.plain before, .value value, .plain after] := by
    simp only [parts, h.comp, hvalue]
    rfl
  have hneeds : [Part.plain before, .value value, .plain after].any Part.needsAttribute = true := by
    simp [Part.needsAttribute, h.opening]
  -- The tokens on the other line do, and none of them has a value yet.
  have hspawned : parts methods context spawned =
      .ok (spawned.map (Part.ofSegment .comp (methods.value context))) :=
    parts_eq_ok_iff.2 ⟨fun found hmem hcomp => by simp [h.attr found hmem] at hcomp, rfl⟩
  have hneeds' : (spawned.map (Part.ofSegment .comp (methods.value context))).any
      Part.needsAttribute = true := by
    obtain ⟨found, others, hfound⟩ := List.exists_cons_of_ne_nil h.tokens_ne_nil
    have hmem : found ∈ Segment.tokens spawned := by simp [hfound]
    exact any_needsAttribute_iff.2 ⟨found, hmem, Or.inl (h.attr found hmem)⟩
  have htext : (spawned.map (Part.ofSegment .comp (methods.value context))).flatMap Part.text =
      before ++ value ++ after := by
    rw [flatMap_text_ofSegment, ← Token.flatMap_source_of_scan h.scans]
    exact flatMap_scopedValues_of_ne (fun found hmem => by simp [h.attr found hmem]) _
  rw [expandLine_of_needs (by simp [Segment.tokens]) hwritten hneeds,
    expandLine_of_needs h.tokens_ne_nil hspawned hneeds', htext]
  simp [Part.text]

end

/-! ## A block of one line -/

/-- A template of one block with one line. -/
def blockOf (opening line : Text) : Text := opening ++ '\n' :: (line ++ '\n' :: (endWord ++ "\n"))

/-- A text that makes up a line of a block. -/
structure IsBlockLine (t : Text) : Prop where
  not_feed : '\n' ∉ t
  not_return : ∀ front, t ≠ front ++ ['\r']
  marker : Marker.of t = .text

theorem sourceLines_blockOf {opening line : Text} (hopening : '\n' ∉ opening)
    (hline : IsBlockLine line) :
    ∃ offset, sourceLines (blockOf opening line) =
      [⟨1, 0, withoutEnd opening⟩, ⟨2, Text.byteSize opening + 1, line⟩,
        ⟨3, offset, endWord⟩] := by
  have hfeed : Text.byteSize ['\n'] = 1 := rfl
  have hend : Text.lines (endWord ++ "\n".toList) = [endWord ++ ['\n']] := by decide
  have hlines : Text.lines (blockOf opening line) =
      [opening ++ ['\n'], line ++ ['\n'], endWord ++ ['\n']] := by
    rw [blockOf, Text.lines_append_feed hopening, Text.lines_append_feed hline.not_feed, hend]
  have hfirst : withoutEnd (opening ++ ['\n']) = withoutEnd opening := by
    rw [withoutEnd, withoutEnd, dropEndWhile_feed_append hopening (Or.inr rfl),
      dropEndWhile_feed hopening]
  have hsecond : withoutEnd (line ++ ['\n']) = line :=
    withoutEnd_of_endsLine ⟨⟨[], ['\n'], by simp, by simp, Or.inr rfl⟩, hline.not_feed,
      hline.not_return⟩
  have hthird : withoutEnd (endWord ++ ['\n']) = endWord := by decide
  refine ⟨Text.byteSize opening + 1 + (Text.byteSize line + 1), ?_⟩
  rw [sourceLines, hlines]
  simp only [numberedFrom, hfirst, hsecond, hthird, Text.byteSize_append, hfeed, Nat.zero_add]

/-- The block is opened and expanded. -/
theorem expand_blockOf {engine : Engine} {template : Text} {spec : Spec}
    {opening line words : Text} (hopening : '\n' ∉ opening)
    (hopens : Marker.of (withoutEnd opening) = .opens words) (hline : IsBlockLine line) :
    engine.expand template (blockOf opening line) spec =
      match predicate spec (withoutEnd opening).trim words with
      | .error cause => .error (errorAt template ⟨1, 0, withoutEnd opening⟩ cause)
      | .ok flags =>
          (expandBlock template engine spec
            ⟨⟨1, 0, withoutEnd opening⟩, flags, [⟨2, Text.byteSize opening + 1, line⟩]⟩).map
              List.flatten := by
  obtain ⟨offset, hlines⟩ := sourceLines_blockOf hopening hline
  have hcloses : Marker.of endWord = .closes [] := by decide
  have htext : SourceLine.isText ⟨2, Text.byteSize opening + 1, line⟩ = true := by
    simp [SourceLine.isText, hline.marker]
  have hstop : SourceLine.isText ⟨3, offset, endWord⟩ = false := by
    simp [SourceLine.isText, hcloses]
  unfold Engine.expand
  rw [hlines]
  cases hflags : predicate spec (withoutEnd opening).trim words with
  | error cause =>
      have hmarker : Marker.of (SourceLine.text ⟨1, 0, withoutEnd opening⟩) = .opens words := hopens
      rw [List.foldlM_cons, step_opens_outside hmarker, hflags]
      rfl
  | ok flags =>
      have hrest : [⟨2, Text.byteSize opening + 1, line⟩, ⟨3, offset, endWord⟩].dropWhile
          SourceLine.isText = [⟨3, offset, endWord⟩] := by
        rw [List.dropWhile_cons_of_pos htext, List.dropWhile_cons_of_neg (by simp [hstop])]
      have hbody : [⟨2, Text.byteSize opening + 1, line⟩, ⟨3, offset, endWord⟩].takeWhile
          SourceLine.isText = [⟨2, Text.byteSize opening + 1, line⟩] := by
        rw [List.takeWhile_cons_of_pos htext, List.takeWhile_cons_of_neg (by simp [hstop])]
      rw [foldlM_step_of_block hopens hflags hrest hcloses, hbody]
      show _ = Except.map List.flatten _
      cases expandBlock template engine spec
        ⟨⟨1, 0, withoutEnd opening⟩, flags, [⟨2, Text.byteSize opening + 1, line⟩]⟩ with
      | error e => rfl
      | ok texts => rfl

/-- An outcome with errors that say where their line begins, but not how long it is. -/
def placed {α : Type} (outcome : Except Error α) : Except (Text × Nat × Nat × Cause) α :=
  outcome.mapError fun e => (e.template, e.line, e.offset, e.cause)

theorem placed_map {α β : Type} (f : α → β) (outcome : Except Error α) :
    placed (outcome.map f) = (placed outcome).map f := by
  cases outcome <;> rfl

/-- Two lines at one place that become the same for every component make two blocks that become
the same. -/
theorem placed_expandComponents_congr {template : Text} {engine : Engine} {view : View}
    {first second : ScannedLine} (hnumber : first.line.number = second.line.number)
    (hoffset : first.line.offset = second.line.offset) {components : List ViewComponent}
    (hlines : ∀ component ∈ components,
      expandLine engine.methods { types := engine.types, view, component } first.segments =
        expandLine engine.methods { types := engine.types, view, component } second.segments) :
    placed (expandComponents template engine view [first] components) =
      placed (expandComponents template engine view [second] components) := by
  induction components with
  | nil => rfl
  | cons component rest ih =>
      rw [List.forall_mem_cons] at hlines
      have hrest := ih hlines.2
      simp only [expandComponents, expandLines, hlines.1]
      cases expandLine engine.methods { types := engine.types, view, component }
          second.segments with
      | error cause =>
          show Except.error _ = Except.error _
          simp only [errorAt, hnumber, hoffset]
      | ok texts =>
          revert hrest
          cases expandComponents template engine view [first] rest with
          | error e =>
              cases expandComponents template engine view [second] rest with
              | error e' => exact fun h => congrArg Except.error (Except.error.inj h)
              | ok others =>
                  intro h
                  cases h
          | ok others =>
              cases expandComponents template engine view [second] rest with
              | error e' =>
                  intro h
                  cases h
              | ok others' =>
                  intro h
                  obtain rfl : others = others' := Except.ok.inj h
                  rfl

/-- A text without carriage returns leaves the end of the line before it, or has none at its
own. -/
theorem not_return_append {s t : Text} (hs : ∀ front, s ≠ front ++ ['\r']) (ht : '\r' ∉ t) :
    ∀ front, s ++ t ≠ front ++ ['\r'] := by
  rcases List.eq_nil_or_concat t with rfl | ⟨kept, c, rfl⟩
  · simpa using hs
  · intro front hfront
    rw [List.concat_eq_append, ← List.append_assoc] at hfront
    obtain rfl : c = '\r' := by simpa using congrArg List.getLast? hfront
    simp at ht

/-- The line with the token and the line with its value make up lines of blocks. -/
theorem Spawns.isBlockLine {before source after value : Text} {token : Token}
    {spawned : List Segment} (h : Spawns before source after value token spawned)
    (hbefore : ∀ c ∈ ['\n', '\r'], c ∉ before) (hafter : ∀ c ∈ ['\n', '\r'], c ∉ after)
    (hvalue : ∀ c ∈ ['\n', '\r'], c ∉ value) (hsource : '\n' ∉ source)
    (hwritten : Marker.of (before ++ source ++ after) = .text)
    (hvalued : Marker.of (before ++ value ++ after) = .text) :
    IsBlockLine (before ++ source ++ after) ∧ IsBlockLine (before ++ value ++ after) := by
  have hfeed : '\n' ∈ ['\n', '\r'] := List.mem_cons_self
  have hreturn : '\r' ∈ ['\n', '\r'] := List.mem_cons_of_mem _ List.mem_cons_self
  obtain ⟨scope, rest, hbraces⟩ := h.written.exists_scope
  refine ⟨⟨?_, not_return_append ?_ (hafter _ hreturn), hwritten⟩, ⟨?_, ?_, hvalued⟩⟩
  · simp [hbefore _ hfeed, hsource, hafter _ hfeed]
  · -- The token ends with a brace.
    intro front hfront
    rw [hbraces] at hfront
    simpa [Token.closing_eq] using congrArg List.getLast? hfront
  · simp [hbefore _ hfeed, hvalue _ hfeed, hafter _ hfeed]
  · intro front hfront
    have hmem : '\r' ∈ before ++ value ++ after := by simp [hfront]
    simp [hbefore _ hreturn, hvalue _ hreturn, hafter _ hreturn] at hmem

/-- A token of the component whose value brings tokens of the attribute with it, and no others,
becomes what these tokens become that are written in its place: for every component as a line, with
the same texts or the same cause of failure, and in a block.  There the outcomes are the same, with
errors at the same line and at the same offset. -/
theorem expand_spawned {before source after value : Text} {token : Token}
    {spawned : List Segment} (h : Spawns before source after value token spawned)
    (hbefore : ∀ c ∈ ['\n', '\r'], c ∉ before) (hafter : ∀ c ∈ ['\n', '\r'], c ∉ after)
    (hvalue : ∀ c ∈ ['\n', '\r'], c ∉ value) (hsource : '\n' ∉ source)
    (hwritten : Marker.of (before ++ source ++ after) = .text)
    (hvalued : Marker.of (before ++ value ++ after) = .text) :
    (∃ written, Token.scan (before ++ source ++ after) = .ok written ∧
      ∀ (methods : MethodRegistry) (context : Context),
        methods.invoke token context = .ok value →
          expandLine methods context written = expandLine methods context spawned) ∧
    ∀ (engine : Engine) (template : Text) (spec : Spec) (opening words : Text),
      '\n' ∉ opening → Marker.of (withoutEnd opening) = .opens words →
      (∀ flags, predicate spec (withoutEnd opening).trim words = .ok flags →
        ∀ context ∈ contexts engine spec flags,
          engine.methods.invoke token context = .ok value) →
      placed (engine.expand template (blockOf opening (before ++ source ++ after)) spec) =
        placed (engine.expand template (blockOf opening (before ++ value ++ after)) spec) := by
  refine ⟨⟨_, h.scan_written, fun methods context hinvoke => h.expandLine_eq hinvoke⟩, ?_⟩
  intro engine template spec opening words hopening hopens hinvoke
  obtain ⟨hline, hspawned⟩ := h.isBlockLine hbefore hafter hvalue hsource hwritten hvalued
  rw [expand_blockOf hopening hopens hline, expand_blockOf hopening hopens hspawned]
  cases hflags : predicate spec (withoutEnd opening).trim words with
  | error cause => rfl
  | ok flags =>
      -- Both lines scan, and each component makes the same of them.
      have hcomponents :
          placed (expandComponents template engine (spec.view flags)
            [⟨⟨2, Text.byteSize opening + 1, before ++ source ++ after⟩,
              [.plain before, .token source token, .plain after]⟩]
            (spec.view flags).components) =
          placed (expandComponents template engine (spec.view flags)
            [⟨⟨2, Text.byteSize opening + 1, before ++ value ++ after⟩, spawned⟩]
            (spec.view flags).components) := by
        refine placed_expandComponents_congr ?_ ?_ fun component hmem => ?_
        · rfl
        · rfl
        · exact h.expandLine_eq (hinvoke flags hflags _ (List.mem_map_of_mem hmem))
      simp only [placed_map, expandBlock, scanLines, h.scan_written, h.scans]
      exact congrArg (Except.map List.flatten) hcomponents

/-- The name of the component is a token of the attribute. -/
theorem expand_spawned_name :
    (∃ written, Token.scan ">\x7b\x7bComp::name\x7d\x7d<" = .ok written ∧
      expandLine MethodRegistry.builtin (oneAttributeContext "\x7b\x7bAttr::name\x7d\x7d")
          written =
        expandLine MethodRegistry.builtin (oneAttributeContext "\x7b\x7bAttr::name\x7d\x7d")
          [.plain ">", .token "\x7b\x7bAttr::name\x7d\x7d" ⟨.attr, "name", []⟩, .plain "<"]) ∧
    placed (Engine.empty.expand [] (blockOf beginWord ">\x7b\x7bComp::name\x7d\x7d<")
        (oneComponentSpec "\x7b\x7bAttr::name\x7d\x7d")) =
      placed (Engine.empty.expand [] (blockOf beginWord ">\x7b\x7bAttr::name\x7d\x7d<")
        (oneComponentSpec "\x7b\x7bAttr::name\x7d\x7d")) := by
  have hscans : Token.scan ">\x7b\x7bAttr::name\x7d\x7d<" = .ok [.plain ">",
      .token "\x7b\x7bAttr::name\x7d\x7d" ⟨.attr, "name", []⟩, .plain "<"] := by
    refine Token.scan_of_scans (@Token.Scans.token _ ">" "Attr::name\x7d\x7d<" "Attr::name" "<"
      _ _ ?_ ?_ ?_ rfl (.plain ?_)) <;> decide
  have hspawns : Spawns ">" "\x7b\x7bComp::name\x7d\x7d" "<" "\x7b\x7bAttr::name\x7d\x7d"
      ⟨.comp, "name", []⟩ [.plain ">",
        .token "\x7b\x7bAttr::name\x7d\x7d" ⟨.attr, "name", []⟩, .plain "<"] :=
    { written := ⟨⟨.comp, "name", rfl⟩, rfl⟩
      comp := rfl
      opening := by decide
      before_plain := by decide
      after_plain := by decide
      scans := hscans
      tokens_ne_nil := List.cons_ne_nil _ _
      attr := fun found hmem => by rw [List.mem_singleton.1 hmem] }
  have hspawned := expand_spawned hspawns (by simp) (by simp) (by simp) (by decide)
    (by decide) (by decide)
  obtain ⟨⟨written, hscan, hline⟩, hblock⟩ := hspawned
  refine ⟨⟨written, hscan, hline _ _ (invoke_component_name _)⟩, ?_⟩
  refine hblock Engine.empty [] _ beginWord [] (by decide) (by decide) fun flags hflags => ?_
  obtain rfl : [] = flags := Except.ok.inj hflags
  intro context hmem
  rw [List.mem_singleton.1 hmem]
  rfl

end Template
end Stencil
