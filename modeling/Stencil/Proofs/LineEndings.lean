import Stencil.Proofs.FunctionNames
import Stencil.Proofs.LineEvaluation
import Stencil.Proofs.Occurrence
import Stencil.Proofs.SourceLines

namespace Stencil

/-!
# Templates with other line ends

A line of a template is taken without its line feed and without the carriage
returns before it.  So carriage returns put before all line feeds, or a line feed
put behind the last line, change no line, and the template is expanded as before.
Only the offsets of the lines tell how they end: a line has one carriage return
more before it for every line before it.

What is written for a line ends with a line feed and with nothing that could be
taken for a carriage return before it (`IsFeedEnded`), whatever the lines of the
template end with.
-/

namespace Text

/-- The text with a carriage return before each of its line feeds. -/
def withReturns (t : Text) : Text := replace "\n" "\r\n" t

theorem withReturns_of_not_mem {t : Text} (ht : '\n' ∉ t) : withReturns t = t := by
  have hpieces : pieces "\n" (t ++ []) = [t ++ []] := pieces_append rfl ht rfl
  rw [List.append_nil] at hpieces
  rw [withReturns, replace, hpieces, joined]

/-- A carriage return is put before the first line feed, and then before the others. -/
theorem withReturns_append_feed {s : Text} (hs : '\n' ∉ s) (t : Text) :
    withReturns (s ++ '\n' :: t) = s ++ '\r' :: '\n' :: withReturns t := by
  have hfeed : pieces "\n" ('\n' :: t) = [] :: pieces "\n" t := rfl
  have hpieces : pieces "\n" (s ++ '\n' :: t) = (s ++ []) :: pieces "\n" t :=
    pieces_append rfl hs hfeed
  rw [withReturns, replace, hpieces, joined_cons_of_ne_nil (pieces_ne_nil (by decide) t)]
  simp [withReturns, replace]

end Text

namespace Template

/-! ## The lines of the template -/

/-- The place of a line when every line before it has become longer by a carriage return. -/
def behindReturns (place : Place) : Place := ⟨place.number, place.offset + (place.number - 1)⟩

theorem withoutEnd_append {s ending : Text} (hs : '\n' ∉ s)
    (hending : ending ∈ [[], ['\n'], ['\r', '\n']]) :
    withoutEnd (s ++ ending) = Text.dropEndWhile (· = '\r') s := by
  simp only [List.mem_cons, List.not_mem_nil, or_false] at hending
  rcases hending with rfl | rfl | rfl
  · rw [withoutEnd, dropEndWhile_feed_append hs (Or.inl rfl)]
  · rw [withoutEnd, dropEndWhile_feed_append hs (Or.inr rfl)]
  · have hreturn : '\n' ∉ s ++ ['\r'] := by simp [hs]
    have hassoc : s ++ ['\r', '\n'] = s ++ ['\r'] ++ ['\n'] := by simp
    rw [withoutEnd, hassoc, dropEndWhile_feed_append hreturn (Or.inr rfl)]
    exact Text.dropEndWhile_append_of_pos s (by simp)

/-- Carriage returns before the line feeds move the lines and change none of them. -/
theorem numberedFrom_withReturns (number offset : Nat) (source : Text) :
    numberedFrom (number + 1) (offset + number) (Text.lines source.withReturns) =
      (numberedFrom (number + 1) offset (Text.lines source)).map
        (SourceLine.moved behindReturns) := by
  induction source using Text.cut_induction '\n' generalizing number offset with
  | plain t ht =>
      rw [Text.withReturns_of_not_mem ht]
      by_cases hne : t = []
      · rw [hne]
        rfl
      · rw [Text.lines_of_not_mem ht hne]
        rfl
  | cut s t hs ih =>
      have hreturn : '\n' ∉ s ++ ['\r'] := by simp [hs]
      have hassoc : s ++ '\r' :: '\n' :: t.withReturns = s ++ ['\r'] ++ '\n' :: t.withReturns := by
        simp
      have hraw : s ++ ['\r'] ++ ['\n'] = s ++ ['\r', '\n'] := by simp
      have hoffset : offset + number + Text.byteSize (s ++ ['\r', '\n']) =
          offset + Text.byteSize (s ++ ['\n']) + (number + 1) := by
        have hsize : Text.byteSize ['\r', '\n'] = Text.byteSize ['\n'] + 1 := rfl
        rw [Text.byteSize_append, Text.byteSize_append, hsize]
        omega
      rw [Text.withReturns_append_feed hs, hassoc, Text.lines_append_feed hreturn, hraw,
        Text.lines_append_feed hs, numberedFrom, numberedFrom, List.map_cons, hoffset, ih,
        withoutEnd_append hs (by simp), withoutEnd_append hs (by simp)]
      rfl

theorem sourceLines_withReturns (source : Text) :
    sourceLines source.withReturns =
      (sourceLines source).map (SourceLine.moved behindReturns) :=
  numberedFrom_withReturns 0 0 source

/-- A line feed behind a last line without one does not change the lines. -/
theorem sourceLines_append_feed {source : Text} (hne : source ≠ [])
    (hlast : source.getLast? ≠ some '\n') :
    sourceLines (source ++ ['\n']) = sourceLines source := by
  have hlines : ∀ number offset, numberedFrom number offset (Text.lines (source ++ ['\n'])) =
      numberedFrom number offset (Text.lines source) := by
    induction source using Text.cut_induction '\n' with
    | plain t ht =>
        intro number offset
        rw [Text.lines_append_feed ht, Text.lines_of_not_mem ht hne]
        simp only [Text.lines, numberedFrom]
        rw [withoutEnd_append ht (by simp), ← List.append_nil t, withoutEnd_append ht (by simp),
          List.append_nil]
    | cut s t hs ih =>
        have ht : t ≠ [] := by
          rintro rfl
          simp at hlast
        have hrest : t.getLast? ≠ some '\n' := by
          obtain ⟨c, rest, rfl⟩ := List.exists_cons_of_ne_nil ht
          simpa using hlast
        intro number offset
        rw [List.append_assoc, List.cons_append, Text.lines_append_feed hs,
          Text.lines_append_feed hs, numberedFrom, numberedFrom, ih ht hrest]
  exact hlines 1 0

/-! ## The written lines -/

/-- A text that ends with a line feed and has no carriage return before it. -/
def IsFeedEnded (text : Text) : Prop :=
  ∃ front, text = front ++ ['\n'] ∧ ∀ t, front ≠ t ++ ['\r']

theorem isFeedEnded_written (text : Text) : IsFeedEnded (written text) := by
  refine ⟨text.trimEnd, rfl, fun t ht => ?_⟩
  have hwhite := Text.not_of_dropEndWhile ht
  revert hwhite
  decide

theorem isFeedEnded_of_mem_writtenUnlessBlank {text line : Text}
    (hmem : line ∈ writtenUnlessBlank text) : IsFeedEnded line := by
  unfold writtenUnlessBlank at hmem
  split at hmem
  · cases hmem
  · rw [List.mem_singleton.1 hmem]
    exact isFeedEnded_written text

variable {methods : MethodRegistry} {context : Context} {template : Text} {engine : Engine}
  {spec : Spec}

theorem isFeedEnded_of_expandLine {line : List Segment} {texts : List Text}
    (hexpand : expandLine methods context line = .ok texts) :
    ∀ text ∈ texts, IsFeedEnded text := by
  unfold expandLine at hexpand
  split at hexpand
  · obtain rfl := Except.ok.inj hexpand
    exact List.forall_mem_singleton.2 (isFeedEnded_written _)
  · obtain ⟨found, -, hexpand⟩ := Outcome.bind_eq_ok_iff.1 hexpand
    simp only at hexpand
    split at hexpand
    · obtain ⟨again, -, hlines⟩ := Outcome.bind_eq_ok_iff.1 hexpand
      obtain ⟨-, rfl⟩ := attributeLines_eq_ok_iff.1 (Outcome.mapError_eq_ok_iff.1 hlines)
      intro text hmem
      obtain ⟨a, -, htext⟩ := List.mem_flatMap.1 hmem
      exact isFeedEnded_of_mem_writtenUnlessBlank htext
    · obtain rfl := Except.ok.inj hexpand
      exact fun text htext => isFeedEnded_of_mem_writtenUnlessBlank htext

theorem isFeedEnded_of_expandLines {lines : List ScannedLine} {texts : List Text}
    (hexpand : expandLines template methods context lines = .ok texts) :
    ∀ text ∈ texts, IsFeedEnded text := by
  induction lines generalizing texts with
  | nil =>
      obtain rfl := Except.ok.inj hexpand
      exact List.forall_mem_nil _
  | cons scanned rest ih =>
      unfold expandLines at hexpand
      split at hexpand
      · cases hexpand
      · rename_i first hfirst
        obtain ⟨others, hothers, rfl⟩ := Outcome.map_eq_ok_iff.1 hexpand
        exact List.forall_mem_append.2 ⟨isFeedEnded_of_expandLine hfirst, ih hothers⟩

theorem isFeedEnded_of_expandComponents {view : View} {lines : List ScannedLine}
    {components : List ViewComponent} {texts : List Text}
    (hexpand : expandComponents template engine view lines components = .ok texts) :
    ∀ text ∈ texts, IsFeedEnded text := by
  induction components generalizing texts with
  | nil =>
      obtain rfl := Except.ok.inj hexpand
      exact List.forall_mem_nil _
  | cons component rest ih =>
      unfold expandComponents at hexpand
      obtain ⟨first, hfirst, hexpand⟩ := Outcome.bind_eq_ok_iff.1 hexpand
      obtain ⟨others, hothers, hexpand⟩ := Outcome.bind_eq_ok_iff.1 hexpand
      obtain rfl := Except.ok.inj hexpand
      exact List.forall_mem_append.2 ⟨isFeedEnded_of_expandLines hfirst, ih hothers⟩

/-- A line of the template adds only such texts to what is written. -/
theorem isFeedEnded_of_step {state next : State} {line : SourceLine}
    (hstep : step template engine spec state line = .ok next)
    (hstate : ∀ text ∈ state.output, IsFeedEnded text) :
    ∀ text ∈ next.output, IsFeedEnded text := by
  obtain ⟨output, block?⟩ := state
  cases hmarker : Marker.of line.text with
  | text =>
      cases block? with
      | none =>
          rw [step_text_outside hmarker] at hstep
          obtain rfl := Except.ok.inj hstep
          exact List.forall_mem_append.2
            ⟨hstate, List.forall_mem_singleton.2 (isFeedEnded_written _)⟩
      | some block =>
          rw [step_text_inside hmarker] at hstep
          obtain rfl := Except.ok.inj hstep
          exact hstate
  | opens words =>
      cases block? with
      | none =>
          rw [step_opens_outside hmarker] at hstep
          split at hstep
          · cases hstep
          · obtain rfl := Except.ok.inj hstep
            exact hstate
      | some block =>
          rw [step_opens_inside hmarker] at hstep
          cases hstep
  | closes words =>
      cases block? with
      | none =>
          rw [step_closes_outside hmarker] at hstep
          cases hstep
      | some block =>
          by_cases hwords : words = []
          · subst hwords
            rw [step_closes_inside hmarker] at hstep
            obtain ⟨texts, hexpand, rfl⟩ := Outcome.map_eq_ok_iff.1 hstep
            unfold expandBlock at hexpand
            obtain ⟨scanned, -, hexpand⟩ := Outcome.bind_eq_ok_iff.1 hexpand
            exact List.forall_mem_append.2 ⟨hstate, isFeedEnded_of_expandComponents hexpand⟩
          · rw [step_closes_arguments hmarker hwords] at hstep
            cases hstep

theorem isFeedEnded_of_run {lines : List SourceLine} {state final : State}
    (hrun : lines.foldlM (step template engine spec) state = .ok final)
    (hstate : ∀ text ∈ state.output, IsFeedEnded text) :
    ∀ text ∈ final.output, IsFeedEnded text := by
  induction lines generalizing state with
  | nil =>
      obtain rfl := Except.ok.inj hrun
      exact hstate
  | cons line rest ih =>
      rw [List.foldlM_cons] at hrun
      obtain ⟨next, hstep, hrest⟩ := Outcome.bind_eq_ok_iff.1 hrun
      exact ih hrest (isFeedEnded_of_step hstep hstate)

/-! ## Templates -/

/-- Moved lines are expanded as before. -/
theorem expand_of_moved {source source' : Text} {move : Place → Place}
    (hlines : sourceLines source' = (sourceLines source).map (SourceLine.moved move)) :
    engine.expand template source' spec =
      outcomeMoved move id (engine.expand template source spec) := by
  have hstart : (⟨[], none⟩ : State) = State.moved [] move ⟨[], none⟩ := rfl
  unfold Engine.expand
  rw [hlines, hstart, foldlM_step_moved, ← hstart]
  cases (sourceLines source).foldlM (step template engine spec) ⟨[], none⟩ with
  | error e => rfl
  | ok final => exact finish_moved [] move final

/-- How the lines of a template end does not matter.  With a carriage return before every line
feed, the template is expanded to the same text, which is made of lines that end with a line feed
and no carriage return before it; or it fails on the same line, with the same cause and a span of
the same length, which begins as many bytes later as lines come before it.  With a line feed behind
a last line without one, it has the same outcome. -/
theorem expand_of_line_ends (engine : Engine) (template source : Text) (spec : Spec) :
    (∀ out, engine.expand template source.withReturns spec = .ok out ↔
      engine.expand template source spec = .ok out) ∧
    (∀ out, engine.expand template source spec = .ok out →
      ∃ texts : List Text, out = texts.flatten ∧ ∀ text ∈ texts, IsFeedEnded text) ∧
    (∀ e, engine.expand template source spec = .error e →
      engine.expand template source.withReturns spec =
        .error { e with offset := e.offset + (e.line - 1) }) ∧
    (source ≠ [] → source.getLast? ≠ some '\n' →
      engine.expand template (source ++ ['\n']) spec = engine.expand template source spec) := by
  have hmoved : engine.expand template source.withReturns spec =
      outcomeMoved behindReturns id (engine.expand template source spec) :=
    expand_of_moved (sourceLines_withReturns source)
  refine ⟨fun out => ?_, fun out hout => ?_, fun e he => ?_, fun hne hlast => ?_⟩
  · rw [hmoved]
    cases engine.expand template source spec with
    | error e => simp [outcomeMoved]
    | ok text => rfl
  · obtain ⟨output, hrun, rfl⟩ := exists_run_of_expand hout
    exact ⟨output, rfl, isFeedEnded_of_run hrun (List.forall_mem_nil _)⟩
  · rw [hmoved, he]
    rfl
  · unfold Engine.expand
    rw [sourceLines_append_feed hne hlast]

/-- A line with a carriage return of its own before one that closes no block, with no line feed
behind it. -/
theorem expand_of_line_ends_unmatched :
    let source : Text := "a\r\nDATAMATIC_END"
    let spec : Spec := ⟨[], []⟩
    Engine.empty.expand [] source spec = .error ⟨[], 2, 3, 13, .unmatchedEnd⟩ ∧
      source.withReturns = String.toList "a\r\r\nDATAMATIC_END" ∧
      Engine.empty.expand [] source.withReturns spec = .error ⟨[], 2, 4, 13, .unmatchedEnd⟩ ∧
      Engine.empty.expand [] (source ++ ['\n']) spec = .error ⟨[], 2, 3, 13, .unmatchedEnd⟩ := by
  intro source spec
  have hfails : Engine.empty.expand [] source spec = .error ⟨[], 2, 3, 13, .unmatchedEnd⟩ := rfl
  obtain ⟨-, -, hreturns, hfeed⟩ := expand_of_line_ends Engine.empty [] source spec
  refine ⟨hfails, rfl, hreturns _ hfails, ?_⟩
  rw [hfeed (by decide) (by decide), hfails]

end Template
end Stencil
