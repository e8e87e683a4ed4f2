import Stencil.Proofs.InterleavedTokens
import Stencil.Proofs.ScanSlices

namespace Stencil

/-!
# The places of the tokens of a line

The places that the scanner returns are byte ranges of its line.  Each of them is
the text of its token, they follow one another without sharing a byte, and what
stands between them is what a replacement keeps (`Token.Lossless`).  All of this
is read off the parts of the line: a place stands behind the parts before it, and
parts without tokens between two places make up one gap, so the line is a
`LineCut` with a cut at each place.
-/

namespace Segment

open Text (byteSize slice?)

/-- A token found stands behind the parts before it, with its text. -/
theorem exists_of_mem_locatedFrom {offset : Nat} {parts : List Segment} {place : Located}
    (hmem : place ∈ locatedFrom offset parts) :
    ∃ front source back, parts = front ++ .token source place.token :: back ∧
      place.start = offset + byteSize (front.flatMap Segment.source) ∧
      place.stop = place.start + byteSize source := by
  induction parts generalizing offset with
  | nil => cases hmem
  | cons part rest ih =>
      cases part with
      | plain text =>
          obtain ⟨front, source, back, rfl, hstart, hstop⟩ := ih hmem
          refine ⟨.plain text :: front, source, back, rfl, ?_, hstop⟩
          simp [hstart, Segment.source, Nat.add_assoc]
      | token source token =>
          rcases List.mem_cons.1 hmem with rfl | hmem
          · exact ⟨[], source, rest, rfl, rfl, rfl⟩
          · obtain ⟨front, other, back, rfl, hstart, hstop⟩ := ih hmem
            refine ⟨.token source token :: front, other, back, rfl, ?_, hstop⟩
            simp [hstart, Segment.source, Nat.add_assoc]

/-- Each place begins where the one before it has ended, or behind it. -/
theorem pairwise_locatedFrom {parts : List Segment} (offset : Nat) :
    (locatedFrom offset parts).Pairwise fun a b => a.stop ≤ b.start := by
  induction parts generalizing offset with
  | nil => exact List.Pairwise.nil
  | cons part rest ih =>
      cases part with
      | plain text => exact ih _
      | token source token =>
          exact List.Pairwise.cons (fun _ hmem => le_start_of_mem_locatedFrom hmem) (ih _)

/-- Where every token is replaced by the slice at its place the text stays as it is. -/
theorem replaceFrom_of_slices {ε : Type} {render : Nat → Token → Except ε Text} (done : Text)
    (parts : List Segment) (index : Nat)
    (hrender : ∀ i place, (locatedFrom (byteSize done) parts)[i]? = some place →
      ∃ text, slice? place.start place.stop (done ++ parts.flatMap Segment.source) = some text ∧
        render (index + i) place.token = .ok text) :
    replaceFrom render index parts = .ok (parts.flatMap Segment.source) := by
  induction parts generalizing done index with
  | nil => rfl
  | cons part rest ih =>
      rw [List.flatMap_cons, ← List.append_assoc] at hrender
      have hsize : byteSize (done ++ part.source) = byteSize done + byteSize part.source :=
        Text.byteSize_append _ _
      cases part with
      | plain text =>
          have hrest := ih (done ++ text) index (by rw [Text.byteSize_append]; exact hrender)
          simp [replaceFrom, hrest, Segment.source]
      | token source token =>
          have hown : slice? (byteSize done) (byteSize done + byteSize source)
              (done ++ source ++ rest.flatMap Segment.source) = some source :=
            Text.slice?_eq_some_iff.2 ⟨done, _, rfl, rfl, rfl⟩
          obtain ⟨text, htext, hfirst⟩ := hrender 0 _ rfl
          obtain rfl : source = text := Option.some.inj (hown.symm.trans htext)
          have hrest := ih (done ++ source) (index + 1) fun i place hplace => by
            rw [Text.byteSize_append] at hplace
            obtain ⟨text, htext, hnext⟩ := hrender (i + 1) place hplace
            exact ⟨text, htext, by rwa [Nat.add_comm i 1, ← Nat.add_assoc] at hnext⟩
          rw [Nat.add_zero] at hfirst
          simp [replaceFrom, hfirst, hrest, Segment.source]

end Segment

namespace Template.LineCut

/-- Cuts a line at all of its tokens, where `gap` is the text since the last one. -/
def ofParts : Text → List Segment → LineCut
  | gap, [] => last gap
  | gap, .plain text :: rest => ofParts (gap ++ text) rest
  | gap, .token source token :: rest => cut gap source token (ofParts [] rest)

theorem text_ofParts (gap : Text) (parts : List Segment) :
    (ofParts gap parts).text = gap ++ parts.flatMap Segment.source := by
  induction parts generalizing gap with
  | nil => simp [ofParts, text]
  | cons part rest ih =>
      cases part with
      | plain text => simp [ofParts, ih, Segment.source]
      | token source token => simp [ofParts, text, ih, Segment.source]

theorem locatedFrom_ofParts (offset : Nat) (gap : Text) (parts : List Segment) :
    (ofParts gap parts).locatedFrom offset =
      Segment.locatedFrom (offset + Text.byteSize gap) parts := by
  induction parts generalizing offset gap with
  | nil => rfl
  | cons part rest ih =>
      cases part with
      | plain text => simp [ofParts, ih, Segment.locatedFrom, Nat.add_assoc]
      | token source token => simp [ofParts, locatedFrom, ih, Segment.locatedFrom]

/-- Texts that stand side by side are replaced as one. -/
theorem replaceFrom_ofParts {ε : Type} (render : Nat → Token → Except ε Text) (gap : Text)
    (parts : List Segment) (index : Nat) :
    Segment.replaceFrom render index (ofParts gap parts).segments =
      (Segment.replaceFrom render index parts).map (gap ++ ·) := by
  induction parts generalizing gap index with
  | nil => simp [ofParts, segments, Segment.replaceFrom, Except.map]
  | cons part rest ih =>
      cases part with
      | plain text =>
          rw [ofParts, ih, Segment.replaceFrom]
          cases Segment.replaceFrom render index rest <;> simp [Except.map]
      | token source token =>
          rw [ofParts, segments, Segment.replaceFrom, Segment.replaceFrom, Segment.replaceFrom, ih]
          cases render index token with
          | error cause => rfl
          | ok text =>
              cases Segment.replaceFrom render (index + 1) rest <;>
                simp [Except.map, bind, Except.bind, pure, Except.pure]

/-- The first text that a token does not have ends the replacement. -/
theorem ok_of_replaceFrom_segments {ε : Type} {render : Nat → Token → Except ε Text}
    {line : LineCut} {index : Nat} {out : Text}
    (hout : Segment.replaceFrom render index line.segments = .ok out) :
    ∀ i token, line.tokens[i]? = some token → ∃ text, render (index + i) token = .ok text := by
  induction line generalizing index out with
  | last gap => simp [tokens]
  | cut gap source token rest ih =>
      simp only [segments, Segment.replaceFrom, Outcome.bind_eq_ok_iff] at hout
      obtain ⟨more, ⟨text, hfirst, ⟨others, hrest, -⟩⟩, -⟩ := hout
      intro i found hfound
      cases i with
      | zero =>
          obtain rfl : token = found := Option.some.inj hfound
          exact ⟨text, hfirst⟩
      | succ i =>
          obtain ⟨next, hnext⟩ := ih hrest i found hfound
          exact ⟨next, by rwa [Nat.add_comm i 1, ← Nat.add_assoc]⟩

/-- Replacing succeeds exactly if every token has a text, and then these texts stand between the
gaps. -/
theorem replace_eq_ok_iff {ε : Type} {render : Nat → Token → Except ε Text}
    {parts : List Segment} {out : Text} :
    Segment.replace render parts = .ok out ↔
      ∃ value : Nat → Token → Text,
        (∀ i token, (ofParts [] parts).tokens[i]? = some token →
          render i token = .ok (value i token)) ∧
        out = (ofParts [] parts).filledFrom value 0 := by
  have hsegments : Segment.replace render parts =
      Segment.replaceFrom render 0 (ofParts [] parts).segments := by
    rw [replaceFrom_ofParts, Segment.replace]
    cases Segment.replaceFrom render 0 parts <;> rfl
  have hfilled : ∀ value : Nat → Token → Text,
      (∀ i token, (ofParts [] parts).tokens[i]? = some token →
        render i token = .ok (value i token)) →
      Segment.replaceFrom render 0 (ofParts [] parts).segments =
        .ok ((ofParts [] parts).filledFrom value 0) := fun value hvalue =>
    replaceFrom_segments _ 0 fun i token htoken => by rw [Nat.zero_add, hvalue i token htoken]
  rw [hsegments]
  constructor
  · intro hout
    have hvalue : ∀ i token, (ofParts [] parts).tokens[i]? = some token →
        render i token = .ok ((render i token).toOption.getD []) := by
      intro i token htoken
      obtain ⟨text, htext⟩ := ok_of_replaceFrom_segments hout i token htoken
      rw [Nat.zero_add] at htext
      rw [htext]
      rfl
    refine ⟨fun i token => (render i token).toOption.getD [], hvalue, ?_⟩
    exact Except.ok.inj (hout.symm.trans (hfilled _ hvalue))
  · rintro ⟨value, hvalue, rfl⟩
    exact hfilled value hvalue

end Template.LineCut

/-! ## What the places are good for -/

namespace Token

open Text (byteSize slice?)

/-- A place that is not empty, within the line and between characters, with a text in braces there
that the parser takes for the token found. -/
structure IsPlaced (line : Text) (place : Located) : Prop where
  lt : place.start < place.stop
  le : place.stop ≤ byteSize line
  exists_slice : ∃ inner, slice? place.start place.stop line = some (opening ++ inner ++ closing) ∧
    parse (opening ++ inner ++ closing) = .ok place.token

/-- What the places of the tokens of a line are good for. -/
structure Lossless (line : Text) (places : List Located) : Prop where
  placed : ∀ place ∈ places, IsPlaced line place
  /-- The places follow one another in the line, and none shares a byte with another one. -/
  pairwise : places.Pairwise fun a b => a.start < b.start ∧ a.stop ≤ b.start
  /-- A line whose tokens are replaced by their own texts is the line. -/
  restores : ∀ {ε : Type} (render : Nat → Token → Except ε Text),
    (∀ i place, places[i]? = some place →
      ∃ text, slice? place.start place.stop line = some text ∧ render i place.token = .ok text) →
    replaceAt? render line places = some (.ok line)
  /-- Replacing takes no slice that does not exist.  If it succeeds, the texts between the places
  stand as before, with the text of each token between those on its two sides. -/
  keeps : ∃ cut : Template.LineCut, cut.text = line ∧ cut.locatedFrom 0 = places ∧
    ∀ {ε : Type} (render : Nat → Token → Except ε Text),
      (∃ outcome, replaceAt? render line places = some outcome) ∧
        ∀ out, replaceAt? render line places = some (.ok out) ↔
          ∃ value : Nat → Token → Text,
            (∀ i token, cut.tokens[i]? = some token → render i token = .ok (value i token)) ∧
              out = cut.filledFrom value 0

theorem isPlaced_of_scan {line : Text} {parts : List Segment} (hscan : scan line = .ok parts)
    {place : Located} (hmem : place ∈ Segment.located parts) : IsPlaced line place := by
  have hline := flatMap_source_of_scan hscan
  obtain ⟨front, source, back, hparts, hstart, hstop⟩ := Segment.exists_of_mem_locatedFrom hmem
  have hsource : Segment.token source place.token ∈ parts := by simp [hparts]
  obtain ⟨inner, rfl, -, -, hinner⟩ := (isSource_of_mem_scan hscan hsource).exists_inner
  have hslice : slice? place.start place.stop line = some (opening ++ inner ++ closing) := by
    refine Text.slice?_eq_some_iff.2 ⟨front.flatMap Segment.source,
      back.flatMap Segment.source, ?_, by omega, hstop⟩
    rw [← hline, hparts]
    simp [Segment.source]
  refine ⟨?_, (Text.le_of_slice? hslice).2, inner, hslice, by rw [parse_braced, hinner]⟩
  have hopening : byteSize opening = 2 := rfl
  rw [hstop, Text.byteSize_append, Text.byteSize_append, hopening]
  omega

theorem lossless_of_scan {line : Text} {parts : List Segment} (hscan : scan line = .ok parts) :
    Lossless line (Segment.located parts) := by
  have hline := flatMap_source_of_scan hscan
  have hreplace : ∀ {ε : Type} (render : Nat → Token → Except ε Text),
      replaceAt? render line (Segment.located parts) = some (Segment.replace render parts) := by
    intro ε render
    rw [← hline]
    exact replaceAt?_eq render parts
  refine ⟨fun place hmem => isPlaced_of_scan hscan hmem, ?_, ?_, ?_⟩
  · refine (Segment.pairwise_locatedFrom 0).imp_of_mem fun {a b} ha _ hle => ?_
    have hlt := (isPlaced_of_scan hscan ha).lt
    exact ⟨by omega, hle⟩
  · intro ε render hrender
    rw [hreplace, ← hline] at *
    refine congrArg some (Segment.replaceFrom_of_slices [] parts 0 fun i place hplace => ?_)
    rw [Nat.zero_add]
    exact hrender i place hplace
  · refine ⟨.ofParts [] parts, ?_, ?_, fun render => ⟨⟨_, hreplace render⟩, fun out => ?_⟩⟩
    · rw [Template.LineCut.text_ofParts, List.nil_append, hline]
    · exact Template.LineCut.locatedFrom_ofParts 0 [] parts
    · rw [hreplace, Option.some.injEq]
      exact Template.LineCut.replace_eq_ok_iff

/-- On every line the scanner and the argument reader take only slices that exist, also for their
errors, and where the scan succeeds the places it finds are sound and lossless. -/
theorem scan_sound_lossless (line : Text) :
    scanAt? line = some ((scan line).map Segment.located) ∧
      (∀ t, argumentList? t = some (argumentList t)) ∧
      ∀ parts, scan line = .ok parts → Lossless line (Segment.located parts) :=
  ⟨scanAt?_eq line, argumentList?_eq, fun _ hscan => lossless_of_scan hscan⟩

/-- A token after a character of two bytes and before one of three. -/
theorem scan_sound_lossless_between_wide :
    scan "é\x7b\x7bComp::name\x7d\x7d€" =
        .ok [.plain "é", .token "\x7b\x7bComp::name\x7d\x7d" ⟨.comp, "name", []⟩, .plain "€"] ∧
      Lossless "é\x7b\x7bComp::name\x7d\x7d€" [⟨⟨.comp, "name", []⟩, 2, 16⟩] := by
  have hscan : scan "é\x7b\x7bComp::name\x7d\x7d€" =
      .ok [.plain "é", .token "\x7b\x7bComp::name\x7d\x7d" ⟨.comp, "name", []⟩, .plain "€"] := by
    refine scan_of_scans (@Scans.token _ "é" "Comp::name\x7d\x7d€" "Comp::name" "€" _ _ ?_ ?_ ?_
      rfl (.plain ?_))
    · decide
    · decide
    · decide
    · decide
  exact ⟨hscan, (scan_sound_lossless _).2.2 _ hscan⟩

end Token
end Stencil
