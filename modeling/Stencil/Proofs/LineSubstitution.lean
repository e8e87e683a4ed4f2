import Stencil.Method.Builtin
import Stencil.Proofs.LineEvaluation
import Stencil.Proofs.TokenScan
import Stencil.Render.Builtin

namespace Stencil
namespace Template

/-!
# Substitution on lines with tokens of both kinds

On a line with a token of the attribute the values of the component's tokens are
put in place first, and the line is scanned a second time.  The line that comes
out is the one that replacing every token once would give, as long as the second
scan finds the written tokens of the attribute again and no others.

A line is therefore cut at its written tokens of the attribute.  The texts
between the cuts, with the component's values in them, are its gaps, and
`LineCut.Undisturbed` says of each of them what is needed: it scans by itself,
no token of the attribute begins in it, and before a cut its opening braces pair
off.  `LineCut.scan_iff` shows that nothing less is enough, and
`expandLine_substitutes_once` draws the conclusion for the lines written.
-/

/-- A line cut at some of its tokens: each with the text before it, and the last text. -/
inductive LineCut where
  | last (gap : Text)
  | cut (gap source : Text) (token : Token) (rest : LineCut)

/-- The tokens of the attribute, with their places, in a line that begins at an offset. -/
def attributesFrom (offset : Nat) (parts : List Segment) : List Located :=
  (Segment.locatedFrom offset parts).filter fun found => found.token.scope = .attr

/-- A text that the scanner passes over without taking a token of the attribute. -/
def Inert (gap : Text) : Prop :=
  ∃ parts, Token.scan gap = .ok parts ∧ ∀ token ∈ Segment.tokens parts, token.scope = .comp

namespace LineCut

/-- The text of the line. -/
def text : LineCut → Text
  | last gap => gap
  | cut gap source _ rest => gap ++ source ++ rest.text

/-- The tokens at the cuts. -/
def tokens : LineCut → List Token
  | last _ => []
  | cut _ _ token rest => token :: rest.tokens

/-- The tokens at the cuts, with their places in a line that begins at an offset. -/
def locatedFrom (offset : Nat) : LineCut → List Located
  | last _ => []
  | cut gap source token rest =>
      let start := offset + Text.byteSize gap
      let stop := start + Text.byteSize source
      ⟨token, start, stop⟩ :: locatedFrom stop rest

/-- The text of the line with the tokens at the cuts replaced. -/
def substituted (value : Token → Text) : LineCut → Text
  | last gap => gap
  | cut gap _ token rest => gap ++ value token ++ rest.substituted value

/-- Every written token is the text of a token of the attribute. -/
def WellCut : LineCut → Prop
  | last _ => True
  | cut _ source token rest =>
      Token.IsSource source token ∧ token.scope = .attr ∧ rest.WellCut

/-- No gap disturbs the tokens around it: none holds a token of the attribute or a broken one,
and before a cut an even number of opening braces stands. -/
def Undisturbed : LineCut → Prop
  | last gap => Inert gap
  | cut gap _ _ rest => Inert gap ∧ Even (Token.bracesAtEnd gap) ∧ rest.Undisturbed

/-- Cuts a line in which `value` gives the values of the component's tokens, where `gap` is the
text since the last cut. -/
def ofFrom (value : Token → Text) : Text → List Segment → LineCut
  | gap, [] => last gap
  | gap, .plain text :: rest => ofFrom value (gap ++ text) rest
  | gap, .token source token :: rest =>
      match token.scope with
      | .comp => ofFrom value (gap ++ value token) rest
      | .attr => cut gap source token (ofFrom value [] rest)

/-- Cuts a line in which `value` gives the values of the component's tokens. -/
def ofLine (value : Token → Text) (line : List Segment) : LineCut := ofFrom value [] line

end LineCut

/-! ## The second scan -/

theorem attributesFrom_append (offset : Nat) (parts others : List Segment) :
    attributesFrom offset (parts ++ others) =
      attributesFrom offset parts ++
        attributesFrom (offset + Text.byteSize (parts.flatMap Segment.source)) others := by
  induction parts generalizing offset with
  | nil => simp [attributesFrom, Segment.locatedFrom]
  | cons part rest ih =>
      cases part with
      | plain text =>
          have hrest := ih (offset + Text.byteSize text)
          simp only [attributesFrom, Nat.add_assoc] at hrest
          simp [attributesFrom, Segment.locatedFrom, Segment.source, hrest]
      | token source token =>
          have hrest := ih (offset + Text.byteSize source)
          simp only [attributesFrom, Nat.add_assoc] at hrest
          by_cases hscope : token.scope = .attr
          · simp [attributesFrom, Segment.locatedFrom, Segment.source, hscope, hrest]
          · simp [attributesFrom, Segment.locatedFrom, Segment.source, hscope, hrest]

theorem attributesFrom_cons_of_attr (offset : Nat) (source : Text) {token : Token}
    (hattr : token.scope = .attr) (rest : List Segment) :
    attributesFrom offset (.token source token :: rest) =
      ⟨token, offset, offset + Text.byteSize source⟩ ::
        attributesFrom (offset + Text.byteSize source) rest := by
  simp [attributesFrom, Segment.locatedFrom, hattr]

/-- Where all tokens are the component's there are none of the attribute. -/
theorem attributesFrom_of_comp {parts : List Segment}
    (hcomp : ∀ token ∈ Segment.tokens parts, token.scope = .comp) (offset : Nat) :
    attributesFrom offset parts = [] := by
  induction parts generalizing offset with
  | nil => rfl
  | cons part rest ih =>
      cases part with
      | plain text => exact ih hcomp _
      | token source token =>
          have hscope : token.scope = .comp := hcomp token (by simp [Segment.tokens])
          have hrest := ih (fun token hmem => hcomp token (by simp [Segment.tokens, hmem]))
            (offset + Text.byteSize source)
          simp only [attributesFrom] at hrest
          simp [attributesFrom, Segment.locatedFrom, hscope, hrest]

theorem comp_of_attributesFrom {parts : List Segment} {offset : Nat}
    (hnone : attributesFrom offset parts = []) :
    ∀ token ∈ Segment.tokens parts, token.scope = .comp := by
  induction parts generalizing offset with
  | nil => simp [Segment.tokens]
  | cons part rest ih =>
      cases part with
      | plain text => exact ih hnone
      | token source token =>
          intro found hfound
          cases hscope : token.scope with
          | attr => simp [attributesFrom, Segment.locatedFrom, hscope] at hnone
          | comp =>
              have hrest : attributesFrom (offset + Text.byteSize source) rest = [] := by
                simpa [attributesFrom, Segment.locatedFrom, hscope] using hnone
              rcases List.mem_cons.1 hfound with rfl | hmem
              · exact hscope
              · exact ih hrest found hmem

/-- Where all tokens are the component's, an attribute changes nothing. -/
theorem flatMap_scopedValues_of_comp {parts : List Segment}
    (hcomp : ∀ token ∈ Segment.tokens parts, token.scope = .comp) (value : Token → Text) :
    parts.flatMap (Segment.textBy (scopedValues .attr value)) = parts.flatMap Segment.source :=
  flatMap_scopedValues_of_ne (fun token hmem => by simp [hcomp token hmem]) value

theorem tokens_append (parts others : List Segment) :
    Segment.tokens (parts ++ others) = Segment.tokens parts ++ Segment.tokens others := by
  induction parts with
  | nil => rfl
  | cons part rest ih =>
      cases part with
      | plain text => exact ih
      | token source token => simp [Segment.tokens, ih]

/-- The first token of the attribute in a line lies behind the offset of the line. -/
theorem le_start_of_head? {offset place : Nat} {parts : List Segment}
    (hfirst : (attributesFrom offset parts).head?.map Located.start = some place) :
    offset ≤ place := by
  obtain ⟨found, hhead, rfl⟩ := Option.map_eq_some_iff.1 hfirst
  have hmem := List.mem_of_mem_head? hhead
  exact Segment.le_start_of_mem_locatedFrom ((List.mem_filter.1 hmem).1)

/-- A token found before everything else is the first of the attribute, or it is the
component's and the first of the attribute lies behind it. -/
theorem first_attribute_cons {offset place : Nat} {before source : Text} {token : Token}
    {parts : List Segment}
    (hfirst : (attributesFrom offset (.plain before :: .token source token :: parts)).head?.map
      Located.start = some place) :
    (token.scope = .attr ∧ place = offset + Text.byteSize before) ∨
      (token.scope = .comp ∧
        (attributesFrom (offset + Text.byteSize before + Text.byteSize source) parts).head?.map
          Located.start = some place) := by
  cases hscope : token.scope with
  | attr =>
      simp only [attributesFrom, Segment.locatedFrom, hscope, List.filter_cons, decide_true,
        if_true, List.head?_cons, Option.map_some, Option.some.injEq] at hfirst
      exact Or.inl ⟨rfl, hfirst.symm⟩
  | comp =>
      simp only [attributesFrom, Segment.locatedFrom, hscope, List.filter_cons, reduceCtorEq,
        decide_false, Bool.false_eq_true, if_false] at hfirst
      exact Or.inr ⟨rfl, hfirst⟩

/-- A single brace at the end of a text would be taken together with the first one of the token
that follows, and no token would be found there. -/
theorem even_of_first_attribute {gap inner rest : Text}
    (hsplit : Text.splitOnce? Token.opening gap = none) {parts : List Segment}
    (hscan : Token.scan (gap ++ (Token.opening ++ inner ++ Token.closing ++ rest)) = .ok parts)
    {offset : Nat} (hfirst : (attributesFrom offset parts).head?.map Located.start =
      some (offset + Text.byteSize gap)) :
    Even (Token.bracesAtEnd gap) := by
  rcases List.eq_nil_or_concat gap with rfl | ⟨front, c, rfl⟩
  · exact ⟨0, rfl⟩
  · rw [List.concat_eq_append] at hsplit hscan hfirst ⊢
    by_cases hc : c = Token.openBrace
    · subst hc
      have hplain := Text.splitOnce?_eq_none_iff.1 hsplit
      have hfront : Text.splitOnce? Token.opening front = none := by
        refine Text.splitOnce?_eq_none_iff.2 fun left right heq => ?_
        exact hplain left (right ++ [Token.openBrace]) (by simp [heq])
      have hend : Token.bracesAtEnd front = 0 := by
        refine Text.endRun_eq_zero_iff.2 fun left heq => ?_
        exact hplain left [] (by simp [heq, Token.opening_eq])
      have hwhole : front ++ [Token.openBrace] ++
          (Token.opening ++ inner ++ Token.closing ++ rest) =
            front ++ Token.opening ++ (Token.openBrace :: (inner ++ Token.closing ++ rest)) := by
        simp [Token.opening_eq]
      rw [hwhole] at hscan
      obtain ⟨others, -, rfl⟩ := Token.ok_of_not_begins
        (Token.splitOnce?_opening_append hfront hend _) (Token.begins_openBrace _) hscan
      -- The first token found lies behind the pair, and so behind the place it should have.
      have hle : offset + Text.byteSize (front ++ Token.opening) ≤
          offset + Text.byteSize (front ++ [Token.openBrace]) := le_start_of_head? hfirst
      have hopening : Text.byteSize Token.opening = 2 := rfl
      have hone : Text.byteSize [Token.openBrace] = 1 := rfl
      simp only [Text.byteSize_append, hopening] at hle
      omega
    · exact ⟨0, Text.endRun_append_of_ne hc front⟩

/-- If a token of the attribute that follows a text is the first one found, the text is inert
and its braces pair off. -/
theorem inert_of_first_attribute {gap source rest : Text} {token : Token}
    (hsource : Token.IsSource source token) {parts : List Segment}
    (hscan : Token.scan (gap ++ (source ++ rest)) = .ok parts) {offset : Nat}
    (hfirst : (attributesFrom offset parts).head?.map Located.start =
      some (offset + Text.byteSize gap)) :
    Inert gap ∧ Even (Token.bracesAtEnd gap) := by
  have hopening : Text.byteSize Token.opening = 2 := rfl
  have hclosing : Text.byteSize Token.closing = 2 := rfl
  obtain ⟨inner, rfl, -, -, -⟩ := hsource.exists_inner
  -- The two scans, of the text alone and of the whole line, go side by side.
  fun_induction Token.scan gap generalizing parts offset with
  | case1 gap hsplit =>
      have hinert : Inert gap := ⟨_, Token.scan_of_plain hsplit, by simp [Segment.tokens]⟩
      exact ⟨hinert, even_of_first_attribute hsplit hscan hfirst⟩
  | case2 gap before body hsplit hbegins hnone =>
      have hgap := Text.append_of_splitOnce? hsplit
      obtain ⟨inside, left, found, others, hinside, -, -, rfl⟩ := Token.ok_of_begins
        (Text.splitOnce?_append hsplit _) (Token.begins_append hbegins _) hscan
      rcases first_attribute_cons hfirst with ⟨-, hplace⟩ | ⟨-, hlater⟩
      · simp only [hgap, Text.byteSize_append] at hplace
        omega
      · -- The token found would end in the gap, where nothing closes it.
        have hle := le_start_of_head? hlater
        simp only [hgap, Text.byteSize_append] at hle
        rcases Token.eq_or_append_of_append_eq (Token.append_of_splitClosing? hinside).symm with
          ⟨middle, hbody, -⟩ | ⟨middle, hmiddle, hlonger⟩
        · rw [hbody, Token.splitClosing?_of_append hinside] at hnone
          cases hnone
        · have hlt := Text.byteSize_lt_append body hmiddle
          rw [← hlonger, Text.byteSize_append] at hlt
          omega
  | case3 gap before body hsplit hbegins inside left hinside cause hflaw =>
      obtain ⟨inside', left', found, others, hinside', hfound, -, -⟩ := Token.ok_of_begins
        (Text.splitOnce?_append hsplit _) (Token.begins_append hbegins _) hscan
      -- The same inside is found in the whole line, and it is no token there either.
      rw [Token.splitClosing?_append hinside] at hinside'
      simp only [Option.some.injEq, Prod.mk.injEq] at hinside'
      obtain ⟨rfl, -⟩ := hinside'
      rw [hflaw] at hfound
      cases hfound
  | case4 gap before body hsplit hbegins inside left hinside found hfound ih =>
      have hgap := Text.append_of_splitOnce? hsplit
      have hbody := Token.append_of_splitClosing? hinside
      obtain ⟨inside', left', found', others, hinside', hfound', hleft, rfl⟩ :=
        Token.ok_of_begins (Text.splitOnce?_append hsplit _) (Token.begins_append hbegins _) hscan
      rw [Token.splitClosing?_append hinside] at hinside'
      simp only [Option.some.injEq, Prod.mk.injEq] at hinside'
      obtain ⟨rfl, rfl⟩ := hinside'
      obtain rfl : found' = found := by
        rw [hfound] at hfound'
        exact (Except.ok.inj hfound').symm
      rcases first_attribute_cons hfirst with ⟨-, hplace⟩ | ⟨hcomp, hlater⟩
      · simp only [hgap, Text.byteSize_append] at hplace
        omega
      · -- Both scans take this token, which is the component's, and go on behind it.
        have hshift : offset + Text.byteSize gap =
            offset + Text.byteSize before +
              Text.byteSize (Token.opening ++ inside ++ Token.closing) + Text.byteSize left := by
          simp only [hgap, hbody, Text.byteSize_append]
          omega
        rw [hshift] at hlater
        obtain ⟨⟨parts, hparts, hall⟩, heven⟩ := ih hlater hleft
        have hwhole : Token.scan gap = .ok (.plain before ::
            .token (Token.opening ++ inside ++ Token.closing) found' :: parts) := by
          rw [Token.scan_of_token hsplit hbegins hinside hfound, hparts]
          rfl
        refine ⟨⟨_, hwhole, ?_⟩, ?_⟩
        · simpa [Segment.tokens, hcomp] using hall
        · rw [hgap, hbody, ← List.append_assoc, ← List.append_assoc,
            Token.bracesAtEnd_after_closing]
          exact heven
  | case5 gap before body hsplit hbegins ih =>
      have hgap := Text.append_of_splitOnce? hsplit
      have hbegins' : Token.begins (body ++ (Token.opening ++ inner ++ Token.closing ++ rest)) =
          false := by
        rw [Token.opening_eq, List.cons_append, List.cons_append, List.cons_append,
          Token.begins_append_openBrace]
        simpa using hbegins
      obtain ⟨others, hothers, rfl⟩ :=
        Token.ok_of_not_begins (Text.splitOnce?_append hsplit _) hbegins' hscan
      -- Both scans pass over the pair, which keeps the parity of the braces at the end.
      have hshift : offset + Text.byteSize gap =
          offset + Text.byteSize (before ++ Token.opening) + Text.byteSize body := by
        simp only [hgap, Text.byteSize_append]
        omega
      rw [hshift] at hfirst
      obtain ⟨⟨parts, hparts, hall⟩, heven⟩ := ih hfirst hothers
      refine ⟨⟨.plain (before ++ Token.opening) :: parts, ?_, hall⟩, ?_⟩
      · rw [Token.scan_of_not_begins hsplit (by simpa using hbegins), hparts]
        rfl
      rw [hgap]
      exact (Token.even_bracesAtEnd_pair (Token.bracesAtEnd_of_splitOnce? hsplit) body).2 heven

namespace LineCut

/-- If no gap disturbs a token, the scanner finds the written tokens and no others. -/
theorem scan_of_undisturbed {line : LineCut} (hcut : line.WellCut) (hgaps : line.Undisturbed) :
    ∃ parts, Token.scan line.text = .ok parts ∧
      (∀ offset, attributesFrom offset parts = line.locatedFrom offset) ∧
      (Segment.tokens parts).filter (·.scope = .attr) = line.tokens ∧
      ∀ value, parts.flatMap (Segment.textBy (scopedValues .attr value)) =
        line.substituted value := by
  induction line with
  | last gap =>
      obtain ⟨parts, hscan, hcomp⟩ := hgaps
      refine ⟨parts, hscan, fun offset => attributesFrom_of_comp hcomp offset, ?_, fun value => ?_⟩
      · refine List.filter_eq_nil_iff.2 fun token hmem => ?_
        simp [hcomp token hmem]
      · rw [flatMap_scopedValues_of_comp hcomp, Token.flatMap_source_of_scan hscan]
        rfl
  | cut gap source token rest ih =>
      obtain ⟨⟨before, hbefore, hcomp⟩, heven, hgaps⟩ := hgaps
      obtain ⟨hsource, hscope, hrest⟩ := hcut
      obtain ⟨others, hothers, hplaces, htokens, hvalues⟩ := ih hrest hgaps
      have hgap := Token.flatMap_source_of_scan hbefore
      refine ⟨before ++ .token source token :: others, ?_, fun offset => ?_, ?_, fun value => ?_⟩
      · rw [text, Token.scan_append_token hbefore heven hsource, hothers]
        rfl
      · rw [attributesFrom_append, attributesFrom_of_comp hcomp, hgap, List.nil_append,
          attributesFrom_cons_of_attr _ _ hscope, hplaces]
        rfl
      · have hnone : (Segment.tokens before).filter (·.scope = .attr) = [] := by
          refine List.filter_eq_nil_iff.2 fun token hmem => ?_
          simp [hcomp token hmem]
        rw [tokens_append, List.filter_append, hnone, List.nil_append, Segment.tokens,
          List.filter_cons_of_pos (by simp [hscope]), htokens]
        rfl
      · rw [List.flatMap_append, flatMap_scopedValues_of_comp hcomp, hgap, List.flatMap_cons,
          hvalues]
        simp [Segment.textBy, scopedValues, hscope, substituted]

/-- The scanner finds the written tokens and no others exactly if no gap disturbs them. -/
theorem scan_iff {line : LineCut} (hcut : line.WellCut) (offset : Nat) :
    (∃ parts, Token.scan line.text = .ok parts ∧
        attributesFrom offset parts = line.locatedFrom offset) ↔ line.Undisturbed := by
  constructor
  · rintro ⟨parts, hscan, hplaces⟩
    induction line generalizing parts offset with
    | last gap => exact ⟨parts, hscan, comp_of_attributesFrom hplaces⟩
    | cut gap source token rest ih =>
        obtain ⟨hsource, hscope, hrest⟩ := hcut
        have hscan' : Token.scan (gap ++ (source ++ rest.text)) = .ok parts := by
          rw [← List.append_assoc]
          exact hscan
        have hfirst : (attributesFrom offset parts).head?.map Located.start =
            some (offset + Text.byteSize gap) := by
          rw [hplaces]
          rfl
        -- The written token is the first one found; what is found behind it belongs to the rest.
        obtain ⟨hinert, heven⟩ := inert_of_first_attribute hsource hscan' hfirst
        refine ⟨hinert, heven, ?_⟩
        obtain ⟨before, hbefore, hcomp⟩ := hinert
        rw [text, Token.scan_append_token hbefore heven hsource, Outcome.map_eq_ok_iff] at hscan
        obtain ⟨others, hothers, rfl⟩ := hscan
        rw [attributesFrom_append, attributesFrom_of_comp hcomp, List.nil_append,
          Token.flatMap_source_of_scan hbefore, attributesFrom_cons_of_attr _ _ hscope] at hplaces
        exact ih hrest _ others hothers (List.cons.inj hplaces).2
  · intro hgaps
    obtain ⟨parts, hscan, hplaces, -, -⟩ := scan_of_undisturbed hcut hgaps
    exact ⟨parts, hscan, hplaces offset⟩

/-! ## Cutting a line -/

/-- The text that is cut is the line with the component's values in place. -/
theorem text_ofFrom (value : Token → Text) (gap : Text) (line : List Segment) :
    (ofFrom value gap line).text = gap ++ spliced value line := by
  induction line generalizing gap with
  | nil => simp [ofFrom, text, spliced]
  | cons part rest ih =>
      cases part with
      | plain more => simp [ofFrom, ih, spliced, Segment.textBy]
      | token source token =>
          cases hscope : token.scope with
          | comp => simp [ofFrom, hscope, ih, spliced, Segment.textBy, scopedValues]
          | attr => simp [ofFrom, hscope, ih, spliced, text, Segment.textBy, scopedValues]

theorem tokens_ofFrom (value : Token → Text) (gap : Text) (line : List Segment) :
    (ofFrom value gap line).tokens = (Segment.tokens line).filter (·.scope = .attr) := by
  induction line generalizing gap with
  | nil => rfl
  | cons part rest ih =>
      cases part with
      | plain more => simp [ofFrom, ih, Segment.tokens]
      | token source token =>
          cases hscope : token.scope with
          | comp => simp [ofFrom, hscope, ih, Segment.tokens]
          | attr => simp [ofFrom, hscope, ih, Segment.tokens, tokens]

/-- The cut line with its tokens replaced is the line with every token replaced. -/
theorem substituted_ofFrom {value single : Token → Text}
    (hsingle : ∀ token : Token, token.scope = .comp → single token = value token) (gap : Text)
    (line : List Segment) :
    (ofFrom value gap line).substituted single =
      gap ++ line.flatMap (Segment.textBy fun _ => single) := by
  induction line generalizing gap with
  | nil => simp [ofFrom, substituted]
  | cons part rest ih =>
      cases part with
      | plain more => simp [ofFrom, ih, Segment.textBy]
      | token source token =>
          cases hscope : token.scope with
          | comp => simp [ofFrom, hscope, ih, Segment.textBy, hsingle token hscope]
          | attr => simp [ofFrom, hscope, ih, Segment.textBy, substituted]

theorem wellCut_ofFrom (value : Token → Text) (gap : Text) {line : List Segment}
    (hsources : ∀ source token, .token source token ∈ line → Token.IsSource source token) :
    (ofFrom value gap line).WellCut := by
  induction line generalizing gap with
  | nil => trivial
  | cons part rest ih =>
      have hrest : ∀ source token, .token source token ∈ rest → Token.IsSource source token :=
        fun source token hmem => hsources source token (List.mem_cons_of_mem part hmem)
      cases part with
      | plain more => exact ih (gap ++ more) hrest
      | token source token =>
          cases hscope : token.scope with
          | comp => simpa [ofFrom, hscope] using ih (gap ++ value token) hrest
          | attr =>
              have hsource := hsources source token List.mem_cons_self
              simpa [ofFrom, hscope, WellCut, hsource] using ih [] hrest

end LineCut

/-! ## Lines with tokens of the attribute -/

/-- On a line with a token of the attribute whose tokens all have values, the line is written from
what a second scan finds.  This finds the written tokens of the attribute and no others exactly
if no gap disturbs them, and then the line is written with every token replaced once. -/
theorem expandLine_substitutes_once {methods : MethodRegistry} {context : Context}
    {source : Text} {line : List Segment} (hscan : Token.scan source = .ok line)
    (hattr : ∃ token ∈ Segment.tokens line, token.scope = .attr)
    (hcomp : ∀ token ∈ Segment.tokens line, token.scope = .comp →
      methods.Evaluates context token)
    (hvalues : ∀ a ∈ context.component.attributes, ∀ token ∈ Segment.tokens line,
      token.scope = .attr → methods.Evaluates (context.withAttribute a) token) :
    (∀ out, expandLine methods context line = .ok out ↔
      ∃ again, Token.scan (spliced (methods.value context) line) = .ok again ∧
        attributeLines methods context again context.component.attributes = .ok out) ∧
    ((∃ again, Token.scan (spliced (methods.value context) line) = .ok again ∧
        attributesFrom 0 again = (LineCut.ofLine (methods.value context) line).locatedFrom 0) ↔
      (LineCut.ofLine (methods.value context) line).Undisturbed) ∧
    ((LineCut.ofLine (methods.value context) line).Undisturbed →
      expandLine methods context line =
        .ok (context.component.attributes.flatMap fun a => writtenUnlessBlank
          (line.flatMap (Segment.textBy fun _ => methods.value (context.withAttribute a))))) := by
  have hcut : (LineCut.ofLine (methods.value context) line).WellCut :=
    LineCut.wellCut_ofFrom _ _ fun _ _ hmem => Token.isSource_of_mem_scan hscan hmem
  have htext : (LineCut.ofLine (methods.value context) line).text =
      spliced (methods.value context) line := LineCut.text_ofFrom _ _ _
  have hexpand : ∀ out, expandLine methods context line = .ok out ↔
      ∃ again, Token.scan (spliced (methods.value context) line) = .ok again ∧
        attributeLines methods context again context.component.attributes = .ok out := by
    intro out
    rw [expandLine_eq_ok_iff_of_attr hattr]
    exact and_iff_right hcomp
  refine ⟨hexpand, ?_, fun hgaps => ?_⟩
  · rw [← htext]
    exact LineCut.scan_iff hcut 0
  · obtain ⟨again, hagain, -, htokens, hwritten⟩ := LineCut.scan_of_undisturbed hcut hgaps
    rw [htext] at hagain
    refine (hexpand _).2 ⟨again, hagain, ?_⟩
    refine attributeLines_eq_ok_iff.2 ⟨fun a ha token hmem hscope => ?_, ?_⟩
    · -- The second scan finds no token of the attribute that is not written on the line.
      have hfound : token ∈ (LineCut.ofLine (methods.value context) line).tokens := by
        rw [← htokens]
        exact List.mem_filter.2 ⟨hmem, by simp [hscope]⟩
      rw [LineCut.ofLine, LineCut.tokens_ofFrom] at hfound
      exact hvalues a ha token (List.mem_filter.1 hfound).1 hscope
    · congr 1
      funext a
      rw [hwritten]
      congr 1
      refine (LineCut.substituted_ofFrom ?_ [] line).symm
      exact fun token hscope => methods.value_withAttribute context a hscope

/-- What the tokens of a component of this name with one attribute are evaluated in. -/
def oneAttributeContext (component : Text) : Context :=
  let shown : ViewComponent :=
    { name := component
      displayName := component
      attributes := [⟨"a", "A", "int", .number (.integer 0), none⟩] }
  { types := TypeRegistry.builtin
    view := ⟨[shown]⟩
    component := shown }

/-- A line with the names of the component and of the attribute and a point between them. -/
def pointedNames : List Segment :=
  [.plain [], .token "\x7b\x7bComp::name\x7d\x7d" ⟨.comp, "name", []⟩, .plain ".",
    .token "\x7b\x7bAttr::name\x7d\x7d" ⟨.attr, "name", []⟩, .plain []]

theorem scan_pointedNames :
    Token.scan "\x7b\x7bComp::name\x7d\x7d.\x7b\x7bAttr::name\x7d\x7d" = .ok pointedNames := by
  refine Token.scan_of_scans (@Token.Scans.token _ []
    "Comp::name\x7d\x7d.\x7b\x7bAttr::name\x7d\x7d" "Comp::name"
    ".\x7b\x7bAttr::name\x7d\x7d" _ _ ?_ ?_ ?_ rfl ?_)
  · decide
  · decide
  · decide
  · refine @Token.Scans.token _ "." "Attr::name\x7d\x7d" "Attr::name" [] _ _ ?_ ?_ ?_ rfl ?_
    · decide
    · decide
    · decide
    · exact .plain (by decide)

theorem invoke_component_name (context : Context) :
    MethodRegistry.builtin.invoke ⟨.comp, "name", []⟩ context = .ok context.component.name := rfl

theorem invoke_attribute_name (context : Context) (a : ViewAttribute) :
    MethodRegistry.builtin.invoke ⟨.attr, "name", []⟩ (context.withAttribute a) = .ok a.name := rfl

theorem tokens_pointedNames :
    Segment.tokens pointedNames = [⟨.comp, "name", []⟩, ⟨.attr, "name", []⟩] := rfl

theorem attribute_mem_pointedNames :
    ∃ token ∈ Segment.tokens pointedNames, token.scope = .attr :=
  ⟨⟨.attr, "name", []⟩, List.mem_cons_of_mem _ List.mem_cons_self, rfl⟩

/-- The names of a component and of an attribute always have values. -/
theorem evaluates_pointedNames (context : Context) :
    (∀ token ∈ Segment.tokens pointedNames, token.scope = .comp →
      MethodRegistry.builtin.Evaluates context token) ∧
    ∀ a ∈ context.component.attributes, ∀ token ∈ Segment.tokens pointedNames,
      token.scope = .attr →
        MethodRegistry.builtin.Evaluates (context.withAttribute a) token := by
  rw [tokens_pointedNames]
  constructor
  · intro token hmem hscope
    rcases List.mem_cons.1 hmem with rfl | hmem
    · exact ⟨context.component.name, invoke_component_name context⟩
    · rw [List.mem_singleton.1 hmem] at hscope
      cases hscope
  · intro a _ token hmem hscope
    rcases List.mem_cons.1 hmem with rfl | hmem
    · cases hscope
    · rw [List.mem_singleton.1 hmem]
      exact ⟨a.name, invoke_attribute_name context a⟩

/-- A harmless name is written as it is. -/
theorem expandLine_pointedNames :
    expandLine MethodRegistry.builtin (oneAttributeContext "P") pointedNames =
      .ok [['P', '.', 'a', '\n']] := by
  have hgaps : (LineCut.ofLine (MethodRegistry.builtin.value (oneAttributeContext "P"))
      pointedNames).Undisturbed := by
    have hinert : ∀ gap, Text.splitOnce? Token.opening gap = none → Inert gap := fun gap hgap =>
      ⟨_, Token.scan_of_plain hgap, by simp [Segment.tokens]⟩
    exact ⟨hinert ['P', '.'] (by decide), ⟨0, rfl⟩, hinert [] (by decide)⟩
  have hvalues := evaluates_pointedNames (oneAttributeContext "P")
  exact (expandLine_substitutes_once scan_pointedNames attribute_mem_pointedNames hvalues.1
    hvalues.2).2.2 hgaps

/-- A name that reads like a token makes the line fail, although it begins no token of the
attribute and every token of the line has a value. -/
theorem expandLine_fails_on_value :
    ∃ (context : Context) (source : Text) (line : List Segment),
      Token.scan source = .ok line ∧
      (∃ token ∈ Segment.tokens line, token.scope = .attr) ∧
      (∀ token ∈ Segment.tokens line, token.scope = .comp →
        MethodRegistry.builtin.Evaluates context token) ∧
      (∀ token ∈ Segment.tokens line,
        Text.has Part.attributeOpening (MethodRegistry.builtin.value context token) = false) ∧
      (∀ a ∈ context.component.attributes, ∀ token ∈ Segment.tokens line, token.scope = .attr →
        MethodRegistry.builtin.Evaluates (context.withAttribute a) token) ∧
      ∀ out, expandLine MethodRegistry.builtin context line ≠ .ok out := by
  have hvalues := evaluates_pointedNames (oneAttributeContext "\x7b\x7bFoo::x\x7d\x7d")
  refine ⟨_, _, pointedNames, scan_pointedNames, attribute_mem_pointedNames, hvalues.1, ?_,
    hvalues.2, fun out hout => ?_⟩
  · intro token hmem
    rw [tokens_pointedNames] at hmem
    rcases List.mem_cons.1 hmem with rfl | hmem
    · rfl
    · rw [List.mem_singleton.1 hmem]
      rfl
  · obtain ⟨-, again, hagain, -⟩ :=
      (expandLine_eq_ok_iff_of_attr attribute_mem_pointedNames).1 hout
    -- The text that is scanned again begins with the name, which is taken for a token.
    have hscan : Token.scan "\x7b\x7bFoo::x\x7d\x7d.\x7b\x7bAttr::name\x7d\x7d".toList =
        .ok again := hagain
    have hsplit : Text.splitOnce? Token.opening
        "\x7b\x7bFoo::x\x7d\x7d.\x7b\x7bAttr::name\x7d\x7d".toList =
          some ([], "Foo::x\x7d\x7d.\x7b\x7bAttr::name\x7d\x7d".toList) := by decide
    have hinside : Token.splitClosing? none false
        "Foo::x\x7d\x7d.\x7b\x7bAttr::name\x7d\x7d".toList =
          some ("Foo::x".toList, ".\x7b\x7bAttr::name\x7d\x7d".toList) := by decide
    have hfails : Token.ofInner "Foo::x" = .error (.unknownNamespace "Foo" "Foo::x") := rfl
    obtain ⟨inner, rest, token, others, hclose, htoken, -, -⟩ :=
      Token.ok_of_begins hsplit (by decide) hscan
    obtain ⟨rfl, -⟩ := Prod.mk.inj (Option.some.inj (hinside.symm.trans hclose))
    cases hfails.symm.trans htoken

end Template
end Stencil
