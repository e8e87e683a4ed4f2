import Stencil.Proofs.LineSubstitution
import Stencil.Proofs.TokenGrammar

namespace Stencil
namespace Token

/-!
# Where the scanner and the parser see the end of a token

The scanner looks for the closing braces of a token before anything in it is
read, and follows quotes and backslashes with an automaton of its own.  On a text
that the parser accepts the two agree: `PassesOver` says that the search for the
closing braces goes past a text and is outside quotes behind it, and each part of
the grammar has this property.  So the scanner takes a text for a token exactly
if it starts with a namespace and the parser accepts it (`isSource_iff`), and in
a line of such texts with other text between them it finds all of them
(`LineCut.scan_text`).
-/

/-! ## The search for the closing braces -/

/-- The closing braces of what follows a text are the first ones outside quotes. -/
def PassesOver (t : Text) : Prop :=
  ∀ rest, splitClosing? none false (t ++ rest) =
    (splitClosing? none false rest).map fun found => (t ++ found.1, found.2)

theorem PassesOver.nil : PassesOver [] := by
  intro rest
  simp

theorem PassesOver.append {t t' : Text} (ht : PassesOver t) (ht' : PassesOver t') :
    PassesOver (t ++ t') := by
  intro rest
  rw [List.append_assoc, ht, ht', Option.map_map]
  simp [Function.comp_def]

/-- A character that is no quote and no closing brace is passed. -/
theorem PassesOver.singleton {c : Char} (hquote : isQuote c = false) (hbrace : c ≠ '\x7d') :
    PassesOver [c] := by
  intro rest
  have hclose : closing.isPrefixOf (c :: rest) = false := by
    simp [closing_eq, List.isPrefixOf, hbrace.symm]
  rw [List.singleton_append, splitClosing?_cons, if_neg (by simp [hclose])]
  simp [quoteAfter, hquote]

theorem PassesOver.of_forall {t : Text} (ht : ∀ c ∈ t, isQuote c = false ∧ c ≠ '\x7d') :
    PassesOver t := by
  induction t with
  | nil => exact .nil
  | cons c rest ih =>
      obtain ⟨⟨hquote, hbrace⟩, hrest⟩ := List.forall_mem_cons.1 ht
      exact (singleton hquote hbrace).append (ih hrest)

theorem PassesOver.of_isBlank {blank : Text} (hblank : Text.isBlank blank = true) :
    PassesOver blank := by
  refine .of_forall fun c hc => ?_
  have hwhite : isWhite c = true := List.all_eq_true.1 hblank c hc
  constructor
  · rw [Bool.eq_false_iff]
    intro hquote
    rw [not_white_of_isQuote hquote] at hwhite
    cases hwhite
  · rintro rfl
    revert hwhite
    decide

theorem PassesOver.of_isDotted {name : Text} (hname : IsDotted name) : PassesOver name := by
  refine .of_forall fun c hc => ?_
  rcases hname.char_of_mem hc with hchar | rfl
  · constructor
    · rw [Bool.eq_false_iff]
      intro hquote
      rcases isQuote_iff.1 hquote with rfl | rfl <;> cases hchar
    · rintro rfl
      cases hchar
  · decide

/-- Inside a literal the search follows backslashes as the reader does, up to the quote that
closes it. -/
theorem IsQuoted.splitClosing?_append {quote : Char} (hquote : isQuote quote = true)
    {written value : Text} (hwritten : IsQuoted quote written value) (rest : Text) :
    splitClosing? (some quote) false (written ++ quote :: rest) =
      (splitClosing? none false rest).map fun found => (written ++ quote :: found.1, found.2) := by
  induction hwritten with
  | nil =>
      rw [List.nil_append, splitClosing?_cons, if_neg (by simp)]
      simp [quoteAfter, ne_backslash_of_isQuote hquote]
  | escape hescape hrest ih =>
      rw [List.cons_append, List.cons_append, splitClosing?_cons, if_neg (by simp),
        splitClosing?_cons, if_neg (by simp [quoteAfter])]
      simp [quoteAfter, ih, Function.comp_def]
  | plain hbackslash hne hrest ih =>
      rw [List.cons_append, splitClosing?_cons, if_neg (by simp)]
      simp [quoteAfter, hbackslash, hne, ih, Function.comp_def]

theorem IsLiteral.passesOver {literal value : Text} (hliteral : IsLiteral literal value) :
    PassesOver literal := by
  cases hliteral with
  | @quoted quote written value hquote hwritten =>
      have hchar := isQuote_iff.2 hquote
      intro rest
      have hclose : closing.isPrefixOf (quote :: (written ++ quote :: rest)) = false := by
        rcases hquote with rfl | rfl <;> rfl
      have hassoc : quote :: written ++ [quote] ++ rest =
          quote :: (written ++ quote :: rest) := by simp
      rw [hassoc, splitClosing?_cons, if_neg (by simp [hclose])]
      simp [quoteAfter, hchar, hwritten.splitClosing?_append hchar, Function.comp_def]

theorem IsLiterals.passesOver {written value : Text} (hwritten : IsLiterals written value) :
    PassesOver written := by
  induction hwritten with
  | last hliteral hblank => exact hliteral.passesOver.append (.of_isBlank hblank)
  | more hliteral hblank hrest ih =>
      exact (hliteral.passesOver.append (.of_isBlank hblank)).append ih

theorem IsArgument.passesOver {written value : Text} (hwritten : IsArgument written value) :
    PassesOver written := by
  cases hwritten with
  | spaced hblank hliterals => exact (PassesOver.of_isBlank hblank).append hliterals.passesOver

theorem IsArgumentList.passesOver {list : Text} {args : List Text}
    (hlist : IsArgumentList list args) : PassesOver list := by
  cases hlist with
  | none hblank => exact .of_isBlank hblank
  | some hne hpieces =>
      clear hne
      induction hpieces with
      | nil => exact .nil
      | @cons piece arg pieces args hpiece hpieces ih =>
          cases pieces with
          | nil => exact hpiece.passesOver
          | cons next pieces =>
              rw [Text.joined]
              have hcomma : PassesOver [','] := .singleton (by decide) (by decide)
              exact (hpiece.passesOver.append hcomma).append ih

theorem IsCall.passesOver {call name : Text} {args : List Text} (hcall : IsCall call name args) :
    PassesOver call := by
  cases hcall with
  | bare hname => exact .of_isDotted hname
  | applied hname hlist =>
      have hopen : PassesOver ['('] := .singleton (by decide) (by decide)
      have hclose : PassesOver [')'] := .singleton (by decide) (by decide)
      exact (((PassesOver.of_isDotted hname).append hopen).append hlist.passesOver).append hclose

theorem IsToken.passesOver {t : Text} {token : Token} (htoken : IsToken t token) :
    PassesOver t := by
  cases htoken with
  | qualified scope hcall =>
      have hall : (scope.word ++ separator).all (fun c => !isQuote c && c != '\x7d') = true := by
        cases scope <;> rfl
      have hscope : PassesOver (scope.word ++ separator) :=
        .of_forall fun c hc => by simpa using List.all_eq_true.1 hall c hc
      exact hscope.append hcall.passesOver

/-- The closing braces of a token that is read stand where it ends. -/
theorem splitClosing?_of_ofInner {body : Text} {token : Token} (hbody : ofInner body = .ok token) :
    splitClosing? none false (body ++ closing) = some (body, []) := by
  obtain ⟨before, after, hbefore, hafter, hcut⟩ := Text.exists_trim body
  have hpasses : PassesOver body := by
    rw [hcut]
    exact ((PassesOver.of_isBlank hbefore).append (ofInner_eq_ok_iff.1 hbody).passesOver).append
      (.of_isBlank hafter)
  have hclosing : splitClosing? none false closing = some ([], []) := rfl
  rw [hpasses, hclosing]
  simp

/-! ## Which texts the scanner takes for tokens -/

/-- A text in braces that starts with a namespace directly after them and is accepted by the
parser. -/
structure IsWritten (source : Text) (token : Token) : Prop where
  exists_scope : ∃ (scope : Namespace) (rest : Text),
    source = opening ++ (scope.word ++ separator ++ rest) ++ closing
  parses : parse source = .ok token

/-- The scanner takes a text for a token exactly if it starts with a namespace directly after
the braces and the parser accepts it, and then both see the same token. -/
theorem isSource_iff {source : Text} {token : Token} :
    IsSource source token ↔ IsWritten source token := by
  constructor
  · rintro ⟨body, rfl, hbegins, -, hbody⟩
    refine ⟨?_, by rw [parse_braced, hbody]⟩
    obtain ⟨before, after, hbefore, -, hcut⟩ := Text.exists_trim body
    have htoken := ofInner_eq_ok_iff.1 hbody
    -- The identifier that the body begins with leaves no room for white space before it.
    have hnil : before = [] := by
      cases before with
      | nil => rfl
      | cons c more =>
          have hwhite : isWhite c = true := List.all_eq_true.1 hbefore c List.mem_cons_self
          have hchar : isIdentifierChar c = false := by
            rw [Bool.eq_false_iff]
            intro hchar
            rw [not_white_of_isIdentifierChar hchar] at hwhite
            cases hwhite
          rw [hcut] at hbegins
          simp [begins, hchar, isIdentifier] at hbegins
    generalize body.trim = t at hcut htoken
    cases htoken with
    | @qualified scope call name args hcall =>
        refine ⟨scope, call ++ after, ?_⟩
        rw [hcut, hnil]
        simp
  · rintro ⟨⟨scope, rest, rfl⟩, hparse⟩
    rw [parse_braced] at hparse
    refine ⟨_, rfl, begins_iff.2 ⟨scope.word, rest, ?_, rfl⟩, splitClosing?_of_ofInner hparse,
      hparse⟩
    cases scope <;> decide

end Token

/-! ## Lines of tokens and other text -/

namespace Template.LineCut

/-- No text between the cuts holds an opening brace, and at the cuts stand tokens that start
with a namespace directly after their braces. -/
def Interleaved : LineCut → Prop
  | last gap => Token.openBrace ∉ gap
  | cut gap source token rest =>
      Token.openBrace ∉ gap ∧ Token.IsWritten source token ∧ rest.Interleaved

/-- The parts of the line. -/
def segments : LineCut → List Segment
  | last gap => [.plain gap]
  | cut gap source token rest => .plain gap :: .token source token :: rest.segments

/-- The text of the line with the values of its tokens in their places, where `index` tokens
come before. -/
def filledFrom (value : Nat → Token → Text) (index : Nat) : LineCut → Text
  | last gap => gap
  | cut gap _ token rest => gap ++ value index token ++ rest.filledFrom value (index + 1)

theorem scan_of_openBrace_not_mem {gap : Text} (hgap : Token.openBrace ∉ gap) :
    Token.scan gap = .ok [.plain gap] ∧ Token.bracesAtEnd gap = 0 := by
  constructor
  · refine Token.scan_of_plain (Text.splitOnce?_eq_none_iff.2 fun before after hcut => hgap ?_)
    simp [hcut, Token.opening_eq]
  · exact Text.endRun_eq_zero_iff.2 fun front hfront => hgap (by simp [hfront])

/-- The scanner finds the tokens that stand at the cuts, and no others. -/
theorem scan_text {line : LineCut} (hline : line.Interleaved) :
    Token.scan line.text = .ok line.segments := by
  induction line with
  | last gap => exact (scan_of_openBrace_not_mem hline).1
  | cut gap source token rest ih =>
      obtain ⟨hgap, hsource, hrest⟩ := hline
      obtain ⟨hscan, hend⟩ := scan_of_openBrace_not_mem hgap
      have heven : Even (Token.bracesAtEnd gap) := ⟨0, hend⟩
      rw [text, Token.scan_append_token hscan heven (Token.isSource_iff.2 hsource), ih hrest]
      rfl

theorem locatedFrom_segments (line : LineCut) (offset : Nat) :
    Segment.locatedFrom offset line.segments = line.locatedFrom offset := by
  induction line generalizing offset with
  | last gap => rfl
  | cut gap source token rest ih =>
      rw [segments, Segment.locatedFrom, Segment.locatedFrom, ih]
      rfl

theorem replaceFrom_segments {ε : Type} {render : Nat → Token → Except ε Text}
    {value : Nat → Token → Text} (line : LineCut) (index : Nat)
    (hrender : ∀ i token, line.tokens[i]? = some token →
      render (index + i) token = .ok (value (index + i) token)) :
    Segment.replaceFrom render index line.segments = .ok (line.filledFrom value index) := by
  induction line generalizing index with
  | last gap => simp [segments, Segment.replaceFrom, filledFrom]
  | cut gap source token rest ih =>
      have hfirst : render index token = .ok (value index token) := hrender 0 token rfl
      have hrest : ∀ i other, rest.tokens[i]? = some other →
          render (index + 1 + i) other = .ok (value (index + 1 + i) other) := by
        intro i other hother
        have hnext := hrender (i + 1) other hother
        rwa [Nat.add_comm i 1, ← Nat.add_assoc] at hnext
      simp [segments, Segment.replaceFrom, hfirst, ih (index + 1) hrest, filledFrom]

/-- In a line of tokens that the parser accepts, with text without opening braces around them,
the scanner finds exactly these tokens, at the bytes where they stand, and replacing them puts
the value of each in its place.  What the arguments of the tokens hold does not matter.  A token
is given to `render` with its number, counted from zero. -/
theorem scan_replace_interleaved {line : LineCut} (hline : line.Interleaved) :
    ∃ parts, Token.scan line.text = .ok parts ∧ Segment.located parts = line.locatedFrom 0 ∧
      ∀ {ε : Type} (render : Nat → Token → Except ε Text) (value : Nat → Token → Text),
        (∀ i token, line.tokens[i]? = some token → render i token = .ok (value i token)) →
          Segment.replace render parts = .ok (line.filledFrom value 0) := by
  refine ⟨line.segments, scan_text hline, locatedFrom_segments line 0, ?_⟩
  intro ε render value hrender
  refine replaceFrom_segments line 0 fun i token htoken => ?_
  rw [Nat.zero_add]
  exact hrender i token htoken

/-- Braces and quotes in an argument, also an escaped one, and outside tokens. -/
theorem scan_replace_quotedBraces :
    ∃ parts,
      Token.scan
        "'\\\x7d\x7b\x7bComp::f(\"\x7d\x7d\\\"'\x7b\x7b\")\x7d\x7d\"\x7b\x7bAttr::g \x7d\x7d" =
          .ok parts ∧
      Segment.located parts =
        [⟨⟨.comp, "f", ["\x7d\x7d\"'\x7b\x7b"]⟩, 3, 25⟩, ⟨⟨.attr, "g", []⟩, 26, 38⟩] ∧
      @Segment.replace Unit (fun i token => .ok (List.replicate i '*' ++ token.function)) parts =
        .ok "'\\\x7df\"*g" := by
  have hquoted : Token.IsQuoted '"' "\x7d\x7d\\\"'\x7b\x7b" "\x7d\x7d\"'\x7b\x7b" :=
    .plain (by decide) (by decide) (.plain (by decide) (by decide)
      (.escape .doubleQuote (.plain (by decide) (by decide)
        (.plain (by decide) (by decide) (.plain (by decide) (by decide) .nil)))))
  have hliterals := @Token.IsLiterals.last _ _ [] (.quoted (Or.inl rfl) hquoted) rfl
  have hargument := @Token.IsArgument.spaced [] _ _ rfl hliterals
  have hfirst : Token.IsToken "Comp::f(\"\x7d\x7d\\\"'\x7b\x7b\")"
      ⟨.comp, "f", ["\x7d\x7d\"'\x7b\x7b"]⟩ :=
    .qualified .comp (@Token.IsCall.applied "f" _ _ (by decide)
      (.some (List.cons_ne_nil _ []) (.cons hargument .nil)))
  have hsecond : Token.parse "\x7b\x7bAttr::g \x7d\x7d" = .ok ⟨.attr, "g", []⟩ := rfl
  have hline : LineCut.Interleaved
      (.cut "'\\\x7d" "\x7b\x7bComp::f(\"\x7d\x7d\\\"'\x7b\x7b\")\x7d\x7d"
        ⟨.comp, "f", ["\x7d\x7d\"'\x7b\x7b"]⟩
        (.cut "\"" "\x7b\x7bAttr::g \x7d\x7d" ⟨.attr, "g", []⟩ (.last []))) :=
    ⟨by decide, ⟨⟨.comp, "f(\"\x7d\x7d\\\"'\x7b\x7b\")", rfl⟩, hfirst.parse_written⟩,
      by decide, ⟨⟨.attr, "g ", rfl⟩, hsecond⟩, List.not_mem_nil⟩
  obtain ⟨parts, hscan, hplaces, hreplace⟩ := scan_replace_interleaved hline
  refine ⟨parts, hscan, hplaces, ?_⟩
  rw [hreplace _ (fun i token => List.replicate i '*' ++ token.function) (fun _ _ _ => rfl)]
  rfl

end Template.LineCut
end Stencil
