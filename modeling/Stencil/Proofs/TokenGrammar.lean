import Mathlib.Data.List.Forall2
import Stencil.Proofs.FunctionNames
import Stencil.Proofs.Occurrence
import Stencil.Proofs.Outcome
import Stencil.Proofs.Trimming
import Stencil.Token.Reader

namespace Stencil
namespace Token

/-!
# The grammar of tokens

The grammar of `Stencil.Token.Basic` as relations between written texts and what
they stand for: `IsQuoted` for the inside of a literal, `IsLiteral`,
`IsLiterals`, `IsArgument`, `IsArgumentList`, `IsCall` and `IsToken`.  They are
stated without the reader; each function of the reader is then shown to accept
exactly the texts of its relation, with the value that the relation gives.

The reader goes on to the last literal that it finds, while the grammar only
says that literals follow each other.  The two agree because what ends an
argument, a comma or a parenthesis, begins no literal; `Stops` is this condition.
-/

/-! ## The relations -/

/-- What a backslash and the character after it stand for. -/
inductive IsEscape : Char → Text → Prop where
  | lineFeed : IsEscape 'n' ['\n']
  | tab : IsEscape 't' ['\t']
  | backslash : IsEscape '\\' ['\\']
  | doubleQuote : IsEscape '"' ['"']
  | singleQuote : IsEscape '\'' ['\'']
  /-- Before any other character the backslash stays. -/
  | other {c : Char} (hc : c ∉ ['n', 't', '\\', '"', '\'']) : IsEscape c ['\\', c]

/-- What is written between two quotes of a kind, and what it stands for.  A backslash always
takes the next character with it. -/
inductive IsQuoted (quote : Char) : Text → Text → Prop where
  | nil : IsQuoted quote [] []
  | escape {c : Char} {decoded written value : Text} (hescape : IsEscape c decoded)
      (hrest : IsQuoted quote written value) :
      IsQuoted quote ('\\' :: c :: written) (decoded ++ value)
  | plain {c : Char} {written value : Text} (hbackslash : c ≠ '\\') (hquote : c ≠ quote)
      (hrest : IsQuoted quote written value) : IsQuoted quote (c :: written) (c :: value)

/-- Text between two equal quotes. -/
inductive IsLiteral : Text → Text → Prop where
  | quoted {quote : Char} {written value : Text} (hquote : quote = '"' ∨ quote = '\'')
      (hwritten : IsQuoted quote written value) : IsLiteral (quote :: written ++ [quote]) value

/-- One or more literals, put together, with white space allowed after each. -/
inductive IsLiterals : Text → Text → Prop where
  | last {literal value blank : Text} (hliteral : IsLiteral literal value)
      (hblank : Text.isBlank blank = true) : IsLiterals (literal ++ blank) value
  | more {literal value blank written others : Text} (hliteral : IsLiteral literal value)
      (hblank : Text.isBlank blank = true) (hrest : IsLiterals written others) :
      IsLiterals (literal ++ blank ++ written) (value ++ others)

/-- An argument with the white space around it. -/
inductive IsArgument : Text → Text → Prop where
  | spaced {blank written value : Text} (hblank : Text.isBlank blank = true)
      (hwritten : IsLiterals written value) : IsArgument (blank ++ written) value

/-- What is written between parentheses: nothing but white space, or arguments with commas
between them. -/
inductive IsArgumentList : Text → List Text → Prop where
  | none {blank : Text} (hblank : Text.isBlank blank = true) : IsArgumentList blank []
  | some {pieces args : List Text} (hne : pieces ≠ [])
      (hpieces : List.Forall₂ IsArgument pieces args) :
      IsArgumentList (Text.joined "," pieces) args

/-- A function name, alone or with a list of arguments in parentheses. -/
inductive IsCall : Text → Text → List Text → Prop where
  | bare {name : Text} (hname : IsDotted name) : IsCall name name []
  | applied {name list : Text} {args : List Text} (hname : IsDotted name)
      (hlist : IsArgumentList list args) : IsCall (name ++ "(" ++ list ++ ")") name args

/-- What is written between the braces of a token. -/
inductive IsToken : Text → Token → Prop where
  | qualified (scope : Namespace) {call name : Text} {args : List Text}
      (hcall : IsCall call name args) :
      IsToken (scope.word ++ separator ++ call) ⟨scope, name, args⟩

/-- What stands between the braces of a text, if both pairs are there, and otherwise the text
itself. -/
inductive IsInside : Text → Text → Prop where
  | braced (body : Text) : IsInside (opening ++ body ++ closing) body
  | unbraced {t : Text} (hbraces : ∀ body, t ≠ opening ++ body ++ closing) : IsInside t t

/-! ## Literals -/

theorem isEscape_iff {c : Char} {decoded : Text} :
    IsEscape c decoded ↔ unescaped c = decoded := by
  constructor
  · intro h
    cases h with
    | lineFeed => rfl
    | tab => rfl
    | backslash => rfl
    | doubleQuote => rfl
    | singleQuote => rfl
    | other hc =>
        simp only [List.mem_cons, List.not_mem_nil, or_false, not_or] at hc
        simp [unescaped, isQuote, hc]
  · rintro rfl
    by_cases hc : c ∈ ['n', 't', '\\', '"', '\'']
    · simp only [List.mem_cons, List.not_mem_nil, or_false] at hc
      rcases hc with rfl | rfl | rfl | rfl | rfl
      · exact .lineFeed
      · exact .tab
      · exact .backslash
      · exact .doubleQuote
      · exact .singleQuote
    · have hother := IsEscape.other hc
      simp only [List.mem_cons, List.not_mem_nil, or_false, not_or] at hc
      simpa [unescaped, isQuote, hc] using hother

theorem isQuote_iff {c : Char} : isQuote c = true ↔ c = '"' ∨ c = '\'' := by
  simp [isQuote]

theorem ne_backslash_of_isQuote {c : Char} (hc : isQuote c = true) : c ≠ '\\' := by
  rintro rfl
  cases hc

theorem not_white_of_isQuote {c : Char} (hc : isQuote c = true) : isWhite c = false := by
  rcases isQuote_iff.1 hc with rfl | rfl <;> decide

theorem literalBody?_close {quote : Char} (hquote : isQuote quote = true) (tail : Text) :
    literalBody? quote (quote :: tail) = some ([], tail) := by
  have hbackslash := ne_backslash_of_isQuote hquote
  cases tail with
  | nil => simp [literalBody?, hbackslash]
  | cons d tail => simp [literalBody?, hbackslash]

theorem literalBody?_escape (quote d : Char) (rest : Text) :
    literalBody? quote ('\\' :: d :: rest) =
      (literalBody? quote rest).map fun found => (unescaped d ++ found.1, found.2) := by
  simp [literalBody?]

theorem literalBody?_plain {quote c : Char} (hbackslash : c ≠ '\\') (hquote : c ≠ quote)
    (rest : Text) :
    literalBody? quote (c :: rest) =
      (literalBody? quote rest).map fun found => (c :: found.1, found.2) := by
  cases rest with
  | nil => simp [literalBody?, hquote]
  | cons d rest => simp [literalBody?, hbackslash, hquote]

/-- The rest of a literal is read up to its closing quote. -/
theorem literalBody?_eq_some_iff {quote : Char} (hquote : isQuote quote = true)
    {t value tail : Text} :
    literalBody? quote t = some (value, tail) ↔
      ∃ written, IsQuoted quote written value ∧ t = written ++ quote :: tail := by
  constructor
  · intro h
    fun_induction literalBody? quote t generalizing value with
    | case1 => cases h
    | case2 c hc =>
        simp only [Option.some.injEq, Prod.mk.injEq] at h
        obtain ⟨rfl, rfl⟩ := h
        exact ⟨[], .nil, by rw [hc.2]; rfl⟩
    | case3 c hc => cases h
    | case4 d rest ih =>
        obtain ⟨⟨body, left⟩, hbody, heq⟩ := Option.map_eq_some_iff.1 h
        simp only [Prod.mk.injEq] at heq
        obtain ⟨rfl, rfl⟩ := heq
        obtain ⟨written, hwritten, rfl⟩ := ih hbody
        exact ⟨'\\' :: d :: written, .escape (isEscape_iff.2 rfl) hwritten, rfl⟩
    | case5 d rest hbackslash =>
        simp only [Option.some.injEq, Prod.mk.injEq] at h
        obtain ⟨rfl, rfl⟩ := h
        exact ⟨[], .nil, rfl⟩
    | case6 c d rest hbackslash hc ih =>
        obtain ⟨⟨body, left⟩, hbody, heq⟩ := Option.map_eq_some_iff.1 h
        simp only [Prod.mk.injEq] at heq
        obtain ⟨rfl, rfl⟩ := heq
        obtain ⟨written, hwritten, hrest⟩ := ih hbody
        exact ⟨c :: written, .plain hbackslash hc hwritten, by rw [hrest]; rfl⟩
  · rintro ⟨written, hwritten, rfl⟩
    induction hwritten with
    | nil => exact literalBody?_close hquote tail
    | escape hescape hrest ih =>
        rw [List.cons_append, List.cons_append, literalBody?_escape, ih, isEscape_iff.1 hescape]
        rfl
    | plain hbackslash hc hrest ih =>
        rw [List.cons_append, literalBody?_plain hbackslash hc, ih]
        rfl

/-! ## Arguments -/

/-- Whether no literal and no white space begins a text. -/
def Stops (t : Text) : Prop := ∀ c ∈ t.head?, isQuote c = false ∧ isWhite c = false

theorem argument_of_stops {t : Text} (hstops : Stops t) : argument t = .ok ([], t) := by
  cases t with
  | nil => simp [argument]
  | cons c rest => simp [argument, (hstops c rfl).1]

theorem argument_of_quote {quote : Char} (hquote : isQuote quote = true) {written value : Text}
    (hwritten : IsQuoted quote written value) (rest : Text) :
    argument (quote :: written ++ quote :: rest) =
      (argument rest.trimStart).map fun found => (value ++ found.1, found.2) := by
  have hbody : literalBody? quote (written ++ quote :: rest) = some (value, rest) :=
    (literalBody?_eq_some_iff hquote).2 ⟨written, hwritten, rfl⟩
  rw [List.cons_append, argument, if_pos hquote]
  split
  · rename_i hnone
    rw [hbody] at hnone
    cases hnone
  · rename_i body tail hsome
    rw [hbody, Option.some.injEq, Prod.mk.injEq] at hsome
    rw [hsome.1, hsome.2]

theorem IsLiteral.argument_append {literal value : Text} (hliteral : IsLiteral literal value)
    (rest : Text) :
    argument (literal ++ rest) =
      (argument rest.trimStart).map fun found => (value ++ found.1, found.2) := by
  cases hliteral with
  | quoted hquote hwritten =>
      rw [List.append_assoc, List.singleton_append,
        argument_of_quote (isQuote_iff.2 hquote) hwritten]

theorem IsLiterals.exists_quote {written value : Text} (hwritten : IsLiterals written value) :
    ∃ quote rest, isQuote quote = true ∧ written = quote :: rest := by
  cases hwritten with
  | last hliteral hblank =>
      cases hliteral with
      | quoted hquote => exact ⟨_, _, isQuote_iff.2 hquote, rfl⟩
  | more hliteral hblank hrest =>
      cases hliteral with
      | quoted hquote => exact ⟨_, _, isQuote_iff.2 hquote, rfl⟩

theorem Stops.trimStart {t : Text} (hstops : Stops t) : t.trimStart = t := by
  cases t with
  | nil => rfl
  | cons c rest => exact Text.trimStart_cons_of_not_white (hstops c rfl).2 rest

theorem IsLiterals.trimStart_append {written value : Text} (hwritten : IsLiterals written value)
    (rest : Text) : Text.trimStart (written ++ rest) = written ++ rest := by
  obtain ⟨quote, more, hquote, rfl⟩ := hwritten.exists_quote
  exact Text.trimStart_cons_of_not_white (not_white_of_isQuote hquote) _

/-- Literals are read to the end if nothing after them could be read as well. -/
theorem IsLiterals.argument_append {written value : Text} (hwritten : IsLiterals written value)
    {tail : Text} (hstops : Stops tail) : argument (written ++ tail) = .ok (value, tail) := by
  induction hwritten with
  | last hliteral hblank =>
      rw [List.append_assoc, hliteral.argument_append, Text.trimStart_blank_append hblank,
        hstops.trimStart, argument_of_stops hstops]
      simp [Except.map]
  | more hliteral hblank hrest ih =>
      rw [List.append_assoc, List.append_assoc, hliteral.argument_append,
        Text.trimStart_blank_append hblank, hrest.trimStart_append, ih]
      rfl

/-- What is read from a quote on are literals. -/
theorem isLiterals_of_argument {t value tail : Text} (hargument : argument t = .ok (value, tail)) :
    ((∀ c ∈ t.head?, isQuote c = false) ∧ value = [] ∧ tail = t) ∨
      ∃ written, IsLiterals written value ∧ t = written ++ tail := by
  fun_induction argument t generalizing value with
  | case1 =>
      simp only [Except.ok.injEq, Prod.mk.injEq] at hargument
      obtain ⟨rfl, rfl⟩ := hargument
      exact Or.inl ⟨by simp, rfl, rfl⟩
  | case2 => cases hargument
  | case3 c rest hc body rest' hbody ih =>
      obtain ⟨⟨more, left⟩, hmore, heq⟩ := Outcome.map_eq_ok_iff.1 hargument
      simp only [Prod.mk.injEq] at heq
      obtain ⟨rfl, rfl⟩ := heq
      obtain ⟨written, hwritten, rfl⟩ := (literalBody?_eq_some_iff hc).1 hbody
      have hliteral := IsLiteral.quoted (isQuote_iff.1 hc) hwritten
      obtain ⟨blank, hblank, hrest⟩ := Text.exists_trimStart rest'
      right
      -- Either this literal is the last one, or others follow after white space.
      rcases ih hmore with ⟨-, rfl, rfl⟩ | ⟨others, hothers, hleft⟩
      · refine ⟨c :: written ++ [c] ++ blank, ?_, ?_⟩
        · rw [List.append_nil]
          exact .last hliteral hblank
        · conv_lhs => rw [hrest]
          simp
      · refine ⟨c :: written ++ [c] ++ blank ++ others, .more hliteral hblank hothers, ?_⟩
        rw [hrest, hleft]
        simp
  | case4 c rest hc =>
      simp only [Except.ok.injEq, Prod.mk.injEq] at hargument
      obtain ⟨rfl, rfl⟩ := hargument
      exact Or.inl ⟨by simpa using hc, rfl, rfl⟩

/-! ## Lists of arguments -/

/-- What is read of a list of arguments hangs on its first character that is no white space. -/
theorem arguments_eq (expected : Bool) (t : Text) :
    arguments expected t =
      match t.trimStart with
      | [] => .error .unclosedArguments
      | c :: rest =>
          if c = ')' then if expected then .error .trailingComma else .ok ([], rest)
          else if c = ',' then .error .emptyArgument
          else if !isQuote c then .error (.unquotedArgument (c :: rest))
          else
            match argument (c :: rest) with
            | .error flaw => .error flaw
            | .ok (_, []) => .error .unclosedArguments
            | .ok (arg, d :: tail) =>
                if d = ',' then (arguments true tail).map fun found => (arg :: found.1, found.2)
                else if d = ')' then .ok ([arg], tail)
                else .error (.noCommaOrParenthesis (d :: tail)) := by
  rw [arguments]
  split
  · rename_i hnil
    rw [hnil]
  · rename_i c rest hcons
    simp only [hcons]
    split
    · rfl
    · split
      · rfl
      · split
        · rfl
        · split <;> rename_i harg <;> simp only [harg]

theorem arguments_of_blank {blank : Text} (hblank : Text.isBlank blank = true) (tail : Text) :
    arguments false (blank ++ ')' :: tail) = .ok ([], tail) := by
  have htrim : Text.trimStart (blank ++ ')' :: tail) = ')' :: tail := by
    rw [Text.trimStart_blank_append hblank]
    exact Text.trimStart_cons_of_not_white (by decide) tail
  rw [arguments_eq, htrim]
  rfl

/-- An argument that is read is followed by a comma and more arguments, or by the closing
parenthesis. -/
theorem IsArgument.arguments_append {written value : Text} (hwritten : IsArgument written value)
    {d : Char} {tail : Text} (hstops : Stops (d :: tail)) (expected : Bool) :
    arguments expected (written ++ d :: tail) =
      if d = ',' then (arguments true tail).map fun found => (value :: found.1, found.2)
      else if d = ')' then .ok ([value], tail)
      else .error (.noCommaOrParenthesis (d :: tail)) := by
  cases hwritten with
  | spaced hblank hliterals =>
      have hargument := hliterals.argument_append hstops
      rw [arguments_eq, List.append_assoc, Text.trimStart_blank_append hblank,
        hliterals.trimStart_append]
      obtain ⟨quote, more, hquote, rfl⟩ := hliterals.exists_quote
      have hclose : quote ≠ ')' := by
        rintro rfl
        cases hquote
      have hcomma : quote ≠ ',' := by
        rintro rfl
        cases hquote
      rw [List.cons_append] at hargument ⊢
      simp only [hclose, hcomma, hquote, hargument, if_false, Bool.not_true, Bool.false_eq_true]

theorem stops_comma (t : Text) : Stops (',' :: t) := by
  rintro c ⟨⟩
  decide

theorem stops_parenthesis (t : Text) : Stops (')' :: t) := by
  rintro c ⟨⟩
  decide

/-- A list of arguments is read up to the parenthesis that closes it. -/
theorem IsArgumentList.arguments_append {list : Text} {args : List Text}
    (hlist : IsArgumentList list args) {expected : Bool} (hexpected : expected = true → args ≠ [])
    (tail : Text) : arguments expected (list ++ ')' :: tail) = .ok (args, tail) := by
  cases hlist with
  | none hblank =>
      have hfirst : expected = false := by
        cases expected with
        | false => rfl
        | true => exact absurd rfl (hexpected rfl)
      rw [hfirst]
      exact arguments_of_blank hblank tail
  | some hne hpieces =>
      clear hexpected
      induction hpieces generalizing expected with
      | nil => exact absurd rfl hne
      | @cons piece arg pieces args hpiece hpieces ih =>
          cases pieces with
          | nil =>
              cases hpieces
              rw [Text.joined, hpiece.arguments_append (stops_parenthesis tail)]
              rfl
          | cons next pieces =>
              have hmore := @ih true (List.cons_ne_nil next pieces)
              rw [Text.joined, List.append_assoc, List.append_assoc]
              show arguments expected
                (piece ++ ',' :: (Text.joined "," (next :: pieces) ++ ')' :: tail)) = _
              rw [hpiece.arguments_append (stops_comma _), if_pos rfl, hmore]
              rfl

/-- A piece before a list of arguments, which may not be empty, makes it one longer. -/
theorem IsArgumentList.cons {piece arg list : Text} {args : List Text}
    (hpiece : IsArgument piece arg) (hlist : IsArgumentList list args) (hargs : args ≠ []) :
    IsArgumentList (piece ++ ',' :: list) (arg :: args) := by
  cases hlist with
  | none hblank => exact absurd rfl hargs
  | @some pieces args hne hpieces =>
      have hjoined : Text.joined "," (piece :: pieces) =
          piece ++ ',' :: Text.joined "," pieces := by
        rw [Text.joined_cons_of_ne_nil hne, List.append_assoc]
        rfl
      have hlonger := IsArgumentList.some (List.cons_ne_nil piece pieces) (.cons hpiece hpieces)
      rwa [hjoined] at hlonger

/-- What is read from the first quote on is an argument. -/
theorem isArgument_of_argument {t rest arg tail : Text} {c : Char}
    (htrim : t.trimStart = c :: rest) (hc : isQuote c = true)
    (hargument : argument (c :: rest) = .ok (arg, tail)) :
    ∃ written, IsArgument written arg ∧ t = written ++ tail := by
  obtain ⟨blank, hblank, ht⟩ := Text.exists_trimStart t
  rcases isLiterals_of_argument hargument with ⟨hhead, -⟩ | ⟨literals, hliterals, hrest⟩
  · rw [hhead c rfl] at hc
    cases hc
  · refine ⟨blank ++ literals, .spaced hblank hliterals, ?_⟩
    rw [ht, htrim, hrest, List.append_assoc]

/-- What is read from a text is a list of arguments with the parenthesis that closes it. -/
theorem isArgumentList_of_arguments {expected : Bool} {t tail : Text} {args : List Text}
    (harguments : arguments expected t = .ok (args, tail)) :
    ∃ list, IsArgumentList list args ∧ (expected = true → args ≠ []) ∧
      t = list ++ ')' :: tail := by
  fun_induction arguments expected t generalizing args with
  | case1 | case2 | case4 | case5 | case6 | case7 | case10 => cases harguments
  | case3 expected t rest hexpected htrim =>
      simp only [Except.ok.injEq, Prod.mk.injEq] at harguments
      obtain ⟨rfl, rfl⟩ := harguments
      obtain ⟨blank, hblank, ht⟩ := Text.exists_trimStart t
      exact ⟨blank, .none hblank, fun htrue => absurd htrue hexpected, by rw [ht, htrim]⟩
  | case8 expected t c rest htrim hclose hcomma hquote arg others hargument ih =>
      obtain ⟨⟨args', left⟩, hothers, heq⟩ := Outcome.map_eq_ok_iff.1 harguments
      simp only [Prod.mk.injEq] at heq
      obtain ⟨rfl, rfl⟩ := heq
      obtain ⟨written, hwritten, ht⟩ :=
        isArgument_of_argument htrim (by simpa using hquote) hargument
      obtain ⟨list, hlist, hne, hrest⟩ := ih hothers
      refine ⟨written ++ ',' :: list, hlist.cons hwritten (hne rfl), fun _ => by simp, ?_⟩
      rw [ht, hrest]
      simp
  | case9 expected t c rest htrim hclose hcomma hquote arg others hargument =>
      simp only [Except.ok.injEq, Prod.mk.injEq] at harguments
      obtain ⟨rfl, rfl⟩ := harguments
      obtain ⟨written, hwritten, ht⟩ :=
        isArgument_of_argument htrim (by simpa using hquote) hargument
      exact ⟨written, .some (List.cons_ne_nil written []) (.cons hwritten .nil),
        fun _ => by simp, ht⟩

theorem arguments_eq_ok_iff {expected : Bool} {t tail : Text} {args : List Text} :
    arguments expected t = .ok (args, tail) ↔
      ∃ list, IsArgumentList list args ∧ (expected = true → args ≠ []) ∧
        t = list ++ ')' :: tail := by
  constructor
  · exact isArgumentList_of_arguments
  · rintro ⟨list, hlist, hexpected, rfl⟩
    exact hlist.arguments_append hexpected tail

/-! ## Tokens -/

/-- A list of arguments is read to the end of the text but for white space. -/
theorem argumentList_eq_ok_iff {t : Text} {args : List Text} :
    argumentList t = .ok args ↔
      ∃ list blank, IsArgumentList list args ∧ Text.isBlank blank = true ∧
        t = list ++ ')' :: blank := by
  unfold argumentList
  rw [Outcome.bind_eq_ok_iff]
  constructor
  · rintro ⟨⟨found, tail⟩, harguments, hok⟩
    obtain ⟨list, hlist, -, ht⟩ := arguments_eq_ok_iff.1 harguments
    cases htail : tail.trimStart with
    | nil =>
        simp only [htail, pure, Except.pure, Except.ok.injEq] at hok
        obtain rfl := hok
        exact ⟨list, tail, hlist, Text.isBlank_of_trimStart htail, ht⟩
    | cons c rest => simp [htail] at hok
  · rintro ⟨list, blank, hlist, hblank, ht⟩
    refine ⟨(args, blank), arguments_eq_ok_iff.2 ⟨list, hlist, by simp, ht⟩, ?_⟩
    simp only [Text.trimStart_of_isBlank hblank]
    rfl

/-- A function name and what is read after it, if anything. -/
theorem call_eq_ok_iff_read {t name : Text} {args : List Text} :
    call t = .ok (name, args) ↔
      IsDotted name ∧
        (match Text.splitOnce? "(" t with
          | some (front, list) => (argumentList list).map (front, ·)
          | none => .ok (t, [])) = .ok (name, args) := by
  have hcall : call t =
      (match Text.splitOnce? "(" t with
        | some (front, list) => (argumentList list).map (front, ·)
        | none => .ok (t, [])) >>= fun found =>
          if found.1.isEmpty then .error .noFunction
          else if isFunctionName found.1 then .ok found
          else .error (.badFunction found.1) := by
    unfold call
    cases Text.splitOnce? "(" t <;> rfl
  rw [hcall, Outcome.bind_eq_ok_iff]
  constructor
  · rintro ⟨found, hread, hok⟩
    split at hok
    · cases hok
    · split at hok
      · rename_i hname
        cases hok
        exact ⟨isFunctionName_iff.1 hname, hread⟩
      · cases hok
  · rintro ⟨hname, hread⟩
    have hempty : name.isEmpty = false := by simpa using hname.ne_nil
    exact ⟨(name, args), hread, by simp [hempty, isFunctionName_iff.2 hname]⟩

theorem IsDotted.parenthesis_not_mem {name : Text} (hname : IsDotted name) : '(' ∉ name := by
  intro hmem
  rcases hname.char_of_mem hmem with hchar | hpoint
  · cases hchar
  · cases hpoint

/-- A function with its arguments is read from a text that does not end with white space. -/
theorem call_eq_ok_iff {t name : Text} {args : List Text}
    (hlast : ∀ front c, t = front ++ [c] → isWhite c = false) :
    call t = .ok (name, args) ↔ IsCall t name args := by
  rw [call_eq_ok_iff_read]
  constructor
  · rintro ⟨hname, hread⟩
    cases hsplit : Text.splitOnce? "(" t with
    | none =>
        simp only [hsplit, Except.ok.injEq, Prod.mk.injEq] at hread
        obtain ⟨rfl, rfl⟩ := hread
        exact .bare hname
    | some found =>
        obtain ⟨front, rest⟩ := found
        simp only [hsplit, Outcome.map_eq_ok_iff, Prod.mk.injEq] at hread
        obtain ⟨args', hargs, rfl, rfl⟩ := hread
        obtain ⟨list, blank, hlist, hblank, rfl⟩ := argumentList_eq_ok_iff.1 hargs
        have ht := Text.append_of_splitOnce? hsplit
        -- White space after the parenthesis would be white space at the end of the text.
        have hnil : blank = [] := by
          rcases List.eq_nil_or_concat blank with hnil | ⟨init, c, hend⟩
          · exact hnil
          · rw [List.concat_eq_append] at hend
            have hwhite := List.all_eq_true.1 hblank c (by simp [hend])
            rw [hlast (front ++ "(" ++ list ++ ')' :: init) c (by rw [ht, hend]; simp)] at hwhite
            cases hwhite
        have hcall := IsCall.applied hname hlist
        rw [hnil] at ht
        rw [ht]
        simpa using hcall
  · intro hcall
    cases hcall with
    | bare hname =>
        have hsplit : Text.splitOnce? "(" t = none := by
          refine Text.splitOnce?_eq_none_iff.2 fun front rest ht => ?_
          refine hname.parenthesis_not_mem ?_
          rw [ht]
          simp
        exact ⟨hname, by rw [hsplit]⟩
    | @applied name list args hname hlist =>
        have hfirst : Text.splitOnce? "(" ("(" ++ (list ++ ")")) = some ([], list ++ ")") := rfl
        have hsplit := Text.splitOnce?_append_left rfl hname.parenthesis_not_mem hfirst
        rw [List.append_nil, ← List.append_assoc, ← List.append_assoc] at hsplit
        refine ⟨hname, ?_⟩
        simp only [hsplit]
        have hargs : argumentList (list ++ ")") = .ok args :=
          argumentList_eq_ok_iff.2 ⟨list, [], hlist, rfl, rfl⟩
        rw [hargs]
        rfl

theorem ofWord?_eq_some_iff {word : Text} {scope : Namespace} :
    Namespace.ofWord? word = some scope ↔ word = scope.word := by
  constructor
  · intro h
    unfold Namespace.ofWord? at h
    split at h
    · rename_i hword
      rw [hword, ← Option.some.inj h]
    · split at h
      · rename_i hword
        rw [hword, ← Option.some.inj h]
      · cases h
  · rintro rfl
    exact Namespace.ofWord?_word scope

/-- The namespace is what stands before the first separator. -/
theorem splitOnce?_separator (scope : Namespace) (rest : Text) :
    Text.splitOnce? separator (scope.word ++ separator ++ rest) = some (scope.word, rest) := by
  have hcolon : ':' ∉ scope.word := by cases scope <;> decide
  have hfirst : Text.splitOnce? separator (separator ++ rest) = some ([], rest) := rfl
  have hsplit := Text.splitOnce?_append_left rfl hcolon hfirst
  rwa [List.append_nil, ← List.append_assoc] at hsplit

/-- The text between the braces of a token is read without the white space around it. -/
theorem ofInner_eq_ok_iff {raw : Text} {token : Token} :
    ofInner raw = .ok token ↔ IsToken raw.trim token := by
  obtain ⟨scope, name, args⟩ := token
  have hlast : ∀ {front rest : Text}, raw.trim = front ++ separator ++ rest →
      ∀ init c, rest = init ++ [c] → isWhite c = false := by
    intro front rest htrim init c hrest
    refine @Text.not_white_of_trim raw (front ++ separator ++ init) c ?_
    rw [htrim, hrest, List.append_assoc _ init]
  unfold ofInner
  constructor
  · intro h
    cases hsplit : Text.splitOnce? separator raw.trim with
    | none => simp [hsplit] at h
    | some found =>
        obtain ⟨word, rest⟩ := found
        have htrim := Text.append_of_splitOnce? hsplit
        simp only [hsplit] at h
        cases hscope : Namespace.ofWord? word with
        | none => simp [hscope] at h
        | some scope' =>
            simp only [hscope] at h
            cases hcall : call rest with
            | error flaw => simp [hcall] at h
            | ok found =>
                simp only [hcall, Except.ok.injEq, Token.mk.injEq] at h
                obtain ⟨rfl, rfl, rfl⟩ := h
                rw [htrim, ofWord?_eq_some_iff.1 hscope]
                exact .qualified scope' ((call_eq_ok_iff (hlast htrim)).1 hcall)
  · intro htoken
    generalize htrim : raw.trim = t at htoken
    cases htoken with
    | qualified scope hcall =>
        have hread := (call_eq_ok_iff (hlast htrim)).2 hcall
        simp only [splitOnce?_separator, Namespace.ofWord?_word, hread]

theorem inner_eq_iff {t body : Text} : inner t = body ↔ IsInside t body := by
  have hbraces : ∀ {inside : Text},
      (Text.after? opening t).bind (Text.before? closing) = some inside ↔
        t = opening ++ inside ++ closing := by
    intro inside
    simp only [Option.bind_eq_some_iff, Text.after?_eq_some_iff, Text.before?_eq_some_iff]
    constructor
    · rintro ⟨rest, rfl, rfl⟩
      rw [List.append_assoc]
    · rintro rfl
      exact ⟨inside ++ closing, by rw [List.append_assoc], rfl⟩
  unfold inner
  cases hfound : (Text.after? opening t).bind (Text.before? closing) with
  | some inside =>
      obtain rfl := hbraces.1 hfound
      constructor
      · rintro rfl
        exact .braced inside
      · intro h
        generalize ht : opening ++ inside ++ closing = t at h
        cases h with
        | braced => simpa using ht
        | unbraced hnone => exact absurd ht.symm (hnone inside)
  | none =>
      have hnone : ∀ inside, t ≠ opening ++ inside ++ closing := by
        intro inside ht
        rw [hbraces.2 ht] at hfound
        cases hfound
      constructor
      · rintro rfl
        exact .unbraced hnone
      · intro h
        cases h with
        | braced => exact absurd rfl (hnone body)
        | unbraced => rfl

theorem parse_eq_ok_iff {s : Text} {token : Token} :
    parse s = .ok token ↔ ∃ body, IsInside s.trim body ∧ IsToken body.trim token := by
  unfold parse
  rw [ofInner_eq_ok_iff]
  constructor
  · intro htoken
    exact ⟨inner s.trim, inner_eq_iff.1 rfl, htoken⟩
  · rintro ⟨body, hbody, htoken⟩
    rwa [inner_eq_iff.2 hbody]

/-- Braces on both sides are taken off. -/
theorem parse_braced (body : Text) : parse (opening ++ body ++ closing) = ofInner body := by
  have htrim : (opening ++ body ++ closing).trim = opening ++ body ++ closing := by
    refine Text.trim_eq_self ⟨'\x7b', '\x7b' :: body ++ closing, rfl, by decide⟩ ?_
    exact ⟨opening ++ body ++ ['\x7d'], '\x7d', by simp [closing], by decide⟩
  unfold parse
  rw [htrim, inner_eq_iff.2 (.braced body)]

/-! ## Written forms -/

/-- A function, with or without arguments, ends with a character that is no white space. -/
theorem IsCall.exists_last {call name : Text} {args : List Text} (hcall : IsCall call name args) :
    ∃ front c, call = front ++ [c] ∧ isWhite c = false := by
  cases hcall with
  | bare hname =>
      rcases List.eq_nil_or_concat call with hnil | ⟨front, c, hlast⟩
      · exact absurd hnil hname.ne_nil
      · rw [List.concat_eq_append] at hlast
        refine ⟨front, c, hlast, ?_⟩
        have hmem : c ∈ call := by simp [hlast]
        rcases hname.char_of_mem hmem with hchar | rfl
        · exact not_white_of_isIdentifierChar hchar
        · decide
  | applied hname hlist => exact ⟨_, ')', rfl, by decide⟩

namespace IsToken

variable {t : Text} {token : Token}

/-- What is written between the braces of a token has no white space around it. -/
theorem trim_eq_self (htoken : IsToken t token) : t.trim = t := by
  cases htoken with
  | qualified scope hcall =>
      rename_i call name args
      refine Text.trim_eq_self ?_ ?_
      · cases scope with
        | comp => exact ⟨'C', _, rfl, by decide⟩
        | attr => exact ⟨'A', _, rfl, by decide⟩
      · obtain ⟨front, c, hlast, hc⟩ := hcall.exists_last
        exact ⟨scope.word ++ separator ++ front, c, by rw [hlast]; simp, hc⟩

/-- It is read with braces around it. -/
theorem parse_written (htoken : IsToken t token) :
    parse (opening ++ t ++ closing) = .ok token := by
  rw [parse_braced, ofInner_eq_ok_iff, htoken.trim_eq_self]
  exact htoken

/-- It is read without braces around it as well. -/
theorem parse_bare (htoken : IsToken t token) : parse t = .ok token := by
  refine parse_eq_ok_iff.2 ⟨t, ?_, by rwa [htoken.trim_eq_self]⟩
  rw [htoken.trim_eq_self]
  refine .unbraced fun body hbody => ?_
  cases htoken with
  | qualified scope hcall =>
      cases scope with
      | comp => cases hbody
      | attr => cases hbody

end IsToken

/-- A text is read as a token exactly if, without the white space around it, without braces on
both sides and again without the white space around it, it is written as the grammar says, and
the token is what the grammar gives.  Empty parentheses are as good as none. -/
theorem parse_iff_grammar :
    (∀ (s : Text) (token : Token),
      parse s = .ok token ↔ ∃ body, IsInside s.trim body ∧ IsToken body.trim token) ∧
    ∀ (scope : Namespace) (name : Text), IsDotted name →
      parse (scope.word ++ separator ++ (name ++ "(" ++ ")")) = .ok ⟨scope, name, []⟩ ∧
        parse (scope.word ++ separator ++ name) = .ok ⟨scope, name, []⟩ := by
  refine ⟨fun s token => parse_eq_ok_iff, fun scope name hname => ⟨?_, ?_⟩⟩
  · have hcall : IsCall (name ++ "(".toList ++ [] ++ ")".toList) name [] :=
      .applied hname (.none rfl)
    rw [List.append_nil] at hcall
    exact IsToken.parse_bare (.qualified scope hcall)
  · exact IsToken.parse_bare (.qualified scope (.bare hname))

/-- Two adjacent literals of different quotes are one argument, in which an escape that is none
stays as it is. -/
theorem parse_adjacentLiterals :
    IsDotted "if.nth" ∧
      parse " \x7b\x7bAttr::if.nth( 'a\\q' \"\\n,)\" )\x7d\x7d" =
        .ok ⟨.attr, "if.nth", ["a\\q\n,)"]⟩ ∧
      parse "Attr::if.nth()" = .ok ⟨.attr, "if.nth", []⟩ := by
  have hname : IsDotted "if.nth" := by decide
  have hsingle : IsLiteral "'a\\q'" "a\\q" :=
    .quoted (Or.inr rfl)
      (.plain (by decide) (by decide) (@IsQuoted.escape _ 'q' "\\q" _ _ (.other (by decide)) .nil))
  have hdouble : IsLiteral "\"\\n,)\"" "\n,)" :=
    .quoted (Or.inl rfl)
      (.escape .lineFeed (.plain (by decide) (by decide) (.plain (by decide) (by decide) .nil)))
  have hargument : IsArgument " 'a\\q' \"\\n,)\" " "a\\q\n,)" :=
    @IsArgument.spaced " " _ _ rfl (@IsLiterals.more _ _ " " _ _ hsingle rfl
      (@IsLiterals.last _ _ " " hdouble rfl))
  have hlist := IsArgumentList.some (List.cons_ne_nil _ []) (.cons hargument .nil)
  have htoken : IsToken "Attr::if.nth( 'a\\q' \"\\n,)\" )" ⟨.attr, "if.nth", ["a\\q\n,)"]⟩ :=
    .qualified .attr (.applied hname hlist)
  refine ⟨hname, ?_, (parse_iff_grammar.2 .attr "if.nth" hname).1⟩
  exact (parse_iff_grammar.1 _ _).2
    ⟨_, .braced "Attr::if.nth( 'a\\q' \"\\n,)\" )", htoken⟩

end Token
end Stencil
