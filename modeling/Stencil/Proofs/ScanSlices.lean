import Stencil.Proofs.ByteSlices
import Stencil.Proofs.TokenGrammar
import Stencil.Proofs.TokenScan

namespace Stencil
namespace Token

/-!
# The scanner on byte offsets

`scan` and `Segment.replace` work on the parts of a line.  The computation that
a program does instead works on one line and on byte offsets into it: a cursor
goes through the line, each search is made in the slice from the cursor on, and
its result is an offset into this slice.  `scanFrom?` and `replaceFrom?` do the
same with every slice checked, so that `none` stands for a slice out of bounds
or off a boundary of characters.

* `scanAt?_eq` and `replaceAt?_eq`: there is no such slice on any line, and the
  tokens and texts are those of `scan` and `Segment.replace`.
* `argumentList?_eq`: the texts that the errors of the argument reader quote are
  slices too.
-/

open Text (byteSize from? upTo? slice?)

/-! ## One token -/

/-- The offset of what follows the identifier of a namespace, if a token begins here. -/
def namespaceEnd? (t : Text) : Option (Option Nat) := do
  let stop := byteSize (t.takeWhile isIdentifierChar)
  if stop = 0 then return none
  if !isIdentifier (← upTo? stop t) then return none
  return if separator.isPrefixOf (← from? stop t) then some stop else none

/-- Whether the closing braces of a token stand at an offset, where a character is read.  They
are looked for only outside quotes. -/
def closesAt? (body : Text) (index : Nat) (quote? : Option Char) (c : Char) : Option Bool :=
  if quote? = none ∧ isQuote c = false then
    (from? index body).map closing.isPrefixOf
  else some false

/-- The offset of the first closing braces outside quotes, from an offset of the text on. -/
def closeFrom? (body : Text) (index : Nat) (quote? : Option Char) (taken : Bool) :
    Text → Option (Option Nat)
  | [] => some none
  | c :: rest => do
      if ← closesAt? body index quote? c then return some index
      closeFrom? body (index + c.utf8Size) (quoteAfter quote? taken c).1
        (quoteAfter quote? taken c).2 rest

/-- The offset of the braces that close a token. -/
def close? (body : Text) : Option (Option Nat) := closeFrom? body 0 none false body

theorem namespaceEnd?_eq (t : Text) :
    namespaceEnd? t =
      some (if begins t = true then some (byteSize (t.takeWhile isIdentifierChar)) else none) := by
  -- Both slices are at the boundary where the identifier ends.
  have hfront : upTo? (byteSize (t.takeWhile isIdentifierChar)) t =
      some (t.takeWhile isIdentifierChar) :=
    Text.upTo?_eq_some_iff.2 ⟨_, List.takeWhile_append_dropWhile.symm, rfl⟩
  have hback : from? (byteSize (t.takeWhile isIdentifierChar)) t =
      some (t.dropWhile isIdentifierChar) :=
    Text.from?_eq_some_iff.2 ⟨_, List.takeWhile_append_dropWhile.symm, rfl⟩
  unfold namespaceEnd?
  by_cases hnil : t.takeWhile isIdentifierChar = []
  · simp [begins, hnil, isIdentifier]
  · have hsize : byteSize (t.takeWhile isIdentifierChar) ≠ 0 := fun h =>
      hnil (Text.byteSize_eq_zero_iff.1 h)
    by_cases hident : isIdentifier (t.takeWhile isIdentifierChar) = true
    · simp [begins, hsize, hfront, hback, hident]
    · simp [begins, hsize, hfront, hident]

/-- Whether the braces or the quote are looked at first makes no difference. -/
theorem closesAt?_eq (done : Text) (quote? : Option Char) (c : Char) (rest : Text) :
    closesAt? (done ++ c :: rest) (byteSize done) quote? c =
      some (decide (quote? = none ∧ closing.isPrefixOf (c :: rest) = true)) := by
  by_cases hopen : quote? = none ∧ isQuote c = false
  · rw [closesAt?, if_pos hopen, Text.from?_append, Option.map_some, hopen.1]
    simp only [true_and, Bool.decide_eq_true]
  · rw [closesAt?, if_neg hopen]
    refine congrArg some (Eq.symm (decide_eq_false fun hclose => hopen ⟨hclose.1, ?_⟩))
    obtain ⟨more, hmore⟩ := List.isPrefixOf_iff_prefix.1 hclose.2
    obtain rfl : '\x7d' = c := (List.cons.inj hmore).1
    rfl

/-- The search on offsets finds the braces that the search on texts finds. -/
theorem closeFrom?_eq (done rest : Text) (quote? : Option Char) (taken : Bool) :
    closeFrom? (done ++ rest) (byteSize done) quote? taken rest =
      some ((splitClosing? quote? taken rest).map fun found =>
        byteSize done + byteSize found.1) := by
  induction rest generalizing done quote? taken with
  | nil => rfl
  | cons c rest ih =>
      have hnext := ih (done ++ [c]) (quoteAfter quote? taken c).1 (quoteAfter quote? taken c).2
      rw [List.append_assoc, List.singleton_append, Text.byteSize_append, Text.byteSize_cons,
        Text.byteSize_nil, Nat.add_zero] at hnext
      rw [closeFrom?, closesAt?_eq, splitClosing?_cons, Option.bind_eq_bind, Option.bind_some]
      by_cases hclose : quote? = none ∧ closing.isPrefixOf (c :: rest) = true
      · simp [hclose]
      · rw [if_neg hclose, if_neg (by simpa using hclose), hnext]
        simp [Option.map_map, Function.comp_def, Nat.add_assoc]

theorem close?_eq (body : Text) :
    close? body = some ((splitClosing? none false body).map fun found => byteSize found.1) := by
  simpa [close?] using closeFrom?_eq [] body none false

/-! ## The cursor -/

/-- What the scanner finds from its cursor on. -/
inductive Turn where
  | finished
  | passed (cursor : Nat)
  | failed (cause : TokenError)
  | found (place : Located)

/-- One turn of the scanner, with its cursor at an offset in the line. -/
def turn? (line : Text) (cursor : Nat) : Option Turn := do
  match Text.find? opening (← from? cursor line) with
  | none => return .finished
  | some offset =>
      let start := cursor + offset
      let inside := start + byteSize opening
      let body ← from? inside line
      match ← namespaceEnd? body with
      | none => return .passed inside
      | some _ =>
          match ← close? body with
          | none => return .failed (.invalid (← from? start line) .unclosedToken)
          | some close =>
              match ofInner (← upTo? close body) with
              | .error cause => return .failed cause
              | .ok token => return .found ⟨token, start, inside + close + byteSize closing⟩

/-- What one turn finds in the text from the cursor on, where `offset` bytes come before it. -/
def turnOn (offset : Nat) (t : Text) : Turn :=
  match Text.splitOnce? opening t with
  | none => .finished
  | some (before, body) =>
      let start := offset + byteSize before
      if begins body then
        match splitClosing? none false body with
        | none => .failed (.invalid (opening ++ body) .unclosedToken)
        | some (inner, _) =>
            match ofInner inner with
            | .error cause => .failed cause
            | .ok token => .found ⟨token, start, start + byteSize (opening ++ inner ++ closing)⟩
      else .passed (start + byteSize opening)

theorem turn?_eq (done t : Text) :
    turn? (done ++ t) (byteSize done) = some (turnOn (byteSize done) t) := by
  unfold turn? turnOn
  rw [Text.from?_append, Option.bind_eq_bind, Option.bind_some, Text.find?]
  cases hsplit : Text.splitOnce? opening t with
  | none => rfl
  | some found =>
      obtain ⟨before, body⟩ := found
      have ht := Text.append_of_splitOnce? hsplit
      have hstart : from? (byteSize done + byteSize before) (done ++ t) = some (opening ++ body) :=
        Text.from?_eq_some_iff.2 ⟨done ++ before, by simp [ht], Text.byteSize_append _ _⟩
      have hinside : from? (byteSize done + byteSize before + byteSize opening) (done ++ t) =
          some body :=
        Text.from?_eq_some_iff.2 ⟨done ++ before ++ opening, by simp [ht], by simp [Nat.add_assoc]⟩
      simp only [Option.map_some, hinside, Option.bind_eq_bind, Option.bind_some,
        namespaceEnd?_eq]
      by_cases hbegins : begins body = true
      · simp only [hbegins, if_true, close?_eq, Option.bind_some]
        cases hclose : splitClosing? none false body with
        | none => simp [hstart]
        | some closed =>
            obtain ⟨inner, rest⟩ := closed
            have hinner : upTo? (byteSize inner) body = some inner := by
              rw [append_of_splitClosing? hclose, List.append_assoc, Text.upTo?_append]
            simp only [Option.map_some, hinner, Option.bind_some]
            cases ofInner inner with
            | error cause => rfl
            | ok token => simp [Nat.add_assoc]
      · simp [hbegins]

/-- A turn that does not end the scan moves the cursor on, and starts before the end of the
line. -/
theorem lt_of_turn? {line : Text} {cursor next : Nat} {turn : Turn}
    (hturn : turn? line cursor = some turn)
    (hnext : turn = .passed next ∨ ∃ place, turn = .found place ∧ place.stop = next) :
    cursor < next ∧ cursor < byteSize line := by
  have hopening : byteSize opening = 2 := rfl
  obtain ⟨t, hfrom, -⟩ := Option.bind_eq_some_iff.1 hturn
  obtain ⟨done, rfl, rfl⟩ := Text.from?_eq_some_iff.1 hfrom
  rw [turn?_eq, Option.some.injEq] at hturn
  subst hturn
  unfold turnOn at hnext
  split at hnext
  · simp at hnext
  · rename_i before body hsplit
    have hsize : byteSize t = byteSize before + 2 + byteSize body := by
      rw [Text.append_of_splitOnce? hsplit, Text.byteSize_append, Text.byteSize_append, hopening]
    split at hnext
    · split at hnext
      · simp at hnext
      · split at hnext
        · simp at hnext
        · simp only [reduceCtorEq, false_or, Turn.found.injEq] at hnext
          obtain ⟨place, rfl, rfl⟩ := hnext
          simp only [Text.byteSize_append, hopening, hsize]
          omega
    · simp only [Turn.passed.injEq, reduceCtorEq, false_and, exists_false, or_false] at hnext
      subst hnext
      simp only [Text.byteSize_append, hopening, hsize]
      omega

/-- The tokens of a line from a cursor on, with their places. -/
def scanFrom? (line : Text) (cursor : Nat) : Option (Except TokenError (List Located)) :=
  match _hturn : turn? line cursor with
  | none => none
  | some .finished => some (.ok [])
  | some (.failed cause) => some (.error cause)
  | some (.passed next) => scanFrom? line next
  | some (.found place) => (scanFrom? line place.stop).map fun rest => rest.map (place :: ·)
termination_by byteSize line - cursor
decreasing_by
  · have := lt_of_turn? _hturn (Or.inl rfl)
    omega
  · have := lt_of_turn? _hturn (Or.inr ⟨_, rfl, rfl⟩)
    omega

/-- The tokens of a line with their places, found with a cursor that starts where the line
does. -/
def scanAt? (line : Text) : Option (Except TokenError (List Located)) := scanFrom? line 0

/-- The scan is its first turn and what this turn leaves to do. -/
theorem scanFrom?_eq_bind (line : Text) (cursor : Nat) :
    scanFrom? line cursor = (turn? line cursor).bind fun turn =>
      match turn with
      | .finished => some (.ok [])
      | .failed cause => some (.error cause)
      | .passed next => scanFrom? line next
      | .found place => (scanFrom? line place.stop).map fun rest => rest.map (place :: ·) := by
  rw [scanFrom?]
  split <;> simp_all

/-- The turns from a cursor on find the tokens of what is left of the line. -/
theorem scanFrom?_eq (done t : Text) :
    scanFrom? (done ++ t) (byteSize done) =
      some ((scan t).map (Segment.locatedFrom (byteSize done))) := by
  fun_induction scan t generalizing done with
  | case1 t hsplit =>
      rw [scanFrom?_eq_bind, turn?_eq, Option.bind_some]
      simp only [turnOn, hsplit]
      rfl
  | case2 t before body hsplit hbegins hclose =>
      rw [scanFrom?_eq_bind, turn?_eq, Option.bind_some]
      simp only [turnOn, hsplit, hbegins, if_true, hclose]
      rfl
  | case3 t before body hsplit hbegins inner rest hclose cause hinner =>
      rw [scanFrom?_eq_bind, turn?_eq, Option.bind_some]
      simp only [turnOn, hsplit, hbegins, if_true, hclose, hinner]
      rfl
  | case4 t before body hsplit hbegins inner rest hclose token hinner ih =>
      -- The next turn has the text up to the end of the token behind it.
      have hline : done ++ t = done ++ before ++ (opening ++ inner ++ closing) ++ rest := by
        rw [Text.append_of_splitOnce? hsplit, append_of_splitClosing? hclose]
        simp
      have hnext := ih (done ++ before ++ (opening ++ inner ++ closing))
      rw [← hline, Text.byteSize_append, Text.byteSize_append] at hnext
      rw [scanFrom?_eq_bind, turn?_eq, Option.bind_some]
      simp only [turnOn, hsplit, hbegins, if_true, hclose, hinner, hnext, Option.map_some]
      cases scan rest <;> rfl
  | case5 t before body hsplit hbegins ih =>
      have hline : done ++ t = done ++ before ++ opening ++ body := by
        rw [Text.append_of_splitOnce? hsplit]
        simp
      have hnext := ih (done ++ before ++ opening)
      rw [← hline, Text.byteSize_append, Text.byteSize_append] at hnext
      rw [scanFrom?_eq_bind, turn?_eq, Option.bind_some]
      simp only [turnOn, hsplit, Bool.eq_false_iff.2 hbegins, Bool.false_eq_true, if_false, hnext]
      cases scan body with
      | error cause => rfl
      | ok others => simp [Except.map, Segment.locatedFrom, Nat.add_assoc]

/-- No slice that the scanner takes is out of bounds or off a boundary, and it finds the tokens of
the parts of the line. -/
theorem scanAt?_eq (line : Text) : scanAt? line = some ((scan line).map Segment.located) :=
  scanFrom?_eq [] line

/-! ## Replacing -/

/-- The line from an offset on with every located token replaced by its text, where `index`
tokens come before. -/
def replaceFrom? {ε : Type} (render : Nat → Token → Except ε Text) (line : Text) (last : Nat)
    (index : Nat) : List Located → Option (Except ε Text)
  | [] => (from? last line).map .ok
  | place :: rest => do
      let gap ← slice? last place.start line
      match render index place.token with
      | .error cause => return .error cause
      | .ok text =>
          return (← replaceFrom? render line place.stop (index + 1) rest).map
            fun more => gap ++ text ++ more

/-- The line with every located token replaced by its text. -/
def replaceAt? {ε : Type} (render : Nat → Token → Except ε Text) (line : Text)
    (places : List Located) : Option (Except ε Text) := replaceFrom? render line 0 0 places

/-- The plain text since the last token is kept apart from what comes after it. -/
theorem replaceFrom?_eq {ε : Type} (render : Nat → Token → Except ε Text) (done gap : Text)
    (index : Nat) (parts : List Segment) :
    replaceFrom? render (done ++ gap ++ parts.flatMap Segment.source) (byteSize done) index
        (Segment.locatedFrom (byteSize done + byteSize gap) parts) =
      some ((Segment.replaceFrom render index parts).map (gap ++ ·)) := by
  induction parts generalizing done gap index with
  | nil =>
      simp [Segment.locatedFrom, replaceFrom?, Segment.replaceFrom, Except.map]
  | cons part rest ih =>
      cases part with
      | plain text =>
          have hnext := ih done (gap ++ text) index
          rw [Text.byteSize_append] at hnext
          simp only [Segment.locatedFrom, Segment.replaceFrom, List.flatMap_cons, Segment.source]
          rw [← List.append_assoc, List.append_assoc done gap text, Nat.add_assoc, hnext]
          cases Segment.replaceFrom render index rest with
          | error cause => rfl
          | ok more => simp [Except.map, bind, Except.bind, pure, Except.pure]
      | token source token =>
          have hgap : slice? (byteSize done) (byteSize done + byteSize gap)
              (done ++ gap ++ (source ++ rest.flatMap Segment.source)) = some gap :=
            Text.slice?_eq_some_iff.2 ⟨done, _, rfl, rfl, rfl⟩
          have hnext := ih (done ++ gap ++ source) [] (index + 1)
          rw [List.append_nil, List.append_assoc (done ++ gap)] at hnext
          simp only [Text.byteSize_append, Text.byteSize_nil, Nat.add_zero] at hnext
          simp only [Segment.locatedFrom, Segment.replaceFrom, List.flatMap_cons, Segment.source,
            replaceFrom?, hgap, hnext, Option.bind_eq_bind, Option.bind_some]
          cases render index token with
          | error cause => rfl
          | ok text =>
              cases Segment.replaceFrom render (index + 1) rest with
              | error cause => rfl
              | ok more => simp [Except.map, bind, Except.bind, pure, Except.pure]

/-- No slice that the replacement takes is out of bounds or off a boundary, and the line that
comes out is the one that its parts give. -/
theorem replaceAt?_eq {ε : Type} (render : Nat → Token → Except ε Text) (parts : List Segment) :
    replaceAt? render (parts.flatMap Segment.source) (Segment.located parts) =
      some (Segment.replace render parts) := by
  have h := replaceFrom?_eq render [] [] 0 parts
  have hid : ∀ outcome : Except ε Text, outcome.map ([] ++ ·) = outcome := by
    rintro (cause | text) <;> rfl
  rw [hid] at h
  exact h

/-! ## What the errors of the arguments quote -/

/-- The text from the character on at which a flaw was found. -/
def quoted? : TokenFlaw → Option Text
  | .unquotedArgument rest => some rest
  | .unterminatedString rest => some rest
  | .noCommaOrParenthesis rest => some rest
  | .afterArguments rest => some rest
  | _ => none

/-- A flaw with the text that it quotes taken as a slice of the arguments, from the offset of
the character at which it was found. -/
def sliced? (t : Text) : TokenFlaw → Option TokenFlaw
  | .unquotedArgument rest => (from? (byteSize t - byteSize rest) t).map .unquotedArgument
  | .unterminatedString rest => (from? (byteSize t - byteSize rest) t).map .unterminatedString
  | .noCommaOrParenthesis rest => (from? (byteSize t - byteSize rest) t).map .noCommaOrParenthesis
  | .afterArguments rest => (from? (byteSize t - byteSize rest) t).map .afterArguments
  | flaw => some flaw

/-- Reads the arguments of a token, with slices of their text in the errors. -/
def argumentList? (t : Text) : Option (Except TokenFlaw (List Text)) :=
  match argumentList t with
  | .ok args => some (.ok args)
  | .error flaw => (sliced? t flaw).map .error

/-- Whatever a flaw quotes is an end of the text. -/
def QuotesEnd (flaw : TokenFlaw) (t : Text) : Prop := ∀ rest, quoted? flaw = some rest → rest <:+ t

theorem QuotesEnd.of_isSuffix {flaw : TokenFlaw} {t s : Text} (h : QuotesEnd flaw t)
    (hs : t <:+ s) : QuotesEnd flaw s := fun rest hrest => (h rest hrest).trans hs

theorem QuotesEnd.sliced? {flaw : TokenFlaw} {t : Text} (h : QuotesEnd flaw t) :
    sliced? t flaw = some flaw := by
  cases flaw with
  | unquotedArgument rest | unterminatedString rest | noCommaOrParenthesis rest
    | afterArguments rest =>
      rw [Token.sliced?, Text.from?_of_isSuffix (h rest rfl), Option.map_some]
  | _ => rfl

theorem quotesEnd_of_argument {t : Text} {flaw : TokenFlaw} (h : argument t = .error flaw) :
    QuotesEnd flaw t := by
  fun_induction argument t with
  | case1 => cases h
  | case2 c rest hquote hbody =>
      obtain rfl := Except.error.inj h
      intro quoted hquoted
      obtain rfl := Option.some.inj hquoted
      exact List.suffix_rfl
  | case3 c rest hquote body tail hbody ih =>
      -- The literal read and the white space after it stand before what the others quote.
      obtain ⟨written, -, rfl⟩ := (literalBody?_eq_some_iff hquote).1 hbody
      have htail : tail.trimStart <:+ c :: (written ++ c :: tail) :=
        (List.dropWhile_suffix _).trans ⟨c :: written ++ [c], by simp⟩
      cases hmore : argument tail.trimStart with
      | ok found => simp [hmore, Except.map] at h
      | error cause =>
          rw [hmore] at h
          obtain rfl := Except.error.inj h
          exact (ih hmore).of_isSuffix htail
  | case4 c rest hquote => cases h

theorem quotesEnd_of_arguments {expected : Bool} {t : Text} {flaw : TokenFlaw}
    (h : arguments expected t = .error flaw) : QuotesEnd flaw t := by
  fun_induction arguments expected t with
  | case1 | case2 | case4 | case7 =>
      obtain rfl := Except.error.inj h
      intro rest hrest
      cases hrest
  | case3 | case9 => cases h
  | case5 expected t c rest htrim hclose hcomma hquote =>
      obtain rfl := Except.error.inj h
      intro quoted hquoted
      obtain rfl := Option.some.inj hquoted
      rw [← htrim]
      exact List.dropWhile_suffix _
  | case6 expected t c rest htrim hclose hcomma hquote cause hargument =>
      obtain rfl := Except.error.inj h
      refine (quotesEnd_of_argument hargument).of_isSuffix ?_
      rw [← htrim]
      exact List.dropWhile_suffix _
  | case8 expected t c rest htrim hclose hcomma hquote arg others hargument ih =>
      obtain ⟨written, -, rfl⟩ := isArgument_of_argument htrim (by simpa using hquote) hargument
      cases hothers : arguments true others with
      | ok found => simp [hothers, Except.map] at h
      | error cause =>
          rw [hothers] at h
          obtain rfl := Except.error.inj h
          exact (ih hothers).of_isSuffix ⟨written ++ [','], by simp⟩
  | case10 expected t c rest htrim hclose hcomma hquote arg d tail hargument hnocomma hnoclose =>
      obtain ⟨written, -, rfl⟩ := isArgument_of_argument htrim (by simpa using hquote) hargument
      obtain rfl := Except.error.inj h
      intro quoted hquoted
      obtain rfl := Option.some.inj hquoted
      exact List.suffix_append written _

/-- No slice that the errors of the argument reader quote is out of bounds or off a boundary. -/
theorem argumentList?_eq (t : Text) : argumentList? t = some (argumentList t) := by
  unfold argumentList?
  cases hlist : argumentList t with
  | ok args => rfl
  | error flaw =>
      show (sliced? t flaw).map Except.error = some (Except.error flaw)
      suffices hquotes : QuotesEnd flaw t by rw [hquotes.sliced?, Option.map_some]
      unfold argumentList at hlist
      cases harguments : arguments false t with
      | error cause =>
          rw [harguments] at hlist
          obtain rfl := Except.error.inj hlist
          exact quotesEnd_of_arguments harguments
      | ok found =>
          obtain ⟨args, tail⟩ := found
          obtain ⟨list, -, -, rfl⟩ := arguments_eq_ok_iff.1 harguments
          rw [harguments] at hlist
          cases htail : tail.trimStart with
          | nil => simp [bind, Except.bind, pure, Except.pure, htail] at hlist
          | cons c rest =>
              simp only [bind, Except.bind, htail, Except.error.injEq] at hlist
              subst hlist
              intro quoted hquoted
              obtain rfl := Option.some.inj hquoted
              rw [← htail]
              exact (List.dropWhile_suffix _).trans ⟨list ++ [')'], by simp⟩

end Token
end Stencil
