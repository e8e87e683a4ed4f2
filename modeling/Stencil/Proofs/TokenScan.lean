import Mathlib.Algebra.Group.Nat.Even
import Stencil.Proofs.FunctionNames
import Stencil.Proofs.Occurrence
import Stencil.Proofs.Outcome
import Stencil.Token.Scan

namespace Stencil
namespace Token

/-!
# Where the scanner finds tokens

A token starts at two opening braces with an identifier and `::` directly after
them.  This module says exactly which of these places the scanner takes.

* `scan_append_token`: a text that scans by itself and ends in an even number of
  opening braces does not disturb the token after it.
* `scan_covers_start_iff`: a place where a token starts is inside a token found
  exactly if an even number of opening braces stands directly before it, or if
  it stands inside an earlier token.  The scanner passes over braces in pairs,
  so after an odd number it takes the last of them and the first of the token
  together and the token stays text.
-/

/-- The character that tokens open with, twice. -/
def openBrace : Char := '\x7b'

/-- The number of opening braces directly before the end of a text. -/
def bracesAtEnd (t : Text) : Nat := Text.endRun openBrace t

theorem opening_eq : opening = [openBrace, openBrace] := rfl

theorem closing_eq : closing = ['\x7d', '\x7d'] := rfl

/-! ## Beginnings and ends -/

/-- A token begins with an identifier and the separator, and with nothing else. -/
theorem begins_iff {t : Text} :
    begins t = true ↔ ∃ name rest, isIdentifier name = true ∧ t = name ++ separator ++ rest := by
  constructor
  · intro h
    simp only [begins, Bool.and_eq_true, List.isPrefixOf_iff_prefix] at h
    obtain ⟨hname, rest, hrest⟩ := h
    refine ⟨t.takeWhile isIdentifierChar, rest, hname, ?_⟩
    rw [List.append_assoc, hrest, List.takeWhile_append_dropWhile]
  · rintro ⟨name, rest, hname, rfl⟩
    have hall : ∀ c ∈ name, isIdentifierChar c = true := fun c hc =>
      isIdentifierChar_of_mem hname hc
    -- The identifier ends at the first colon.
    have hsep : ∀ more : Text, (separator ++ more).takeWhile isIdentifierChar = [] := by
      intro more
      rfl
    have htake : (name ++ separator ++ rest).takeWhile isIdentifierChar = name := by
      rw [List.append_assoc, List.takeWhile_append_of_pos hall, hsep, List.append_nil]
    have hdrop : (name ++ separator ++ rest).dropWhile isIdentifierChar = separator ++ rest := by
      rw [List.append_assoc, List.dropWhile_append_of_pos hall]
      rfl
    simp only [begins, htake, hdrop, hname, Bool.true_and, List.isPrefixOf_iff_prefix]
    exact List.prefix_append _ _

/-- More text does not undo a beginning. -/
theorem begins_append {t : Text} (h : begins t = true) (more : Text) :
    begins (t ++ more) = true := by
  obtain ⟨name, rest, hname, rfl⟩ := begins_iff.1 h
  exact begins_iff.2 ⟨name, rest ++ more, hname, by simp⟩

/-- A character that stands neither in identifiers nor in the separator is no part of a
beginning. -/
theorem begins_append_cons {c : Char} (hident : isIdentifierChar c = false)
    (hsep : c ∉ separator) (t more : Text) : begins (t ++ c :: more) = begins t := by
  apply Bool.eq_iff_iff.2
  constructor
  · intro h
    obtain ⟨name, rest, hname, heq⟩ := begins_iff.1 h
    rcases List.append_eq_append_iff.1 heq with ⟨middle, hhead, hmore⟩ | ⟨middle, ht, -⟩
    · -- The name and the separator would have to go on into the character.
      cases middle with
      | nil =>
          rw [List.append_nil] at hhead
          exact begins_iff.2 ⟨name, [], hname, by rw [← hhead, List.append_nil]⟩
      | cons d middle =>
          obtain ⟨rfl, -⟩ := List.cons.inj hmore
          have hmem : c ∈ name ++ separator := by simp [hhead]
          rcases List.mem_append.1 hmem with hmem | hmem
          · rw [isIdentifierChar_of_mem hname hmem] at hident
            cases hident
          · exact absurd hmem hsep
    · exact begins_iff.2 ⟨name, middle, hname, ht⟩
  · exact fun h => begins_append h _

/-- An opening brace is no part of a beginning. -/
theorem begins_append_openBrace (t more : Text) :
    begins (t ++ openBrace :: more) = begins t :=
  begins_append_cons (by decide) (by decide) t more

theorem begins_openBrace (more : Text) : begins (openBrace :: more) = false :=
  begins_append_openBrace [] more

/-- The quote that is open after a character, and whether a backslash takes the next one. -/
def quoteAfter (quote? : Option Char) (taken : Bool) (c : Char) : Option Char × Bool :=
  match quote? with
  | some quote =>
      if taken then (some quote, false)
      else if c = '\\' then (some quote, true)
      else if c = quote then (none, false)
      else (some quote, false)
  | none => if isQuote c then (some c, false) else (none, false)

/-- One step to the closing braces: they stand here, outside quotes, or the character is passed. -/
theorem splitClosing?_cons (quote? : Option Char) (taken : Bool) (c : Char) (rest : Text) :
    splitClosing? quote? taken (c :: rest) =
      if quote? = none ∧ closing.isPrefixOf (c :: rest) = true then some ([], rest.tail)
      else
        (splitClosing? (quoteAfter quote? taken c).1 (quoteAfter quote? taken c).2 rest).map
          fun found => (c :: found.1, found.2) := by
  cases quote? with
  | some quote =>
      simp only [splitClosing?, quoteAfter, reduceCtorEq, false_and, if_false]
      split
      · rfl
      · split
        · rfl
        · split <;> rfl
  | none =>
      simp only [splitClosing?, quoteAfter, true_and]
      -- A quote is no closing brace, so the order of the two tests does not matter.
      by_cases hquote : isQuote c = true
      · have hclose : closing.isPrefixOf (c :: rest) = false := by
          have hne : ('\x7d' == c) = false := by
            apply beq_false_of_ne
            rintro rfl
            revert hquote
            decide
          simp [closing_eq, List.isPrefixOf, hne]
        simp [hquote, hclose]
      · by_cases hclose : closing.isPrefixOf (c :: rest) = true
        · obtain ⟨more, hmore⟩ := List.isPrefixOf_iff_prefix.1 hclose
          have hrest : rest = '\x7d' :: more := (List.cons.inj hmore).2.symm
          rw [Text.after?_eq_some_iff.2 hmore.symm, if_neg hquote, if_pos hclose, hrest]
          rfl
        · have hafter : Text.after? closing (c :: rest) = none := by
            cases hfound : Text.after? closing (c :: rest) with
            | none => rfl
            | some more =>
                refine absurd (List.isPrefixOf_iff_prefix.2 ⟨more, ?_⟩) hclose
                exact (Text.after?_eq_some_iff.1 hfound).symm
          simp [hquote, hclose, hafter]

/-- Whether the closing braces stand here does not depend on what follows the next ones. -/
theorem isPrefixOf_closing_cons_append (c : Char) (before more more' : Text) :
    closing.isPrefixOf (c :: (before ++ closing ++ more)) =
      closing.isPrefixOf (c :: (before ++ closing ++ more')) := by
  cases before with
  | nil => simp [closing_eq, List.isPrefixOf]
  | cons d before => simp [closing_eq, List.isPrefixOf]

/-- What closes a token depends on nothing after it. -/
theorem splitClosing?_of_append {quote? : Option Char} {taken : Bool} {t inner tail : Text}
    (h : splitClosing? quote? taken t = some (inner, tail)) (more : Text) :
    splitClosing? quote? taken (inner ++ closing ++ more) = some (inner, more) := by
  induction t generalizing quote? taken inner with
  | nil => simp [splitClosing?] at h
  | cons c rest ih =>
      rw [splitClosing?_cons] at h
      split at h
      · rename_i hclose
        obtain ⟨rfl, -⟩ := hclose
        simp only [Option.some.injEq, Prod.mk.injEq] at h
        obtain ⟨rfl, -⟩ := h
        rfl
      · rename_i hclose
        obtain ⟨⟨before, after⟩, hfound, heq⟩ := Option.map_eq_some_iff.1 h
        simp only [Prod.mk.injEq] at heq
        obtain ⟨rfl, rfl⟩ := heq
        -- The closing braces do not stand here, whatever follows those that were found.
        rw [append_of_splitClosing? hfound,
          isPrefixOf_closing_cons_append c before after more] at hclose
        rw [List.cons_append, List.cons_append, splitClosing?_cons, if_neg hclose, ih hfound]
        rfl

/-- More text after what closes a token leaves the closing braces where they are. -/
theorem splitClosing?_append {quote? : Option Char} {taken : Bool} {t inner tail : Text}
    (h : splitClosing? quote? taken t = some (inner, tail)) (more : Text) :
    splitClosing? quote? taken (t ++ more) = some (inner, tail ++ more) := by
  rw [append_of_splitClosing? h, List.append_assoc]
  exact splitClosing?_of_append h _

/-! ## The scanner, step by step -/

theorem scan_of_plain {line : Text} (hsplit : Text.splitOnce? opening line = none) :
    scan line = .ok [.plain line] := by
  rw [scan]
  split
  · rfl
  · rename_i hsome
    rw [hsplit] at hsome
    cases hsome

theorem scan_of_not_begins {line before body : Text}
    (hsplit : Text.splitOnce? opening line = some (before, body))
    (hbegins : begins body = false) :
    scan line = (scan body).map (.plain (before ++ opening) :: ·) := by
  rw [scan]
  split
  · rename_i hnone
    rw [hsplit] at hnone
    cases hnone
  · rename_i hsome
    rw [hsplit] at hsome
    simp only [Option.some.injEq, Prod.mk.injEq] at hsome
    obtain ⟨rfl, rfl⟩ := hsome
    simp [hbegins]

/-- At the start of a token the outcome hangs on its closing braces and on its inside. -/
theorem scan_of_begins {line before body : Text}
    (hsplit : Text.splitOnce? opening line = some (before, body))
    (hbegins : begins body = true) :
    scan line =
      match splitClosing? none false body with
      | none => .error (.invalid (opening ++ body) .unclosedToken)
      | some (inner, rest) =>
          match ofInner inner with
          | .error cause => .error cause
          | .ok token =>
              (scan rest).map fun parts =>
                .plain before :: .token (opening ++ inner ++ closing) token :: parts := by
  rw [scan]
  split
  · rename_i hnone
    rw [hsplit] at hnone
    cases hnone
  · rename_i hsome
    rw [hsplit] at hsome
    simp only [Option.some.injEq, Prod.mk.injEq] at hsome
    obtain ⟨rfl, rfl⟩ := hsome
    rw [if_pos hbegins]
    split
    · rename_i hclose
      rw [hclose]
    · rename_i inner rest hclose
      cases htoken : ofInner inner with
      | error cause => simp only [hclose, htoken]
      | ok token => simp only [hclose, htoken]

/-- A token that is closed and read is taken, and the scanner goes on behind it. -/
theorem scan_of_token {line before body inner rest : Text} {token : Token}
    (hsplit : Text.splitOnce? opening line = some (before, body))
    (hbegins : begins body = true)
    (hclose : splitClosing? none false body = some (inner, rest))
    (htoken : ofInner inner = .ok token) :
    scan line =
      (scan rest).map fun parts =>
        .plain before :: .token (opening ++ inner ++ closing) token :: parts := by
  rw [scan_of_begins hsplit hbegins, hclose]
  simp only [htoken]

/-- A line whose first pair of braces begins no token scans only if its rest does. -/
theorem ok_of_not_begins {line before body : Text} {parts : List Segment}
    (hsplit : Text.splitOnce? opening line = some (before, body))
    (hbegins : begins body = false) (hscan : scan line = .ok parts) :
    ∃ others, scan body = .ok others ∧ parts = .plain (before ++ opening) :: others := by
  rw [scan_of_not_begins hsplit hbegins, Outcome.map_eq_ok_iff] at hscan
  obtain ⟨others, hbody, rfl⟩ := hscan
  exact ⟨others, hbody, rfl⟩

/-- A line whose first pair of braces begins a token scans only if this is one and the rest of
the line scans. -/
theorem ok_of_begins {line before body : Text} {parts : List Segment}
    (hsplit : Text.splitOnce? opening line = some (before, body))
    (hbegins : begins body = true) (hscan : scan line = .ok parts) :
    ∃ inner rest token others, splitClosing? none false body = some (inner, rest) ∧
      ofInner inner = .ok token ∧ scan rest = .ok others ∧
        parts = .plain before :: .token (opening ++ inner ++ closing) token :: others := by
  rw [scan_of_begins hsplit hbegins] at hscan
  cases hclose : splitClosing? none false body with
  | none => simp [hclose] at hscan
  | some found =>
      obtain ⟨inner, rest⟩ := found
      cases htoken : ofInner inner with
      | error cause => simp [hclose, htoken] at hscan
      | ok token =>
          simp only [hclose, htoken, Outcome.map_eq_ok_iff] at hscan
          obtain ⟨others, hrest, rfl⟩ := hscan
          exact ⟨inner, rest, token, others, rfl, htoken, hrest, rfl⟩

/-- The lines that scan, with their parts: a pair of braces that begins no token is passed over,
and a token is taken whole. -/
inductive Scans : Text → List Segment → Prop where
  | plain {line : Text} (hsplit : Text.splitOnce? opening line = none) :
      Scans line [.plain line]
  | skip {line before body : Text} {parts : List Segment}
      (hsplit : Text.splitOnce? opening line = some (before, body))
      (hbegins : begins body = false) (hbody : Scans body parts) :
      Scans line (.plain (before ++ opening) :: parts)
  | token {line before body inner rest : Text} {token : Token} {parts : List Segment}
      (hsplit : Text.splitOnce? opening line = some (before, body))
      (hbegins : begins body = true)
      (hclose : splitClosing? none false body = some (inner, rest))
      (htoken : ofInner inner = .ok token) (hrest : Scans rest parts) :
      Scans line (.plain before :: .token (opening ++ inner ++ closing) token :: parts)

theorem scans_of_scan {line : Text} {parts : List Segment} (hscan : scan line = .ok parts) :
    Scans line parts := by
  fun_induction scan line generalizing parts with
  | case1 line hsplit =>
      obtain rfl := Except.ok.inj hscan
      exact .plain hsplit
  | case2 line before body hsplit hbegins hclose => cases hscan
  | case3 line before body hsplit hbegins inner rest hclose cause hinner => cases hscan
  | case4 line before body hsplit hbegins inner rest hclose token hinner ih =>
      obtain ⟨others, hrest, rfl⟩ := Outcome.map_eq_ok_iff.1 hscan
      exact .token hsplit hbegins hclose hinner (ih hrest)
  | case5 line before body hsplit hbegins ih =>
      obtain ⟨others, hbody, rfl⟩ := Outcome.map_eq_ok_iff.1 hscan
      exact .skip hsplit (Bool.eq_false_iff.2 hbegins) (ih hbody)

theorem scan_of_scans {line : Text} {parts : List Segment} (hscans : Scans line parts) :
    scan line = .ok parts := by
  induction hscans with
  | plain hsplit => exact scan_of_plain hsplit
  | skip hsplit hbegins hbody ih =>
      rw [scan_of_not_begins hsplit hbegins, ih]
      rfl
  | token hsplit hbegins hclose htoken hrest ih =>
      rw [scan_of_token hsplit hbegins hclose htoken, ih]
      rfl

/-! ## Braces in pairs -/

/-- The first pair of opening braces has no brace before it. -/
theorem bracesAtEnd_of_splitOnce? {line before body : Text}
    (hsplit : Text.splitOnce? opening line = some (before, body)) : bracesAtEnd before = 0 := by
  obtain ⟨hline, hfirst⟩ := Text.splitOnce?_eq_some_iff.1 hsplit
  refine Text.endRun_eq_zero_iff.2 fun front hbefore => ?_
  have hle := hfirst front (openBrace :: body) (by rw [hline, hbefore]; simp [opening_eq])
  have hlength := congrArg List.length hbefore
  simp only [List.length_append, List.length_singleton] at hlength
  omega

/-- Where no pair of opening braces stands, at most one brace stands at the end. -/
theorem bracesAtEnd_le_one {line : Text} (hsplit : Text.splitOnce? opening line = none) :
    bracesAtEnd line ≤ 1 := by
  rcases List.eq_nil_or_concat line with rfl | ⟨front, c, rfl⟩
  · simp [bracesAtEnd]
  · rw [List.concat_eq_append] at hsplit ⊢
    by_cases hc : c = openBrace
    · subst hc
      -- A second brace before the last one would make a pair.
      have hfront : Text.endRun openBrace front = 0 := by
        refine Text.endRun_eq_zero_iff.2 fun front' hfront' => ?_
        refine Text.splitOnce?_eq_none_iff.1 hsplit front' [] ?_
        simp [hfront', opening_eq]
      simp [bracesAtEnd, hfront]
    · simp [bracesAtEnd, Text.endRun_append_of_ne hc]

/-- A pair of braces that is passed over does not change the parity of the braces at the end. -/
theorem even_bracesAtEnd_pair {before : Text} (hbefore : bracesAtEnd before = 0) (body : Text) :
    Even (bracesAtEnd (before ++ opening ++ body)) ↔ Even (bracesAtEnd body) := by
  have hpair : Text.endRun openBrace (before ++ opening) = 2 := by
    have hzero : Text.endRun openBrace before = 0 := hbefore
    have hassoc : before ++ opening = before ++ [openBrace] ++ [openBrace] := by
      simp [opening_eq]
    rw [hassoc, Text.endRun_append_self, Text.endRun_append_self, hzero]
  simp only [bracesAtEnd, Text.endRun_append, hpair]
  split
  · -- The body is nothing but braces, and the run goes on into the pair.
    rename_i hall
    have htwo : Even 2 := ⟨1, rfl⟩
    simp only [hall, Nat.even_add, htwo, true_iff]
  · rfl

/-- Braces before the end of a token do not count. -/
theorem bracesAtEnd_after_closing (front rest : Text) :
    bracesAtEnd (front ++ closing ++ rest) = bracesAtEnd rest := by
  have hassoc : front ++ closing ++ rest = front ++ ['\x7d'] ++ '\x7d' :: rest := by
    simp [closing_eq]
  rw [hassoc]
  exact Text.endRun_append_cons_of_ne (by decide) _ _

/-- After text that has no pair of braces and does not end in one, a pair is the first. -/
theorem splitOnce?_opening_append {gap : Text} (hsplit : Text.splitOnce? opening gap = none)
    (hend : bracesAtEnd gap = 0) (body : Text) :
    Text.splitOnce? opening (gap ++ opening ++ body) = some (gap, body) := by
  refine Text.splitOnce?_eq_some_iff.2 ⟨rfl, ?_⟩
  intro front rest hfront
  rw [List.append_assoc, List.append_assoc] at hfront
  rcases List.append_eq_append_iff.1 hfront with ⟨middle, hlonger, -⟩ | ⟨middle, hgap, hrest⟩
  · rw [hlonger, List.length_append]
    omega
  · -- The occurrence would begin inside the gap: at its last brace, or with both braces in it.
    rw [opening_eq, List.cons_append, List.cons_append, List.nil_append] at hrest
    match middle, hgap, hrest with
    | [], hgap, _ => simp [hgap]
    | [c], hgap, hrest =>
        obtain ⟨rfl, -⟩ := List.cons.inj hrest
        exact absurd hgap (Text.endRun_eq_zero_iff.1 hend front)
    | c :: d :: middle, hgap, hrest =>
        obtain ⟨rfl, hnext⟩ := List.cons.inj hrest
        obtain ⟨rfl, -⟩ := List.cons.inj hnext
        refine absurd ?_ (Text.splitOnce?_eq_none_iff.1 hsplit front middle)
        rw [hgap]
        simp [opening_eq]

/-! ## Tokens among text -/

/-- A text that the scanner takes for a token, braces included. -/
structure IsSource (source : Text) (token : Token) : Prop where
  /-- The text between the braces begins as tokens do, closes where it ends, and is read. -/
  exists_inner : ∃ inner, source = opening ++ inner ++ closing ∧ begins inner = true ∧
    splitClosing? none false (inner ++ closing) = some (inner, []) ∧ ofInner inner = .ok token

/-- Whatever the scanner returns as a token is the text of one. -/
theorem isSource_of_mem_scan {line : Text} {parts : List Segment} (hscan : scan line = .ok parts)
    {source : Text} {token : Token} (hmem : .token source token ∈ parts) :
    IsSource source token := by
  have hscans := scans_of_scan hscan
  clear hscan
  induction hscans with
  | plain hsplit => cases List.mem_singleton.1 hmem
  | skip hsplit hbegins hbody ih =>
      rcases List.mem_cons.1 hmem with hplain | hmem
      · cases hplain
      · exact ih hmem
  | @token line before body inner rest found parts hsplit hbegins hclose hinner hrest ih =>
      rcases List.mem_cons.1 hmem with hplain | hmem
      · cases hplain
      · rcases List.mem_cons.1 hmem with hfound | hmem
        · obtain ⟨rfl, rfl⟩ := Segment.token.inj hfound
          refine ⟨inner, rfl, ?_, ?_, hinner⟩
          · -- A beginning does not reach into the closing braces.
            rw [append_of_splitClosing? hclose, closing_eq, List.append_assoc, List.cons_append,
              begins_append_cons (by decide) (by decide)] at hbegins
            exact hbegins
          · simpa using splitClosing?_of_append hclose []
        · exact ih hmem

/-- A text that scans by itself and ends in an even number of opening braces is scanned as by
itself when a token follows, and the token is found. -/
theorem scan_append_token {gap : Text} {parts : List Segment} (hgap : scan gap = .ok parts)
    (heven : Even (bracesAtEnd gap)) {source : Text} {token : Token}
    (hsource : IsSource source token) (rest : Text) :
    scan (gap ++ source ++ rest) = (scan rest).map (parts ++ .token source token :: ·) := by
  obtain ⟨inner, rfl, hbegins, hclose, hinner⟩ := hsource.exists_inner
  have hscans := scans_of_scan hgap
  clear hgap
  -- What the scanner does before the token does not depend on what follows, and after each pair
  -- of braces the parity of the braces at the end is the same as before.
  induction hscans with
  | @plain gap hsplit =>
      have hend : bracesAtEnd gap = 0 := by
        have hle := bracesAtEnd_le_one hsplit
        obtain ⟨half, hhalf⟩ := heven
        omega
      have hassoc : gap ++ (opening ++ inner ++ closing) ++ rest =
          gap ++ opening ++ (inner ++ closing ++ rest) := by simp
      have hbegins' : begins (inner ++ closing ++ rest) = true := by
        rw [List.append_assoc]
        exact begins_append hbegins _
      rw [hassoc, scan_of_token (splitOnce?_opening_append hsplit hend _) hbegins'
        (splitClosing?_of_append hclose rest) hinner]
      rfl
  | @skip gap before body parts hsplit hbody hleft ih =>
      have hevenBody : Even (bracesAtEnd body) := by
        rw [Text.append_of_splitOnce? hsplit] at heven
        exact (even_bracesAtEnd_pair (bracesAtEnd_of_splitOnce? hsplit) body).1 heven
      have hsplit' := Text.splitOnce?_append hsplit (opening ++ inner ++ closing ++ rest)
      have hbody' : begins (body ++ (opening ++ inner ++ closing ++ rest)) = false := by
        have hopen : opening ++ inner ++ closing ++ rest =
            openBrace :: (openBrace :: (inner ++ closing ++ rest)) := by
          simp [opening_eq]
        rw [hopen, begins_append_openBrace, hbody]
      rw [List.append_assoc, scan_of_not_begins hsplit' hbody', ← List.append_assoc, ih hevenBody]
      cases scan rest <;> rfl
  | @token gap before body inside left found parts hsplit hbody hinside hfound hleft ih =>
      have hevenLeft : Even (bracesAtEnd left) := by
        rw [Text.append_of_splitOnce? hsplit, append_of_splitClosing? hinside,
          ← List.append_assoc, ← List.append_assoc, bracesAtEnd_after_closing] at heven
        exact heven
      have hsplit' := Text.splitOnce?_append hsplit (opening ++ inner ++ closing ++ rest)
      have hinside' := splitClosing?_append hinside (opening ++ inner ++ closing ++ rest)
      rw [List.append_assoc, scan_of_token hsplit' (begins_append hbody _) hinside' hfound,
        ← List.append_assoc, ih hevenLeft]
      cases scan rest <;> rfl

end Token

/-! ## Which token starts are found -/

namespace Located

/-- Whether a byte belongs to a token. -/
def covers (found : Located) (place : Nat) : Prop := found.start ≤ place ∧ place < found.stop

/-- Whether a byte belongs to a token and is not its first one. -/
def encloses (found : Located) (place : Nat) : Prop := found.start < place ∧ place < found.stop

end Located

/-- The tokens of a line lie behind the offset at which the line begins. -/
theorem Segment.le_start_of_mem_locatedFrom {offset : Nat} {parts : List Segment}
    {found : Located} (hmem : found ∈ locatedFrom offset parts) : offset ≤ found.start := by
  induction parts generalizing offset with
  | nil => simp [locatedFrom] at hmem
  | cons part rest ih =>
      cases part with
      | plain text =>
          have hle := ih hmem
          omega
      | token source token =>
          rcases List.mem_cons.1 hmem with rfl | hrest
          · exact Nat.le_refl _
          · have hle := ih hrest
            omega

namespace Token

/-- Opening braces followed by a beginning stand at the first pair of braces, directly after its
first brace, or behind it. -/
theorem start_cases {line before body front after : Text}
    (hsplit : Text.splitOnce? opening line = some (before, body))
    (hline : line = front ++ opening ++ after) :
    (front = before ∧ after = body) ∨
      (front = before ++ [openBrace] ∧ body = openBrace :: after) ∨
        ∃ front', front = before ++ opening ++ front' ∧ body = front' ++ opening ++ after := by
  obtain ⟨hcut, hfirst⟩ := Text.splitOnce?_eq_some_iff.1 hsplit
  have hle := hfirst front after hline
  rw [hcut, List.append_assoc, List.append_assoc] at hline
  rcases List.append_eq_append_iff.1 hline with ⟨middle, hfront, hrest⟩ | ⟨middle, hbefore, hrest⟩
  · rw [opening_eq, List.cons_append, List.cons_append, List.nil_append] at hrest
    -- The occurrence may begin with the first pair, with its second brace, or behind both.
    match middle, hfront, hrest with
    | [], hfront, hrest =>
        refine Or.inl ⟨by simpa using hfront, ?_⟩
        simpa [eq_comm] using hrest
    | [c], hfront, hrest =>
        obtain ⟨rfl, hnext⟩ := List.cons.inj hrest
        exact Or.inr (Or.inl ⟨hfront, (List.cons.inj hnext).2⟩)
    | c :: d :: front', hfront, hrest =>
        obtain ⟨rfl, hnext⟩ := List.cons.inj hrest
        obtain ⟨rfl, hbody⟩ := List.cons.inj hnext
        refine Or.inr (Or.inr ⟨front', ?_, ?_⟩)
        · rw [hfront]
          simp [opening_eq]
        · rw [hbody]
          simp [opening_eq]
  · have hlength := congrArg List.length hbefore
    rw [List.length_append] at hlength
    obtain rfl : middle = [] := List.eq_nil_of_length_eq_zero (by omega)
    exact Or.inl ⟨by simpa using hbefore.symm, by simpa using hrest⟩

/-- Of two ways to cut a text, the second comes no earlier than the first or lies inside. -/
theorem eq_or_append_of_append_eq {s t u v : Text} (h : s ++ t = u ++ v) :
    (∃ middle, u = s ++ middle ∧ t = middle ++ v) ∨ ∃ middle, middle ≠ [] ∧ s = u ++ middle := by
  rcases List.append_eq_append_iff.1 h with ⟨middle, hu, ht⟩ | ⟨middle, hs, hv⟩
  · exact Or.inl ⟨middle, hu, ht⟩
  · cases middle with
    | nil => exact Or.inl ⟨[], by simpa using hs.symm, by simpa using hv.symm⟩
    | cons c middle => exact Or.inr ⟨c :: middle, List.cons_ne_nil c middle, hs⟩

/-- `scan_covers_start_iff` for a line that begins at an offset, as its rests do. -/
theorem scan_covers_startFrom_iff {line : Text} {parts : List Segment}
    (hscan : scan line = .ok parts) {front after : Text} (hafter : begins after = true)
    (hline : line = front ++ opening ++ after) (offset : Nat) :
    (∃ found ∈ Segment.locatedFrom offset parts,
        found.covers (offset + Text.byteSize front)) ↔
      Even (bracesAtEnd front) ∨
        ∃ found ∈ Segment.locatedFrom offset parts,
          found.encloses (offset + Text.byteSize front) := by
  have hopening : Text.byteSize opening = 2 := rfl
  have hclosing : Text.byteSize closing = 2 := rfl
  have hscans := scans_of_scan hscan
  clear hscan
  induction hscans generalizing front offset with
  | plain hsplit => exact absurd hline (Text.splitOnce?_eq_none_iff.1 hsplit front after)
  | @skip line before body parts hsplit hbegins hbody ih =>
      simp only [Segment.locatedFrom, Text.byteSize_append, hopening]
      rcases start_cases hsplit hline with ⟨-, rfl⟩ | ⟨rfl, -⟩ | ⟨front', rfl, hfront'⟩
      · rw [hafter] at hbegins
        cases hbegins
      · -- The scanner takes this brace with the one before it.
        have hodd : bracesAtEnd (before ++ [openBrace]) = 1 := by
          have hzero : Text.endRun openBrace before = 0 := bracesAtEnd_of_splitOnce? hsplit
          simp [bracesAtEnd, hzero]
        have hsize : Text.byteSize [openBrace] = 1 := rfl
        simp only [Text.byteSize_append, hsize]
        refine iff_of_false ?_ ?_
        · rintro ⟨found, hmem, hstart, -⟩
          have hle := Segment.le_start_of_mem_locatedFrom hmem
          omega
        · rintro (heven | ⟨found, hmem, hstart, -⟩)
          · rw [hodd] at heven
            exact absurd heven (by decide)
          · have hle := Segment.le_start_of_mem_locatedFrom hmem
            omega
      · have hlater := ih hfront' (offset + (Text.byteSize before + 2))
        have hplace : offset + Text.byteSize (before ++ opening ++ front') =
            offset + (Text.byteSize before + 2) + Text.byteSize front' := by
          simp only [Text.byteSize_append, hopening]
          omega
        rw [hplace, even_bracesAtEnd_pair (bracesAtEnd_of_splitOnce? hsplit)]
        exact hlater
  | @token line before body inner rest token parts hsplit hbegins hclose hinner hrest ih =>
      simp only [Segment.locatedFrom, List.mem_cons, exists_eq_or_imp]
      rcases start_cases hsplit hline with ⟨rfl, -⟩ | ⟨-, hbrace⟩ | ⟨front', rfl, hfront'⟩
      · -- The token found is the one that starts here.
        have heven : Even (bracesAtEnd front) := by
          rw [bracesAtEnd_of_splitOnce? hsplit]
          exact ⟨0, rfl⟩
        refine iff_of_true (Or.inl ?_) (Or.inl heven)
        simp only [Located.covers, Text.byteSize_append, hopening]
        omega
      · rw [hbrace, begins_openBrace] at hbegins
        cases hbegins
      · have hplace : offset + Text.byteSize (before ++ opening ++ front') =
            offset + (Text.byteSize before + 2) + Text.byteSize front' := by
          simp only [Text.byteSize_append, hopening]
          omega
        rw [append_of_splitClosing? hclose, List.append_assoc front'] at hfront'
        rcases eq_or_append_of_append_eq hfront' with
          ⟨front'', rfl, hrest'⟩ | ⟨middle, hmiddle, hinside⟩
        · -- The place lies behind the token found.
          have hlater := ih (by rw [hrest', List.append_assoc])
            (offset + Text.byteSize before + Text.byteSize (opening ++ inner ++ closing))
          have hplace' : offset + (Text.byteSize before + 2) +
              Text.byteSize (inner ++ closing ++ front'') =
                offset + Text.byteSize before +
                  Text.byteSize (opening ++ inner ++ closing) + Text.byteSize front'' := by
            simp only [Text.byteSize_append, hopening]
            omega
          rw [hplace, hplace', even_bracesAtEnd_pair (bracesAtEnd_of_splitOnce? hsplit),
            bracesAtEnd_after_closing]
          have hbehind : ∀ n place : Nat, ¬place + n < place := by omega
          simp only [Located.covers, Located.encloses, hbehind, and_false, false_or]
          exact hlater
        · -- The place lies inside the token found.
          have hsize := congrArg Text.byteSize hinside
          have hpos := Text.byteSize_lt_append front' hmiddle
          rw [← hinside] at hpos
          rw [hplace]
          refine iff_of_true (Or.inl ?_) (Or.inr (Or.inl ?_)) <;>
            simp only [Located.covers, Located.encloses, Text.byteSize_append, hopening,
              hclosing] at hpos ⊢ <;>
            omega

/-- Opening braces followed by an identifier and `::` belong to a token that the scanner finds
exactly if an even number of further opening braces stands directly before them, or if they
stand inside a token that begins before them. -/
theorem scan_covers_start_iff {line : Text} {parts : List Segment} (hscan : scan line = .ok parts)
    {front name rest : Text} (hname : isIdentifier name = true)
    (hline : line = front ++ opening ++ (name ++ separator ++ rest)) :
    (∃ found ∈ Segment.located parts, found.covers (Text.byteSize front)) ↔
      Even (bracesAtEnd front) ∨
        ∃ found ∈ Segment.located parts, found.encloses (Text.byteSize front) := by
  have hafter : begins (name ++ separator ++ rest) = true := begins_iff.2 ⟨name, rest, hname, rfl⟩
  have hfrom := scan_covers_startFrom_iff hscan hafter hline 0
  rw [Nat.zero_add] at hfrom
  exact hfrom

/-- Two braces before a token are passed over, and the token is found. -/
theorem scan_covers_start_after_pair :
    scan "x\x7b\x7b\x7b\x7bComp::name\x7d\x7d" =
        .ok [.plain "x\x7b\x7b", .plain [],
          .token "\x7b\x7bComp::name\x7d\x7d" ⟨.comp, "name", []⟩, .plain []] ∧
      isIdentifier "Comp" = true ∧
      ∃ found ∈ Segment.located [.plain "x\x7b\x7b", .plain [],
          .token "\x7b\x7bComp::name\x7d\x7d" ⟨.comp, "name", []⟩, .plain []],
        found.covers 3 := by
  have hscan : scan "x\x7b\x7b\x7b\x7bComp::name\x7d\x7d" =
      .ok [.plain "x\x7b\x7b", .plain [],
        .token "\x7b\x7bComp::name\x7d\x7d" ⟨.comp, "name", []⟩, .plain []] := by
    refine scan_of_scans
      (@Scans.skip _ "x" "\x7b\x7bComp::name\x7d\x7d" _ (by decide) (by decide) ?_)
    refine @Scans.token _ [] "Comp::name\x7d\x7d" "Comp::name" [] _ _ ?_ ?_ ?_ rfl ?_
    · decide
    · decide
    · decide
    · exact .plain (by decide)
  refine ⟨hscan, by decide, ?_⟩
  exact (@scan_covers_start_iff _ _ hscan "x\x7b\x7b" "Comp" "name\x7d\x7d" (by decide)
    (by decide)).2 (Or.inl ⟨1, by decide⟩)

/-- Not every start of a token is found: after a third brace the token stays text. -/
theorem exists_start_not_covered :
    ∃ (line front name rest : Text) (parts : List Segment),
      scan line = .ok parts ∧ isIdentifier name = true ∧
        line = front ++ opening ++ (name ++ separator ++ rest) ∧
        ¬∃ found ∈ Segment.located parts, found.covers (Text.byteSize front) := by
  refine ⟨"\x7b\x7b\x7bComp::name\x7d\x7d", "\x7b", "Comp", "name\x7d\x7d",
    [.plain "\x7b\x7b", .plain "\x7bComp::name\x7d\x7d"], ?_, by decide, by decide, ?_⟩
  · -- The first two of the three braces begin no token, and the third one stands alone.
    refine scan_of_scans (@Scans.skip _ [] "\x7bComp::name\x7d\x7d" _ (by decide) (by decide) ?_)
    exact .plain (by decide)
  · simp [Segment.located, Segment.locatedFrom]

end Token
end Stencil
