import Mathlib.Algebra.Ring.Parity
import Stencil.Proofs.Occurrence
import Stencil.Render.Literal

namespace Stencil

/-!
# What quoted literals stand for

Strings and characters are rendered between quotes, with escapes for what cannot
stand there.  A reader of the literal knows two things: a quote ends it unless a
backslash escapes it, and a backslash takes the next character with it.

`Literal.IsBody` states the first on the text alone: a backslash in a row of
them escapes what follows it if an odd number of them stands there.
`Literal.decoded?` follows the second.  Both are shown for one escaped character
in front of a body (`IsBody.plain`, `IsBody.escape`), and so hold of all of them.
-/

namespace Text

/-- What stands before a text adds nothing, or an even number, to the run at its end. -/
theorem even_endRun_append {c : Char} {s : Text} (hs : Even (endRun c s)) (t : Text) :
    Even (endRun c (s ++ t)) ↔ Even (endRun c t) := by
  rw [endRun_append]
  split
  · rename_i hall
    rw [Nat.even_add, hall]
    simp [hs]
  · rfl

end Text

namespace Literal

/-- What a backslash and the character after it stand for, between quotes of a kind. -/
def decodedEscape? (quote c : Char) : Option Char :=
  if c = quote ∨ c = '\\' then some c
  else if c = 'n' then some '\n'
  else if c = 't' then some '\t'
  else if c = 'r' then some '\r'
  else none

/-- What stands between the quotes of a literal, with its escapes decoded. -/
def decoded? (quote : Char) : Text → Option Text
  | [] => some []
  | [c] => if c = '\\' then none else some [c]
  | c :: d :: rest =>
      if c = '\\' then
        (decodedEscape? quote d).bind fun e => (decoded? quote rest).map (e :: ·)
      else (decoded? quote (d :: rest)).map (c :: ·)

theorem decoded?_escape (quote d : Char) (rest : Text) :
    decoded? quote ('\\' :: d :: rest) =
      (decodedEscape? quote d).bind fun e => (decoded? quote rest).map (e :: ·) := by
  simp [decoded?]

theorem decoded?_plain {c : Char} (hc : c ≠ '\\') (quote : Char) (rest : Text) :
    decoded? quote (c :: rest) = (decoded? quote rest).map (c :: ·) := by
  cases rest with
  | nil => simp [decoded?, hc]
  | cons d rest => simp [decoded?, hc]

/-- White space that cannot stand between quotes. -/
def isControl (c : Char) : Bool := c = '\n' || c = '\t' || c = '\r'

/-- What can stand between two quotes of a kind: no line feed, tab or carriage return, and every
quote escaped by the last of an odd number of backslashes.  The quote behind the body is not
escaped, so it is the one that ends the literal. -/
structure IsBody (quote : Char) (body : Text) : Prop where
  no_control : ∀ c ∈ body, isControl c = false
  odd_before_quote : ∀ front back, body = front ++ quote :: back → Odd (Text.endRun '\\' front)
  even_at_end : Even (Text.endRun '\\' body)

namespace IsBody

variable {quote : Char} {body : Text}

theorem nil (quote : Char) : IsBody quote [] where
  no_control := List.forall_mem_nil _
  odd_before_quote := by simp
  even_at_end := by simp

/-- A character that needs no escape can stand in front. -/
theorem plain {c : Char} (hquote : c ≠ quote) (hbackslash : c ≠ '\\')
    (hcontrol : isControl c = false) (hbody : IsBody quote body) : IsBody quote (c :: body) where
  no_control := List.forall_mem_cons.2 ⟨hcontrol, hbody.no_control⟩
  odd_before_quote := by
    intro front back hcut
    cases front with
    | nil => exact absurd (List.cons.inj hcut).1 hquote
    | cons d front =>
        obtain ⟨rfl, hrest⟩ := List.cons.inj hcut
        have hrun : Text.endRun '\\' (c :: front) = Text.endRun '\\' front :=
          Text.endRun_append_cons_of_ne hbackslash [] front
        rw [hrun]
        exact hbody.odd_before_quote front back hrest
  even_at_end := by
    have hrun : Text.endRun '\\' (c :: body) = Text.endRun '\\' body :=
      Text.endRun_append_cons_of_ne hbackslash [] body
    rw [hrun]
    exact hbody.even_at_end

/-- A backslash can stand in front with any character that it escapes. -/
theorem escape {d : Char} (hquote : quote ≠ '\\') (hcontrol : isControl d = false)
    (hbody : IsBody quote body) : IsBody quote ('\\' :: d :: body) := by
  -- The two characters end with two backslashes or with none.
  have hpair : Even (Text.endRun '\\' ['\\', d]) := by
    by_cases hd : d = '\\'
    · subst hd
      decide
    · have hzero : Text.endRun '\\' ['\\', d] = 0 := Text.endRun_append_of_ne hd ['\\']
      rw [hzero]
      exact Even.zero
  refine ⟨?_, ?_, (Text.even_endRun_append hpair body).2 hbody.even_at_end⟩
  · exact List.forall_mem_cons.2 ⟨rfl, List.forall_mem_cons.2 ⟨hcontrol, hbody.no_control⟩⟩
  · intro front back hcut
    match front, hcut with
    | [], hcut => exact absurd (List.cons.inj hcut).1.symm hquote
    | [c], hcut =>
        obtain ⟨rfl, -⟩ := List.cons.inj hcut
        decide
    | c :: e :: front, hcut =>
        obtain ⟨rfl, hmore⟩ := List.cons.inj hcut
        obtain ⟨rfl, hrest⟩ := List.cons.inj hmore
        have hodd := hbody.odd_before_quote front back hrest
        rw [← Nat.not_even_iff_odd] at hodd ⊢
        exact mt (Text.even_endRun_append hpair front).1 hodd

end IsBody

/-- A character is its own body, or is escaped by a character that stands for it. -/
theorem escaped_cases {quote : Char} (hquote : quote = '"' ∨ quote = '\'') (c : Char) :
    (c ≠ quote ∧ c ≠ '\\' ∧ isControl c = false ∧ escaped quote c = [c]) ∨
      ∃ d, escaped quote c = ['\\', d] ∧ isControl d = false ∧
        decodedEscape? quote d = some c := by
  by_cases hsame : c = quote
  · subst hsame
    refine Or.inr ⟨c, by simp [escaped], ?_, by simp [decodedEscape?]⟩
    rcases hquote with rfl | rfl <;> rfl
  by_cases hbackslash : c = '\\'
  · subst hbackslash
    exact Or.inr ⟨'\\', by simp [escaped], rfl, by simp [decodedEscape?]⟩
  -- Neither quote is one of the letters that stand for white space.
  have hletters : 'n' ≠ quote ∧ 't' ≠ quote ∧ 'r' ≠ quote := by
    rcases hquote with rfl | rfl <;> decide
  by_cases hlineFeed : c = '\n'
  · subst hlineFeed
    exact Or.inr ⟨'n', by simp [escaped, hsame], rfl, by simp [decodedEscape?, hletters]⟩
  by_cases htab : c = '\t'
  · subst htab
    exact Or.inr ⟨'t', by simp [escaped, hsame], rfl, by simp [decodedEscape?, hletters]⟩
  by_cases hreturn : c = '\r'
  · subst hreturn
    exact Or.inr ⟨'r', by simp [escaped, hsame], rfl, by simp [decodedEscape?, hletters]⟩
  refine Or.inl ⟨hsame, hbackslash, ?_, ?_⟩
  · simp [isControl, hlineFeed, htab, hreturn]
  · simp [escaped, hsame, hbackslash, hlineFeed, htab, hreturn]

/-- The escaped characters of a text can stand between quotes, and are decoded as the text. -/
theorem isBody_escaped {quote : Char} (hquote : quote = '"' ∨ quote = '\'') (s : Text) :
    IsBody quote (s.flatMap (escaped quote)) ∧
      decoded? quote (s.flatMap (escaped quote)) = some s := by
  have hbackslash : quote ≠ '\\' := by
    rcases hquote with rfl | rfl <;> decide
  induction s with
  | nil => exact ⟨IsBody.nil quote, rfl⟩
  | cons c rest ih =>
      obtain ⟨hbody, hdecoded⟩ := ih
      rw [List.flatMap_cons]
      rcases escaped_cases hquote c with ⟨hne, hplain, hcontrol, hc⟩ | ⟨d, hc, hcontrol, hd⟩
      · rw [hc]
        refine ⟨hbody.plain hne hplain hcontrol, ?_⟩
        rw [List.singleton_append, decoded?_plain hplain, hdecoded]
        rfl
      · rw [hc]
        refine ⟨hbody.escape hbackslash hcontrol, ?_⟩
        show decoded? quote ('\\' :: d :: rest.flatMap (escaped quote)) = _
        rw [decoded?_escape, hd, hdecoded]
        rfl

/-- A literal between quotes of a kind, read as a text: its body can stand between the quotes and
is decoded as the text. -/
def Denotes (quote : Char) (literal s : Text) : Prop :=
  ∃ body, literal = quote :: body ++ [quote] ∧ IsBody quote body ∧ decoded? quote body = some s

theorem denotes_quoted {quote : Char} (hquote : quote = '"' ∨ quote = '\'') (s : Text) :
    Denotes quote (quoted quote s) s :=
  ⟨s.flatMap (escaped quote), rfl, isBody_escaped hquote s⟩

/-- A literal stands for one text. -/
theorem Denotes.unique {quote : Char} {literal s t : Text} (hs : Denotes quote literal s)
    (ht : Denotes quote literal t) : s = t := by
  obtain ⟨body, rfl, -, hbody⟩ := hs
  obtain ⟨other, hliteral, -, hother⟩ := ht
  obtain rfl : body = other := by simpa using hliteral
  exact Option.some.inj (hbody.symm.trans hother)

end Literal

end Stencil
