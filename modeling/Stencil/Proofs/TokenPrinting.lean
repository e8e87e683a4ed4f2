import Stencil.Proofs.TokenGrammar
import Stencil.Token.Printer

namespace Stencil
namespace Token

/-!
# Reading what was written

The writer has one escape for each of four characters, the reader knows five and
leaves all others as they are.  What the writer writes is in the grammar with the
arguments it was given (`isToken_printInner`), so reading it gives the token back
whatever the arguments hold.
-/

/-- Between double quotes the escaped characters of a text stand for the text. -/
theorem isQuoted_escaped (arg : Text) : IsQuoted '"' (arg.flatMap escaped) arg := by
  induction arg with
  | nil => exact .nil
  | cons c rest ih =>
      rw [List.flatMap_cons]
      by_cases hbackslash : c = '\\'
      · subst hbackslash
        exact .escape .backslash ih
      by_cases hquote : c = '"'
      · subst hquote
        exact .escape .doubleQuote ih
      by_cases hlineFeed : c = '\n'
      · subst hlineFeed
        exact .escape .lineFeed ih
      by_cases htab : c = '\t'
      · subst htab
        exact .escape .tab ih
      have hplain : escaped c = [c] := by simp [escaped, hbackslash, hquote, hlineFeed, htab]
      rw [hplain]
      exact .plain hbackslash hquote ih

theorem isLiteral_literal (arg : Text) : IsLiteral (literal arg) arg :=
  .quoted (Or.inl rfl) (isQuoted_escaped arg)

theorem isArgument_literal {blank : Text} (hblank : Text.isBlank blank = true) (arg : Text) :
    IsArgument (blank ++ literal arg) arg := by
  have hlast := @IsLiterals.last _ _ [] (isLiteral_literal arg) rfl
  rw [List.append_nil] at hlast
  exact .spaced hblank hlast

/-- One literal for each argument, with a comma and a space between them, is a list of these
arguments, also after white space. -/
theorem isArgumentList_joined {args : List Text} (hargs : args ≠ []) {blank : Text}
    (hblank : Text.isBlank blank = true) :
    IsArgumentList (blank ++ Text.joined ", " (args.map literal)) args := by
  induction args generalizing blank with
  | nil => exact absurd rfl hargs
  | cons arg rest ih =>
      cases rest with
      | nil => exact .some (List.cons_ne_nil _ []) (.cons (isArgument_literal hblank arg) .nil)
      | cons next rest =>
          have hrest := @ih (List.cons_ne_nil next rest) " " rfl
          have hlist := hrest.cons (isArgument_literal hblank arg) (List.cons_ne_nil next rest)
          rw [List.append_assoc] at hlist
          rw [List.map_cons, List.map_cons, Text.joined, List.append_assoc]
          exact hlist

/-- What the writer puts between the braces is in the grammar and stands for the token. -/
theorem isToken_printInner {token : Token} (hname : IsDotted token.function) :
    IsToken token.printInner token := by
  obtain ⟨scope, name, args⟩ := token
  cases args with
  | nil =>
      have hprinted : printInner ⟨scope, name, []⟩ = scope.word ++ separator ++ name := by
        simp [printInner, printArgs]
      rw [hprinted]
      exact .qualified scope (.bare hname)
  | cons arg rest =>
      have hlist := @isArgumentList_joined (arg :: rest) (List.cons_ne_nil arg rest) [] rfl
      have hprinted : printInner ⟨scope, name, arg :: rest⟩ =
          scope.word ++ separator ++
            (name ++ "(".toList ++ ([] ++ Text.joined ", " ((arg :: rest).map literal)) ++
              ")".toList) := by
        simp [printInner, printArgs]
      rw [hprinted]
      exact .qualified scope (.applied hname hlist)

theorem parse_print {token : Token} (hname : IsDotted token.function) :
    parse token.print = .ok token :=
  (isToken_printInner hname).parse_written

/-- A token that is read has a function name. -/
theorem isDotted_of_parse {s : Text} {token : Token} (hparse : parse s = .ok token) :
    IsDotted token.function := by
  obtain ⟨body, -, htoken⟩ := parse_eq_ok_iff.1 hparse
  generalize body.trim = t at htoken
  cases htoken with
  | qualified scope hcall =>
      cases hcall with
      | bare hname => exact hname
      | applied hname hlist => exact hname

/-- The written form of a token is read as the token, whatever its arguments are, exactly if
its name is a function name; so it is for every token that is read from a text, and of two such
tokens each is told from the other by its written form. -/
theorem parse_print_roundtrip :
    (∀ (scope : Namespace) (name : Text) (args : List Text),
      parse (print ⟨scope, name, args⟩) = .ok ⟨scope, name, args⟩ ↔ IsDotted name) ∧
    (∀ (s : Text) (token : Token), parse s = .ok token → parse token.print = .ok token) ∧
    ∀ (s s' : Text) (token token' : Token), parse s = .ok token → parse s' = .ok token' →
      (token = token' ↔ token.print = token'.print) := by
  refine ⟨?_, ?_, ?_⟩
  · intro scope name args
    exact ⟨isDotted_of_parse, fun hname => @parse_print ⟨scope, name, args⟩ hname⟩
  · intro s token hparse
    exact parse_print (isDotted_of_parse hparse)
  · intro s s' token token' hparse hparse'
    constructor
    · rintro rfl
      rfl
    · intro hprint
      have hread := parse_print (isDotted_of_parse hparse)
      rw [hprint, parse_print (isDotted_of_parse hparse')] at hread
      exact (Except.ok.inj hread).symm

/-- Quotes, closing braces, backslashes and an empty argument are kept. -/
theorem parse_print_quotedBraces :
    parse "Comp::f('\x7d\x7d\"\\\\' , '')" = .ok ⟨.comp, "f", ["\x7d\x7d\"\\", ""]⟩ ∧
      print ⟨.comp, "f", ["\x7d\x7d\"\\", ""]⟩ =
        "\x7b\x7bComp::f(\"\x7d\x7d\\\"\\\\\", \"\")\x7d\x7d" ∧
      parse "\x7b\x7bComp::f(\"\x7d\x7d\\\"\\\\\", \"\")\x7d\x7d" =
        .ok ⟨.comp, "f", ["\x7d\x7d\"\\", ""]⟩ := by
  have hfirst : IsLiteral "'\x7d\x7d\"\\\\'" "\x7d\x7d\"\\" :=
    .quoted (Or.inr rfl)
      (.plain (by decide) (by decide) (.plain (by decide) (by decide)
        (.plain (by decide) (by decide) (.escape .backslash .nil))))
  have hsecond : IsLiteral "''" "" := .quoted (Or.inr rfl) .nil
  have hpieces : List.Forall₂ IsArgument ["'\x7d\x7d\"\\\\' ", " ''"] ["\x7d\x7d\"\\", ""] :=
    .cons (@IsArgument.spaced [] _ _ rfl (@IsLiterals.last _ _ " " hfirst rfl))
      (.cons (@IsArgument.spaced " " _ _ rfl (@IsLiterals.last _ _ [] hsecond rfl)) .nil)
  have htoken : IsToken "Comp::f('\x7d\x7d\"\\\\' , '')" ⟨.comp, "f", ["\x7d\x7d\"\\", ""]⟩ :=
    .qualified .comp (@IsCall.applied "f" _ _ (by decide) (.some (List.cons_ne_nil _ _) hpieces))
  exact ⟨htoken.parse_bare, by decide, parse_print_roundtrip.2.1 _ _ htoken.parse_bare⟩

end Token
end Stencil
