import Mathlib.Data.Nat.Digits.Defs
import Stencil.Proofs.FunctionNames
import Stencil.Proofs.Positions
import Stencil.Proofs.Trimming

namespace Stencil

/-!
# Indices that are written in a text

The index of `if_nth_else` comes as a text, which denotes an integer of any size.
It is read as an integer of 64 bits, so a text can denote an index that no
object has, and then the method gives its last argument; or it denotes one that
is out of reach even for the reader, and then the method fails.
-/

namespace Text

/-! ## Written integers -/

/-- One or more decimal digits. -/
structure IsNumeral (digits : Text) : Prop where
  ne_nil : digits ≠ []
  isDigit : ∀ c ∈ digits, c.isDigit = true

/-- The number that decimal digits denote, of which the last one counts least. -/
def numeralValue (digits : Text) : Nat :=
  Nat.ofDigits 10 (digits.reverse.map fun c => c.toNat - 48)

/-- Decimal digits after an optional sign denote an integer. -/
inductive IsSigned : Text → Int → Prop where
  | plain {digits : Text} (hdigits : IsNumeral digits) : IsSigned digits (numeralValue digits)
  | plus {digits : Text} (hdigits : IsNumeral digits) :
      IsSigned ('+' :: digits) (numeralValue digits)
  | minus {digits : Text} (hdigits : IsNumeral digits) :
      IsSigned ('-' :: digits) (-numeralValue digits)

/-- A text denotes an integer if there is only white space around the sign and the digits. -/
def Denotes (text : Text) (n : Int) : Prop :=
  ∃ before written after, isBlank before = true ∧ isBlank after = true ∧
    text = before ++ written ++ after ∧ IsSigned written n

theorem digitsToNat_eq_numeralValue (digits : Text) : digitsToNat digits = numeralValue digits := by
  induction digits using List.reverseRecOn with
  | nil => rfl
  | append_singleton digits c ih =>
      rw [numeralValue, List.reverse_append, List.reverse_singleton, List.singleton_append,
        List.map_cons, Nat.ofDigits_cons, ← numeralValue, ← ih, digitsToNat, List.foldl_append]
      exact Nat.add_comm _ _

theorem nat?_eq_some_iff {t : Text} {k : Nat} :
    nat? t = some k ↔ IsNumeral t ∧ k = numeralValue t := by
  have hguard : (!t.isEmpty && t.all Char.isDigit) = true ↔ IsNumeral t := by
    rw [Bool.and_eq_true, Bool.not_eq_true', List.isEmpty_eq_false_iff, List.all_eq_true]
    exact ⟨fun h => ⟨h.1, h.2⟩, fun h => ⟨h.ne_nil, h.isDigit⟩⟩
  unfold nat?
  rw [digitsToNat_eq_numeralValue]
  split
  · rename_i h
    simp [hguard.1 h, eq_comm]
  · rename_i h
    simp [mt hguard.2 h]

/-- The integer that a text of a sign and digits denotes. -/
def signed? : Text → Option Int
  | '-' :: digits => (nat? digits).map fun n : Nat => -(n : Int)
  | '+' :: digits => (nat? digits).map fun n : Nat => (n : Int)
  | digits => (nat? digits).map fun n : Nat => (n : Int)

theorem signed?_of_isNumeral {digits : Text} (hdigits : IsNumeral digits) :
    signed? digits = (nat? digits).map fun n : Nat => (n : Int) := by
  have hsign : ∀ c ∈ digits, c ≠ '-' ∧ c ≠ '+' := by
    intro c hc
    have hdigit := hdigits.isDigit c hc
    constructor
    · rintro rfl
      cases hdigit
    · rintro rfl
      cases hdigit
  unfold signed?
  split
  · exact absurd rfl (hsign _ List.mem_cons_self).1
  · exact absurd rfl (hsign _ List.mem_cons_self).2
  · rfl

theorem signed?_eq_some_iff {t : Text} {n : Int} : signed? t = some n ↔ IsSigned t n := by
  constructor
  · intro h
    unfold signed? at h
    split at h
    all_goals
      obtain ⟨k, hk, rfl⟩ := Option.map_eq_some_iff.1 h
      obtain ⟨hdigits, rfl⟩ := nat?_eq_some_iff.1 hk
    · exact .minus hdigits
    · exact .plus hdigits
    · exact .plain hdigits
  · intro h
    cases h with
    | plain hdigits =>
        rw [signed?_of_isNumeral hdigits, nat?_eq_some_iff.2 ⟨hdigits, rfl⟩]
        rfl
    | plus hdigits =>
        rw [signed?, nat?_eq_some_iff.2 ⟨hdigits, rfl⟩]
        rfl
    | minus hdigits =>
        rw [signed?, nat?_eq_some_iff.2 ⟨hdigits, rfl⟩]
        rfl

theorem not_white_of_isDigit {c : Char} (hc : c.isDigit = true) : isWhite c = false := by
  refine Token.not_white_of_isIdentifierChar ?_
  simp [Token.isIdentifierChar, Char.isAlphanum, hc]

theorem IsNumeral.trim_append {digits : Text} (hdigits : IsNumeral digits) {sign : Text}
    (hsign : ∀ c ∈ sign, isWhite c = false) : (sign ++ digits).trim = sign ++ digits := by
  have hwhite : ∀ c ∈ sign ++ digits, isWhite c = false := by
    intro c hc
    rcases List.mem_append.1 hc with hc | hc
    · exact hsign c hc
    · exact not_white_of_isDigit (hdigits.isDigit c hc)
  have hne : sign ++ digits ≠ [] := List.append_ne_nil_of_right_ne_nil sign hdigits.ne_nil
  refine trim_eq_self ?_ ?_
  · obtain ⟨c, rest, hfirst⟩ := List.exists_cons_of_ne_nil hne
    exact ⟨c, rest, hfirst, hwhite c (hfirst ▸ List.mem_cons_self)⟩
  · refine ⟨(sign ++ digits).dropLast, (sign ++ digits).getLast hne, ?_, ?_⟩
    · exact (List.dropLast_append_getLast hne).symm
    · exact hwhite _ (List.getLast_mem hne)

/-- A sign and digits are not trimmed. -/
theorem IsSigned.trim_eq {t : Text} {n : Int} (h : IsSigned t n) : t.trim = t := by
  cases h with
  | plain hdigits => exact @IsNumeral.trim_append _ hdigits [] (List.forall_mem_nil _)
  | plus hdigits => exact hdigits.trim_append (List.forall_mem_singleton.2 (by decide))
  | minus hdigits => exact hdigits.trim_append (List.forall_mem_singleton.2 (by decide))

theorem denotes_iff {text : Text} {n : Int} : Denotes text n ↔ signed? text.trim = some n := by
  rw [signed?_eq_some_iff]
  constructor
  · rintro ⟨before, written, after, hbefore, hafter, rfl, hwritten⟩
    rwa [trim_blank_append hbefore hafter, hwritten.trim_eq]
  · intro hwritten
    obtain ⟨before, after, hbefore, hafter, htext⟩ := exists_trim text
    exact ⟨before, text.trim, after, hbefore, hafter, htext, hwritten⟩

theorem int64?_eq (text : Text) :
    int64? text = (signed? text.trim).filter fun n => -2 ^ 63 ≤ n && n < 2 ^ 63 := by
  have hbound : ((Nat.pow 2 63 : Nat) : Int) = 2 ^ 63 := by decide
  have hcast : ∀ digits : Text, (do let a ← nat? digits; pure (a : Int)) =
      (nat? digits).map fun n : Nat => (n : Int) := by
    intro digits
    cases nat? digits <;> rfl
  unfold int64? signed?
  simp only [hbound, hcast, Option.map_map]
  rfl

/-- The integer that is read from a text is the one that it denotes, if this fits 64 bits. -/
theorem int64?_of_denotes {text : Text} {n : Int} (h : Denotes text n) :
    int64? text = if -2 ^ 63 ≤ n ∧ n < 2 ^ 63 then some n else none := by
  rw [int64?_eq, denotes_iff.1 h]
  simp [Option.filter]

end Text

/-! ## Siblings -/

namespace Context

/-- The number of objects that the active object is counted among. -/
def siblingCount (context : Context) : Nat :=
  match context.attr? with
  | some _ => context.component.attributes.length
  | none => context.view.components.length

/-- The active object equals the sibling at an index. -/
def EqualsAt (context : Context) (i : Nat) : Prop :=
  match context.attr? with
  | some a => ∃ other, context.component.attributes[i]? = some other ∧ other.same a = true
  | none => ∃ other, context.view.components[i]? = some other ∧
      other.same context.component = true

/-- The active object equals the sibling of a number, which counts from the end if it is
negative. -/
def EqualsSibling (context : Context) (n : Int) : Prop :=
  ∃ i : Nat, (n = i ∨ n < 0 ∧ context.siblingCount + n = i) ∧ context.EqualsAt i

theorem isNth_eq_true_iff {context : Context} {n : Int} :
    context.isNth n = true ↔ context.EqualsSibling n := by
  unfold isNth EqualsSibling siblingCount EqualsAt
  cases context.attr? with
  | none => exact atPosition_eq_true_iff
  | some a => exact atPosition_eq_true_iff

theorem EqualsAt.lt {context : Context} {i : Nat} (h : context.EqualsAt i) :
    i < context.siblingCount := by
  unfold EqualsAt at h
  unfold siblingCount
  cases hattr : context.attr? with
  | none =>
      rw [hattr] at h
      obtain ⟨other, hother, -⟩ := h
      exact (List.getElem?_eq_some_iff.1 hother).1
  | some a =>
      rw [hattr] at h
      obtain ⟨other, hother, -⟩ := h
      exact (List.getElem?_eq_some_iff.1 hother).1

/-- Only numbers that are below the number of siblings, or not further from the end, are those of
siblings. -/
theorem EqualsSibling.bounds {context : Context} {n : Int} (h : context.EqualsSibling n) :
    -(context.siblingCount : Int) ≤ n ∧ n < context.siblingCount := by
  obtain ⟨i, hi, hat⟩ := h
  have hlt := hat.lt
  omega

end Context

namespace MethodRegistry

theorem invoke_ifNthElse (context : Context) (text yes no : Text) :
    builtin.invoke ⟨context.scope, "if_nth_else", [text, yes, no]⟩ context =
      match Text.int64? text with
      | some n => .ok (if context.isNth n then yes else no)
      | none => .error (.badUse "if_nth_else" (.noIndex text)) :=
  @invoke_builtin ⟨.both, "if_nth_else", Method.ifNthElse⟩ (by simp [builtinMethods]) _
    (mem_namespaces_both context.scope) [text, yes, no]

/-- A text that denotes an integer of 64 bits picks the second argument if the active object equals
the sibling of this number and the third otherwise, in particular if there are not as many
siblings.  A text that denotes any other integer is an error, although no object has its number in
a list of fewer than two to the power of 63 objects. -/
theorem ifNthElse_of_denotes {text : Text} {n : Int} (hdenotes : Text.Denotes text n)
    (context : Context) (yes no : Text) :
    let answer := builtin.invoke ⟨context.scope, "if_nth_else", [text, yes, no]⟩ context
    (-2 ^ 63 ≤ n ∧ n < 2 ^ 63 →
        (context.EqualsSibling n → answer = .ok yes) ∧
          (¬context.EqualsSibling n → answer = .ok no)) ∧
      (n < -2 ^ 63 ∨ 2 ^ 63 ≤ n → answer = .error (.badUse "if_nth_else" (.noIndex text))) ∧
      (n < -(context.siblingCount : Int) ∨ context.siblingCount ≤ n →
        ¬context.EqualsSibling n) := by
  intro answer
  have hread := Text.int64?_of_denotes hdenotes
  have hanswer : answer = _ := invoke_ifNthElse context text yes no
  refine ⟨fun hfits => ?_, fun hover => ?_, fun hout hequal => ?_⟩
  · rw [if_pos hfits] at hread
    rw [hanswer, hread, ← Context.isNth_eq_true_iff]
    exact ⟨fun h => congrArg Except.ok (if_pos h), fun h => congrArg Except.ok (if_neg h)⟩
  · rw [if_neg (by omega)] at hread
    rw [hanswer, hread]
  · have hbounds := hequal.bounds
    omega

/-- A component that is the only one of its view. -/
def loneContext : Context where
  types := Dispatcher.empty
  view := ⟨[⟨"P", "P", []⟩]⟩
  component := ⟨"P", "P", []⟩

/-- The only component is the last one, and there is none after it. -/
theorem ifNthElse_loneContext :
    Text.Denotes " -01\t" (-1) ∧ loneContext.EqualsSibling (-1) ∧
      builtin.invoke ⟨.comp, "if_nth_else", [" -01\t", "y", "n"]⟩ loneContext = .ok "y" ∧
      Text.Denotes "+1" 1 ∧ (loneContext.siblingCount : Int) ≤ 1 ∧
      builtin.invoke ⟨.comp, "if_nth_else", ["+1", "y", "n"]⟩ loneContext = .ok "n" := by
  have hlast : Text.Denotes " -01\t" (-1) := Text.denotes_iff.2 (by decide +kernel)
  have hnext : Text.Denotes "+1" 1 := Text.denotes_iff.2 (by decide +kernel)
  have hequal : loneContext.EqualsSibling (-1) := Context.isNth_eq_true_iff.1 (by decide +kernel)
  have hcount : (loneContext.siblingCount : Int) ≤ 1 := by decide
  obtain ⟨hfirst, -, -⟩ := ifNthElse_of_denotes hlast loneContext "y" "n"
  obtain ⟨hsecond, -, hout⟩ := ifNthElse_of_denotes hnext loneContext "y" "n"
  exact ⟨hlast, hequal, (hfirst (by decide)).1 hequal, hnext, hcount,
    (hsecond (by decide)).2 (hout (Or.inr hcount))⟩

/-- The least number that is too large for 64 bits is no sibling, but it is an error. -/
theorem ifNthElse_fails_on_number :
    Text.Denotes "9223372036854775808" (2 ^ 63) ∧ ¬loneContext.EqualsSibling (2 ^ 63) ∧
      builtin.invoke ⟨.comp, "if_nth_else", ["9223372036854775808", "y", "n"]⟩ loneContext =
        .error (.badUse "if_nth_else" (.noIndex "9223372036854775808")) := by
  refine ⟨Text.denotes_iff.2 (by decide +kernel), fun hequal => ?_, rfl⟩
  have hbounds := hequal.bounds
  exact absurd hbounds.2 (by decide)

end MethodRegistry
end Stencil
