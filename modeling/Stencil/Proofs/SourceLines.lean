import Stencil.Proofs.TemplateConcatenation
import Stencil.Proofs.Trimming

namespace Stencil

/-!
# What the lines of a template are

A raw line ends with its line feed, or it is the last one and has none.  The line
of the template is what is left of it without the line feed and without the
carriage returns before that.
-/

namespace Text

/-- A text without line feeds makes up one line with the first line feed after it. -/
theorem lines_append_feed {s : Text} (hs : '\n' ∉ s) (t : Text) :
    lines (s ++ '\n' :: t) = (s ++ ['\n']) :: lines t := by
  induction s with
  | nil => simp [lines]
  | cons c s ih =>
      rw [List.mem_cons, not_or] at hs
      rw [List.cons_append, lines, if_neg (Ne.symm hs.1), ih hs.2]
      rfl

/-- A text without line feeds is a line, unless it is empty. -/
theorem lines_of_not_mem {t : Text} (ht : '\n' ∉ t) (hne : t ≠ []) : lines t = [t] := by
  induction t with
  | nil => exact absurd rfl hne
  | cons c rest ih =>
      rw [List.mem_cons, not_or] at ht
      rw [lines, if_neg (Ne.symm ht.1)]
      cases rest with
      | nil => rfl
      | cons d rest => rw [ih ht.2 (List.cons_ne_nil d rest), extendFirst]

/-- A line has no line feed but perhaps the one at its end. -/
theorem exists_of_mem_lines {raw t : Text} (hraw : raw ∈ lines t) :
    ∃ text feed, raw = text ++ feed ∧ '\n' ∉ text ∧ (feed = [] ∨ feed = ['\n']) := by
  induction t generalizing raw with
  | nil => cases hraw
  | cons c rest ih =>
      by_cases hc : c = '\n'
      · rw [lines, if_pos hc] at hraw
        rcases List.mem_cons.1 hraw with rfl | hmem
        · exact ⟨[], [c], rfl, by simp, Or.inr (by rw [hc])⟩
        · exact ih hmem
      · rw [lines, if_neg hc] at hraw
        -- The character goes in front of the first line of the rest.
        cases hlines : lines rest with
        | nil =>
            rw [hlines] at hraw
            obtain rfl := List.mem_singleton.1 hraw
            exact ⟨[c], [], rfl, by simp [Ne.symm hc], Or.inl rfl⟩
        | cons first others =>
            rw [hlines] at hraw ih
            rcases List.mem_cons.1 hraw with rfl | hmem
            · obtain ⟨text, feed, rfl, htext, hfeed⟩ := ih List.mem_cons_self
              exact ⟨c :: text, feed, rfl, by simp [Ne.symm hc, htext], hfeed⟩
            · exact ih (List.mem_cons_of_mem _ hmem)

end Text

namespace Template

/-- A raw line is its text with carriage returns and perhaps a line feed behind it, and no more of
these could be taken from its end. -/
structure EndsLine (raw text : Text) : Prop where
  exists_end : ∃ returns feed, raw = text ++ returns ++ feed ∧ (∀ c ∈ returns, c = '\r') ∧
    (feed = [] ∨ feed = ['\n'])
  not_feed : '\n' ∉ text
  not_return : ∀ front, text ≠ front ++ ['\r']

/-- A text without line feeds keeps its end where line feeds are dropped. -/
theorem dropEndWhile_feed {t : Text} (ht : '\n' ∉ t) : Text.dropEndWhile (· = '\n') t = t := by
  refine Text.dropEndWhile_eq_self fun front c hlast => decide_eq_false ?_
  rintro rfl
  simp [hlast] at ht

theorem dropEndWhile_feed_append {t feed : Text} (ht : '\n' ∉ t)
    (hfeed : feed = [] ∨ feed = ['\n']) : Text.dropEndWhile (· = '\n') (t ++ feed) = t := by
  rw [Text.dropEndWhile_append_of_pos _ (by rcases hfeed with rfl | rfl <;> simp),
    dropEndWhile_feed ht]

theorem endsLine_withoutEnd {raw t : Text} (hraw : raw ∈ Text.lines t) :
    EndsLine raw (withoutEnd raw) := by
  obtain ⟨text, feed, rfl, htext, hfeed⟩ := Text.exists_of_mem_lines hraw
  obtain ⟨returns, hreturns, hcut⟩ := Text.exists_dropEndWhile (· = '\r') text
  rw [withoutEnd, dropEndWhile_feed_append htext hfeed]
  refine ⟨⟨returns, feed, by rw [← hcut], by simpa using hreturns, hfeed⟩, ?_, ?_⟩
  · exact fun hmem => htext (hcut ▸ List.mem_append_left returns hmem)
  · intro front hfront
    simpa using Text.not_of_dropEndWhile hfront

/-- Nothing but the line feed and the carriage returns is taken from a line. -/
theorem withoutEnd_of_endsLine {raw text : Text} (hends : EndsLine raw text) :
    withoutEnd raw = text := by
  obtain ⟨⟨returns, feed, rfl, hreturns, hfeed⟩, hnofeed, hnoreturn⟩ := hends
  have hnone : '\n' ∉ text ++ returns := by
    intro hmem
    rcases List.mem_append.1 hmem with hmem | hmem
    · exact hnofeed hmem
    · cases hreturns _ hmem
  rw [withoutEnd, dropEndWhile_feed_append hnone hfeed,
    Text.dropEndWhile_append_of_pos _ (by simpa using hreturns)]
  refine Text.dropEndWhile_eq_self fun front c hlast => decide_eq_false ?_
  rintro rfl
  exact hnoreturn front hlast

end Template
end Stencil
