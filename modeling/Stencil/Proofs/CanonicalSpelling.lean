import Stencil.Proofs.TypeLists

namespace Stencil

/-!
# Canonical spelling and lists

The canonical spelling of a type name moves white space and nothing else.  What
is left of a text without the white space next to its commas and at its ends,
`TypeName.unspaced`, is the same before and after, and it says which texts have
one canonical spelling.

A comma that cuts a list is followed by the canonical spelling of what comes
behind it, and what stands before it is spelled as if it stood alone
(`IsItem.canonical_append_comma`).  So the items of a list in canonical
spelling are the canonical spellings of its items, and a text is no list in one
spelling if it is none in the other.
-/

namespace TypeName

/-! ## Texts without spacing -/

/-- A text without the white space next to its commas and at its ends. -/
def unspaced (t : Text) : Text := Text.joined "," ((t.splitOnP (· = ',')).map Text.trim)

theorem unspaced_eq (t : Text) : unspaced t = Text.joined "," (spelling t) := rfl

theorem unspaced_of_not_mem {t : Text} (ht : ',' ∉ t) : unspaced t = t.trim := by
  rw [unspaced_eq, spelling_of_not_mem ht]
  rfl

theorem unspaced_append_cons {p : Text} (hp : ',' ∉ p) (u : Text) :
    unspaced (p ++ ',' :: u) = p.trim ++ ',' :: unspaced u := by
  rw [unspaced_eq, spelling_append_cons hp, Text.joined_cons_of_ne_nil (spelling_ne_nil u),
    List.append_assoc, ← unspaced_eq]
  rfl

theorem comma_not_mem_trim {p : Text} (hp : ',' ∉ p) : ',' ∉ p.trim := by
  intro hmem
  exact hp ((Text.isInfix_trim p).subset hmem)

/-- The texts between the commas can be read off what is left without spacing. -/
theorem spelling_unspaced (t : Text) : spelling (unspaced t) = spelling t := by
  induction t using comma_induction with
  | plain t ht => rw [unspaced_of_not_mem ht, spelling_trim]
  | comma p u hp ih =>
      rw [unspaced_append_cons hp, spelling_append_cons (comma_not_mem_trim hp),
        spelling_append_cons hp, ih, Text.trim_trim]

/-- Texts are alike exactly if nothing but their spacing differs. -/
theorem alike_iff_unspaced_eq {s t : Text} : Alike s t ↔ unspaced s = unspaced t := by
  rw [alike_iff_spelling_eq]
  constructor
  · intro h
    rw [unspaced_eq, unspaced_eq, h]
  · intro h
    rw [← spelling_unspaced s, h, spelling_unspaced]

/-! ## What stands before a comma -/

/-- A comma between two texts separates what stands between their commas. -/
theorem spelling_append_comma (s t : Text) :
    spelling (s ++ ',' :: t) = spelling s ++ spelling t := by
  rw [spelling, List.splitOnP_append_cons s t rfl, List.map_append]
  rfl

theorem Alike.append_comma {s t : Text} (h : Alike s t) (u : Text) :
    Alike (s ++ ',' :: u) (t ++ ',' :: u) := by
  rw [alike_iff_spelling_eq] at h ⊢
  rw [spelling_append_comma, spelling_append_comma, h]

/-- A comma at the start is followed by a space, unless another comma comes next. -/
theorem canonical_comma (t : Text) :
    canonical (',' :: t) =
      if (canonical t).head? = some ',' then ',' :: canonical t else ',' :: ' ' :: canonical t :=
  canonical_append_cons List.not_mem_nil t

theorem canonical_of_isBlank {t : Text} (ht : t.isBlank = true) : canonical t = [] := by
  rw [Text.isBlank_iff, List.isEmpty_iff] at ht
  rw [canonical, ht]
  rfl

theorem Padded.canonical_eq {item piece : Text} (h : Padded item piece) :
    canonical piece = canonical item := by
  rw [canonical, canonical, h.trim_eq]

namespace IsItem

variable {item : Text}

/-- An item ends with a solid character: a comma there would stand outside its brackets. -/
theorem exists_last (hitem : IsItem item) :
    ∃ front c, item = front ++ [c] ∧ isSolid c = true := by
  obtain ⟨front, c, rfl, hwhite⟩ := Text.last_of_trim_eq_self hitem.trimmed hitem.ne_nil
  refine ⟨front, c, rfl, ?_⟩
  have hcomma : c ≠ ',' := by
    rintro rfl
    apply hitem.comma_inside front [] rfl
    have hrun := hitem.matched.run_eq []
    rw [run_append] at hrun
    obtain ⟨stack, hfront, hend⟩ := Option.bind_eq_some_iff.1 hrun
    obtain rfl : stack = [] := Option.some.inj hend
    exact Bracket.run_eq_nil_iff.1 hfront
  simp [isSolid, hwhite, hcomma]

theorem canonical_eq (hitem : IsItem item) : canonical item = respaced item := by
  rw [canonical, hitem.trimmed]

theorem trimStart_eq (hitem : IsItem item) : item.trimStart = item := by
  rw [← hitem.trimmed, Text.trimStart_trim]

theorem trim_canonical (hitem : IsItem item) : (canonical item).trim = canonical item := by
  have hstart : (respaced item).trimStart = respaced item := by
    rw [trimStart_respaced, hitem.trimStart_eq]
  obtain ⟨front, c, rfl, hc⟩ := hitem.exists_last
  rw [hitem.canonical_eq, Text.trim, hstart, respaced_append_singleton hc]
  exact Text.dropEndWhile_append_of_neg (not_white_of_isSolid hc) (respaced front)

/-- The canonical spelling of an item is an item. -/
theorem isItem_canonical (hitem : IsItem item) : IsItem (canonical item) where
  toIsPiece := hitem.toIsPiece.of_alike (alike_canonical item).symm
  trimmed := hitem.trim_canonical
  ne_nil := by
    obtain ⟨front, c, rfl, hc⟩ := hitem.exists_last
    rw [hitem.canonical_eq, respaced_append_singleton hc]
    simp

/-- An item before a comma is spelled as if it stood alone. -/
theorem canonical_append_comma (hitem : IsItem item) (rest : Text) :
    canonical (item ++ ',' :: rest) = canonical item ++ canonical (',' :: rest) := by
  have hcomma : isWhite ',' = false := by decide
  have htrim : (item ++ ',' :: rest).trim = item ++ ',' :: rest.trimEnd := by
    rw [Text.trim_append_cons hcomma, hitem.trimStart_eq]
  have hrest : Text.trim (',' :: rest) = ',' :: rest.trimEnd := Text.trim_append_cons hcomma [] rest
  simp only [canonical, htrim, hrest, hitem.trimmed]
  obtain ⟨front, c, rfl, hc⟩ := hitem.exists_last
  rw [List.append_assoc]
  exact respaced_append_cons hc front (',' :: rest.trimEnd)

end IsItem

/-! ## Lists -/

/-- A list in canonical spelling lists the canonical spellings of its items. -/
theorem Lists.lists_canonical {items : List Text} {t : Text} (hlists : Lists items t)
    (hitems : ∀ item ∈ items, IsItem item) : Lists (items.map canonical) (canonical t) := by
  induction hlists with
  | none hblank =>
      rw [canonical_of_isBlank hblank]
      exact .none rfl
  | last hpiece =>
      rw [hpiece.canonical_eq]
      exact .last (.refl _)
  | @more item piece rest items hne hpiece hrest ih =>
      rw [List.forall_mem_cons] at hitems
      have halike : Alike piece item := alike_iff_canonical_eq.2 hpiece.canonical_eq
      have hlater := ih hitems.2
      have hmore : items.map canonical ≠ [] := by simpa using hne
      rw [(halike.append_comma rest).canonical_eq, hitems.1.canonical_append_comma,
        canonical_comma, List.map_cons]
      -- The comma is followed by a space or by another comma, and the list goes on behind it.
      split
      · exact .more hmore (.refl _) hlater
      · have hspace : Text.isBlank [' '] = true := by decide
        exact .more hmore (.refl _) (hlater.blank_append hspace)

/-- Splitting a list commutes with the canonical spelling. -/
theorem splitList?_canonical (t : Text) :
    splitList? (canonical t) = (splitList? t).map (List.map canonical) := by
  cases hsplit : splitList? t with
  | none =>
      have hboth := (alike_canonical t).splitList?_rel
      rw [hsplit] at hboth
      generalize splitList? (canonical t) = items? at hboth ⊢
      cases hboth
      rfl
  | some items =>
      obtain ⟨hitems, hlists⟩ := splitList?_eq_some_iff.1 hsplit
      refine splitList?_eq_some_iff.2 ⟨?_, hlists.lists_canonical hitems⟩
      intro name hmem
      obtain ⟨item, hitem, rfl⟩ := List.mem_map.1 hmem
      exact (hitems item hitem).isItem_canonical

end TypeName

namespace Dispatcher

open Stencil.TypeName (canonical unspaced alike_canonical alike_iff_canonical_eq
  alike_iff_unspaced_eq splitList?_canonical)

theorem toOption_captureList (list : Text) :
    (captureList list).toOption = TypeName.splitList? list := by
  unfold captureList
  cases TypeName.splitList? list <;> rfl

/-- The canonical spelling of a text is spelled canonically, and differs from the text at most in
the white space next to its commas and at its ends; all texts that differ no more have the same
canonical spelling.  It is a list of types exactly if the text is one, and its items are then the
canonical spellings of the items of the text. -/
theorem canonical_changes_spacing_only (t : Text) :
    canonical (canonical t) = canonical t ∧
      unspaced (canonical t) = unspaced t ∧
        (∀ s, canonical s = canonical t ↔ unspaced s = unspaced t) ∧
          (captureList (canonical t)).toOption =
            (captureList t).toOption.map (List.map canonical) := by
  refine ⟨(alike_canonical t).canonical_eq, alike_iff_unspaced_eq.1 (alike_canonical t), ?_, ?_⟩
  · intro s
    rw [← alike_iff_canonical_eq, alike_iff_unspaced_eq]
  · rw [toOption_captureList, toOption_captureList, splitList?_canonical]

/-- Commas inside brackets are spaced as well, and do not cut. -/
example : captureList (canonical "\tpair<a ,b>,f(,c ) ") = .ok ["pair<a, b>", "f(, c )"] := by
  decide +kernel

end Dispatcher
end Stencil
