import Stencil.Proofs.TypeDispatch

namespace Stencil
namespace TypeName

/-!
# Names that differ in the spacing of commas

Whatever white space stands around the commas of a type name, the texts between
the commas are the same once they are trimmed.  Two names are `Alike` if they
agree in these texts.  The canonical spelling of a name is alike to it
(`alike_canonical`) and depends on nothing else (`Alike.canonical_eq`), so names
are alike exactly if they have one canonical spelling.

Alike names stay alike where they are taken apart: `Alike.angled` does this for
what stands between angle brackets.
-/

/-! ## Induction on the commas of a text -/

/-- What holds of texts without commas, and of a text with a comma as soon as it holds of what
follows its first comma, holds of all texts. -/
@[elab_as_elim]
theorem comma_induction {motive : Text → Prop} (plain : ∀ t, ',' ∉ t → motive t)
    (comma : ∀ p u, ',' ∉ p → motive u → motive (p ++ ',' :: u)) (t : Text) : motive t :=
  Text.cut_induction ',' plain comma t

/-! ## The texts between the commas -/

/-- The trimmed texts between the commas of a text. -/
def spelling (t : Text) : List Text := (t.splitOnP (· = ',')).map Text.trim

theorem spelling_of_not_mem {t : Text} (ht : ',' ∉ t) : spelling t = [t.trim] := by
  have hsplit : t.splitOnP (· = ',') = [t] := by
    refine List.splitOnP_eq_singleton fun c hc => decide_eq_false ?_
    rintro rfl
    exact ht hc
  rw [spelling, hsplit]
  rfl

theorem spelling_append_cons {p : Text} (hp : ',' ∉ p) (u : Text) :
    spelling (p ++ ',' :: u) = p.trim :: spelling u := by
  have hfirst := spelling_of_not_mem hp
  unfold spelling at hfirst ⊢
  rw [List.splitOnP_append_cons p u rfl, List.map_append, hfirst]
  rfl

theorem spelling_ne_nil (t : Text) : spelling t ≠ [] := by
  simp [spelling]

/-- The white space at the ends of a text belongs to its first and its last piece. -/
theorem spelling_trimStart (t : Text) : spelling t.trimStart = spelling t := by
  have hsub : ∀ {s : Text}, ',' ∉ s → ',' ∉ s.trimStart :=
    fun hs hmem => hs ((List.dropWhile_sublist _).subset hmem)
  induction t using comma_induction with
  | plain t ht => rw [spelling_of_not_mem ht, spelling_of_not_mem (hsub ht), Text.trim_trimStart]
  | comma p u hp ih =>
      rw [Text.trimStart_append_cons (by decide), spelling_append_cons hp,
        spelling_append_cons (hsub hp), Text.trim_trimStart]

theorem spelling_trimEnd (t : Text) : spelling t.trimEnd = spelling t := by
  induction t using comma_induction with
  | plain t ht =>
      have hkept : ',' ∉ t.trimEnd := by
        obtain ⟨dropped, -, hcut⟩ := Text.exists_dropEndWhile isWhite t
        exact fun hmem => ht (hcut ▸ List.mem_append_left dropped hmem)
      rw [spelling_of_not_mem ht, spelling_of_not_mem hkept, Text.trim_trimEnd]
  | comma p u hp ih =>
      rw [Text.trimEnd, Text.dropEndWhile_append_cons_of_neg (by decide),
        spelling_append_cons hp, spelling_append_cons hp, ← Text.trimEnd, ih]

theorem spelling_trim (t : Text) : spelling t.trim = spelling t := by
  rw [Text.trim, spelling_trimEnd, spelling_trimStart]

/-! ## Spacing piece by piece -/

/-- White space at the start of a text is no matter of spacing. -/
theorem trimStart_respaced (t : Text) : (respaced t).trimStart = respaced t.trimStart := by
  induction t with
  | nil => rfl
  | cons c rest ih =>
      by_cases hc : isWhite c = true
      · have hne : c ≠ ',' := by
          rintro rfl
          cases hc
        have hstart : Text.trimStart (c :: rest) = Text.trimStart rest :=
          List.dropWhile_cons_of_pos hc
        rw [hstart, ← ih]
        simp only [respaced, if_neg hne]
        split
        · exact Text.trimStart_trimStart _
        · exact List.dropWhile_cons_of_pos hc
      · have hwhite : isWhite c = false := by simpa using hc
        rw [Text.trimStart_cons_of_not_white hwhite]
        by_cases hcomma : c = ','
        · subst hcomma
          simp only [respaced, if_true]
          split <;> exact Text.trimStart_cons_of_not_white (by decide) _
        · rw [respaced_cons_of_isSolid (by simp [isSolid, hwhite, hcomma]),
            Text.trimStart_cons_of_not_white hwhite]

/-- What stands before a comma loses the white space at its end. -/
theorem respaced_append_cons_comma {p : Text} (hp : ',' ∉ p) (u : Text) :
    respaced (p ++ ',' :: u) = p.trimEnd ++ respaced (',' :: u) := by
  obtain ⟨more, hmore⟩ : ∃ more, respaced (',' :: u) = ',' :: more := by
    simp only [respaced, if_true]
    split
    · exact ⟨_, rfl⟩
    · exact ⟨_, rfl⟩
  induction p with
  | nil => rfl
  | cons c p ih =>
      rw [List.mem_cons, not_or] at hp
      have hrest := ih hp.2
      rw [hmore] at hrest ⊢
      have hnext : Text.trimStart (Text.trimEnd p ++ ',' :: more) = Text.trim p ++ ',' :: more := by
        rw [Text.trimStart_append_cons (by decide), Text.trimStart_trimEnd]
      rw [List.cons_append, respaced]
      simp only [hrest, hnext, if_neg (Ne.symm hp.1)]
      cases hend : Text.trimEnd p with
      | nil =>
          -- Nothing but white space stands between the character and the comma.
          have htrim : Text.trim p = [] := by rw [← Text.trimStart_trimEnd, hend]; rfl
          have hcons : Text.trimEnd (c :: p) = if isWhite c = true then [] else [c] := by
            rw [Text.trimEnd] at hend ⊢
            rw [Text.dropEndWhile, hend]
          rw [htrim, hcons]
          by_cases hc : isWhite c = true <;> simp [hc]
      | cons d kept =>
          have hcons : Text.trimEnd (c :: p) = c :: d :: kept := by
            rw [Text.trimEnd] at hend ⊢
            rw [Text.dropEndWhile, hend]
          have hhead : (Text.trim p ++ ',' :: more).head? ≠ some ',' := by
            cases htrim : Text.trim p with
            | nil =>
                have hblank : Text.isBlank (d :: kept) = true := by
                  rw [← hend]
                  exact Text.isBlank_of_trimStart (by rw [Text.trimStart_trimEnd, htrim])
                have hnil := Text.dropEndWhile_eq_nil (List.all_eq_true.1 hblank)
                rw [← hend, ← Text.trimEnd, Text.trimEnd_trimEnd, hend] at hnil
                cases hnil
            | cons e inside =>
                obtain ⟨before, after, -, -, hcut⟩ := Text.exists_trim p
                simp only [List.cons_append, List.head?_cons, ne_eq, Option.some.injEq]
                rintro rfl
                refine hp.2 ?_
                rw [hcut, htrim]
                simp
          rw [if_neg fun h => hhead h.2, hcons]
          rfl

/-- Spacing changes no text between the commas but for the white space at its ends. -/
theorem spelling_respaced (t : Text) : spelling (respaced t) = spelling t := by
  induction t using comma_induction with
  | plain t ht => rw [respaced_of_not_mem ht]
  | comma p u hp ih =>
      have hkept : ',' ∉ p.trimEnd := by
        obtain ⟨dropped, -, hcut⟩ := Text.exists_dropEndWhile isWhite p
        exact fun hmem => hp (hcut ▸ List.mem_append_left dropped hmem)
      have hspace : ∀ s, spelling (' ' :: s) = spelling s := fun s => by
        rw [← spelling_trimStart, Text.trimStart, List.dropWhile_cons_of_pos (by decide),
          ← Text.trimStart, spelling_trimStart]
      rw [respaced_append_cons_comma hp, spelling_append_cons hp, ← ih,
        ← spelling_trimStart (respaced u), ← Text.trim_trimEnd p]
      simp only [respaced, if_true]
      split
      · exact spelling_append_cons hkept _
      · rw [spelling_append_cons hkept, hspace]

/-- The canonical spelling is made up of the texts between the commas. -/
theorem canonical_append_cons {p : Text} (hp : ',' ∉ p) (u : Text) :
    canonical (p ++ ',' :: u) = p.trim ++
      if (canonical u).head? = some ',' then ',' :: canonical u else ',' :: ' ' :: canonical u := by
  have hstart : ',' ∉ p.trimStart := fun hmem => hp ((List.dropWhile_sublist _).subset hmem)
  have hnext : (respaced u.trimEnd).trimStart = canonical u := by
    rw [trimStart_respaced, Text.trimStart_trimEnd, canonical]
  rw [canonical, Text.trim_append_cons (by decide), respaced_append_cons_comma hstart, ← Text.trim]
  simp only [respaced, if_true, hnext]

/-! ## Alike names -/

/-- Two texts that differ at most in the white space around their commas and at their ends. -/
inductive Alike : Text → Text → Prop where
  | plain {s t : Text} (hs : ',' ∉ s) (ht : ',' ∉ t) (htrim : s.trim = t.trim) : Alike s t
  | comma {p q u v : Text} (hp : ',' ∉ p) (hq : ',' ∉ q) (htrim : p.trim = q.trim)
      (hrest : Alike u v) : Alike (p ++ ',' :: u) (q ++ ',' :: v)

/-- Texts are alike exactly if they have the same texts between their commas. -/
theorem alike_iff_spelling_eq {s t : Text} : Alike s t ↔ spelling s = spelling t := by
  constructor
  · intro h
    induction h with
    | plain hs ht htrim => rw [spelling_of_not_mem hs, spelling_of_not_mem ht, htrim]
    | comma hp hq htrim hrest ih =>
        rw [spelling_append_cons hp, spelling_append_cons hq, htrim, ih]
  · intro h
    induction s using comma_induction generalizing t with
    | plain s hs =>
        rw [spelling_of_not_mem hs] at h
        by_cases hcomma : ',' ∈ t
        · obtain ⟨q, v, rfl, hq⟩ := List.eq_append_cons_of_mem hcomma
          rw [spelling_append_cons hq] at h
          exact absurd (List.cons.inj h).2.symm (spelling_ne_nil v)
        · rw [spelling_of_not_mem hcomma] at h
          exact .plain hs hcomma (List.cons.inj h).1
    | comma p u hp ih =>
        rw [spelling_append_cons hp] at h
        by_cases hcomma : ',' ∈ t
        · obtain ⟨q, v, rfl, hq⟩ := List.eq_append_cons_of_mem hcomma
          rw [spelling_append_cons hq] at h
          obtain ⟨hfirst, hrest⟩ := List.cons.inj h
          exact .comma hp hq hfirst (ih hrest)
        · rw [spelling_of_not_mem hcomma] at h
          exact absurd (List.cons.inj h).2 (spelling_ne_nil u)

theorem Alike.refl (t : Text) : Alike t t := alike_iff_spelling_eq.2 rfl

theorem Alike.symm {s t : Text} (h : Alike s t) : Alike t s :=
  alike_iff_spelling_eq.2 (alike_iff_spelling_eq.1 h).symm

theorem Alike.trans {s t u : Text} (h : Alike s t) (h' : Alike t u) : Alike s u :=
  alike_iff_spelling_eq.2 ((alike_iff_spelling_eq.1 h).trans (alike_iff_spelling_eq.1 h'))

theorem alike_trim (t : Text) : Alike t.trim t := alike_iff_spelling_eq.2 (spelling_trim t)

theorem alike_respaced (t : Text) : Alike (respaced t) t :=
  alike_iff_spelling_eq.2 (spelling_respaced t)

theorem alike_canonical (t : Text) : Alike (canonical t) t :=
  (alike_respaced t.trim).trans (alike_trim t)

/-- Alike names have one canonical spelling. -/
theorem Alike.canonical_eq {s t : Text} (h : Alike s t) : canonical s = canonical t := by
  induction h with
  | plain hs ht htrim => rw [canonical, canonical, htrim]
  | comma hp hq htrim hrest ih =>
      rw [canonical_append_cons hp, canonical_append_cons hq, htrim, ih]

theorem alike_iff_canonical_eq {s t : Text} : Alike s t ↔ canonical s = canonical t := by
  refine ⟨Alike.canonical_eq, fun h => ?_⟩
  exact (alike_canonical s).symm.trans (h ▸ alike_canonical t)

/-! ## What stands between angle brackets -/

/-- A solid character at the start of a spaced text was there before. -/
theorem exists_of_respaced_cons {t u : Text} {c : Char} (hc : isSolid c = true)
    (h : respaced t = c :: u) : ∃ rest, t = c :: rest ∧ respaced rest = u := by
  cases t with
  | nil => cases h
  | cons d rest =>
      have hnext : ∀ {s : Text}, s.head? = some ',' → s ≠ c :: u := by
        rintro s hs rfl
        exact ne_comma_of_isSolid hc (Option.some.inj hs)
      simp only [respaced] at h
      split at h
      · split at h <;> exact absurd (List.cons.inj h).1.symm (ne_comma_of_isSolid hc)
      · split at h
        · rename_i hwhite
          exact absurd h (hnext hwhite.2)
        · obtain ⟨rfl, hrest⟩ := List.cons.inj h
          exact ⟨rest, rfl, hrest⟩

theorem exists_of_respaced_append {t w u : Text} (hw : ∀ c ∈ w, isSolid c = true)
    (h : respaced t = w ++ u) : ∃ rest, t = w ++ rest ∧ respaced rest = u := by
  induction w generalizing t with
  | nil => exact ⟨t, rfl, h⟩
  | cons c w ih =>
      rw [List.forall_mem_cons] at hw
      obtain ⟨rest, rfl, hrest⟩ := exists_of_respaced_cons hw.1 h
      obtain ⟨more, rfl, hmore⟩ := ih hw.2 hrest
      exact ⟨more, rfl, hmore⟩

/-- A solid character at the end does not change the spacing before it. -/
theorem respaced_append_singleton {c : Char} (hc : isSolid c = true) (t : Text) :
    respaced (t ++ [c]) = respaced t ++ [c] := by
  induction t with
  | nil => exact respaced_of_not_mem (by simpa using Ne.symm (ne_comma_of_isSolid hc))
  | cons d t ih =>
      have hstart : Text.trimStart (respaced t ++ [c]) = Text.trimStart (respaced t) ++ [c] :=
        Text.trimStart_append_cons (not_white_of_isSolid hc) _ []
      have hhead : (Text.trimStart (respaced t) ++ [c]).head? = some ',' ↔
          (Text.trimStart (respaced t)).head? = some ',' := by
        cases Text.trimStart (respaced t) with
        | nil => simp [ne_comma_of_isSolid hc]
        | cons e more => simp
      simp only [List.cons_append, respaced, ih, hstart, hhead]
      split
      · split <;> rfl
      · split <;> rfl

/-- A solid character at the end of a spaced text was there before, unless the text ends with
white space. -/
theorem exists_of_respaced_append_singleton {t u : Text} {c : Char} (hc : isSolid c = true)
    (hlast : ∀ front d, t = front ++ [d] → isWhite d = false) (h : respaced t = u ++ [c]) :
    ∃ front, t = front ++ [c] ∧ respaced front = u := by
  rcases List.eq_nil_or_concat t with rfl | ⟨front, d, rfl⟩
  · simp [respaced] at h
  · rw [List.concat_eq_append] at h hlast ⊢
    by_cases hd : isSolid d = true
    · rw [respaced_append_singleton hd] at h
      obtain ⟨hfront, hend⟩ := List.append_inj' h rfl
      exact ⟨front, by rw [(List.cons.inj hend).1], hfront⟩
    · -- The last character is a comma, and would have been given a space.
      have hcomma : d = ',' := by
        have hwhite := hlast front d rfl
        simpa [isSolid, hwhite] using hd
      obtain ⟨w, hw, -⟩ := respaced_append_comma front
      rw [hcomma, hw] at h
      have hspace := (List.cons.inj (List.append_inj' h rfl).2).1
      rw [← hspace] at hc
      cases hc

/-- A trimmed name that is alike to one with angle brackets has the same head and alike text
between the brackets. -/
theorem Alike.angled {head inner name : Text} (hhead : isWord head = true)
    (htrimmed : (angled head inner).trim = angled head inner) (hname : name.trim = name)
    (h : Alike (TypeName.angled head inner) name) :
    ∃ inner', name = TypeName.angled head inner' ∧ Alike inner inner' := by
  have hsolid : ∀ c ∈ head ++ ['<'], isSolid c = true := by
    intro c hc
    rcases List.mem_append.1 hc with hc | hc
    · exact isSolid_of_mem_word hhead hc
    · rw [List.mem_singleton.1 hc]
      decide
  have hangle : isSolid '>' = true := by decide
  have hspaced : respaced name = (head ++ ['<']) ++ (respaced inner ++ ['>']) := by
    have hcanonical := h.canonical_eq
    have hopen : respaced (head ++ ['<']) = head ++ ['<'] :=
      respaced_of_not_mem fun hmem => by cases hsolid _ hmem
    rw [canonical, canonical, htrimmed, hname] at hcanonical
    rw [← hcanonical, TypeName.angled, respaced_append_cons (by decide), hopen,
      respaced_append_singleton hangle]
  obtain ⟨rest, rfl, hrest⟩ := exists_of_respaced_append hsolid hspaced
  have hlast : ∀ front d, rest = front ++ [d] → isWhite d = false := by
    rintro front d rfl
    rw [← List.append_assoc] at hname
    exact Text.not_white_of_trim hname
  obtain ⟨inner', rfl, hinner⟩ := exists_of_respaced_append_singleton hangle hlast hrest
  refine ⟨inner', by simp [TypeName.angled], ?_⟩
  exact (alike_respaced inner).symm.trans (hinner ▸ alike_respaced inner')

end TypeName
end Stencil
