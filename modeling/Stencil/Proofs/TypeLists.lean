import Stencil.Proofs.AlikeDispatch
import Stencil.Proofs.FunctionNames

namespace Stencil

/-!
# Lists of types

A list of types is cut at the commas outside its brackets, while a stack holds
the brackets that are open.  This module says without a stack what is cut and
what comes out of it.

* `Bracket.Matched` — the texts in which brackets match, as a grammar;
  `Bracket.run_eq_nil_iff` is the one place where the stack meets it.
* `TypeName.IsPiece` and `TypeName.IsItem` — the texts between the commas that
  cut, and what trimming leaves of them.
* `TypeName.topLevelPieces?_eq_some_iff` — cutting finds the one way in which a
  text is made of pieces and commas.
* `Dispatcher.captureList_inverts_joining` — so the items of a list are those that
  it was joined of, and nothing but a list of items is accepted.
-/

/-! ## Matching brackets -/

namespace Bracket

/-- A text in which every bracket is matched by one of its own kind, in order. -/
inductive Matched : Text → Prop where
  | nil : Matched []
  | plain {c : Char} {rest : Text} (hopened : opened? c = none) (hclosed : closed? c = none)
      (hrest : Matched rest) : Matched (c :: rest)
  | enclosed {kind : Bracket} {opening closing : Char} {inner rest : Text}
      (hopening : opened? opening = some kind) (hclosing : closed? closing = some kind)
      (hinner : Matched inner) (hrest : Matched rest) :
      Matched (opening :: (inner ++ closing :: rest))

theorem run_cons (stack : List Bracket) (c : Char) (rest : Text) :
    run stack (c :: rest) = (step stack c).bind fun stack => run stack rest := rfl

/-- No character both closes and opens a bracket. -/
theorem opened?_of_closed? {c : Char} {kind : Bracket} (hclosed : closed? c = some kind) :
    opened? c = none := by
  unfold closed? at hclosed
  split at hclosed
  · rfl
  · rfl
  · rfl
  · rfl
  · cases hclosed

/-- What a character does: nothing, open a bracket, or close the innermost one. -/
theorem step_eq_some_iff {stack next : List Bracket} {c : Char} :
    step stack c = some next ↔
      (opened? c = none ∧ closed? c = none ∧ next = stack) ∨
        (∃ kind, opened? c = some kind ∧ next = kind :: stack) ∨
          ∃ kind, closed? c = some kind ∧ stack = kind :: next := by
  unfold step
  cases hopened : opened? c with
  | some kind =>
      have hclosed : closed? c = none := by
        cases hclosed : closed? c with
        | none => rfl
        | some other =>
            rw [opened?_of_closed? hclosed] at hopened
            cases hopened
      simp [hclosed, eq_comm]
  | none =>
      cases hclosed : closed? c with
      | none => simp [eq_comm]
      | some kind =>
          cases stack with
          | nil => simp
          | cons top base =>
              by_cases htop : top = kind
              · simp [htop]
              · simp [htop]

/-- A text with matching brackets leaves the open ones as they are. -/
theorem Matched.run_eq {t : Text} (ht : Matched t) (stack : List Bracket) :
    run stack t = some stack := by
  induction ht generalizing stack with
  | nil => rfl
  | plain hopened hclosed hrest ih =>
      have hstep := step_eq_some_iff.2 (Or.inl ⟨hopened, hclosed, (rfl : stack = stack)⟩)
      rw [run_cons, hstep, Option.bind_some, ih]
  | @enclosed kind opening closing inner rest hopening hclosing hinner hrest ihinner ihrest =>
      have hopen : step stack opening = some (kind :: stack) :=
        step_eq_some_iff.2 (Or.inr (Or.inl ⟨kind, hopening, rfl⟩))
      have hclose : step (kind :: stack) closing = some stack :=
        step_eq_some_iff.2 (Or.inr (Or.inr ⟨kind, hclosing, rfl⟩))
      rw [run_cons, hopen, Option.bind_some, TypeName.run_append, ihinner, Option.bind_some,
        run_cons, hclose, Option.bind_some, ihrest]

/-- The innermost open bracket is closed by one of its kind, and all brackets before that one
match. -/
theorem exists_closing {t : Text} {kind : Bracket} {stack : List Bracket}
    (hrun : run (kind :: stack) t = some []) :
    ∃ inner closing rest, t = inner ++ closing :: rest ∧ Matched inner ∧
      closed? closing = some kind ∧ run stack rest = some [] := by
  induction hlength : t.length using Nat.strong_induction_on generalizing t kind stack with
  | _ n ih =>
      subst hlength
      cases t with
      | nil => cases hrun
      | cons c t =>
          obtain ⟨next, hstep, hnext⟩ := Option.bind_eq_some_iff.1 hrun
          have hshorter : t.length < (c :: t).length := Nat.lt_succ_self _
          rcases step_eq_some_iff.1 hstep with ⟨hopened, hclosed, rfl⟩ | ⟨other, hopened, rfl⟩ |
            ⟨other, hclosed, hstack⟩
          · obtain ⟨inner, closing, rest, rfl, hinner, hclosing, hrest⟩ :=
              ih _ hshorter hnext rfl
            exact ⟨c :: inner, closing, rest, rfl, .plain hopened hclosed hinner, hclosing, hrest⟩
          · -- The new bracket is closed first, and then the one that was open before.
            obtain ⟨inner, closing, rest, rfl, hinner, hclosing, hrest⟩ :=
              ih _ hshorter hnext rfl
            have hrestShorter : rest.length < (c :: (inner ++ closing :: rest)).length := by
              simp only [List.length_cons, List.length_append]
              omega
            obtain ⟨inner', closing', rest', rfl, hinner', hclosing', hrest'⟩ :=
              ih _ hrestShorter hrest rfl
            refine ⟨c :: (inner ++ closing :: inner'), closing', rest', by simp, ?_, hclosing',
              hrest'⟩
            exact .enclosed hopened hclosing hinner hinner'
          · obtain ⟨rfl, rfl⟩ := List.cons.inj hstack
            exact ⟨[], c, t, rfl, .nil, hclosed, hnext⟩

theorem matched_of_run {t : Text} (hrun : run [] t = some []) : Matched t := by
  induction hlength : t.length using Nat.strong_induction_on generalizing t with
  | _ n ih =>
      subst hlength
      cases t with
      | nil => exact .nil
      | cons c t =>
          obtain ⟨next, hstep, hnext⟩ := Option.bind_eq_some_iff.1 hrun
          rcases step_eq_some_iff.1 hstep with ⟨hopened, hclosed, rfl⟩ | ⟨kind, hopened, rfl⟩ |
            ⟨kind, -, hstack⟩
          · exact .plain hopened hclosed (ih _ (Nat.lt_succ_self _) hnext rfl)
          · obtain ⟨inner, closing, rest, rfl, hinner, hclosing, hrest⟩ := exists_closing hnext
            have hshorter : rest.length < (c :: (inner ++ closing :: rest)).length := by
              simp only [List.length_cons, List.length_append]
              omega
            exact .enclosed hopened hclosing hinner (ih _ hshorter hrest rfl)
          · cases hstack

/-- The stack is empty at the end exactly if the brackets match. -/
theorem run_eq_nil_iff {t : Text} : run [] t = some [] ↔ Matched t :=
  ⟨matched_of_run, fun ht => ht.run_eq []⟩

instance (t : Text) : Decidable (Matched t) := decidable_of_iff _ run_eq_nil_iff

end Bracket

namespace Text

theorem isBalanced_iff {t : Text} : t.isBalanced = true ↔ Bracket.Matched t := by
  rw [isBalanced, beq_iff_eq, Bracket.run_eq_nil_iff]

theorem isBlank_append_iff {s t : Text} :
    isBlank (s ++ t) = true ↔ s.isBlank = true ∧ t.isBlank = true := by
  rw [isBlank, List.all_append, Bool.and_eq_true]
  rfl

theorem isBlank_eq_false_iff {t : Text} : t.isBlank = false ↔ t.trim ≠ [] := by
  rw [← Bool.not_eq_true, isBlank_iff, List.isEmpty_iff]

end Text

namespace TypeName

/-! ## Pieces -/

/-- A text with matching brackets and no comma outside of them. -/
structure IsPiece (t : Text) : Prop where
  matched : Bracket.Matched t
  comma_inside : ∀ front rest, t = front ++ ',' :: rest → ¬Bracket.Matched front

/-- A text stays in one piece exactly if its brackets are closed and no comma finds them so. -/
theorem topLevelPieces?_eq_single_iff {stack : List Bracket} {t : Text} :
    topLevelPieces? stack t = some [t] ↔
      Bracket.run stack t = some [] ∧
        ∀ front rest, t = front ++ ',' :: rest → Bracket.run stack front ≠ some [] := by
  induction t generalizing stack with
  | nil =>
      cases stack with
      | nil => exact iff_of_true rfl ⟨rfl, by simp⟩
      | cons top base => exact iff_of_false nofun fun h => by cases h.1
  | cons c t ih =>
      rw [topLevelPieces?_cons]
      by_cases hcut : c = ',' ∧ stack = []
      · obtain ⟨rfl, rfl⟩ := hcut
        rw [if_pos ⟨rfl, rfl⟩]
        refine iff_of_false ?_ fun h => h.2 [] t rfl rfl
        intro hpieces
        obtain ⟨others, -, hlist⟩ := Option.map_eq_some_iff.1 hpieces
        cases (List.cons.inj hlist).1
      · rw [if_neg hcut, Bracket.run_cons]
        cases hstep : Bracket.step stack c with
        | none => exact iff_of_false nofun fun h => by cases h.1
        | some next =>
            have hfirst : (topLevelPieces? next t).map (Text.extendFirst c) = some [c :: t] ↔
                topLevelPieces? next t = some [t] := by
              rw [Option.map_eq_some_iff]
              constructor
              · rintro ⟨pieces, hpieces, hlist⟩
                cases pieces with
                | nil => exact absurd hpieces topLevelPieces?_ne_nil
                | cons piece others =>
                    obtain ⟨hpiece, rfl⟩ := List.cons.inj hlist
                    rw [hpieces, (List.cons.inj hpiece).2]
              · intro hpieces
                exact ⟨[t], hpieces, rfl⟩
            rw [Option.bind_some, Option.bind_some, hfirst, ih]
            refine and_congr_right fun _ => ?_
            constructor
            · intro hinside front rest hcomma
              cases front with
              | nil =>
                  -- The first character is a comma, so some bracket is open there.
                  intro hrun
                  exact hcut ⟨(List.cons.inj hcomma).1, Option.some.inj hrun⟩
              | cons d front =>
                  obtain ⟨rfl, hrest⟩ := List.cons.inj hcomma
                  rw [Bracket.run_cons, hstep]
                  exact hinside front rest hrest
            · intro hinside front rest hcomma
              have hrun := hinside (c :: front) rest (by rw [hcomma]; rfl)
              rwa [Bracket.run_cons, hstep] at hrun

theorem isPiece_iff {t : Text} : IsPiece t ↔ topLevelPieces? [] t = some [t] := by
  rw [topLevelPieces?_eq_single_iff, Bracket.run_eq_nil_iff]
  simp only [ne_eq, Bracket.run_eq_nil_iff]
  exact ⟨fun ht => ⟨ht.matched, ht.comma_inside⟩, fun ht => ⟨ht.1, ht.2⟩⟩

/-- Where the brackets match, the commas outside of them can be found. -/
theorem exists_topLevelPieces? {stack : List Bracket} {t : Text}
    (hrun : Bracket.run stack t = some []) : ∃ pieces, topLevelPieces? stack t = some pieces := by
  induction t generalizing stack with
  | nil =>
      obtain rfl : stack = [] := Option.some.inj hrun
      exact ⟨[[]], rfl⟩
  | cons c t ih =>
      obtain ⟨next, hstep, hnext⟩ := Option.bind_eq_some_iff.1 hrun
      obtain ⟨pieces, hpieces⟩ := ih hnext
      rw [topLevelPieces?_cons]
      by_cases hcut : c = ',' ∧ stack = []
      · obtain ⟨rfl, rfl⟩ := hcut
        obtain rfl : [] = next := Option.some.inj hstep
        exact ⟨[] :: pieces, by rw [if_pos ⟨rfl, rfl⟩, hpieces]; rfl⟩
      · exact ⟨Text.extendFirst c pieces, by rw [if_neg hcut, hstep, Option.bind_some, hpieces]; rfl⟩

/-- The pieces make up the text with the commas between them, and no piece can be cut again; the
first one begins where the brackets of the stack are still open. -/
theorem joined_of_topLevelPieces? {stack : List Bracket} {t first : Text} {others : List Text}
    (hpieces : topLevelPieces? stack t = some (first :: others)) :
    t = Text.joined "," (first :: others) ∧ topLevelPieces? stack first = some [first] ∧
      ∀ piece ∈ others, IsPiece piece := by
  induction t generalizing stack first others with
  | nil =>
      cases stack with
      | nil =>
          obtain ⟨rfl, rfl⟩ := List.cons.inj (Option.some.inj hpieces)
          exact ⟨rfl, rfl, nofun⟩
      | cons top base => cases hpieces
  | cons c t ih =>
      rw [topLevelPieces?_cons] at hpieces
      by_cases hcut : c = ',' ∧ stack = []
      · obtain ⟨rfl, rfl⟩ := hcut
        rw [if_pos ⟨rfl, rfl⟩] at hpieces
        obtain ⟨later, hlater, hlist⟩ := Option.map_eq_some_iff.1 hpieces
        obtain ⟨rfl, rfl⟩ := List.cons.inj hlist
        cases later with
        | nil => exact absurd hlater topLevelPieces?_ne_nil
        | cons second rest =>
            obtain ⟨rfl, hsecond, hrest⟩ := ih hlater
            exact ⟨rfl, rfl, List.forall_mem_cons.2 ⟨isPiece_iff.2 hsecond, hrest⟩⟩
      · rw [if_neg hcut] at hpieces
        obtain ⟨next, hstep, hmap⟩ := Option.bind_eq_some_iff.1 hpieces
        obtain ⟨later, hlater, hlist⟩ := Option.map_eq_some_iff.1 hmap
        cases later with
        | nil => exact absurd hlater topLevelPieces?_ne_nil
        | cons piece rest =>
            obtain ⟨rfl, rfl⟩ := List.cons.inj hlist
            obtain ⟨rfl, hpiece, hrest⟩ := ih hlater
            refine ⟨?_, ?_, hrest⟩
            · cases rest <;> rfl
            · rw [topLevelPieces?_cons, if_neg hcut, hstep, Option.bind_some, hpiece]
              rfl

/-- Pieces that are joined by commas are found again. -/
theorem topLevelPieces?_joined_pieces {pieces : List Text} (hne : pieces ≠ [])
    (hpieces : ∀ piece ∈ pieces, IsPiece piece) :
    topLevelPieces? [] (Text.joined "," pieces) = some pieces := by
  induction pieces with
  | nil => exact absurd rfl hne
  | cons piece rest ih =>
      rw [List.forall_mem_cons] at hpieces
      have hpiece := isPiece_iff.1 hpieces.1
      cases rest with
      | nil => exact hpiece
      | cons next rest =>
          have hrest := ih (List.cons_ne_nil next rest) hpieces.2
          have hjoined : Text.joined "," (piece :: next :: rest) =
              piece ++ ',' :: Text.joined "," (next :: rest) := by simp [Text.joined]
          rw [hjoined, topLevelPieces?_append_of_single hpiece, topLevelPieces?_cons,
            if_pos ⟨rfl, rfl⟩, hrest]
          simp [prependFirst]

/-- A text is cut into pieces exactly if it is these pieces with commas between them. -/
theorem topLevelPieces?_eq_some_iff {t : Text} {pieces : List Text} :
    topLevelPieces? [] t = some pieces ↔
      pieces ≠ [] ∧ t = Text.joined "," pieces ∧ ∀ piece ∈ pieces, IsPiece piece := by
  constructor
  · intro hcut
    cases pieces with
    | nil => exact absurd hcut topLevelPieces?_ne_nil
    | cons first others =>
        obtain ⟨hjoined, hfirst, hothers⟩ := joined_of_topLevelPieces? hcut
        exact ⟨List.cons_ne_nil first others, hjoined,
          List.forall_mem_cons.2 ⟨isPiece_iff.2 hfirst, hothers⟩⟩
  · rintro ⟨hne, rfl, hpieces⟩
    exact topLevelPieces?_joined_pieces hne hpieces

/-! ## Items -/

/-- A piece that is trimmed and not empty. -/
structure IsItem (t : Text) : Prop extends IsPiece t where
  trimmed : t.trim = t
  ne_nil : t ≠ []

/-- A text with white space around it, or without. -/
def Padded (item piece : Text) : Prop :=
  ∃ before after, Text.isBlank before = true ∧ Text.isBlank after = true ∧
    piece = before ++ item ++ after

/-- A text that lists items: commas stand between them, with any white space around each.  A list
without items is blank. -/
inductive Lists : List Text → Text → Prop where
  | none {blank : Text} (hblank : blank.isBlank = true) : Lists [] blank
  | last {item piece : Text} (hpiece : Padded item piece) : Lists [item] piece
  | more {item piece rest : Text} {items : List Text} (hne : items ≠ [])
      (hpiece : Padded item piece) (hrest : Lists items rest) :
      Lists (item :: items) (piece ++ ',' :: rest)

/-- A blank text between two commas outside the brackets of a text, or between one of them and an
end of the text. -/
def HasBlankPiece (t : Text) : Prop :=
  ∃ front piece rest, t = front ++ piece ++ rest ∧ piece.isBlank = true ∧
    (front = [] ∨ ∃ head, front = head ++ [','] ∧ Bracket.Matched head) ∧
      (rest = [] ∨ ∃ tail, rest = ',' :: tail)

instance (t : Text) : Decidable (IsPiece t) := decidable_of_iff _ isPiece_iff.symm

instance (t : Text) : Decidable (IsItem t) :=
  decidable_of_iff (IsPiece t ∧ t.trim = t ∧ t ≠ [])
    ⟨fun h => ⟨h.1, h.2.1, h.2.2⟩, fun h => ⟨h.toIsPiece, h.trimmed, h.ne_nil⟩⟩

/-- White space around a piece is no matter. -/
theorem IsPiece.of_alike {s t : Text} (hs : IsPiece s) (h : Alike s t) : IsPiece t := by
  have hpieces := h.topLevelPieces?_rel []
  rw [isPiece_iff.1 hs] at hpieces
  generalize hcut : topLevelPieces? [] t = pieces? at hpieces
  cases hpieces with
  | some hpieces =>
      cases hpieces with
      | cons _ hothers =>
          cases hothers
          obtain ⟨hjoined, hpiece, -⟩ := joined_of_topLevelPieces? hcut
          rw [Text.joined] at hjoined
          rw [hjoined]
          exact isPiece_iff.2 hpiece

theorem IsPiece.isItem_trim {t : Text} (ht : IsPiece t) (hblank : t.isBlank = false) :
    IsItem t.trim where
  toIsPiece := ht.of_alike (alike_trim t).symm
  trimmed := Text.trim_trim t
  ne_nil := Text.isBlank_eq_false_iff.1 hblank

theorem Padded.trim_eq {item piece : Text} (h : Padded item piece) : piece.trim = item.trim := by
  obtain ⟨before, after, hbefore, hafter, rfl⟩ := h
  exact Text.trim_blank_append hbefore hafter item

theorem Padded.refl (item : Text) : Padded item item := ⟨[], [], rfl, rfl, by simp⟩

theorem Padded.isInfix {item piece : Text} (h : Padded item piece) : item <:+: piece := by
  obtain ⟨before, after, -, -, rfl⟩ := h
  exact ⟨before, after, rfl⟩

/-- The items of a list stand in it. -/
theorem Lists.isInfix_of_mem {items : List Text} {t item : Text} (hlists : Lists items t)
    (hmem : item ∈ items) : item <:+: t := by
  induction hlists with
  | none hblank => cases hmem
  | last hpiece =>
      obtain rfl := List.mem_singleton.1 hmem
      exact hpiece.isInfix
  | @more first piece rest items hne hpiece hrest ih =>
      rcases List.mem_cons.1 hmem with rfl | hlater
      · exact hpiece.isInfix.trans (List.prefix_append _ _).isInfix
      · have hsuffix : rest <:+ piece ++ ',' :: rest := ⟨piece ++ [','], by simp⟩
        exact (ih hlater).trans hsuffix.isInfix

/-- Joined pieces list what trimming leaves of them. -/
theorem lists_joined {pieces : List Text} (hne : pieces ≠ []) :
    Lists (pieces.map Text.trim) (Text.joined "," pieces) := by
  have hpadded : ∀ piece : Text, Padded piece.trim piece := Text.exists_trim
  induction pieces with
  | nil => exact absurd rfl hne
  | cons piece rest ih =>
      cases rest with
      | nil => exact .last (hpadded piece)
      | cons next rest =>
          have hrest := ih (List.cons_ne_nil next rest)
          have hlonger := Lists.more (by simp) (hpadded piece) hrest
          rw [Text.joined_cons_of_ne_nil (List.cons_ne_nil next rest), List.append_assoc]
          exact hlonger

/-- Whatever lists items is made of pieces, of which trimming leaves the items. -/
theorem Lists.exists_pieces {items : List Text} {t : Text} (hlists : Lists items t)
    (hne : items ≠ []) :
    ∃ pieces, pieces ≠ [] ∧ t = Text.joined "," pieces ∧
      pieces.map Text.trim = items.map Text.trim := by
  induction hlists with
  | none hblank => exact absurd rfl hne
  | @last item piece hpiece =>
      exact ⟨[piece], List.cons_ne_nil piece [], rfl, by simp [hpiece.trim_eq]⟩
  | @more item piece rest items hitems hpiece hrest ih =>
      obtain ⟨pieces, hpieces, rfl, htrim⟩ := ih hitems
      refine ⟨piece :: pieces, List.cons_ne_nil piece pieces, ?_, by simp [hpiece.trim_eq, htrim]⟩
      rw [Text.joined_cons_of_ne_nil hpieces, List.append_assoc]
      rfl

/-! ## Lists -/

/-- The items of a text that is not blank are its pieces, trimmed, if none of them is blank. -/
theorem splitList?_of_not_blank {t : Text} (ht : t.isBlank = false) :
    splitList? t = (topLevelPieces? [] t).bind fun pieces =>
      if pieces.any Text.isBlank then none else some (pieces.map Text.trim) := by
  have hblanks : ∀ pieces : List Text,
      (pieces.map Text.trim).any (·.isEmpty) = pieces.any Text.isBlank := by
    intro pieces
    rw [List.any_map]
    congr 1
    funext piece
    rw [Bool.eq_iff_iff, Text.isBlank_iff]
    rfl
  unfold splitList?
  rw [ht]
  cases topLevelPieces? [] t with
  | none => rfl
  | some pieces => simp [hblanks]

theorem isBlank_joined {piece : Text} {rest : List Text}
    (hblank : (Text.joined "," (piece :: rest)).isBlank = true) : piece.isBlank = true := by
  cases rest with
  | nil => exact hblank
  | cons next rest =>
      rw [Text.joined, List.append_assoc] at hblank
      exact (Text.isBlank_append_iff.1 hblank).1

/-- A text is split into items exactly if it lists them. -/
theorem splitList?_eq_some_iff {t : Text} {items : List Text} :
    splitList? t = some items ↔ (∀ item ∈ items, IsItem item) ∧ Lists items t := by
  constructor
  · intro hsplit
    by_cases hblank : t.isBlank = true
    · rw [splitList?, if_pos hblank] at hsplit
      obtain rfl : [] = items := Option.some.inj hsplit
      exact ⟨List.forall_mem_nil _, .none hblank⟩
    · rw [splitList?_of_not_blank (Bool.eq_false_iff.2 hblank)] at hsplit
      obtain ⟨pieces, hcut, hitems⟩ := Option.bind_eq_some_iff.1 hsplit
      obtain ⟨hne, rfl, hpieces⟩ := topLevelPieces?_eq_some_iff.1 hcut
      split at hitems
      · cases hitems
      · rename_i hnone
        obtain rfl := Option.some.inj hitems
        simp only [Bool.not_eq_true, List.any_eq_false] at hnone
        refine ⟨List.forall_mem_map.2 fun piece hmem => ?_, lists_joined hne⟩
        exact (hpieces piece hmem).isItem_trim (by simpa using hnone piece hmem)
  · rintro ⟨hitems, hlists⟩
    by_cases hne : items = []
    · subst hne
      cases hlists with
      | none hblank => rw [splitList?, if_pos hblank]
    · obtain ⟨pieces, hpieces, rfl, htrim⟩ := hlists.exists_pieces hne
      have htrimmed : items.map Text.trim = items :=
        (List.map_congr_left fun item hmem => (hitems item hmem).trimmed).trans (List.map_id items)
      rw [htrimmed] at htrim
      have hmem : ∀ piece ∈ pieces, IsItem piece.trim := fun piece hpiece =>
        hitems _ (htrim ▸ List.mem_map_of_mem hpiece)
      have hsolid : ∀ piece ∈ pieces, piece.isBlank = false := fun piece hpiece =>
        Text.isBlank_eq_false_iff.2 (hmem piece hpiece).ne_nil
      have hcut : topLevelPieces? [] (Text.joined "," pieces) = some pieces :=
        topLevelPieces?_joined_pieces hpieces fun piece hpiece =>
          (hmem piece hpiece).toIsPiece.of_alike (alike_trim piece)
      have hblank : (Text.joined "," pieces).isBlank = false := by
        cases pieces with
        | nil => exact absurd rfl hpieces
        | cons piece rest =>
            refine Bool.eq_false_iff.2 fun hblank => ?_
            have hfirst := isBlank_joined hblank
            rw [hsolid piece List.mem_cons_self] at hfirst
            cases hfirst
      have hnone : pieces.any Text.isBlank = false :=
        List.any_eq_false.2 fun piece hpiece => by simp [hsolid piece hpiece]
      rw [splitList?_of_not_blank hblank, hcut, Option.bind_some, hnone, ← htrim]
      rfl

/-! ### White space around a list -/

theorem Lists.blank_append {items : List Text} {t blank : Text} (hlists : Lists items t)
    (hblank : blank.isBlank = true) : Lists items (blank ++ t) := by
  have hpadded : ∀ {item piece : Text}, Padded item piece → Padded item (blank ++ piece) := by
    rintro item piece ⟨before, after, hbefore, hafter, rfl⟩
    exact ⟨blank ++ before, after, Text.isBlank_append_iff.2 ⟨hblank, hbefore⟩, hafter, by simp⟩
  cases hlists with
  | none hrest => exact .none (Text.isBlank_append_iff.2 ⟨hblank, hrest⟩)
  | last hpiece => exact .last (hpadded hpiece)
  | more hne hpiece hrest =>
      rw [← List.append_assoc]
      exact .more hne (hpadded hpiece) hrest

theorem Lists.append_blank {items : List Text} {t blank : Text} (hlists : Lists items t)
    (hblank : blank.isBlank = true) : Lists items (t ++ blank) := by
  induction hlists with
  | none hrest => exact .none (Text.isBlank_append_iff.2 ⟨hrest, hblank⟩)
  | last hpiece =>
      obtain ⟨before, after, hbefore, hafter, rfl⟩ := hpiece
      have hlonger := Text.isBlank_append_iff.2 ⟨hafter, hblank⟩
      exact .last ⟨before, after ++ blank, hbefore, hlonger, by simp⟩
  | more hne hpiece hrest ih =>
      rw [List.append_assoc]
      exact .more hne hpiece ih

/-- White space at the ends of a list changes none of its items. -/
theorem splitList?_trim (t : Text) : splitList? t.trim = splitList? t := by
  have hboth := (alike_trim t).splitList?_rel
  cases htrim : splitList? t.trim with
  | none =>
      rw [htrim] at hboth
      generalize splitList? t = items? at hboth ⊢
      cases hboth
      rfl
  | some items =>
      obtain ⟨hitems, hlists⟩ := splitList?_eq_some_iff.1 htrim
      obtain ⟨before, after, hbefore, hafter, hcut⟩ := Text.exists_trim t
      have hlonger : Lists items t := by
        rw [hcut]
        exact (hlists.blank_append hbefore).append_blank hafter
      exact (splitList?_eq_some_iff.2 ⟨hitems, hlonger⟩).symm

/-- Commas with a space after them list the items between them. -/
theorem lists_joined_spaced (items : List Text) : Lists items (Text.joined ", " items) := by
  induction items with
  | nil => exact .none rfl
  | cons item rest ih =>
      cases rest with
      | nil => exact .last (.refl item)
      | cons next rest =>
          have hspace : Text.isBlank [' '] = true := by decide
          rw [joined_cons_cons]
          exact .more (List.cons_ne_nil next rest) (.refl item) (ih.blank_append hspace)

/-! ### Texts that are no lists -/

/-- What is in front of a comma outside the brackets does not change the pieces behind it. -/
theorem exists_append_of_matched {s : Text} (hs : Bracket.Matched s) (t : Text) :
    ∃ before, topLevelPieces? [] (s ++ ',' :: t) =
      (topLevelPieces? [] t).map (before ++ ·) := by
  obtain ⟨pieces, hcut⟩ := exists_topLevelPieces? (hs.run_eq [])
  refine ⟨pieces, ?_⟩
  obtain ⟨hne, rfl, hpieces⟩ := topLevelPieces?_eq_some_iff.1 hcut
  clear hcut hs
  induction pieces with
  | nil => exact absurd rfl hne
  | cons piece rest ih =>
      rw [List.forall_mem_cons] at hpieces
      have hpiece := isPiece_iff.1 hpieces.1
      cases rest with
      | nil =>
          rw [Text.joined, topLevelPieces?_append_of_single hpiece, topLevelPieces?_cons,
            if_pos ⟨rfl, rfl⟩, Option.map_map]
          congr 1
          funext pieces
          simp [prependFirst]
      | cons next rest =>
          have hlater := ih (List.cons_ne_nil next rest) hpieces.2
          rw [Text.joined_cons_of_ne_nil (List.cons_ne_nil next rest), List.append_assoc,
            List.append_assoc, topLevelPieces?_append_of_single hpiece]
          show ((topLevelPieces? [] (',' :: (_ ++ ',' :: t)))).map _ = _
          rw [topLevelPieces?_cons, if_pos ⟨rfl, rfl⟩, hlater, Option.map_map, Option.map_map]
          congr 1
          funext pieces
          simp [prependFirst]

theorem isPiece_of_isBlank {piece : Text} (hblank : piece.isBlank = true) : IsPiece piece where
  matched := Bracket.run_eq_nil_iff.1 (run_of_isBlank hblank [])
  comma_inside := by
    rintro front rest rfl
    have hrest : Text.isBlank (',' :: rest) = true := (Text.isBlank_append_iff.1 hblank).2
    exact absurd hrest (by simp [Text.isBlank, isWhite, whiteSpaceRanges])

/-- A blank piece is found as one. -/
theorem HasBlankPiece.exists_mem {t : Text} {pieces : List Text} (h : HasBlankPiece t)
    (hcut : topLevelPieces? [] t = some pieces) : ∃ piece ∈ pieces, piece.isBlank = true := by
  obtain ⟨front, piece, rest, rfl, hblank, hfront, hrest⟩ := h
  have hpiece := isPiece_iff.1 (isPiece_of_isBlank hblank)
  have hbehind : ∀ pieces, topLevelPieces? [] (piece ++ rest) = some pieces → piece ∈ pieces := by
    intro pieces hcut
    rcases hrest with rfl | ⟨tail, rfl⟩
    · rw [List.append_nil, hpiece] at hcut
      rw [← Option.some.inj hcut]
      exact List.mem_singleton_self piece
    · rw [topLevelPieces?_append_of_single hpiece, topLevelPieces?_cons, if_pos ⟨rfl, rfl⟩,
        Option.map_map] at hcut
      obtain ⟨others, -, rfl⟩ := Option.map_eq_some_iff.1 hcut
      simp [prependFirst]
  rw [List.append_assoc] at hcut
  rcases hfront with rfl | ⟨head, rfl, hhead⟩
  · exact ⟨piece, hbehind pieces hcut, hblank⟩
  · obtain ⟨before, happend⟩ := exists_append_of_matched hhead (piece ++ rest)
    rw [List.append_assoc] at hcut
    obtain ⟨others, hothers, rfl⟩ := Option.map_eq_some_iff.1 (happend.symm.trans hcut)
    exact ⟨piece, List.mem_append_right before (hbehind others hothers), hblank⟩

/-- Texts that match and have a comma between them match as a whole. -/
theorem matched_append_comma {s t : Text} (hs : Bracket.Matched s) (ht : Bracket.Matched t) :
    Bracket.Matched (s ++ ',' :: t) := by
  refine Bracket.run_eq_nil_iff.1 ?_
  rw [run_append, hs.run_eq, Option.bind_some]
  exact ht.run_eq []

theorem hasBlankPiece_joined {pieces : List Text} (hpieces : ∀ piece ∈ pieces, IsPiece piece)
    {piece : Text} (hmem : piece ∈ pieces) (hblank : piece.isBlank = true) :
    HasBlankPiece (Text.joined "," pieces) := by
  induction pieces with
  | nil => cases hmem
  | cons first rest ih =>
      rw [List.forall_mem_cons] at hpieces
      rcases List.mem_cons.1 hmem with rfl | hrest
      · cases rest with
        | nil => exact ⟨[], piece, [], by simp [Text.joined], hblank, Or.inl rfl, Or.inl rfl⟩
        | cons next rest =>
            refine ⟨[], piece, ',' :: Text.joined "," (next :: rest), ?_, hblank, Or.inl rfl,
              Or.inr ⟨_, rfl⟩⟩
            simp [Text.joined]
      · obtain ⟨front, found, behind, hcut, hfound, hfront, hbehind⟩ := ih hpieces.2 hrest
        have hjoined : Text.joined "," (first :: rest) =
            (first ++ ',' :: front) ++ found ++ behind := by
          rw [Text.joined_cons_of_ne_nil (List.ne_nil_of_mem hrest), hcut]
          simp
        refine ⟨first ++ ',' :: front, found, behind, hjoined, hfound, Or.inr ?_, hbehind⟩
        rcases hfront with rfl | ⟨head, rfl, hhead⟩
        · exact ⟨first, rfl, hpieces.1.matched⟩
        · exact ⟨first ++ ',' :: head, by simp, matched_append_comma hpieces.1.matched hhead⟩

/-- A text is not split exactly if it is not blank, and its brackets do not match or a piece of it
is blank. -/
theorem splitList?_eq_none_iff {t : Text} :
    splitList? t = none ↔
      t.isBlank = false ∧ (¬Bracket.Matched t ∨ HasBlankPiece t) := by
  by_cases hblank : t.isBlank = true
  · refine iff_of_false ?_ fun h => by simp [hblank] at h
    rw [splitList?, if_pos hblank]
    exact Option.some_ne_none []
  · have hsolid := Bool.eq_false_iff.2 hblank
    rw [splitList?_of_not_blank hsolid, and_iff_right hsolid]
    cases hcut : topLevelPieces? [] t with
    | none =>
        refine iff_of_true rfl (Or.inl fun hmatched => ?_)
        obtain ⟨pieces, hpieces⟩ := exists_topLevelPieces? (hmatched.run_eq [])
        rw [hcut] at hpieces
        cases hpieces
    | some pieces =>
        have hmatched := Bracket.run_eq_nil_iff.1 (run_of_topLevelPieces? hcut)
        have hpiece : HasBlankPiece t ↔ pieces.any Text.isBlank = true := by
          rw [List.any_eq_true]
          refine ⟨fun h => h.exists_mem hcut, ?_⟩
          rintro ⟨piece, hmem, hpiece⟩
          obtain ⟨-, rfl, hpieces⟩ := topLevelPieces?_eq_some_iff.1 hcut
          exact hasBlankPiece_joined hpieces hmem hpiece
        rw [or_iff_right (not_not_intro hmatched), hpiece, Option.bind_some]
        cases pieces.any Text.isBlank <;> simp

end TypeName

namespace Dispatcher

open Stencil.TypeName (IsItem Padded Lists HasBlankPiece)

theorem captureList_eq_ok_iff {t : Text} {items : List Text} :
    captureList t = .ok items ↔ TypeName.splitList? t = some items := by
  unfold captureList
  cases TypeName.splitList? t <;> simp

theorem captureList_eq_error_iff {t : Text} {cause : LookupError} :
    captureList t = .error cause ↔ TypeName.splitList? t = none ∧ cause = .malformedList t := by
  unfold captureList
  cases TypeName.splitList? t <;> simp [eq_comm]

/-- Reading a list of types undoes joining.  A text is read as the items that it lists, whatever
white space stands around its commas; the items are trimmed, not empty, and without a comma outside
their matching brackets, and every list of such items is read again after it was joined.  A text
that is refused is not blank, and its brackets do not match or nothing stands between two of its
commas outside brackets or between one and an end. -/
theorem captureList_inverts_joining (t : Text) :
    (∀ items, captureList t = .ok items ↔ (∀ item ∈ items, IsItem item) ∧ Lists items t) ∧
      (∀ items, (∀ item ∈ items, IsItem item) →
        captureList (Text.joined ", " items) = .ok items) ∧
        (∀ items, captureList t = .ok items → captureList (Text.joined ", " items) = .ok items) ∧
          ∀ cause, captureList t = .error cause ↔ cause = .malformedList t ∧
            t.isBlank = false ∧ (¬Bracket.Matched t ∨ HasBlankPiece t) := by
  have hjoined : ∀ items, (∀ item ∈ items, IsItem item) →
      captureList (Text.joined ", " items) = .ok items := fun items hitems =>
    captureList_eq_ok_iff.2
      (TypeName.splitList?_eq_some_iff.2 ⟨hitems, TypeName.lists_joined_spaced items⟩)
  refine ⟨fun items => ?_, hjoined, fun items hread => ?_, fun cause => ?_⟩
  · rw [captureList_eq_ok_iff, TypeName.splitList?_eq_some_iff]
  · rw [captureList_eq_ok_iff, TypeName.splitList?_eq_some_iff] at hread
    exact hjoined items hread.1
  · rw [captureList_eq_error_iff, TypeName.splitList?_eq_none_iff, and_comm]

/-- A list with nested commas and odd spacing, and a list that ends with a comma. -/
theorem captureList_nestedCommas :
    let items : List Text := ["std::map<int,bool>", "[](char, auto)", "std::tuple<>"]
    let spaced : Text := "\tstd::map<int,bool> ,[](char, auto)\n,  std::tuple<> "
    (∀ item ∈ items, IsItem item) ∧ captureList spaced = .ok items ∧
      captureList (Text.joined ", " items) = .ok items ∧
        captureList "(int, bool), " = .error (.malformedList "(int, bool), ") := by
  intro items spaced
  have hitems : ∀ item ∈ items, IsItem item := by decide +kernel
  have hlists : Lists items spaced := by
    have hmap : Padded "std::map<int,bool>" "\tstd::map<int,bool> " :=
      ⟨"\t", " ", by decide, by decide, by decide⟩
    have hlambda : Padded "[](char, auto)" "[](char, auto)\n" :=
      ⟨"", "\n", by decide, by decide, by decide⟩
    have htuple : Padded "std::tuple<>" "  std::tuple<> " :=
      ⟨"  ", " ", by decide, by decide, by decide⟩
    exact .more (by decide) hmap (.more (by decide) hlambda (.last htuple))
  obtain ⟨hread, hjoined, -, -⟩ := captureList_inverts_joining spaced
  obtain ⟨-, -, -, hrefused⟩ := captureList_inverts_joining "(int, bool), "
  refine ⟨hitems, (hread items).2 ⟨hitems, hlists⟩, hjoined items hitems, ?_⟩
  refine (hrefused _).2 ⟨rfl, by decide, Or.inr ⟨"(int, bool),", " ", [], by decide, by decide, ?_,
    Or.inl rfl⟩⟩
  exact Or.inr ⟨"(int, bool)", by decide, by decide +kernel⟩

end Dispatcher
end Stencil
