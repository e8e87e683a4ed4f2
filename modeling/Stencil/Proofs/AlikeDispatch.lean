import Mathlib.Data.List.Forall2
import Stencil.Proofs.CommaSpacing

namespace Stencil

/-!
# Dispatch on alike names

Names that differ in the spacing of their commas go to the same handler, with
captured types that differ in the spacing of their commas again.  Each stage of
the dispatch is followed on two names at once.  The brackets do not see white
space, so the commas outside them are the same ones (`Alike.topLevelPieces?_rel`);
a shape with angle brackets captures alike texts (`Dispatcher.capture?_rel`); and
so the first pattern that matches is the same (`IsAngular.resolve_rel`).
-/

namespace TypeName

/-! ## Brackets -/

theorem step_of_isWhite {c : Char} (hc : isWhite c = true) (stack : List Bracket) :
    Bracket.step stack c = some stack := by
  have hopened : Bracket.opened? c = none := by
    unfold Bracket.opened?
    split <;> first | rfl | cases hc
  have hclosed : Bracket.closed? c = none := by
    unfold Bracket.closed?
    split <;> first | rfl | cases hc
  simp only [Bracket.step, hopened, hclosed]

theorem run_of_isBlank {blank : Text} (hblank : blank.isBlank = true) (stack : List Bracket) :
    Bracket.run stack blank = some stack := by
  induction blank with
  | nil => rfl
  | cons c rest ih =>
      simp only [Text.isBlank, List.all_cons, Bool.and_eq_true] at hblank
      show (Bracket.step stack c).bind (fun stack => Bracket.run stack rest) = some stack
      rw [step_of_isWhite hblank.1, Option.bind_some, ih hblank.2]

theorem run_trim (stack : List Bracket) (t : Text) :
    Bracket.run stack t.trim = Bracket.run stack t := by
  obtain ⟨before, after, hbefore, hafter, hcut⟩ := Text.exists_trim t
  have hrun : Bracket.run stack (before ++ t.trim ++ after) = Bracket.run stack t.trim := by
    simp [run_append, run_of_isBlank hbefore, run_of_isBlank hafter]
  rw [← hrun, ← hcut]

theorem run_eq_of_trim_eq {s t : Text} (htrim : s.trim = t.trim) (stack : List Bracket) :
    Bracket.run stack s = Bracket.run stack t := by
  rw [← run_trim stack s, htrim, run_trim]

theorem Alike.run_eq {s t : Text} (h : Alike s t) (stack : List Bracket) :
    Bracket.run stack s = Bracket.run stack t := by
  induction h generalizing stack with
  | plain hs ht htrim => exact run_eq_of_trim_eq htrim stack
  | comma hp hq htrim hrest ih =>
      have hcomma : ∀ stack w, Bracket.run stack (',' :: w) = Bracket.run stack w :=
        fun _ _ => rfl
      simp only [run_append, run_eq_of_trim_eq htrim, hcomma, ih]

theorem Alike.isBalanced_eq {s t : Text} (h : Alike s t) : s.isBalanced = t.isBalanced := by
  rw [Text.isBalanced, Text.isBalanced, h.run_eq]

/-! ## The commas outside the brackets -/

/-- A text without commas goes over into the first piece of what follows it. -/
theorem topLevelPieces?_append {p : Text} (hp : ',' ∉ p) (stack : List Bracket) (rest : Text) :
    topLevelPieces? stack (p ++ rest) =
      (Bracket.run stack p).bind fun stack =>
        (topLevelPieces? stack rest).map (prependFirst p) := by
  induction p generalizing stack with
  | nil => exact (map_prependFirst_nil stack rest).symm
  | cons c p ih =>
      rw [List.mem_cons, not_or] at hp
      have hrun : Bracket.run stack (c :: p) =
          (Bracket.step stack c).bind fun stack => Bracket.run stack p := rfl
      rw [List.cons_append, topLevelPieces?_cons, if_neg fun h => hp.1 h.1.symm, hrun,
        Option.bind_assoc]
      congr 1
      funext stack
      rw [ih hp.2, Option.map_bind]
      congr 1
      funext stack
      rw [Function.comp_apply, Option.map_map, extendFirst_comp_prependFirst]

/-- A text without commas is one piece, if its brackets match. -/
theorem topLevelPieces?_of_not_mem {t : Text} (ht : ',' ∉ t) (stack : List Bracket) :
    topLevelPieces? stack t = if Bracket.run stack t = some [] then some [t] else none := by
  have happend := topLevelPieces?_append ht stack []
  rw [List.append_nil] at happend
  rw [happend]
  cases Bracket.run stack t with
  | none => rfl
  | some open_ => cases open_ <;> simp [topLevelPieces?, prependFirst]

/-- Related pieces stay related when a comma and alike texts are put in front of them. -/
theorem Alike.topLevelPieces?_cons_rel {p q u v : Text} {stack : List Bracket} (hp : ',' ∉ p)
    (hq : ',' ∉ q) (htrim : p.trim = q.trim)
    (h : Option.Rel (List.Forall₂ Alike) (topLevelPieces? stack u) (topLevelPieces? stack v)) :
    Option.Rel (List.Forall₂ Alike) ((topLevelPieces? stack (',' :: u)).map (prependFirst p))
      ((topLevelPieces? stack (',' :: v)).map (prependFirst q)) := by
  cases stack with
  | nil =>
      rw [topLevelPieces?_cons, topLevelPieces?_cons, if_pos ⟨rfl, rfl⟩, if_pos ⟨rfl, rfl⟩,
        Option.map_map, Option.map_map]
      refine Outcome.optionRel_map h fun hpieces => .cons ?_ hpieces
      exact .plain (by simpa using hp) (by simpa using hq) (by simpa using htrim)
  | cons top base =>
      have hstep : Bracket.step (top :: base) ',' = some (top :: base) := rfl
      have hinside : ¬(',' = ',' ∧ top :: base = []) := by simp
      rw [topLevelPieces?_cons, topLevelPieces?_cons, if_neg hinside, if_neg hinside, hstep,
        Option.bind_some, Option.bind_some, Option.map_map, Option.map_map]
      refine Outcome.optionRel_map h fun hpieces => ?_
      cases hpieces with
      | nil => exact .cons (.comma hp hq htrim (.refl [])) .nil
      | cons hfirst hothers => exact .cons (.comma hp hq htrim hfirst) hothers

/-- Alike texts fall into alike pieces. -/
theorem Alike.topLevelPieces?_rel {s t : Text} (h : Alike s t) (stack : List Bracket) :
    Option.Rel (List.Forall₂ Alike) (topLevelPieces? stack s) (topLevelPieces? stack t) := by
  induction h generalizing stack with
  | plain hs ht htrim =>
      rw [topLevelPieces?_of_not_mem hs, topLevelPieces?_of_not_mem ht, run_eq_of_trim_eq htrim]
      split
      · exact .some (.cons (.plain hs ht htrim) .nil)
      · exact .none
  | @comma p q u v hp hq htrim hrest ih =>
      rw [topLevelPieces?_append hp, topLevelPieces?_append hq, run_eq_of_trim_eq htrim]
      cases Bracket.run stack q with
      | none => exact .none
      | some stack => exact topLevelPieces?_cons_rel hp hq htrim (ih stack)

theorem length_le_of_topLevelPieces? {stack : List Bracket} {t : Text} {pieces : List Text}
    (hpieces : topLevelPieces? stack t = some pieces) :
    ∀ piece ∈ pieces, piece.length ≤ t.length := by
  induction t generalizing stack pieces with
  | nil =>
      cases stack with
      | nil =>
          obtain rfl : pieces = [[]] := by simpa [topLevelPieces?, eq_comm] using hpieces
          simp
      | cons top base => simp [topLevelPieces?] at hpieces
  | cons c rest ih =>
      rw [topLevelPieces?_cons] at hpieces
      split at hpieces
      · obtain ⟨others, hothers, rfl⟩ := Option.map_eq_some_iff.1 hpieces
        exact List.forall_mem_cons.2
          ⟨Nat.zero_le _, fun piece hmem => Nat.le_succ_of_le (ih hothers piece hmem)⟩
      · obtain ⟨stack', -, hmap⟩ := Option.bind_eq_some_iff.1 hpieces
        obtain ⟨others, hothers, rfl⟩ := Option.map_eq_some_iff.1 hmap
        have hlength := ih hothers
        cases others with
        | nil => exact absurd hothers topLevelPieces?_ne_nil
        | cons first others =>
            rw [List.forall_mem_cons] at hlength
            exact List.forall_mem_cons.2 ⟨Nat.succ_le_succ hlength.1,
              fun piece hmem => Nat.le_succ_of_le (hlength.2 piece hmem)⟩

/-! ## Respelled names -/

/-- Two trimmed names that differ at most in the white space around their commas. -/
structure Respelled (s t : Text) : Prop where
  alike : Alike s t
  trimmed : s.trim = s
  trimmed' : t.trim = t

theorem Alike.trim {s t : Text} (h : Alike s t) : Respelled s.trim t.trim where
  alike := ((alike_trim s).trans h).trans (alike_trim t).symm
  trimmed := Text.trim_trim s
  trimmed' := Text.trim_trim t

namespace Respelled

variable {s t : Text}

theorem symm (h : Respelled s t) : Respelled t s := ⟨h.alike.symm, h.trimmed', h.trimmed⟩

/-- Without commas there is one spelling only. -/
theorem eq_of_not_mem (h : Respelled s t) (hs : ',' ∉ s) : s = t := by
  obtain ⟨halike, htrimmed, htrimmed'⟩ := h
  cases halike with
  | plain hs ht htrim => rw [← htrimmed, htrim, htrimmed']
  | comma hp hq htrim hrest => simp at hs

theorem eq_of_isDigit (h : Respelled s t) (hdigits : s.all Char.isDigit = true) : s = t :=
  h.eq_of_not_mem fun hmem => by cases List.all_eq_true.1 hdigits _ hmem

theorem isEmpty_eq (h : Respelled s t) : s.isEmpty = t.isEmpty := by
  have hempty : ∀ {s t}, Respelled s t → s = [] → t = [] := by
    rintro s t h rfl
    exact (h.eq_of_not_mem List.not_mem_nil).symm
  rw [Bool.eq_iff_iff, List.isEmpty_iff, List.isEmpty_iff]
  exact ⟨hempty h, hempty h.symm⟩

end Respelled

/-! ## Lists of names -/

theorem Alike.isBlank_eq {s t : Text} (h : Alike s t) : s.isBlank = t.isBlank := by
  rw [Bool.eq_iff_iff, Text.isBlank_iff, Text.isBlank_iff, h.trim.isEmpty_eq]

theorem any_isEmpty_eq {names names' : List Text} (h : List.Forall₂ Respelled names names') :
    names.any (·.isEmpty) = names'.any (·.isEmpty) := by
  induction h with
  | nil => rfl
  | cons hname hnames ih => rw [List.any_cons, List.any_cons, hname.isEmpty_eq, ih]

/-- Alike lists are lists of alike names, or both malformed. -/
theorem Alike.splitList?_rel {s t : Text} (h : Alike s t) :
    Option.Rel (List.Forall₂ Respelled) (splitList? s) (splitList? t) := by
  rw [splitList?, splitList?, h.isBlank_eq]
  split
  · exact .some .nil
  · have hpieces := h.topLevelPieces?_rel []
    generalize topLevelPieces? [] s = pieces?, topLevelPieces? [] t = pieces?' at hpieces ⊢
    cases hpieces with
    | none => exact .none
    | some hpieces =>
        have htrimmed := hpieces.imp fun _ _ => Alike.trim
        have hnames : List.Forall₂ Respelled (List.map Text.trim _) (List.map Text.trim _) :=
          List.forall₂_map_left_iff.2 (List.forall₂_map_right_iff.2 htrimmed)
        simp only [any_isEmpty_eq hnames]
        split
        · exact .none
        · exact .some hnames

theorem length_le_of_splitList? {t : Text} {names : List Text} (h : splitList? t = some names) :
    ∀ name ∈ names, name.length ≤ t.length := by
  unfold splitList? at h
  split at h
  · obtain rfl := Option.some.inj h
    exact fun name hmem => nomatch hmem
  · split at h
    · cases h
    · rename_i pieces hpieces
      simp only at h
      split at h
      · cases h
      · obtain rfl := Option.some.inj h
        refine List.forall_mem_map.2 fun piece hmem => ?_
        exact Nat.le_trans (Text.length_trim_le piece)
          (length_le_of_topLevelPieces? hpieces piece hmem)

end TypeName

namespace Dispatcher

open Stencil.TypeName (Alike Respelled angled isWord)

variable {H : Type} {d : Dispatcher H} {entry : Entry H} {name name' : Text}

/-! ## Matches -/

/-- The same handler, found with respelled types. -/
structure Found.Alike (found found' : Found H) : Prop where
  handler : found.handler = found'.handler
  kind : found.kind = found'.kind
  args : List.Forall₂ Respelled found.args found'.args

/-- A shape with angle brackets captures respelled types of respelled names. -/
theorem capture?_rel {head : Text} (hhead : isWord head = true) (h : Respelled name name') :
    Option.Rel Respelled ((Pattern.Shape.angled head).capture? name)
      ((Pattern.Shape.angled head).capture? name') := by
  have hfound : ∀ {name name' found : Text}, Respelled name name' →
      (Pattern.Shape.angled head).capture? name = some found →
      ∃ found', (Pattern.Shape.angled head).capture? name' = some found' ∧
        Respelled found found' := by
    intro name name' found h hcapture
    obtain ⟨inner, rfl, rfl⟩ := capture?_angled_iff.1 hcapture
    obtain ⟨inner', rfl, hinner⟩ := h.alike.angled hhead h.trimmed h.trimmed'
    exact ⟨inner'.trim, capture?_angled_iff.2 ⟨inner', rfl, rfl⟩, hinner.trim⟩
  cases hcapture : (Pattern.Shape.angled head).capture? name with
  | some found =>
      obtain ⟨found', hcapture', hrespelled⟩ := hfound h hcapture
      rw [hcapture']
      exact .some hrespelled
  | none =>
      cases hcapture' : (Pattern.Shape.angled head).capture? name' with
      | none => exact .none
      | some found' =>
          obtain ⟨found, hsome, -⟩ := hfound h.symm hcapture'
          rw [hcapture] at hsome
          cases hsome

namespace IsAngular

theorem matchExact_rel (hd : d.IsAngular) (hentry : entry ∈ d.entries)
    (h : Respelled name name') :
    Option.Rel Found.Alike (entry.matchExact name) (entry.matchExact name') := by
  unfold Entry.matchExact
  split
  · rename_i pattern hform
    -- A word has no commas, so only names without commas are compared with success.
    have hcomma := TypeName.not_mem_word (c := ',') (hd.of_exact hentry hform).1 (by decide)
    have hiff : pattern = name ↔ pattern = name' := by
      constructor
      · rintro rfl
        exact h.eq_of_not_mem hcomma
      · rintro rfl
        exact h.symm.eq_of_not_mem hcomma
    simp only [hiff]
    split
    · exact .some ⟨rfl, rfl, .nil⟩
    · exact .none
  · exact .none

theorem matchSingle_rel (hd : d.IsAngular) (hentry : entry ∈ d.entries)
    (h : Respelled name name') :
    Option.Rel Found.Alike (entry.matchSingle name) (entry.matchSingle name') := by
  unfold Entry.matchSingle
  split
  · rename_i shape hform
    obtain ⟨head, hhead, rfl, -⟩ := hd.of_placeholder hentry .single hform
    have hcapture := capture?_rel hhead h
    generalize (Pattern.Shape.angled head).capture? name = found?,
      (Pattern.Shape.angled head).capture? name' = found?' at hcapture ⊢
    cases hcapture with
    | none => exact .none
    | some hinner =>
        simp only [hinner.isEmpty_eq, hinner.alike.isBalanced_eq]
        split
        · exact .some ⟨rfl, rfl, .cons hinner .nil⟩
        · exact .none
  · exact .none

theorem matchList_rel (hd : d.IsAngular) (hentry : entry ∈ d.entries)
    (h : Respelled name name') :
    Option.Rel (Outcome.Rel Found.Alike) (entry.matchList name) (entry.matchList name') := by
  unfold Entry.matchList
  split
  · rename_i shape hform
    obtain ⟨head, hhead, rfl, -⟩ := hd.of_placeholder hentry .list hform
    refine Outcome.optionRel_map (capture?_rel hhead h) fun {list list'} hlist => ?_
    have hnames := hlist.alike.splitList?_rel
    unfold captureList
    generalize TypeName.splitList? list = names?, TypeName.splitList? list' = names?' at hnames ⊢
    cases hnames with
    | none => exact .error _ _
    | some hnames => exact .ok ⟨rfl, rfl, hnames⟩
  · exact .none

/-- Alike names go to the same handler. -/
theorem resolve_rel (hd : d.IsAngular) (h : Alike name name') :
    Outcome.Rel Found.Alike (d.resolve name) (d.resolve name') := by
  have hexact := Outcome.optionRel_findSome? fun _ hentry => hd.matchExact_rel hentry h.trim
  have hsingle := Outcome.optionRel_findSome? fun _ hentry => hd.matchSingle_rel hentry h.trim
  have hlist := Outcome.optionRel_findSome? fun _ hentry => hd.matchList_rel hentry h.trim
  unfold resolve
  simp only
  generalize d.entries.findSome? (Entry.matchExact name.trim) = first?,
    d.entries.findSome? (Entry.matchExact name'.trim) = first?' at hexact ⊢
  cases hexact with
  | some hfound => exact .ok hfound
  | none =>
      generalize d.entries.findSome? (Entry.matchSingle name.trim) = single?,
        d.entries.findSome? (Entry.matchSingle name'.trim) = single?' at hsingle ⊢
      cases hsingle with
      | some hfound => exact .ok hfound
      | none =>
          generalize d.entries.findSome? (Entry.matchList name.trim) = list?,
            d.entries.findSome? (Entry.matchList name'.trim) = list?' at hlist ⊢
          cases hlist with
          | some hfound => exact hfound
          | none => exact .error _ _

end IsAngular

/-! ## What is found -/

/-- A type between the angle brackets of a name: all that stands there, or an item of the list
that does, trimmed. -/
def IsCaptured (name arg : Text) : Prop :=
  ∃ head inner, name = angled head inner ∧
    (inner.trim = arg ∨ ∃ names, TypeName.splitList? inner.trim = some names ∧ arg ∈ names)

theorem IsCaptured.length_lt {arg : Text} (harg : IsCaptured name arg) :
    arg.length < name.length := by
  obtain ⟨head, inner, rfl, harg⟩ := harg
  have hinner := Text.length_trim_le inner
  have hname := TypeName.length_lt_angled head inner
  rcases harg with rfl | ⟨names, hsplit, hmem⟩
  · omega
  · have hitem := TypeName.length_le_of_splitList? hsplit arg hmem
    omega

/-- A handler of a dispatcher that was found for a name, with types from between the brackets of
the name. -/
structure Found.Within (d : Dispatcher H) (name : Text) (found : Found H) : Prop where
  registered : ∃ entry ∈ d.entries, entry.handler = found.handler ∧ entry.form.kind = found.kind
  single : found.kind = .single → found.args.length = 1
  captured : ∀ arg ∈ found.args, IsCaptured name arg

theorem within_of_matchExact {found : Found H} (hentry : entry ∈ d.entries)
    (hmatch : entry.matchExact name = some found) : found.Within d name := by
  unfold Entry.matchExact at hmatch
  split at hmatch
  · rename_i pattern hform
    split at hmatch
    · obtain rfl := Option.some.inj hmatch
      exact ⟨⟨entry, hentry, rfl, by rw [hform]; rfl⟩, nofun, nofun⟩
    · cases hmatch
  · cases hmatch

namespace IsAngular

variable {found : Found H}

theorem within_of_matchSingle (hd : d.IsAngular) (hentry : entry ∈ d.entries)
    (hmatch : entry.matchSingle name = some found) : found.Within d name := by
  unfold Entry.matchSingle at hmatch
  split at hmatch
  · rename_i shape hform
    obtain ⟨head, -, rfl, -⟩ := hd.of_placeholder hentry .single hform
    split at hmatch
    · rename_i inner hcapture
      split at hmatch
      · obtain rfl := Option.some.inj hmatch
        obtain ⟨list, rfl, rfl⟩ := capture?_angled_iff.1 hcapture
        refine ⟨⟨entry, hentry, rfl, by rw [hform]; rfl⟩, fun _ => rfl, ?_⟩
        exact List.forall_mem_singleton.2 ⟨head, list, rfl, Or.inl rfl⟩
      · cases hmatch
    · cases hmatch
  · cases hmatch

theorem within_of_matchList (hd : d.IsAngular) (hentry : entry ∈ d.entries)
    (hmatch : entry.matchList name = some (.ok found)) : found.Within d name := by
  unfold Entry.matchList at hmatch
  split at hmatch
  · rename_i shape hform
    obtain ⟨head, -, rfl, -⟩ := hd.of_placeholder hentry .list hform
    obtain ⟨list, hcapture, hargs⟩ := Option.map_eq_some_iff.1 hmatch
    obtain ⟨inner, rfl, rfl⟩ := capture?_angled_iff.1 hcapture
    obtain ⟨args, hlist, rfl⟩ := Outcome.map_eq_ok_iff.1 hargs
    refine ⟨⟨entry, hentry, rfl, by rw [hform]; rfl⟩, nofun, fun arg hmem => ?_⟩
    unfold captureList at hlist
    split at hlist
    · rename_i names hsplit
      obtain rfl := Except.ok.inj hlist
      exact ⟨head, inner, rfl, Or.inr ⟨_, hsplit, hmem⟩⟩
    · cases hlist
  · cases hmatch

/-- The handler that is found is a registered one, and its types stand in the name. -/
theorem within_of_resolve (hd : d.IsAngular) (hresolve : d.resolve name = .ok found) :
    found.Within d name.trim := by
  unfold resolve at hresolve
  simp only at hresolve
  split at hresolve
  · rename_i hexact
    obtain rfl := Except.ok.inj hresolve
    obtain ⟨entry, hentry, hmatch⟩ := List.exists_of_findSome?_eq_some hexact
    exact within_of_matchExact hentry hmatch
  · split at hresolve
    · rename_i hsingle
      obtain rfl := Except.ok.inj hresolve
      obtain ⟨entry, hentry, hmatch⟩ := List.exists_of_findSome?_eq_some hsingle
      exact hd.within_of_matchSingle hentry hmatch
    · split at hresolve
      · rename_i hlist
        obtain ⟨entry, hentry, hmatch⟩ := List.exists_of_findSome?_eq_some hlist
        exact hd.within_of_matchList hentry (hresolve ▸ hmatch)
      · cases hresolve

end IsAngular

end Dispatcher
end Stencil
