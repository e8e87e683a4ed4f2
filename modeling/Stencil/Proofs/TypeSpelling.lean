import Mathlib.Data.List.Basic
import Stencil.Proofs.Trimming
import Stencil.TypeName

namespace Stencil

/-!
# Spelling of type names

A type name that a renderer is given is trimmed, brought into canonical spelling
and cut at its commas again and again.  `TypeName.IsName` collects what has to
hold of a name so that nothing of this changes it: it begins and ends with solid
characters, its commas are spaced canonically, and no comma stands outside its
brackets.

Names with these properties are closed under the two ways in which names are
made of others.  `isName_angled` puts a text between angle brackets, and
`splitList?_joined` shows that names joined by commas are found again.
-/

namespace TypeName

/-! ## Spacing of commas -/

/-- Whether a character is one that trimming and spacing leave where it is. -/
def isSolid (c : Char) : Bool := !isWhite c && c ≠ ','

theorem not_white_of_isSolid {c : Char} (hc : isSolid c = true) : isWhite c = false := by
  simp only [isSolid, Bool.and_eq_true, Bool.not_eq_true'] at hc
  exact hc.1

theorem ne_comma_of_isSolid {c : Char} (hc : isSolid c = true) : c ≠ ',' := by
  simp only [isSolid, Bool.and_eq_true, decide_eq_true_eq] at hc
  exact hc.2

theorem respaced_cons_of_isSolid {c : Char} (hc : isSolid c = true) (rest : Text) :
    respaced (c :: rest) = c :: respaced rest := by
  simp [respaced, not_white_of_isSolid hc, ne_comma_of_isSolid hc]

/-- Solid characters stay. -/
theorem mem_respaced {t : Text} {c : Char} (hc : isSolid c = true) (hmem : c ∈ t) :
    c ∈ respaced t := by
  induction t with
  | nil => cases hmem
  | cons d rest ih =>
      by_cases hd : isSolid d = true
      · rw [respaced_cons_of_isSolid hd]
        rcases List.mem_cons.1 hmem with rfl | hrest
        · exact List.mem_cons_self
        · exact List.mem_cons_of_mem d (ih hrest)
      · have hrest : c ∈ respaced rest := by
          rcases List.mem_cons.1 hmem with rfl | hrest
          · exact absurd hc hd
          · exact ih hrest
        -- Around a comma or white space nothing but white space is dropped.
        have hnext := Text.mem_trimStart hrest (not_white_of_isSolid hc)
        simp only [respaced]
        split
        · split
          · exact List.mem_cons_of_mem _ hnext
          · exact List.mem_cons_of_mem _ (List.mem_cons_of_mem _ hnext)
        · split
          · exact hnext
          · exact List.mem_cons_of_mem d hrest

/-- The spacing up to a solid character does not depend on what follows it. -/
theorem respaced_append_cons {c : Char} (hc : isSolid c = true) (s t : Text) :
    respaced (s ++ c :: t) = respaced (s ++ [c]) ++ respaced t := by
  induction s with
  | nil => simp [respaced_cons_of_isSolid hc, respaced]
  | cons d s ih =>
      -- Spacing looks ahead over white space only, and so never past the solid character.
      have hmem : c ∈ respaced (s ++ [c]) := mem_respaced hc (by simp)
      obtain ⟨htrim, hne⟩ :=
        Text.trimStart_append_of_mem hmem (not_white_of_isSolid hc) (respaced t)
      have hhead : (Text.trimStart (respaced (s ++ [c])) ++ respaced t).head? =
          (Text.trimStart (respaced (s ++ [c]))).head? := by
        rw [List.head?_append_of_ne_nil _ hne]
      simp only [List.cons_append, respaced, ih, htrim, hhead]
      split
      · split
        · rfl
        · rfl
      · split
        · rfl
        · rfl

/-- Without commas there is nothing to space. -/
theorem respaced_of_not_mem {t : Text} (hcomma : ',' ∉ t) : respaced t = t := by
  induction t with
  | nil => rfl
  | cons c rest ih =>
      rw [List.mem_cons, not_or] at hcomma
      have hnext : (Text.trimStart rest).head? ≠ some ',' := fun hhead =>
        hcomma.2 ((List.dropWhile_sublist _).subset (List.mem_of_mem_head? hhead))
      simp [respaced, ih hcomma.2, hnext, Ne.symm hcomma.1]

/-- One space after a comma and none before it is canonical. -/
theorem respaced_comma {c : Char} (hc : isSolid c = true) (rest : Text) :
    respaced (',' :: ' ' :: c :: rest) = ',' :: ' ' :: respaced (c :: rest) := by
  have hspace : isWhite ' ' = true := by decide
  simp [respaced, Text.trimStart, not_white_of_isSolid hc, ne_comma_of_isSolid hc, hspace]

/-- A comma at the end is given a space. -/
theorem respaced_append_comma (s : Text) :
    ∃ u, respaced (s ++ [',']) = u ++ [' '] ∧ ',' ∈ u := by
  induction s with
  | nil => exact ⟨[','], rfl, List.mem_singleton_self _⟩
  | cons d s ih =>
      obtain ⟨u, hu, hmem⟩ := ih
      have hcomma : isWhite ',' = false := by decide
      have htrim := (Text.trimStart_append_of_mem hmem hcomma [' ']).1
      have hnext := Text.mem_trimStart hmem hcomma
      simp only [List.cons_append, respaced, hu, htrim]
      split
      · split
        · exact ⟨',' :: Text.trimStart u, rfl, List.mem_cons_self⟩
        · exact ⟨',' :: ' ' :: Text.trimStart u, rfl, List.mem_cons_self⟩
      · split
        · exact ⟨Text.trimStart u, rfl, hnext⟩
        · exact ⟨d :: u, rfl, List.mem_cons_of_mem d hmem⟩

/-- A trimmed text in canonical spacing ends with a solid character. -/
theorem exists_last_of_canonical {t : Text} (hne : t ≠ []) (htrim : t.trim = t)
    (hcanonical : canonical t = t) : ∃ front c, t = front ++ [c] ∧ isSolid c = true := by
  obtain ⟨front, c, rfl, hwhite⟩ := Text.last_of_trim_eq_self htrim hne
  refine ⟨front, c, rfl, ?_⟩
  have hc : c ≠ ',' := by
    -- A comma at the end is given a space, so the spelling would not be canonical.
    rintro rfl
    obtain ⟨u, hu, -⟩ := respaced_append_comma front
    rw [canonical, htrim, hu] at hcanonical
    have hlast := congrArg List.getLast? hcanonical
    simp at hlast
  simp [isSolid, hwhite, hc]

/-! ## Brackets -/

/-- More open brackets below do not change what a character does. -/
theorem step_append {stack stack' : List Bracket} {c : Char}
    (hstep : Bracket.step stack c = some stack') (base : List Bracket) :
    Bracket.step (stack ++ base) c = some (stack' ++ base) := by
  unfold Bracket.step at hstep ⊢
  cases hopened : Bracket.opened? c with
  | some bracket =>
      simp only [hopened, Option.some.injEq] at hstep
      simp [← hstep]
  | none =>
      simp only [hopened] at hstep
      cases hclosed : Bracket.closed? c with
      | none =>
          simp only [hclosed, Option.some.injEq] at hstep
          simp [← hstep]
      | some bracket =>
          simp only [hclosed] at hstep
          cases stack with
          | nil => cases hstep
          | cons top rest =>
              simp only at hstep
              split at hstep
              · rename_i htop
                obtain rfl := Option.some.inj hstep
                simp [htop]
              · cases hstep

theorem run_append (stack : List Bracket) (s t : Text) :
    Bracket.run stack (s ++ t) =
      (Bracket.run stack s).bind fun stack => Bracket.run stack t := by
  simp [Bracket.run, List.foldlM_append]

theorem topLevelPieces?_cons (stack : List Bracket) (c : Char) (rest : Text) :
    topLevelPieces? stack (c :: rest) =
      if c = ',' ∧ stack = [] then (topLevelPieces? [] rest).map ([] :: ·)
      else
        (Bracket.step stack c).bind fun stack =>
          (topLevelPieces? stack rest).map (Text.extendFirst c) := by
  rw [topLevelPieces?]
  split
  · rfl
  · cases Bracket.step stack c with
    | none => rfl
    | some stack => rfl

/-- There is always a first piece. -/
theorem topLevelPieces?_ne_nil {stack : List Bracket} {t : Text} :
    topLevelPieces? stack t ≠ some [] := by
  cases t with
  | nil =>
      cases stack with
      | nil => simp [topLevelPieces?]
      | cons top base => simp [topLevelPieces?]
  | cons c rest =>
      rw [topLevelPieces?_cons]
      split
      · simp
      · intro hpieces
        obtain ⟨stack', -, hmap⟩ := Option.bind_eq_some_iff.1 hpieces
        obtain ⟨pieces, -, hnil⟩ := Option.map_eq_some_iff.1 hmap
        cases pieces with
        | nil => cases hnil
        | cons piece others => cases hnil

/-- Where the commas can be found, the brackets match. -/
theorem run_of_topLevelPieces? {stack : List Bracket} {t : Text} {pieces : List Text}
    (hpieces : topLevelPieces? stack t = some pieces) : Bracket.run stack t = some [] := by
  induction t generalizing stack pieces with
  | nil =>
      cases stack with
      | nil => rfl
      | cons top base => simp [topLevelPieces?] at hpieces
  | cons c rest ih =>
      rw [topLevelPieces?_cons] at hpieces
      split at hpieces
      · rename_i hcomma
        obtain ⟨rfl, rfl⟩ := hcomma
        obtain ⟨others, hothers, -⟩ := Option.map_eq_some_iff.1 hpieces
        exact ih hothers
      · obtain ⟨stack', hstep, hmap⟩ := Option.bind_eq_some_iff.1 hpieces
        obtain ⟨others, hothers, -⟩ := Option.map_eq_some_iff.1 hmap
        show (Bracket.step stack c).bind (fun stack => Bracket.run stack rest) = some []
        rw [hstep]
        exact ih hothers

/-- Puts a text in front of the first piece. -/
def prependFirst (s : Text) : List Text → List Text
  | [] => [s]
  | piece :: rest => (s ++ piece) :: rest

theorem map_prependFirst_nil (stack : List Bracket) (t : Text) :
    (topLevelPieces? stack t).map (prependFirst []) = topLevelPieces? stack t := by
  cases hpieces : topLevelPieces? stack t with
  | none => rfl
  | some pieces =>
      cases pieces with
      | nil => exact absurd hpieces topLevelPieces?_ne_nil
      | cons first others => rfl

theorem extendFirst_comp_prependFirst (c : Char) (s : Text) :
    Text.extendFirst c ∘ prependFirst s = prependFirst (c :: s) := by
  funext pieces
  cases pieces <;> rfl

/-- A text in one piece goes over into the first piece of what follows it. -/
theorem topLevelPieces?_append_of_single {stack : List Bracket} {s piece : Text}
    (hsingle : topLevelPieces? stack s = some [piece]) (t : Text) :
    topLevelPieces? stack (s ++ t) = (topLevelPieces? [] t).map (prependFirst piece) := by
  induction s generalizing stack piece with
  | nil =>
      cases stack with
      | nil =>
          obtain rfl : piece = [] := by simpa [topLevelPieces?, eq_comm] using hsingle
          exact (map_prependFirst_nil [] t).symm
      | cons top base => simp [topLevelPieces?] at hsingle
  | cons c rest ih =>
      rw [topLevelPieces?_cons] at hsingle
      rw [List.cons_append, topLevelPieces?_cons]
      split at hsingle
      · obtain ⟨others, hothers, hlist⟩ := Option.map_eq_some_iff.1 hsingle
        obtain rfl := (List.cons.inj hlist).2
        exact absurd hothers topLevelPieces?_ne_nil
      · rename_i hcomma
        rw [if_neg hcomma]
        obtain ⟨stack', hstep, hmap⟩ := Option.bind_eq_some_iff.1 hsingle
        obtain ⟨pieces, hpieces, hlist⟩ := Option.map_eq_some_iff.1 hmap
        cases pieces with
        | nil => exact absurd hpieces topLevelPieces?_ne_nil
        | cons first others =>
            obtain ⟨rfl, rfl⟩ := List.cons.inj hlist
            rw [hstep, Option.bind_some, ih hpieces, Option.map_map, extendFirst_comp_prependFirst]

/-- Inside brackets commas do not cut, and a text whose brackets match stays in one piece. -/
theorem topLevelPieces?_append_of_run {stack stack' : List Bracket} {s : Text}
    (hrun : Bracket.run stack s = some stack') (top : Bracket) (base : List Bracket) (t : Text) :
    topLevelPieces? (stack ++ top :: base) (s ++ t) =
      (topLevelPieces? (stack' ++ top :: base) t).map (prependFirst s) := by
  induction s generalizing stack with
  | nil =>
      obtain rfl := Option.some.inj hrun
      exact (map_prependFirst_nil (stack ++ top :: base) t).symm
  | cons c rest ih =>
      obtain ⟨next, hstep, hrest⟩ := Option.bind_eq_some_iff.1 hrun
      have hne : stack ++ top :: base ≠ [] := by simp
      rw [List.cons_append, topLevelPieces?_cons, if_neg fun h => hne h.2,
        step_append hstep, Option.bind_some, ih hrest, Option.map_map,
        extendFirst_comp_prependFirst]

/-! ## Names -/

/-- What holds of a text that is spelled canonically: solid characters at both ends, canonical
spacing, and matching brackets. -/
structure IsSpelled (t : Text) : Prop where
  first : ∃ c rest, t = c :: rest ∧ isSolid c = true
  last : ∃ front c, t = front ++ [c] ∧ isSolid c = true
  spaced : respaced t = t
  balanced : Bracket.run [] t = some []

/-- What holds of a name: it is spelled canonically and no comma stands outside its brackets. -/
structure IsName (t : Text) : Prop extends IsSpelled t where
  single : topLevelPieces? [] t = some [t]

/-- What can stand between angle brackets: nothing, or a text that is spelled canonically but for
its first character. -/
structure IsInner (t : Text) : Prop where
  trimmed : t.trim = t
  canonical : canonical t = t
  balanced : t.isBalanced = true

namespace IsSpelled

variable {t : Text}

theorem ne_nil (ht : IsSpelled t) : t ≠ [] := by
  obtain ⟨c, rest, rfl, -⟩ := ht.first
  exact List.cons_ne_nil c rest

theorem trimmed (ht : IsSpelled t) : t.trim = t := by
  obtain ⟨c, rest, hfirst, hc⟩ := ht.first
  obtain ⟨front, d, hlast, hd⟩ := ht.last
  exact Text.trim_eq_self ⟨c, rest, hfirst, not_white_of_isSolid hc⟩
    ⟨front, d, hlast, not_white_of_isSolid hd⟩

theorem canonical (ht : IsSpelled t) : TypeName.canonical t = t := by
  rw [TypeName.canonical, ht.trimmed, ht.spaced]

theorem isInner (ht : IsSpelled t) : IsInner t :=
  ⟨ht.trimmed, ht.canonical, by simp [Text.isBalanced, ht.balanced]⟩

/-- Two texts may be joined by a comma and a space. -/
theorem append_comma {s : Text} (hs : IsSpelled s) (ht : IsSpelled t) :
    IsSpelled (s ++ ',' :: ' ' :: t) := by
  obtain ⟨c, rest, hfirst, hc⟩ := hs.first
  obtain ⟨front, d, hlast, hd⟩ := hs.last
  obtain ⟨c', rest', hfirst', hc'⟩ := ht.first
  obtain ⟨front', d', hlast', hd'⟩ := ht.last
  constructor
  · exact ⟨c, rest ++ ',' :: ' ' :: t, by rw [hfirst]; rfl, hc⟩
  · exact ⟨s ++ ',' :: ' ' :: front', d', by rw [hlast']; simp, hd'⟩
  · have hspaced : respaced (front ++ [d]) = s := by rw [← hlast, hs.spaced]
    have hrest : respaced (',' :: ' ' :: t) = ',' :: ' ' :: t := by
      rw [hfirst', respaced_comma hc', ← hfirst', ht.spaced]
    have hassoc : s ++ ',' :: ' ' :: t = front ++ d :: ',' :: ' ' :: t := by simp [hlast]
    rw [hassoc, respaced_append_cons hd, hspaced, hrest, hlast]
    simp
  · have hcomma : Bracket.run [] (',' :: ' ' :: t) = Bracket.run [] t := rfl
    rw [run_append, hs.balanced, Option.bind_some, hcomma, ht.balanced]

end IsSpelled

theorem isInner_nil : IsInner [] := ⟨rfl, rfl, rfl⟩

/-- Whether a text is a word: neither empty nor with white space, commas or brackets in it. -/
def isWord (t : Text) : Bool :=
  !t.isEmpty &&
    t.all fun c => isSolid c && Bracket.opened? c = none && Bracket.closed? c = none

theorem isSolid_of_mem_word {t : Text} (ht : isWord t = true) {c : Char} (hc : c ∈ t) :
    isSolid c = true := by
  simp only [isWord, Bool.and_eq_true, List.all_eq_true] at ht
  exact (ht.2 c hc).1.1

theorem step_of_mem_word {t : Text} (ht : isWord t = true) {c : Char} (hc : c ∈ t)
    (stack : List Bracket) : Bracket.step stack c = some stack := by
  simp only [isWord, Bool.and_eq_true, List.all_eq_true, decide_eq_true_eq] at ht
  have hbrackets := ht.2 c hc
  simp [Bracket.step, hbrackets.1.2, hbrackets.2]

theorem not_mem_word {t : Text} (ht : isWord t = true) {c : Char} (hc : isSolid c = false) :
    c ∉ t := by
  intro hmem
  rw [isSolid_of_mem_word ht hmem] at hc
  cases hc

theorem angle_not_mem_word {t : Text} (ht : isWord t = true) : '<' ∉ t := by
  intro hmem
  have hstep := step_of_mem_word ht hmem []
  cases hstep

/-- A text without commas and brackets is one piece. -/
theorem topLevelPieces?_of_step {t : Text} (hcomma : ',' ∉ t)
    (hstep : ∀ c ∈ t, ∀ stack, Bracket.step stack c = some stack) :
    topLevelPieces? [] t = some [t] := by
  induction t with
  | nil => simp [topLevelPieces?]
  | cons c rest ih =>
      rw [List.mem_cons, not_or] at hcomma
      have hrest := ih hcomma.2 fun d hd => hstep d (List.mem_cons_of_mem c hd)
      rw [topLevelPieces?_cons, if_neg fun h => hcomma.1 h.1.symm,
        hstep c List.mem_cons_self, Option.bind_some, hrest]
      rfl

theorem isName_of_isWord {t : Text} (ht : isWord t = true) : IsName t := by
  have hne : t ≠ [] := by
    rintro rfl
    cases ht
  have hcomma : ',' ∉ t := not_mem_word ht (by decide)
  have hsingle := topLevelPieces?_of_step hcomma fun c hc => step_of_mem_word ht hc
  refine ⟨⟨?_, ?_, respaced_of_not_mem hcomma, run_of_topLevelPieces? hsingle⟩, hsingle⟩
  · cases t with
    | nil => exact absurd rfl hne
    | cons c rest => exact ⟨c, rest, rfl, isSolid_of_mem_word ht List.mem_cons_self⟩
  · rcases List.eq_nil_or_concat t with rfl | ⟨front, c, rfl⟩
    · exact absurd rfl hne
    · rw [List.concat_eq_append] at *
      exact ⟨front, c, rfl, isSolid_of_mem_word ht (by simp)⟩

/-- Decimal digits are a word. -/
theorem isWord_of_isDigit {t : Text} (hne : t ≠ []) (hdigits : t.all Char.isDigit = true) :
    isWord t = true := by
  have hten : ∀ n < 10, isSolid (Char.ofNat (48 + n)) &&
      Bracket.opened? (Char.ofNat (48 + n)) = none &&
        Bracket.closed? (Char.ofNat (48 + n)) = none := by decide
  refine Bool.and_eq_true_iff.2 ⟨by simpa using hne, List.all_eq_true.2 fun c hc => ?_⟩
  have hdigit := List.all_eq_true.1 hdigits c hc
  have hbounds : 48 ≤ c.toNat ∧ c.toNat ≤ 57 := by
    simpa [Char.isDigit, UInt32.le_iff_toNat_le] using hdigit
  have hchar : Char.ofNat (48 + (c.toNat - 48)) = c := by
    rw [Nat.add_sub_cancel' hbounds.1, Char.ofNat_toNat]
  rw [← hchar]
  exact hten _ (by omega)

/-- A head with a text between angle brackets. -/
def angled (head inner : Text) : Text := head ++ '<' :: (inner ++ ['>'])

theorem length_lt_angled (head inner : Text) : inner.length < (angled head inner).length := by
  rw [angled, List.length_append, List.length_cons, List.length_append]
  omega

/-- A word and a bracket at the ends of a name leave nothing to trim. -/
theorem trim_angled {head : Text} (hhead : isWord head = true) (inner : Text) :
    (angled head inner).trim = angled head inner := by
  obtain ⟨c, rest, rfl, hc⟩ := (isName_of_isWord hhead).first
  refine Text.trim_eq_self ⟨c, rest ++ '<' :: (inner ++ ['>']), rfl, not_white_of_isSolid hc⟩ ?_
  exact ⟨c :: rest ++ '<' :: inner, '>', by simp [angled], by decide⟩

/-- A name of a word and a text between angle brackets. -/
theorem isName_angled {head inner : Text} (hhead : isWord head = true) (hinner : IsInner inner) :
    IsName (angled head inner) := by
  have hname := isName_of_isWord hhead
  obtain ⟨c, rest, hfirst, hc⟩ := hname.first
  have hsingle : topLevelPieces? [] (angled head inner) = some [angled head inner] := by
    have hrun : Bracket.run [] inner = some [] := by
      simpa [Text.isBalanced] using hinner.balanced
    have hclose : topLevelPieces? [.angle] ['>'] = some [['>']] := by decide
    -- While the angle bracket is open no comma cuts, and closing it ends the only piece.
    have hinside : topLevelPieces? [.angle] (inner ++ ['>']) = some [inner ++ ['>']] := by
      have hpieces := topLevelPieces?_append_of_run hrun .angle [] ['>']
      rw [List.nil_append, hclose] at hpieces
      exact hpieces
    have hopen : topLevelPieces? [] ('<' :: (inner ++ ['>'])) =
        some ['<' :: (inner ++ ['>'])] := by
      rw [topLevelPieces?_cons, if_neg (by decide)]
      show (topLevelPieces? [.angle] (inner ++ ['>'])).map _ = _
      rw [hinside]
      rfl
    rw [angled, topLevelPieces?_append_of_single hname.single, hopen]
    rfl
  refine ⟨⟨?_, ?_, ?_, run_of_topLevelPieces? hsingle⟩, hsingle⟩
  · exact ⟨c, rest ++ '<' :: (inner ++ ['>']), by rw [angled, hfirst]; rfl, hc⟩
  · exact ⟨head ++ '<' :: inner, '>', by simp [angled], by decide⟩
  · have hopen : respaced (head ++ ['<']) = head ++ ['<'] := by
      refine respaced_of_not_mem fun hmem => ?_
      rcases List.mem_append.1 hmem with hmem | hmem
      · exact not_mem_word hhead (by decide) hmem
      · exact absurd (List.mem_singleton.1 hmem) (by decide)
    have hclose : respaced (inner ++ ['>']) = inner ++ ['>'] := by
      by_cases hne : inner = []
      · subst hne
        decide
      · -- The text between the brackets ends with a solid character, behind which spacing is
        -- independent of what stands before.
        obtain ⟨front, d, hlast, hd⟩ :=
          exists_last_of_canonical hne hinner.trimmed hinner.canonical
        have hspaced : respaced (front ++ [d]) = front ++ [d] := by
          have hcanonical := hinner.canonical
          rw [canonical, hinner.trimmed, hlast] at hcanonical
          exact hcanonical
        have hassoc : inner ++ ['>'] = front ++ d :: ['>'] := by simp [hlast]
        have hend : respaced ['>'] = ['>'] := by decide
        rw [hassoc, respaced_append_cons hd, hspaced, hend]
        simp
    rw [angled, respaced_append_cons (by decide), hopen, hclose]
    simp

/-! ## Lists of names -/

theorem joined_cons_cons (name next : Text) (rest : List Text) :
    Text.joined ", " (name :: next :: rest) =
      name ++ ',' :: ' ' :: Text.joined ", " (next :: rest) := by
  simp [Text.joined]

theorem length_le_joined {names : List Text} {name : Text} (hmem : name ∈ names) :
    name.length ≤ (Text.joined ", " names).length := by
  induction names with
  | nil => cases hmem
  | cons first rest ih =>
      cases rest with
      | nil =>
          rw [List.mem_singleton.1 hmem]
          exact Nat.le_refl _
      | cons next rest =>
          rw [joined_cons_cons, List.length_append, List.length_cons, List.length_cons]
          rcases List.mem_cons.1 hmem with rfl | hmem
          · omega
          · have hrest := ih hmem
            omega

/-- Names joined by commas are spelled canonically. -/
theorem isSpelled_joined {names : List Text} (hnames : ∀ name ∈ names, IsName name)
    (hne : names ≠ []) : IsSpelled (Text.joined ", " names) := by
  induction names with
  | nil => exact absurd rfl hne
  | cons name rest ih =>
      rw [List.forall_mem_cons] at hnames
      cases rest with
      | nil => exact hnames.1.toIsSpelled
      | cons next rest =>
          rw [joined_cons_cons]
          exact hnames.1.append_comma (ih hnames.2 (List.cons_ne_nil next rest))

theorem isInner_joined {names : List Text} (hnames : ∀ name ∈ names, IsName name) :
    IsInner (Text.joined ", " names) := by
  cases names with
  | nil => exact isInner_nil
  | cons name rest => exact (isSpelled_joined hnames (List.cons_ne_nil name rest)).isInner

/-- The commas between names are the only ones outside brackets. -/
theorem topLevelPieces?_joined {name : Text} {rest : List Text} (hname : IsName name)
    (hrest : ∀ name ∈ rest, IsName name) :
    topLevelPieces? [] (Text.joined ", " (name :: rest)) = some (name :: rest.map (' ' :: ·)) := by
  induction rest generalizing name with
  | nil => exact hname.single
  | cons next rest ih =>
      rw [List.forall_mem_cons] at hrest
      have hlater := ih hrest.1 hrest.2
      have hspace : topLevelPieces? [] (' ' :: Text.joined ", " (next :: rest)) =
          some ((' ' :: next) :: rest.map (' ' :: ·)) := by
        rw [topLevelPieces?_cons, if_neg (by decide)]
        show (topLevelPieces? [] _).map _ = _
        rw [hlater]
        rfl
      rw [joined_cons_cons, topLevelPieces?_append_of_single hname.single,
        topLevelPieces?_cons, if_pos ⟨rfl, rfl⟩, hspace]
      simp [prependFirst]

/-- Names that are joined by commas are found again. -/
theorem splitList?_joined {names : List Text} (hnames : ∀ name ∈ names, IsName name) :
    splitList? (Text.joined ", " names) = some names := by
  cases names with
  | nil => rfl
  | cons name rest =>
      have hspelled := isSpelled_joined hnames (List.cons_ne_nil name rest)
      rw [List.forall_mem_cons] at hnames
      have hblank : (Text.joined ", " (name :: rest)).isBlank = false := by
        obtain ⟨c, tail, hfirst, hc⟩ := hspelled.first
        rw [hfirst, Text.isBlank, List.all_cons, not_white_of_isSolid hc]
        rfl
      have htrim : ∀ {name}, IsName name → Text.trim (' ' :: name) = name := by
        intro name hname
        rw [Text.trim, Text.trimStart, List.dropWhile_cons_of_pos (by decide)]
        exact hname.trimmed
      have hpieces : (name :: rest.map (' ' :: ·)).map Text.trim = name :: rest := by
        rw [List.map_cons, List.map_map, hnames.1.trimmed]
        congr 1
        exact (List.map_congr_left fun other hmem => htrim (hnames.2 other hmem)).trans
          (List.map_id rest)
      have hnone : (name :: rest).any List.isEmpty = false := by
        refine List.any_eq_false.2 fun other hmem => ?_
        have hother : IsName other := by
          rcases List.mem_cons.1 hmem with rfl | hmem
          · exact hnames.1
          · exact hnames.2 other hmem
        simpa using hother.ne_nil
      unfold splitList?
      rw [hblank, topLevelPieces?_joined hnames.1 hnames.2]
      simp only [hpieces, hnone, Bool.false_eq_true, if_false]

end TypeName
end Stencil
