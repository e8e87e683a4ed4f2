import Mathlib.Data.List.TakeWhile
import Stencil.Files.Path

namespace Stencil

/-!
# The steps of a path

Two paths that differ by empty segments and by segments that are a point lead to
the same place.  `Path.steps` are the other segments.  The name of the file, the
path above and the destination of a template are determined by the steps and by
whether the path begins at the root, which is what the lemmas of this module say.
-/

namespace Text

/-- Fewer pieces are joined to a start of what all of them are joined to. -/
theorem isPrefix_joined {separator : Text} {pieces others : List Text} (h : pieces <+: others) :
    joined separator pieces <+: joined separator others := by
  induction pieces generalizing others with
  | nil => exact List.nil_prefix
  | cons piece rest ih =>
      obtain ⟨more, rfl⟩ := h
      cases rest with
      | nil =>
          cases more with
          | nil => exact List.prefix_rfl
          | cons next more =>
              show piece <+: piece ++ separator ++ joined separator (next :: more)
              rw [List.append_assoc]
              exact List.prefix_append piece _
      | cons next rest =>
          have hrest := ih (List.prefix_append (next :: rest) more)
          show piece ++ separator ++ joined separator (next :: rest) <+:
            piece ++ separator ++ joined separator (next :: rest ++ more)
          exact (List.prefix_append_right_inj _).2 hrest

end Text

namespace Path

/-! ## Segments -/

theorem segments_append_slash (s t : Text) :
    segments (s ++ '/' :: t) = segments s ++ segments t :=
  List.splitOnP_append_cons s t rfl

theorem segments_slash (t : Text) : segments ('/' :: t) = [] :: segments t :=
  segments_append_slash [] t

theorem segments_ne_nil (t : Text) : segments t ≠ [] := List.splitOnP_ne_nil _ t

/-- A character that is no slash belongs to the first segment. -/
theorem segments_cons {c : Char} (hc : c ≠ '/') {t first : Text} {others : List Text}
    (hsegments : segments t = first :: others) : segments (c :: t) = (c :: first) :: others := by
  unfold segments at hsegments ⊢
  rw [List.splitOnP_cons_eq_if_modifyHead, hsegments]
  simp [hc]

theorem segments_of_not_mem {t : Text} (ht : '/' ∉ t) : segments t = [t] := by
  refine List.splitOnP_eq_singleton fun c hc => ?_
  exact decide_eq_false fun hslash => ht (hslash ▸ hc)

/-- No segment has a slash. -/
theorem slash_not_mem_segment {t : Text} : ∀ segment ∈ segments t, '/' ∉ segment := by
  induction t with
  | nil => exact List.forall_mem_singleton.2 List.not_mem_nil
  | cons c rest ih =>
      by_cases hc : c = '/'
      · rw [hc, segments_slash]
        exact List.forall_mem_cons.2 ⟨List.not_mem_nil, ih⟩
      · obtain ⟨first, others, hsegments⟩ := List.exists_cons_of_ne_nil (segments_ne_nil rest)
        rw [hsegments, List.forall_mem_cons] at ih
        rw [segments_cons hc hsegments]
        refine List.forall_mem_cons.2 ⟨?_, ih.2⟩
        rw [List.mem_cons, not_or]
        exact ⟨Ne.symm hc, ih.1⟩

/-- A path is made up of its segments. -/
theorem joined_segments (t : Text) : Text.joined "/" (segments t) = t := by
  induction t with
  | nil => rfl
  | cons c rest ih =>
      obtain ⟨first, others, hsegments⟩ := List.exists_cons_of_ne_nil (segments_ne_nil rest)
      rw [hsegments] at ih
      by_cases hc : c = '/'
      · rw [hc, segments_slash, hsegments]
        show '/' :: Text.joined "/" (first :: others) = _
        rw [ih]
      · rw [segments_cons hc hsegments]
        cases others with
        | nil => exact congrArg (c :: ·) ih
        | cons next others => exact congrArg (c :: ·) ih

/-! ## Steps -/

/-- The segments among others that lead somewhere. -/
def leading (pieces : List Text) : List Text := pieces.filter fun piece => !isIdle piece

theorem leading_append (pieces others : List Text) :
    leading (pieces ++ others) = leading pieces ++ leading others :=
  List.filter_append pieces others

theorem leading_reverse (pieces : List Text) : leading pieces.reverse = (leading pieces).reverse :=
  List.filter_reverse

/-- Idle segments in front are not among the others. -/
theorem leading_dropWhile (pieces : List Text) :
    leading (pieces.dropWhile isIdle) = leading pieces := by
  induction pieces with
  | nil => rfl
  | cons piece rest ih =>
      cases hidle : isIdle piece with
      | true =>
          rw [List.dropWhile_cons_of_pos hidle, ih, leading, leading,
            List.filter_cons_of_neg (by simp [hidle])]
      | false => rw [List.dropWhile_cons_of_neg (by simp [hidle])]

/-- The segments of a path that lead somewhere. -/
def steps (path : Text) : List Text := leading (segments path)

theorem steps_nil : steps [] = [] := rfl

theorem steps_append_slash (s t : Text) : steps (s ++ '/' :: t) = steps s ++ steps t := by
  rw [steps, segments_append_slash, leading_append]
  rfl

theorem steps_of_not_mem {name : Text} (hname : '/' ∉ name) : steps name = leading [name] := by
  rw [steps, segments_of_not_mem hname]

theorem leading_singleton {name : Text} (hidle : isIdle name = false) :
    leading [name] = [name] := by
  simp [leading, hidle]

theorem leading_singleton_of_isIdle {name : Text} (hidle : isIdle name = true) :
    leading [name] = [] := by
  simp [leading, hidle]

theorem slash_not_mem_step {path step : Text} (hstep : step ∈ steps path) : '/' ∉ step :=
  slash_not_mem_segment step (List.mem_filter.1 hstep).1

theorem isIdle_of_mem_steps {path step : Text} (hstep : step ∈ steps path) :
    isIdle step = false := by
  have hleads := (List.mem_filter.1 hstep).2
  simpa using hleads

/-- The steps of joined segments are those among the segments. -/
theorem steps_joined {pieces : List Text} (hpieces : ∀ piece ∈ pieces, '/' ∉ piece) :
    steps (Text.joined "/" pieces) = leading pieces := by
  induction pieces with
  | nil => rfl
  | cons piece rest ih =>
      rw [List.forall_mem_cons] at hpieces
      cases rest with
      | nil => exact steps_of_not_mem hpieces.1
      | cons next rest =>
          show steps (piece ++ ['/'] ++ Text.joined "/" (next :: rest)) = _
          rw [List.append_assoc]
          show steps (piece ++ '/' :: Text.joined "/" (next :: rest)) = _
          rw [steps_append_slash, ih hpieces.2, steps_of_not_mem hpieces.1, ← leading_append]
          rfl

/-! ## The start of a path -/

theorem append_splitStart (path : Text) : (splitStart path).1 ++ (splitStart path).2 = path := by
  unfold splitStart
  split <;> rfl

theorem steps_splitStart (path : Text) : steps (splitStart path).2 = steps path := by
  unfold splitStart
  split
  · rename_i rest
    exact (steps_append_slash [] rest).symm
  · rfl
  · rename_i rest
    show steps ([] ++ '/' :: rest) = steps (['.'] ++ '/' :: rest)
    rw [steps_append_slash, steps_append_slash]
    rfl
  · rfl

/-- Whether a path begins at the root. -/
def IsAbsolute (path : Text) : Prop := path.head? = some '/'

/-- A point in front of joined segments, the first of which is empty, adds no step. -/
theorem steps_point_append {pieces others : List Text} (hpieces : pieces <+: [] :: others)
    (hslash : ∀ piece ∈ pieces, '/' ∉ piece) :
    steps ('.' :: Text.joined "/" pieces) = leading pieces := by
  rcases List.prefix_cons_iff.1 hpieces with rfl | ⟨rest, rfl, -⟩
  · rfl
  · cases rest with
    | nil => rfl
    | cons next rest =>
        show steps (['.'] ++ '/' :: Text.joined "/" (next :: rest)) = _
        rw [steps_append_slash, steps_joined fun piece hmem =>
          hslash piece (List.mem_cons_of_mem _ hmem)]
        rfl

/-- The start of a path adds no step to the segments that follow it, or to some of them. -/
theorem steps_start_append {path : Text} {pieces : List Text}
    (hpieces : pieces <+: segments (splitStart path).2) :
    steps ((splitStart path).1 ++ Text.joined "/" pieces) = leading pieces := by
  have hslash : ∀ piece ∈ pieces, '/' ∉ piece :=
    fun piece hmem => slash_not_mem_segment piece (hpieces.subset hmem)
  unfold splitStart at hpieces ⊢
  split at hpieces
  · exact (steps_append_slash [] _).trans (steps_joined hslash)
  · exact steps_point_append hpieces hslash
  · rename_i rest
    rw [segments_slash] at hpieces
    exact steps_point_append hpieces hslash
  · exact steps_joined hslash

theorem prefix_start_append {path : Text} {pieces : List Text}
    (hpieces : pieces <+: segments (splitStart path).2) :
    (splitStart path).1 ++ Text.joined "/" pieces <+: path := by
  obtain ⟨more, hmore⟩ := @Text.isPrefix_joined "/" _ _ hpieces
  rw [joined_segments] at hmore
  exact ⟨more, by rw [List.append_assoc, hmore, append_splitStart]⟩

/-- A path that begins at the root has the root as its start. -/
theorem isAbsolute_start_append {path : Text} (hpath : IsAbsolute path) (rest : Text) :
    IsAbsolute ((splitStart path).1 ++ rest) := by
  obtain ⟨t, rfl⟩ := List.head?_eq_some_iff.1 hpath
  rfl

theorem isAbsolute_of_isPrefix {path start : Text} (hpath : start <+: path)
    (hstart : IsAbsolute start) : IsAbsolute path := by
  obtain ⟨t, rfl⟩ := List.head?_eq_some_iff.1 hstart
  obtain ⟨more, rfl⟩ := hpath
  rfl

/-! ## The path above -/

variable {path : Text} {above : List Text} {last : Text}

theorem leading_backwards (path : Text) : leading (backwards path) = (steps path).reverse := by
  rw [backwards, leading_dropWhile, leading_reverse, ← steps_splitStart]
  rfl

theorem isIdle_of_backwards {rest : List Text} (hback : backwards path = last :: rest) :
    isIdle last = false := by
  have hhead := List.head?_dropWhile_not isIdle (segments (splitStart path).2).reverse
  unfold backwards at hback
  rw [hback] at hhead
  simpa using hhead

/-- From its end, a path has its last step, after which the other steps come. -/
theorem backwards_of_steps (hsteps : steps path = above ++ [last]) :
    ∃ rest, backwards path = last :: rest ∧ leading rest = above.reverse := by
  have hleading := leading_backwards path
  rw [hsteps, List.reverse_append] at hleading
  cases hback : backwards path with
  | nil =>
      rw [hback] at hleading
      cases hleading
  | cons first rest =>
      rw [hback, leading, List.filter_cons_of_pos (by simp [isIdle_of_backwards hback])] at hleading
      obtain ⟨rfl, hrest⟩ := List.cons.inj hleading
      exact ⟨rest, rfl, hrest⟩

theorem backwards_of_no_steps (hsteps : steps path = []) : backwards path = [] := by
  have hleading := leading_backwards path
  rw [hsteps] at hleading
  cases hback : backwards path with
  | nil => rfl
  | cons first rest =>
      rw [hback, leading, List.filter_cons_of_pos (by simp [isIdle_of_backwards hback])] at hleading
      cases hleading

/-- The path above has all steps but the last. -/
theorem exists_parent? (hsteps : steps path = above ++ [last]) :
    ∃ directory, parent? path = some directory ∧ steps directory = above ∧
      directory <+: path ∧ (IsAbsolute directory ↔ IsAbsolute path) := by
  obtain ⟨rest, hback, hrest⟩ := backwards_of_steps hsteps
  have hpieces : (rest.dropWhile isIdle).reverse <+: segments (splitStart path).2 := by
    have hsuffix : last :: rest <:+ (segments (splitStart path).2).reverse :=
      hback ▸ List.dropWhile_suffix isIdle
    rw [← List.reverse_suffix, List.reverse_reverse]
    exact ((List.dropWhile_suffix isIdle).trans (List.suffix_cons last rest)).trans hsuffix
  have hstart := prefix_start_append hpieces
  refine ⟨_, ?_, ?_, hstart, isAbsolute_of_isPrefix hstart,
    fun hpath => isAbsolute_start_append hpath _⟩
  · rw [parent?, hback]
  · rw [steps_start_append hpieces, leading_reverse, leading_dropWhile, hrest,
      List.reverse_reverse]

/-- There is nothing above a path without steps. -/
theorem parent?_of_no_steps (hsteps : steps path = []) : (parent? path).getD [] = [] := by
  rw [parent?, backwards_of_no_steps hsteps]
  by_cases hstart : (splitStart path).1 = ['.']
  · simp [hstart]
  · simp [hstart]

theorem fileName?_of_steps (hsteps : steps path = above ++ [last]) :
    fileName? path = if isParent last then none else some last := by
  obtain ⟨rest, hback, -⟩ := backwards_of_steps hsteps
  rw [fileName?, hback]

theorem fileName?_of_no_steps (hsteps : steps path = []) : fileName? path = none := by
  rw [fileName?, backwards_of_no_steps hsteps]

/-- The mark of templates is looked for in the last step. -/
theorem isTemplate_of_steps (hsteps : steps path = above ++ [last]) :
    isTemplate path = Text.has templateMark last := by
  rw [isTemplate, fileName?_of_steps hsteps]
  cases hparent : isParent last with
  | false => rfl
  | true =>
      obtain rfl : last = ['.', '.'] := of_decide_eq_true hparent
      decide

theorem isTemplate_of_no_steps (hsteps : steps path = []) : isTemplate path = false := by
  rw [isTemplate, fileName?_of_no_steps hsteps]

/-! ## Joining -/

/-- A slash is put between a directory and a name unless it is there. -/
theorem join_cases (directory name : Text) :
    (directory = [] ∧ join directory name = name) ∨
      ∃ front, (directory = front ∧ front ≠ [] ∨ directory = front ++ ['/']) ∧
        join directory name = front ++ '/' :: name := by
  unfold join
  split
  · rename_i hlast
    exact .inl ⟨List.getLast?_eq_none_iff.1 hlast, rfl⟩
  · rename_i hlast
    obtain ⟨front, rfl⟩ := List.getLast?_eq_some_iff.1 hlast
    exact .inr ⟨front, .inr rfl, by rw [List.append_assoc, List.singleton_append]⟩
  · rename_i c hlast hc
    have hne : directory ≠ [] := by
      rintro rfl
      cases hc
    exact .inr ⟨directory, .inl ⟨rfl, hne⟩, by rw [List.append_assoc]; rfl⟩

/-- Joining puts steps together. -/
theorem steps_join (directory name : Text) :
    steps (join directory name) = steps directory ++ steps name := by
  rcases join_cases directory name with ⟨rfl, hjoin⟩ | ⟨front, hfront, hjoin⟩
  · rw [hjoin]
    rfl
  · rw [hjoin, steps_append_slash]
    rcases hfront with ⟨rfl, -⟩ | rfl
    · rfl
    · rw [steps_append_slash, steps_nil, List.append_nil]

theorem isAbsolute_join_iff {directory name : Text} (hname : '/' ∉ name) :
    IsAbsolute (join directory name) ↔ IsAbsolute directory := by
  have hrelative : ¬IsAbsolute name := by
    intro habsolute
    obtain ⟨t, rfl⟩ := List.head?_eq_some_iff.1 habsolute
    exact hname List.mem_cons_self
  rcases join_cases directory name with ⟨rfl, hjoin⟩ | ⟨front, hfront, hjoin⟩
  · rw [hjoin]
    exact ⟨fun h => absurd h hrelative, fun h => by cases h⟩
  · rw [hjoin]
    unfold IsAbsolute
    rcases hfront with ⟨rfl, hne⟩ | rfl
    · obtain ⟨c, rest, rfl⟩ := List.exists_cons_of_ne_nil hne
      exact Iff.rfl
    · cases front with
      | nil => simp
      | cons c front => simp

/-! ## Destinations -/

theorem exists_steps_of_fileName? {name : Text} (hname : fileName? path = some name) :
    ∃ above, steps path = above ++ [name] := by
  rcases List.eq_nil_or_concat (steps path) with hnone | ⟨above, last, hsteps⟩
  · rw [fileName?_of_no_steps hnone] at hname
    cases hname
  · rw [List.concat_eq_append] at hsteps
    rw [fileName?_of_steps hsteps] at hname
    cases hparent : isParent last with
    | true => rw [hparent] at hname; cases hname
    | false =>
        rw [hparent] at hname
        obtain rfl : last = name := Option.some.inj hname
        exact ⟨above, hsteps⟩

/-- The name of the destination of a template with a name. -/
def destinationName (name : Text) : Text := Text.replaceFirst templateMark "." name

theorem slash_not_mem_destinationName {name : Text} (hname : '/' ∉ name) :
    '/' ∉ destinationName name := by
  unfold destinationName Text.replaceFirst
  split
  · rename_i head tail hsplit
    have hcut := Text.append_of_splitOnce? hsplit
    rw [hcut] at hname
    simp only [List.mem_append, not_or] at hname ⊢
    exact ⟨⟨hname.1.1, by decide⟩, hname.2⟩
  · exact hname

/-- The destination of a template is next to it. -/
theorem exists_of_destination? {destination : Text}
    (hdestination : destination? path = some destination) :
    ∃ above name, steps path = above ++ [name] ∧ Text.has templateMark name = true ∧
      steps destination = above ++ leading [destinationName name] ∧
      (IsAbsolute destination ↔ IsAbsolute path) := by
  unfold destination? at hdestination
  cases hname : fileName? path with
  | none => rw [hname] at hdestination; cases hdestination
  | some name =>
      obtain ⟨above, hsteps⟩ := exists_steps_of_fileName? hname
      obtain ⟨directory, hparent, habove, -, habsolute⟩ := exists_parent? hsteps
      have hmem : name ∈ steps path := by
        rw [hsteps]
        simp
      have hslash := slash_not_mem_destinationName (slash_not_mem_step hmem)
      cases hmark : Text.has templateMark name with
      | false => simp [hname, hmark] at hdestination
      | true =>
          simp only [hname, hmark, if_true, withFileName, hparent, Option.some.injEq]
            at hdestination
          subst hdestination
          refine ⟨above, name, hsteps, hmark, ?_, ?_⟩
          · rw [steps_join, habove]
            exact congrArg _ (steps_of_not_mem hslash)
          · exact (isAbsolute_join_iff hslash).trans habsolute

end Path
end Stencil
