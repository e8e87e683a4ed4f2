import Stencil.Proofs.Registration

namespace Stencil

/-!
# Which patterns are registered

Patterns are told apart by their keys, in which the placeholder of a list is
written as that of a type.  A key is the fixed texts of a pattern with a
placeholder between them, so patterns of either kind with the same fixed texts
have the same key.

A dispatcher is the result of calls, each of which registers a pattern or is
refused and changes nothing.  `Dispatcher.IsKeyed` is what a call preserves, and
so what holds after any calls; `Dispatcher.register_after_calls` puts together
what a call answers then, and what it changes.
-/

namespace Text

/-- Without an occurrence there is one piece. -/
theorem pieces_of_count_eq_zero {needle : Text} (hneedle : needle ≠ []) {t : Text}
    (hcount : count needle t = 0) : pieces needle t = [t] := by
  have hnone : ¬∃ front rest, t = front ++ needle ++ rest := by
    rw [← count_pos_iff hneedle, hcount]
    exact Nat.lt_irrefl 0
  have hsplit : splitOnce? needle t = none :=
    splitOnce?_eq_none_iff.2 fun front rest ht => hnone ⟨front, rest, ht⟩
  rw [pieces_eq hneedle, hsplit]

/-- With one occurrence there are the pieces before and after it. -/
theorem exists_pieces_of_count_eq_one {needle : Text} (hneedle : needle ≠ []) {t : Text}
    (hcount : count needle t = 1) :
    ∃ front rest, splitOnce? needle t = some (front, rest) ∧ pieces needle t = [front, rest] := by
  cases hsplit : splitOnce? needle t with
  | none =>
      rw [count, pieces_eq hneedle, hsplit] at hcount
      cases hcount
  | some found =>
      obtain ⟨front, rest⟩ := found
      have hpieces : pieces needle t = front :: pieces needle rest := by
        rw [pieces_eq hneedle, hsplit]
      have hrest : count needle rest = 0 := by
        rw [count, hpieces, List.length_cons] at hcount
        rw [count]
        omega
      exact ⟨front, rest, rfl, by rw [hpieces, pieces_of_count_eq_zero hneedle hrest]⟩

end Text

namespace Pattern

/-! ## Fixed texts -/

/-- The fixed texts of a form with a placeholder. -/
def Form.shape? : Form → Option Shape
  | .exact _ => none
  | .single shape | .list shape => some shape

/-- The fixed texts with the placeholder of one type between them. -/
def Shape.key (shape : Shape) : Text := shape.start ++ placeholder ++ shape.ending

/-- The kind of a pattern counts its placeholders. -/
theorem kindOf_eq_ok_iff {pattern : Text} {kind : PatternKind} :
    kindOf pattern = .ok kind ↔
      match kind with
      | .exact => Text.count placeholder pattern = 0
      | .single => Text.count placeholder pattern = 1 ∧ Text.count listPlaceholder pattern = 0
      | .list => Text.count placeholder pattern = 1 ∧ Text.count listPlaceholder pattern = 1 := by
  unfold kindOf
  generalize Text.count placeholder pattern = single, Text.count listPlaceholder pattern = list
  match single, list with
  | 0, _ => cases kind <;> simp
  | 1, 0 => cases kind <;> simp
  | 1, 1 => cases kind <;> simp
  | 1, _ + 2 => cases kind <;> simp
  | _ + 2, 0 => cases kind <;> simp
  | _ + 2, _ + 1 => cases kind <;> simp

theorem exists_flaw_of_kindOf {pattern : Text} {cause : PatternError}
    (hkind : kindOf pattern = .error cause) : ∃ flaw, cause = .invalid pattern flaw := by
  unfold kindOf at hkind
  split at hkind
  · cases hkind
  · cases hkind
  · cases hkind
  · exact ⟨_, (Except.error.inj hkind).symm⟩
  · exact ⟨_, (Except.error.inj hkind).symm⟩

/-- The key of a pattern with a placeholder is made of its fixed texts, whatever the kind of the
placeholder. -/
theorem key_eq_of_shape {pattern : Text} {kind : PatternKind} {shape : Shape}
    (hkind : kindOf pattern = .ok kind) (hshape : (Form.ofPattern pattern kind).shape? = some shape) :
    key pattern = shape.key := by
  have hlistPlaceholder : listPlaceholder ≠ [] := by decide
  cases kind with
  | exact => cases hshape
  | single =>
      obtain ⟨hone, hnone⟩ := kindOf_eq_ok_iff.1 hkind
      obtain ⟨front, rest, hsplit, -⟩ := Text.exists_pieces_of_count_eq_one (by decide) hone
      obtain rfl := Option.some.inj hshape
      rw [key, Text.replace, Text.pieces_of_count_eq_zero hlistPlaceholder hnone, Text.joined,
        Shape.key, Shape.around, hsplit]
      exact Text.append_of_splitOnce? hsplit
  | list =>
      obtain ⟨-, hone⟩ := kindOf_eq_ok_iff.1 hkind
      obtain ⟨front, rest, hsplit, hpieces⟩ :=
        Text.exists_pieces_of_count_eq_one hlistPlaceholder hone
      obtain rfl := Option.some.inj hshape
      rw [key, Text.replace, hpieces, Text.joined, Text.joined, Shape.key, Shape.around, hsplit]

end Pattern

namespace Dispatcher

variable {H : Type} {d : Dispatcher H} {pattern : Text} {handler : H}

/-! ## One call -/

theorem isRegistered_iff :
    d.isRegistered pattern = true ↔ Pattern.key pattern.trim ∈ d.entries.map (·.key) := by
  simp [isRegistered, hasKey]

/-- The form of an entry is that of its pattern, of the kind that its placeholders make it. -/
theorem form_of_entry {entry : Entry H} (hentry : entry? pattern handler = .ok entry) :
    ∃ kind, Pattern.kindOf pattern.trim = .ok kind ∧
      entry.form = Pattern.Form.ofPattern pattern.trim kind := by
  unfold entry? at hentry
  simp only at hentry
  split at hentry
  · cases hentry
  · obtain ⟨kind, hkind, rfl⟩ := Outcome.map_eq_ok_iff.1 hentry
    exact ⟨kind, hkind, rfl⟩

/-- A pattern that is not well formed is refused as such. -/
theorem exists_flaw_of_register (hpattern : ¬Pattern.IsWellFormed pattern) :
    ∃ flaw, d.register pattern handler = .error (.invalid pattern.trim flaw) := by
  have hentry : ∃ flaw, entry? pattern handler = .error (.invalid pattern.trim flaw) := by
    cases hentry : entry? pattern handler with
    | ok entry => exact absurd (exists_entry_iff.1 ⟨entry, hentry⟩) hpattern
    | error cause =>
        unfold entry? at hentry
        simp only at hentry
        split at hentry
        · exact ⟨.empty, by rw [← Except.error.inj hentry]⟩
        · obtain ⟨flaw, rfl⟩ :=
            Pattern.exists_flaw_of_kindOf (Outcome.map_eq_error_iff.1 hentry)
          exact ⟨flaw, rfl⟩
  obtain ⟨flaw, hflaw⟩ := hentry
  refine ⟨flaw, ?_⟩
  rw [register, hflaw]
  rfl

/-- A well-formed pattern is registered if it is not yet, and otherwise refused as a duplicate. -/
theorem register_of_isWellFormed (hpattern : Pattern.IsWellFormed pattern) :
    ∃ entry, entry? pattern handler = .ok entry ∧
      d.register pattern handler =
        if d.isRegistered pattern then .error (.duplicate pattern.trim)
        else .ok ⟨d.entries ++ [entry]⟩ := by
  obtain ⟨entry, hentry⟩ := (@exists_entry_iff H pattern handler).2 hpattern
  refine ⟨entry, hentry, ?_⟩
  rw [register, hentry, isRegistered, ← key_eq_of_entry hentry]
  rfl

/-- Whether a pattern is well formed can be tried out. -/
instance (pattern : Text) : Decidable (Pattern.IsWellFormed pattern) :=
  decidable_of_iff (( entry? pattern ()).isOk = true) <| by
    rw [← @exists_entry_iff Unit pattern ()]
    constructor
    · exact Outcome.exists_eq_ok_of_isOk
    · rintro ⟨entry, hentry⟩
      rw [hentry]
      rfl

/-! ## Calls -/

/-- The dispatcher after a call that registers a pattern.  A call that is refused changes
nothing. -/
def afterCall (d : Dispatcher H) (call : Text × H) : Dispatcher H :=
  match d.register call.1 call.2 with
  | .ok registered => registered
  | .error _ => d

/-- The dispatcher after calls, one after the other, at first without patterns. -/
def afterCalls (calls : List (Text × H)) : Dispatcher H := calls.foldl afterCall empty

theorem afterCall_of_ok {registered : Dispatcher H}
    (hregister : d.register pattern handler = .ok registered) :
    d.afterCall (pattern, handler) = registered := by
  simp only [afterCall, hregister]

theorem afterCall_of_error {cause : PatternError}
    (hregister : d.register pattern handler = .error cause) :
    d.afterCall (pattern, handler) = d := by
  simp only [afterCall, hregister]

/-- A call after others goes on from the dispatcher that they left. -/
theorem afterCalls_append_cons (calls : List (Text × H)) (call : Text × H)
    (later : List (Text × H)) :
    afterCalls (calls ++ call :: later) = later.foldl afterCall ((afterCalls calls).afterCall call) := by
  rw [afterCalls, afterCalls, List.foldl_append, List.foldl_cons]

/-- The entries have different keys, and the keys of those with a placeholder are made of their
fixed texts. -/
structure IsKeyed (d : Dispatcher H) : Prop where
  nodup : (d.entries.map (·.key)).Nodup
  shape_key : ∀ entry ∈ d.entries, ∀ shape, entry.form.shape? = some shape → entry.key = shape.key

theorem shape_key_of_entry {entry : Entry H} (hentry : entry? pattern handler = .ok entry)
    {shape : Pattern.Shape} (hshape : entry.form.shape? = some shape) : entry.key = shape.key := by
  obtain ⟨kind, hkind, hform⟩ := form_of_entry hentry
  rw [hform] at hshape
  rw [key_eq_of_entry hentry, Pattern.key_eq_of_shape hkind hshape]

theorem isKeyed_afterCall (hd : d.IsKeyed) (call : Text × H) : (d.afterCall call).IsKeyed := by
  unfold afterCall
  split
  · rename_i registered hregister
    obtain ⟨entry, hentry, hnew, rfl⟩ := register_eq_ok_iff.1 hregister
    refine ⟨(nodup_map_append_singleton hd.nodup).2 hnew, fun other hother shape hshape => ?_⟩
    rcases List.mem_append.1 hother with hother | hother
    · exact hd.shape_key other hother shape hshape
    · obtain rfl := List.mem_singleton.1 hother
      exact shape_key_of_entry hentry hshape
  · exact hd

theorem isKeyed_afterCalls (calls : List (Text × H)) : (afterCalls calls).IsKeyed := by
  have hrun : ∀ {d : Dispatcher H}, d.IsKeyed → (calls.foldl afterCall d).IsKeyed := by
    induction calls with
    | nil => exact fun hd => hd
    | cons call rest ih => exact fun hd => ih (isKeyed_afterCall hd call)
  exact hrun ⟨nodup_empty, nofun⟩

/-- A call takes no pattern away. -/
theorem entries_prefix_afterCall (d : Dispatcher H) (call : Text × H) :
    d.entries <+: (d.afterCall call).entries := by
  unfold afterCall
  split
  · rename_i registered hregister
    obtain ⟨entry, -, -, rfl⟩ := register_eq_ok_iff.1 hregister
    exact List.prefix_append d.entries [entry]
  · exact List.prefix_rfl

theorem entries_prefix_foldl (calls : List (Text × H)) (d : Dispatcher H) :
    d.entries <+: (calls.foldl afterCall d).entries := by
  induction calls generalizing d with
  | nil => exact List.prefix_rfl
  | cons call rest ih => exact (entries_prefix_afterCall d call).trans (ih (d.afterCall call))

/-- What is registered stays registered. -/
theorem isRegistered_foldl (hregistered : d.isRegistered pattern = true)
    (calls : List (Text × H)) : (calls.foldl afterCall d).isRegistered pattern = true := by
  rw [isRegistered_iff] at hregistered ⊢
  exact ((entries_prefix_foldl calls d).map (·.key)).subset hregistered

/-- A call that is not refused registers its pattern, as one more. -/
theorem isRegistered_of_register {registered : Dispatcher H}
    (hregister : d.register pattern handler = .ok registered) :
    registered.isRegistered pattern = true ∧ registered.size = d.size + 1 := by
  obtain ⟨entry, hentry, -, rfl⟩ := register_eq_ok_iff.1 hregister
  refine ⟨?_, by rw [size, size, List.length_append, List.length_singleton]⟩
  rw [isRegistered_iff, List.map_append, List.map_singleton, key_eq_of_entry hentry]
  exact List.mem_append_right _ (List.mem_singleton_self _)

/-- Patterns with the same fixed texts are not both registered. -/
theorem IsKeyed.eq_of_shape (hd : d.IsKeyed) {entry other : Entry H} (hentry : entry ∈ d.entries)
    (hother : other ∈ d.entries) {shape : Pattern.Shape} (hshape : entry.form.shape? = some shape)
    (hsame : other.form.shape? = some shape) : entry = other := by
  refine List.inj_on_of_nodup_map hd.nodup hentry hother ?_
  rw [hd.shape_key entry hentry shape hshape, hd.shape_key other hother shape hsame]

/-- After any calls, a further one answers and changes as follows.  A well-formed pattern is
refused exactly if it is registered, as a duplicate; every other one is refused as invalid.  A
call that is refused is not noticed afterwards; one that is not makes its pattern registered from
then on, as one more.  No key is registered twice, so no two patterns with the same fixed texts
around their placeholders are registered, whatever the kinds of the placeholders. -/
theorem register_after_calls (calls : List (Text × H)) (pattern : Text) (handler : H) :
    let d := afterCalls calls
    let next := afterCalls (calls ++ [(pattern, handler)])
    (Pattern.IsWellFormed pattern →
        (d.register pattern handler = .error (.duplicate pattern.trim) ↔
          d.isRegistered pattern = true) ∧
        ((∃ registered, d.register pattern handler = .ok registered) ↔
          d.isRegistered pattern = false)) ∧
      (¬Pattern.IsWellFormed pattern →
        ∃ flaw, d.register pattern handler = .error (.invalid pattern.trim flaw)) ∧
      (∀ cause, d.register pattern handler = .error cause →
        next.size = d.size ∧ (∀ other, next.isRegistered other = d.isRegistered other) ∧
          ∀ name, next.resolve name = d.resolve name) ∧
      (∀ registered, d.register pattern handler = .ok registered →
        next.size = d.size + 1 ∧
          ∀ later, (afterCalls (calls ++ (pattern, handler) :: later)).isRegistered pattern =
            true) ∧
      (d.entries.map (·.key)).Nodup ∧
      ∀ entry ∈ d.entries, ∀ other ∈ d.entries, ∀ shape, entry.form.shape? = some shape →
        other.form.shape? = some shape → entry = other := by
  intro d next
  have hd : d.IsKeyed := isKeyed_afterCalls calls
  have hnext : next = d.afterCall (pattern, handler) := afterCalls_append_cons calls _ []
  refine ⟨fun hpattern => ?_, exists_flaw_of_register, ?_, ?_, hd.nodup, ?_⟩
  · obtain ⟨entry, -, hregister⟩ := @register_of_isWellFormed H d pattern handler hpattern
    rw [hregister]
    cases d.isRegistered pattern <;> simp
  · intro cause hregister
    rw [hnext, afterCall_of_error hregister]
    exact ⟨rfl, fun _ => rfl, fun _ => rfl⟩
  · intro registered hregister
    obtain ⟨hregistered, hsize⟩ := isRegistered_of_register hregister
    refine ⟨by rw [hnext, afterCall_of_ok hregister, hsize], fun later => ?_⟩
    rw [afterCalls_append_cons, afterCall_of_ok hregister]
    exact isRegistered_foldl hregistered later
  · exact fun entry hentry other hother shape => hd.eq_of_shape hentry hother

/-- After patterns with points behind their placeholders, and a malformed one, were tried: a
pattern whose key is taken by one of the other kind, one with two placeholders, and one that is
new. -/
theorem register_after_pointedCalls :
    let calls : List (Text × Nat) :=
      [("a<\x7b\x7d>", 1), ("\x7b\x7d......", 2), ("\x7b\x7d\x7b\x7d", 3)]
    let taken : Text := "a<\x7b\x7d...>"
    let twofold : Text := "\x7b\x7d, \x7b\x7d..."
    let fresh : Text := "\x7b\x7d..."
    let d := afterCalls calls
    d.register taken 4 = .error (.duplicate taken) ∧
      (∃ flaw, d.register twofold 4 = .error (.invalid twofold flaw)) ∧
      (afterCalls (calls ++ [(taken, 4)])).size = d.size ∧
      (afterCalls (calls ++ [(fresh, 4)])).size = d.size + 1 ∧
      (afterCalls (calls ++ (fresh, 4) :: [(taken, 5)])).isRegistered fresh = true := by
  intro calls taken twofold fresh d
  have htaken : d.isRegistered taken = true := by decide +kernel
  have hfresh : d.isRegistered fresh = false := by decide +kernel
  obtain ⟨hwell, -, hrefused, -⟩ := register_after_calls calls taken 4
  obtain ⟨hnew, -, -, haccepted, -⟩ := register_after_calls calls fresh 4
  have hduplicate : d.register taken 4 = .error (.duplicate taken) :=
    (hwell (by decide +kernel)).1.2 htaken
  obtain ⟨registered, hregister⟩ := (hnew (by decide +kernel)).2.2 hfresh
  obtain ⟨hsize, hlater⟩ := haccepted registered hregister
  refine ⟨hduplicate, ?_, (hrefused _ hduplicate).1, hsize, hlater [(taken, 5)]⟩
  exact (register_after_calls calls twofold 4).2.1 (by decide +kernel)

end Dispatcher
end Stencil
