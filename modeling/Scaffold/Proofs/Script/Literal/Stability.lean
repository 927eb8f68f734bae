import Scaffold.Proofs.Script.Literal.RoundTrip
import Scaffold.Proofs.Script.Trimming

/-!
# What was read is read again

`Literal.read_print_read`: a value that was read from any text is written as text that is read as an
equal value.  Nothing is assumed about the text: it may hold comments, strings in quotes of either
kind, commas behind the last entry, and brackets that close brackets of another kind or are not
closed.

The expressions of such a value are what needs an argument, since they are written as they stood in
the text.  A text that is read on its own below the outermost brackets is balanced and holds no comma
outside its brackets, so an expression is a source (`isSource_of_read`).  Two places are different.
An expression that is the whole value may be of any form, but no text stands around it.  An entry
without a colon is an expression without being read, so it has to be one when it is read.
-/

namespace Scaffold.Script

/-! ## Parts of a text -/

theorem IsFiller.trimCode_eq_nil {t : Text} (h : IsFiller t) : trimCode t = [] := by
  have hnil : ∀ v ∈ ([] : List Visit), v.isSkipped = true := by simp
  have htrim := trimEdges_append [] h.skipped hnil
  rw [List.append_nil, List.append_nil] at htrim
  rw [trimCode, htrim]
  rfl

/-- The value behind the first colon of a text stands between the same separators. -/
theorem Balanced.value_of_splitKeyValue? {sep : Char} {t key value : Text} (h : Balanced t)
    (hfree : FreeOf sep t) (hsplit : splitKeyValue? t = some (key, value)) :
    Balanced value ∧ FreeOf sep value := by
  obtain ⟨⟨vs, v, ws⟩, hbreak, heq⟩ := Option.map_eq_some_iff.1 hsplit
  obtain ⟨hscan, hcolon, -⟩ := eq_append_of_breakAt? hbreak
  obtain ⟨-, rfl⟩ := Prod.mk.inj heq
  obtain ⟨hchar, htop⟩ : v.char = ':' ∧ v.isTopLevel = true := by simpa using hcolon
  obtain ⟨htext, hkey, hvalue⟩ := h.around_separator (by decide) (by decide) hscan htop hchar
  refine ⟨hvalue, fun w hw => hfree w ?_⟩
  rw [htext, scan_separator (by decide) hkey]
  exact List.mem_append_right _ (List.mem_cons_of_mem _ hw)

/-- The inside of a literal is balanced. -/
theorem balanced_of_enclosed? {opening : Char} {t inner : Text}
    (h : enclosed? opening t = some inner) : Balanced inner := by
  unfold enclosed? at h
  split at h
  · split at h
    · next literal hb =>
      obtain ⟨o, body, c, -, -, hbal, rfl⟩ := exists_balanced_of_bracketed? hb
      obtain rfl : body = inner := by simpa using h
      exact hbal
    · cases h
  · cases h

/-- The parts of a literal may stand between commas. -/
theorem isPiece_of_mem_entriesOf {opening : Char} {t inner entry : Text}
    (h : enclosed? opening t = some inner) (hentry : entry ∈ entriesOf inner) :
    IsPiece ',' entry :=
  (isPiece_of_mem_pieces (by decide) rfl (balanced_of_enclosed? h) entry hentry).1

/-- The parts of a literal are shorter than a text that is the literal. -/
theorem length_lt_of_mem_entriesOf {opening : Char} {t inner entry : Text}
    (h : enclosed? opening (trimCode t) = some inner) (hentry : entry ∈ entriesOf inner) :
    entry.length < t.length := by
  have h₁ := length_enclosed?_lt h
  have h₂ := length_trimCode_le t
  have h₃ := length_le_of_mem_entriesOf hentry
  omega

namespace Literal

/-- Induction on the texts that are read on their own when a text is read. -/
theorem readInduction {P : Text → Prop}
    (step : ∀ t,
      (∀ inner, enclosed? '[' (trimCode t) = some inner → ∀ item ∈ entriesOf inner, P item) →
      (∀ inner, enclosed? '\x7b' (trimCode t) = some inner → ∀ entry ∈ entriesOf inner,
        ∀ key value, splitKeyValue? entry = some (key, value) → P value) →
      P t) (t : Text) : P t := by
  induction hn : t.length using Nat.strongRecOn generalizing t with
  | _ n ih =>
    subst hn
    refine step t (fun inner hinner item hitem => ?_)
      fun inner hinner entry hentry key value hsplit => ?_
    · exact ih _ (length_lt_of_mem_entriesOf hinner hitem) item rfl
    · have hvalue := length_splitKeyValue?_lt hsplit
      exact ih _ (hvalue.trans (length_lt_of_mem_entriesOf hinner hentry)) value rfl

/-! ## Entries without a colon -/

/-- The entries without a colon in the objects of the literal that a text is, at any depth. -/
def bareEntries (t : Text) : List Text :=
  match _ha : enclosed? '[' (trimCode t) with
  | some inner => (entriesOf inner).attach.flatMap fun ⟨item, _⟩ => bareEntries item
  | none =>
    match _ho : enclosed? '\x7b' (trimCode t) with
    | some inner =>
      (entriesOf inner).attach.flatMap fun ⟨entry, _⟩ =>
        match _hs : splitKeyValue? entry with
        | some (_, value) => bareEntries value
        | none => [entry]
    | none => []
termination_by t.length
decreasing_by
  · exact length_lt_of_mem_entriesOf _ha ‹_›
  · exact (length_splitKeyValue?_lt _hs).trans (length_lt_of_mem_entriesOf _ho ‹_›)

/-- The entries without a colon that an entry is or holds. -/
def bareEntriesOf (entry : Text) : List Text :=
  match splitKeyValue? entry with
  | some (_, value) => bareEntries value
  | none => [entry]

/-- The entries without a colon as one equation. -/
theorem bareEntries_eq (t : Text) :
    bareEntries t =
      match enclosed? '[' (trimCode t) with
      | some inner => (entriesOf inner).flatMap bareEntries
      | none =>
        match enclosed? '\x7b' (trimCode t) with
        | some inner => (entriesOf inner).flatMap bareEntriesOf
        | none => [] := by
  rw [bareEntries]
  cases enclosed? '[' (trimCode t) with
  | some inner => exact congrArg List.flatten List.attach_map_val
  | none =>
    cases enclosed? '\x7b' (trimCode t) with
    | none => rfl
    | some inner =>
      have hmap := List.attach_map_val (l := entriesOf inner) (f := bareEntriesOf)
      refine congrArg List.flatten (Eq.trans (List.map_congr_left fun ⟨entry, _⟩ _ => ?_) hmap)
      simp only [bareEntriesOf]
      cases splitKeyValue? entry <;> rfl

/-! ## Expressions -/

/-- A word holds no other values. -/
theorem leaves_of_word? {voc : Vocabulary} {t : Text} {v : Literal} (h : word? voc t = some v) :
    v.leaves = [v] := by
  unfold word? at h
  repeat' split at h
  iterate 5
    · cases h
      rfl
  · next hv =>
    obtain ⟨m, e, rfl⟩ := lazyImport?_eq_some hv
    cases h
    rfl
  · obtain ⟨x, -, rfl⟩ := Option.map_eq_some_iff.1 h
    rfl

/-- An expression is the code of the text it is read from. -/
theorem eq_trimCode_of_read {voc : Vocabulary} {t s : Text} (h : read voc t = .expression s) :
    s = trimCode t := by
  rw [read_eq] at h
  repeat' split at h
  all_goals try cases h
  · next v hv => exact absurd hv (word?_ne_expression voc _ s)
  · rfl

/-- An expression is read from itself. -/
theorem read_expression {voc : Vocabulary} {t s : Text} (h : read voc t = .expression s) :
    read voc s = .expression s := by
  obtain rfl := eq_trimCode_of_read h
  exact (read_congr (trimCode_trimCode t)).trans h

/-- An expression that is read from balanced text without commas outside its brackets is a
source. -/
theorem isSource_of_read {t s : Text} (hbal : Balanced t) (hfree : FreeOf ',' t)
    (h : read {} t = .expression s) : IsSource s := by
  refine ⟨?_, s, read_expression h⟩
  obtain rfl := eq_trimCode_of_read h
  rcases hbal.filler_or_trimmed with hfiller | ⟨htrimmed, hstart, hend, -, hvisits⟩
  · rw [read_eq, hfiller.trimCode_eq_nil] at h
    cases h
  · exact .of_solid hstart hend htrimmed fun v hv => hfree v (hvisits v hv)

theorem mem_leavesOfItems {leaf : Literal} {items : List Literal} :
    leaf ∈ leavesOfItems items ↔ ∃ item ∈ items, leaf ∈ item.leaves := by
  induction items with
  | nil => simp [leavesOfItems]
  | cons item items ih => simp [leavesOfItems, ih]

theorem mem_leavesOfEntries {leaf : Literal} {entries : List (Text × Literal)} :
    leaf ∈ leavesOfEntries entries ↔ ∃ entry ∈ entries, leaf ∈ entry.2.leaves := by
  induction entries with
  | nil => simp [leavesOfEntries]
  | cons entry entries ih =>
    obtain ⟨key, value⟩ := entry
    simp [leavesOfEntries, ih]

/-- The expressions in a value that is read are sources, unless the value is one itself. -/
theorem isSource_of_mem_leaves_read {s : Text} (t : Text)
    (hbare : ∀ entry ∈ bareEntries t, ∃ e, read {} entry = .expression e)
    (hs : .expression s ∈ (read {} t).leaves) : IsSource s ∨ read {} t = .expression s := by
  induction t using readInduction with
  | step t ihitem ihvalue =>
    rw [read_eq] at hs
    split at hs
    · next v hword =>
      rw [leaves_of_word? hword, List.mem_singleton] at hs
      exact absurd (hs ▸ hword) (word?_ne_expression _ _ _)
    split at hs
    · next inner harray =>
      obtain ⟨v, hv, hs⟩ := mem_leavesOfItems.1 hs
      obtain ⟨item, hitem, rfl⟩ := List.mem_map.1 hv
      rw [bareEntries_eq, harray] at hbare
      have hpiece := isPiece_of_mem_entriesOf harray hitem
      refine .inl ((ihitem inner harray item hitem (fun entry hentry => ?_) hs).elim id ?_)
      · exact hbare entry (List.mem_flatMap.2 ⟨item, hitem, hentry⟩)
      · exact isSource_of_read hpiece.balanced hpiece.free
    split at hs
    · next harray _ inner hobject =>
      obtain ⟨v, hv, hs⟩ := mem_leavesOfEntries.1 hs
      obtain ⟨entry, hentry, rfl⟩ := List.mem_map.1 hv
      rw [bareEntries_eq, harray, hobject] at hbare
      have hwithin (e : Text) (he : e ∈ bareEntriesOf entry) : ∃ s, read {} e = .expression s :=
        hbare e (List.mem_flatMap.2 ⟨entry, hentry, he⟩)
      have hpiece := isPiece_of_mem_entriesOf hobject hentry
      left
      cases hsplit : splitKeyValue? entry with
      | none =>
        simp only [bareEntriesOf, hsplit, List.mem_singleton, forall_eq] at hwithin
        obtain rfl : s = entry := by simpa [readEntry, hsplit, leaves] using hs
        exact ⟨hpiece, hwithin⟩
      | some pair =>
        obtain ⟨key, value⟩ := pair
        simp only [bareEntriesOf, hsplit] at hwithin
        rw [readEntry, hsplit] at hs
        obtain ⟨hbal, hfree⟩ := hpiece.balanced.value_of_splitKeyValue? hpiece.free hsplit
        refine (ihvalue inner hobject entry hentry key value hsplit hwithin hs).elim id ?_
        exact isSource_of_read hbal hfree
    split at hs
    · simp [leaves] at hs
    · next hword _ harray _ hobject _ hquote =>
      obtain rfl : s = trimCode t := by simpa [leaves] using hs
      exact .inr (by rw [read_eq, hword, harray, hobject, hquote])

/-- What was read from any text is written as text that is read as an equal value, when the entries
without a colon are expressions. -/
theorem read_print_read {t u : Text} {n : Nat}
    (hbare : ∀ entry ∈ bareEntries t, ∃ e, read {} entry = .expression e)
    (h : (read {} t).print {} n = .ok u) : (read {} u == read {} t) = true := by
  by_cases hwhole : ∃ s, read {} t = .expression s
  · obtain ⟨s, hs⟩ := hwhole
    rw [hs] at h ⊢
    obtain rfl := Except.ok.inj h
    rw [read_expression hs]
    exact beq_self_eq_true s
  · refine (readsAs_of_print (fun s hmem => ?_) h).equal
    exact (isSource_of_mem_leaves_read t hbare hmem).resolve_right fun hs => hwhole ⟨s, hs⟩

/-- An object behind a comment: strings in quotes of either kind, a bracket that closes one of
another kind, a comma behind the last item, and entries without a colon at two depths. -/
def looseText : Text :=
  "/* limits */ \x7b\n  \"max\": 1.50, // per day\n  'ports': [80, 'it\\'s', (a, b],],\n" ++
  "  ...defaults,\n  [key]: \x7b x: undefined, y() \x7d\n)"

/-- The value that `looseText` is read as. -/
def looseValue : Literal :=
  .object [
    ("max".toList, .number 1.5),
    ("ports".toList, .array [.number 80, .string "it's", .expression "(a, b]"]),
    ("...defaults".toList, .expression "...defaults"),
    ("[key]".toList, .object [("x".toList, .undefined), ("y()".toList, .expression "y()")])]

theorem read_print_read_loose :
    (read {} looseText == looseValue) = true ∧
      ∃ u, (read {} looseText).print {} 2 = .ok u ∧ (read {} u == read {} looseText) = true := by
  have hbare : ∀ entry ∈ bareEntries looseText, (read {} entry == .expression entry) = true := by
    decide +kernel
  have hexpr : ∀ entry ∈ bareEntries looseText, ∃ e, read {} entry = .expression e := by
    intro entry hentry
    have hequal := hbare entry hentry
    cases hread : read {} entry with
    | expression e => exact ⟨e, rfl⟩
    | _ =>
      rw [hread] at hequal
      cases hequal
  have hprint : ((read {} looseText).print {} 2).isOk = true := by decide +kernel
  refine ⟨by decide +kernel, ?_⟩
  cases hu : (read {} looseText).print {} 2 with
  | ok u => exact ⟨u, rfl, read_print_read hexpr hu⟩
  | error fault =>
    rw [hu] at hprint
    cases hprint

end Literal

end Scaffold.Script
