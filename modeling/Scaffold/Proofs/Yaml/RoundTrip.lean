import Scaffold.Proofs.Yaml.Nodes

/-!
# Reading what was written

A document of entries with empty lines between them is read as the mapping that was written
(`read?_writeSections`).
-/

namespace Scaffold.Yaml

/-! ## Characters -/

/-- A text of printable characters and line feeds. -/
def IsClean (t : Text) : Prop := ∀ c ∈ t, isPrintable c = true ∨ c = '\n'

instance (t : Text) : Decidable (IsClean t) :=
  inferInstanceAs (Decidable (∀ c ∈ t, isPrintable c = true ∨ c = '\n'))

namespace IsClean

variable {t u : Text}

theorem append (ht : IsClean t) (hu : IsClean u) : IsClean (t ++ u) :=
  List.forall_mem_append.2 ⟨ht, hu⟩

theorem cons {c : Char} (hc : isPrintable c = true ∨ c = '\n') (ht : IsClean t) :
    IsClean (c :: t) :=
  List.forall_mem_cons.2 ⟨hc, ht⟩

theorem spaces (n : Nat) : IsClean (Text.spaces n) := fun c hc => by
  rw [List.eq_of_mem_replicate hc]
  exact .inl rfl

end IsClean

theorem Spells.isClean {w t : Text} {plain : Bool} (h : Spells w plain t) : IsClean w := by
  cases h with
  | word h => exact fun c hc => .inl (h.isPrintable hc)
  | quoted h =>
    have hbody : IsClean _ := fun c hc => .inl (h.isPrintable_of_mem_flatMap hc)
    exact .cons (.inl rfl) (.append hbody (by decide))

namespace Value

mutual

/-- A value on one line is written with printable characters. -/
theorem isClean_inline (v : Value) (hv : v.isBasic = true) : IsClean v.inline := by
  match v with
  | .sequence items =>
    exact .cons (.inl rfl) (.append (isClean_inlineItems items hv) (by decide))
  | .mapping entries =>
    simp only [isBasic, Bool.and_eq_true] at hv
    exact .cons (.inl rfl) (.append (isClean_inlineEntries entries hv.2) (by decide))
  | .null | .boolean _ | .whole _ | .text _ =>
    obtain ⟨plain, t, hspells, -⟩ := (spells_inline hv).resolve_right (by simp)
    exact hspells.isClean

theorem isClean_inlineItems (items : List Value) (h : areBasic items = true) :
    IsClean (inlineItems items) := by
  match items with
  | [] => nofun
  | [item] =>
    rw [areBasic, Bool.and_eq_true] at h
    exact isClean_inline item h.1
  | item :: next :: items =>
    rw [areBasic, Bool.and_eq_true] at h
    exact ((isClean_inline item h.1).append (by decide)).append
      (isClean_inlineItems (next :: items) h.2)

theorem isClean_inlineEntries (entries : List (Value × Value)) (h : haveBasic entries = true) :
    IsClean (inlineEntries entries) := by
  match entries with
  | [] => nofun
  | [(key, value)] =>
    rw [haveBasic, Bool.and_eq_true, Bool.and_eq_true] at h
    have hcolon : IsClean (": " : Text) := by decide
    exact ((isClean_inline key (isBasic_of_isKey h.1.1)).append hcolon).append
      (isClean_inline value h.1.2)
  | (key, value) :: next :: entries =>
    rw [haveBasic, Bool.and_eq_true, Bool.and_eq_true] at h
    have hcolon : IsClean (": " : Text) := by decide
    have hcomma : IsClean (", " : Text) := by decide
    exact ((((isClean_inline key (isBasic_of_isKey h.1.1)).append hcolon).append
      (isClean_inline value h.1.2)).append hcomma).append (isClean_inlineEntries _ h.2)

end

mutual

/-- A value below its key is written with printable characters and line feeds. -/
theorem isClean_nested (v : Value) (hv : v.isBasic = true) (i : Nat) : IsClean (v.nested i) := by
  match v with
  | .null => exact (by decide : IsClean ['\n'])
  | .sequence (item :: items) => exact .cons (.inr rfl) (isClean_nestedItems _ hv _)
  | .mapping (entry :: entries) =>
    simp only [isBasic, Bool.and_eq_true] at hv
    exact .cons (.inr rfl) (isClean_nestedEntries _ hv.2 _)
  | .sequence [] | .mapping [] | .boolean _ | .whole _ | .text _ =>
    exact .cons (.inl rfl) (.append (isClean_inline _ hv) (by decide))

theorem isClean_nestedItems (items : List Value) (h : areBasic items = true) (i : Nat) :
    IsClean (nestedItems i items) := by
  match items with
  | [] => nofun
  | item :: items =>
    rw [areBasic, Bool.and_eq_true] at h
    exact (((IsClean.spaces i).append (by decide)).append (isClean_nestedItem item h.1 i)).append
      (isClean_nestedItems items h.2 i)

theorem isClean_nestedItem (item : Value) (h : item.isBasic = true) (i : Nat) :
    IsClean (item.nestedItem i) := by
  match item with
  | .mapping ((key, value) :: entries) =>
    simp only [isBasic, haveBasic, Bool.and_eq_true] at h
    obtain ⟨-, ⟨hkey, hvalue⟩, hentries⟩ := h
    exact (IsClean.append (isClean_inline key (isBasic_of_isKey hkey))
      (.cons (.inl rfl) (isClean_nested value hvalue _))).append
        (isClean_nestedEntries entries hentries _)
  | .mapping [] | .null | .sequence _ | .boolean _ | .whole _ | .text _ =>
    exact .append (isClean_inline _ h) (by decide)

theorem isClean_nestedEntries (entries : List (Value × Value)) (h : haveBasic entries = true)
    (i : Nat) : IsClean (nestedEntries i entries) := by
  match entries with
  | [] => nofun
  | (key, value) :: entries =>
    simp only [haveBasic, Bool.and_eq_true] at h
    obtain ⟨⟨hkey, hvalue⟩, hentries⟩ := h
    exact (((IsClean.spaces i).append (isClean_inline key (isBasic_of_isKey hkey))).append
      (.cons (.inl rfl) (isClean_nested value hvalue i))).append
        (isClean_nestedEntries entries hentries i)

end

end Value

/-! ## Documents -/

/-- Entries on lines of their own, with empty lines between them. -/
def writeSections (sections : List (Value × Value)) : Text :=
  ['\n'].intercalate (sections.map fun entry => Value.nestedEntries 0 [entry])

theorem writeSections_cons_cons (entry next : Value × Value) (sections : List (Value × Value)) :
    writeSections (entry :: next :: sections) =
      Value.nestedEntries 0 [entry] ++ '\n' :: writeSections (next :: sections) := by
  simp [writeSections, List.intercalate_cons_cons]

/-- A key starts with no document marker, because a colon follows it. -/
theorem isMarker_append {t : Text} (h : isMarker {} t = false) (line : Nat) (u : Text) :
    isMarker ⟨line, 0⟩ (t ++ ':' :: u) = false := by
  rcases t with _ | ⟨a, _ | ⟨b, _ | ⟨c, t⟩⟩⟩
  · rfl
  · simp [isMarker]
  · simp [isMarker]
  have hends : endsWord t = false → endsWord (t ++ ':' :: u) = false := by
    cases t with
    | nil => exact fun _ => rfl
    | cons d t => exact id
  simp only [isMarker, beq_self_eq_true, Bool.true_and] at h ⊢
  simp only [List.cons_append]
  split
  · rename_i heq
    cases heq
    exact hends h
  · rename_i heq
    cases heq
    exact hends h
  · rfl

theorem isMarker_key {key : Value} (h : key.isKey = true) (line : Nat) (u : Text) :
    isMarker ⟨line, 0⟩ (key.inline ++ ':' :: u) = false := by
  obtain ⟨plain, t, rfl, hspells, htokens, -⟩ := Value.spells_key h
  obtain rfl : isPlainText t = plain := by simpa [Value.inlineTokens] using htokens
  have hwritable : IsWritable t := List.all_eq_true.1 (Value.isBasic_of_isKey h)
  rw [Value.inline]
  cases hplain : isPlainText t with
  | true =>
    have hmark := (Value.ofPlain?_of_isPlainText hwritable hplain).2
    rw [writeText, if_pos hplain]
    exact isMarker_append hmark line u
  | false =>
    rw [writeText, if_neg (by simp [hplain])]
    simp [isMarker, quote]

theorem startsBy_writeSections {sections : List (Value × Value)}
    (h : Value.haveBasic sections = true) (hne : sections ≠ []) {rest : Text} :
    StartsBy 0 (writeSections sections ++ rest) := by
  match sections with
  | [] => exact absurd rfl hne
  | (key, value) :: sections =>
    simp only [Value.haveBasic, Bool.and_eq_true] at h
    obtain ⟨_, _, -, hspells, -⟩ := Value.spells_key h.1.1
    have hstarts : Starts (writeSections ((key, value) :: sections)) := by
      cases sections with
      | nil => simpa [writeSections, Value.nestedEntries, Text.spaces] using hspells.starts.append _
      | cons next sections =>
        rw [writeSections_cons_cons]
        simpa [Value.nestedEntries, Text.spaces] using hspells.starts.append _
    exact .spaces (hstarts.append rest) 0

namespace Scanner

/-- Entries with empty lines between them are scanned as the entries. -/
theorem reads_sections (sections : List (Value × Value)) (h : Value.haveBasic sections = true)
    {columns columns' : List Nat} {ts : List Token}
    (henters : Enters .blockMapping 0 columns columns' ts) (hne : sections ≠ []) :
    ReadsLines true 0 columns (writeSections sections) (ts ++ Value.nestedEntryTokens sections)
      columns' 0 := by
  have hfirst {entry : Value × Value} {sections : List (Value × Value)}
      (h : Value.haveBasic (entry :: sections) = true) {columns columns' : List Nat}
      {ts : List Token} (henters : Enters .blockMapping 0 columns columns' ts) :
      ReadsLines true 0 columns (Value.nestedEntries 0 [entry])
        (ts ++ Value.nestedEntryTokens [entry]) columns' 0 := by
    rw [Value.haveBasic, Bool.and_eq_true] at h
    refine reads_nestedEntries [entry] (by rw [Value.haveBasic, h.1]; rfl) henters
      (absurd · (List.cons_ne_nil entry [])) ?_
    rw [Bool.and_eq_true] at h
    exact List.forall_mem_singleton.2 (isMarker_key h.1.1)
  induction sections generalizing columns ts with
  | nil => exact absurd rfl hne
  | cons entry sections ih =>
    cases sections with
    | nil => simpa [writeSections] using hfirst h henters
    | cons next sections =>
      have hrest : Value.haveBasic (next :: sections) = true := by
        rw [Value.haveBasic, Bool.and_eq_true] at h
        exact h.2
      obtain ⟨columns', rfl⟩ := henters.exists_columns
      have hcons := List.cons_ne_nil next sections
      have hlast := (ih hrest (.inside columns') hcons).emptyLine fun rest _ =>
        startsBy_writeSections hrest hcons
      have hall := (hfirst h henters).append hlast fun rest _ =>
        (startsBy_writeSections hrest hcons).newline
      rw [writeSections_cons_cons]
      simpa [Value.nestedEntryTokens] using hall

end Scanner

theorem isClean_writeSections (sections : List (Value × Value))
    (h : Value.haveBasic sections = true) : IsClean (writeSections sections) := by
  induction sections with
  | nil => nofun
  | cons entry sections ih =>
    rw [Value.haveBasic, Bool.and_eq_true] at h
    have hentry : IsClean (Value.nestedEntries 0 [entry]) :=
      Value.isClean_nestedEntries _ (by rw [Value.haveBasic, h.1]; rfl) 0
    cases sections with
    | nil => simpa [writeSections] using hentry
    | cons next sections =>
      rw [writeSections_cons_cons]
      exact hentry.append (.cons (.inr rfl) (ih h.2))

/-- At the end of a text the last block collection is ended. -/
theorem Scanner.tokens?_block_end (fuel line : Nat) (tokens : List Token) :
    tokens? (fuel + 1) (block true ⟨line, 0⟩ [] [0] tokens) =
      some (tokens.reverse ++ [.blockEnd]) := by
  have hnext : (block true ⟨line, 0⟩ [] [0] tokens).next? =
      some (block true ⟨line, 0⟩ [] [0] tokens) := by
    rw [next?_block (.nil _), closeTo_eq_self (by simp [block])]
  have hend : (block true ⟨line, 0⟩ [] [0] tokens).end? =
      some (block true ⟨line, 0⟩ [] [] (.blockEnd :: tokens)) := by
    rw [end?, closeTo_cons (Nat.le_refl 0), closeTo_eq_self (by simp [block]),
      dropCandidate?_eq (by simp [block])]
    rfl
  have hrest : (block true ⟨line, 0⟩ [] [0] tokens).cursor.rest = [] := rfl
  rw [tokens?_succ, hnext, Option.bind_some]
  simp only [hrest, hend, Option.map_some]
  simp [block]

/-- The tokens of a document of entries. -/
theorem Token.ofText?_writeSections {sections : List (Value × Value)}
    (h : Value.haveBasic sections = true) (hne : sections ≠ []) :
    ofText? (writeSections sections) =
      some (.blockMapping :: Value.nestedEntryTokens sections ++ [.blockEnd]) := by
  have henters : Scanner.Enters .blockMapping 0 [] [0] [.blockMapping] := .opens nofun
  obtain ⟨line, n, hn, htokens⟩ := Scanner.reads_sections sections h henters hne 0 [] (.nil 0)
  rw [List.append_nil, List.append_nil] at hn htokens
  have hfuel := htokens ((writeSections sections).length - n)
  rw [Nat.add_sub_cancel' (by simpa [Scanner.block] using hn)] at hfuel
  rw [ofText?_eq (isClean_writeSections sections h), hfuel, Scanner.tokens?_block_end]
  simp

/-- A document is read as the mapping that was written. -/
theorem read?_writeSections {sections : List (Value × Value)}
    (h : (Value.mapping sections).isBasic = true) (hne : sections ≠ [])
    (hdepth : (Value.mapping sections).depth ≤ maxDepth) :
    read? (writeSections sections) = some (.mapping sections) := by
  have hentries : Value.haveBasic sections = true := by
    simp only [Value.isBasic, Bool.and_eq_true] at h
    exact h.2
  obtain ⟨node, hdenote, hnode⟩ := ofTokens?_entries hentries
  obtain ⟨node', hnumber, hdenote'⟩ := number?_of_denotes hdenote []
  rw [read?, Token.ofText?_writeSections hentries hne]
  simp only [Option.bind_eq_bind, Option.bind_some, hnode, hnumber,
    Value.ofNode_of_denotes hdenote' h hdepth]
  rfl

end Scaffold.Yaml
