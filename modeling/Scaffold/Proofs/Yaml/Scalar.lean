import Scaffold.Proofs.Script.Pieces
import Scaffold.Proofs.Yaml.Folding
import Scaffold.Proofs.Yaml.Scan

/-!
# Scanning scalars

The two spellings of scalars that are ever written: a `IsWord`, which stands as it is, and any text
of printable ASCII characters, tabs and line breaks between double quotes.  Both are scanned as one
token with the text as its content, whatever follows that ends them (`token?_spelled`).
-/

namespace Scaffold.Yaml

/-! ## Characters -/

/-- The printable characters of ASCII, tab, line feed and carriage return. -/
def isWritable (c : Char) : Bool := isPrintable c || c == '\t' || c == '\n' || c == '\r'

theorem isGap_of_isPrintable {c : Char} (h : isPrintable c = true) : isGap c = (c == ' ') := by
  have hne : c ≠ '\t' := by
    rintro rfl
    cases h
  simp [isGap, hne]

/-- A printable character that plain scalars may hold anywhere. -/
def isSafe (c : Char) : Bool := isPrintable c && c != ':' && c != '#' && !isFlowIndicator c

/-- A text that a plain scalar may be: its first character starts one. -/
structure IsWord (t : Text) : Prop where
  safe : ∀ c ∈ t, isSafe c = true
  start : ∃ c u, t = c :: u ∧ c ≠ ' ' ∧ Scanner.isIndicator c = false ∧
    (c = '-' → ∃ d v, u = d :: v ∧ d ≠ ' ')
  last : ∀ c ∈ t.getLast?, c ≠ ' '

/-- A text of printable ASCII characters, tabs, line feeds and carriage returns. -/
def IsWritable (t : Text) : Prop := ∀ c ∈ t, isWritable c = true

instance (t : Text) : Decidable (IsWritable t) :=
  inferInstanceAs (Decidable (∀ c ∈ t, isWritable c = true))

theorem IsWritable.append {t u : Text} (ht : IsWritable t) (hu : IsWritable u) :
    IsWritable (t ++ u) := List.forall_mem_append.2 ⟨ht, hu⟩

theorem IsWritable.cons {c : Char} {t : Text} (hc : isWritable c = true) (ht : IsWritable t) :
    IsWritable (c :: t) := List.forall_mem_cons.2 ⟨hc, ht⟩

theorem isWord_cons {c : Char} {t : Text} (hsafe : ∀ d ∈ c :: t, isSafe d = true ∧ d ≠ ' ')
    (hindicator : Scanner.isIndicator c = false) (hdash : c = '-' → t ≠ []) : IsWord (c :: t) where
  safe d hd := (hsafe d hd).1
  start := by
    refine ⟨c, t, rfl, (hsafe c List.mem_cons_self).2, hindicator, fun hc => ?_⟩
    obtain ⟨d, v, rfl⟩ := List.exists_cons_of_ne_nil (hdash hc)
    exact ⟨d, v, rfl, (hsafe d (by simp)).2⟩
  last d hd := (hsafe d (List.mem_of_getLast? hd)).2

theorem isPrintable_of_isWritable {c : Char} (h : isWritable c = true)
    (hcontrol : isControl c = false) : isPrintable c = true := by
  simp only [isWritable, Bool.or_eq_true, beq_iff_eq] at h
  rcases h with ((h | rfl) | rfl) | rfl
  · exact h
  all_goals exact absurd hcontrol (by decide)

/-- A text that is written without quotes is a word. -/
theorem isWord_of_isPlainText {t : Text} (ht : IsWritable t) (h : isPlainText t = true) :
    IsWord t := by
  cases t with
  | nil => cases h
  | cons c t =>
    simp only [isPlainText, Bool.and_eq_true, beq_iff_eq, Bool.not_eq_true',
      List.any_eq_false] at h
    obtain ⟨⟨⟨⟨⟨htrim, hlead⟩, hquotes⟩, -⟩, -⟩, -⟩ := h
    obtain ⟨hfirst, hlast⟩ := not_of_trimEdges (congrArg List.length htrim)
    have hne {d : Char} (hd : isBlank d = false) : d ≠ ' ' := by
      rintro rfl
      cases hd
    refine ⟨fun d hd => ?_, ⟨c, t, rfl, hne (hfirst c rfl), ?_, ?_⟩, fun d hd => hne (hlast d hd)⟩
    · obtain ⟨hspecial, hcontrol⟩ : _ ∧ isControl d = false := by
        simpa [needsQuotes] using hquotes d hd
      simp [isSafe, isPrintable_of_isWritable (ht d hd) hcontrol, isFlowIndicator, hspecial]
    · simp only [isLeadIndicator, Scanner.isIndicator, String.contains_char_eq,
        decide_eq_false_iff_not] at hlead ⊢
      refine fun hmem => hlead ?_
      revert hmem
      simp +contextual
    · rintro rfl
      simp [isLeadIndicator] at hlead

/-- A spelling of a scalar, whether it is a plain one, and the text that it spells. -/
inductive Spells : Text → Bool → Text → Prop
  | word {t : Text} (h : IsWord t) : Spells t true t
  | quoted {t : Text} (h : IsWritable t) : Spells (quote t) false t

theorem Spells.of_plain {w t : Text} (h : Spells w true t) : IsWord w ∧ t = w := by
  cases h with
  | word h => exact ⟨h, rfl⟩

/-- No document marker stands behind the first column. -/
theorem isMarker_of_column {p : Position} (h : p.column ≠ 0) (t : Text) : isMarker p t = false := by
  simp [isMarker, h]

theorem Position.after_of_isPrintable {c : Char} (h : isPrintable c = true) (p : Position) :
    p.after c = p.right 1 := by
  simp [Position.after, isBreak_of_isPrintable h, Position.right]

/-! ## Plain scalars -/

theorem PlainScalar.behind_behind (s : PlainScalar) (t u : Text) :
    (s.behind u).behind t = s.behind (t ++ u) := by
  simp [PlainScalar.behind]

section

variable {flow : Bool} {floor : Nat}

/-- A character of a word goes on a plain scalar. -/
theorem readPlain?_cons {c : Char} (hc : isSafe c = true) (hspace : c ≠ ' ') {gap : Gap}
    {p : Position} {t : Text} (hmark : isMarker p (c :: t) = false)
    (hfloor : gap = {} ∨ flow = true ∨ floor ≤ p.column) :
    readPlain? flow floor gap p (c :: t) =
      (readPlain? flow floor {} (p.right 1) t).map (·.behind (gap.text ++ [c])) := by
  simp only [isSafe, Bool.and_eq_true, bne_iff_ne, ne_eq, Bool.not_eq_true'] at hc
  obtain ⟨⟨⟨hprint, hcolon⟩, hhash⟩, hindicator⟩ := hc
  have hgap : isGap c = false := by simp [isGap_of_isPrintable hprint, hspace]
  have hbehind : (gap != {} && (c == '#' || (!flow && p.column < floor))) = false := by
    rcases hfloor with rfl | rfl | hfloor
    · simp
    · simp [hhash]
    · simp [hhash, Nat.not_lt.2 hfloor]
  rw [readPlain?, if_neg (by simp [hgap, isBreak_of_isPrintable hprint]),
    if_neg (by simp [hmark, hbehind]), if_neg (by simp [isStrayColon, hcolon]),
    if_neg (by simp [endsPlain, hcolon, hindicator]), Position.after_of_isPrintable hprint]

/-- The rest of a word goes on a plain scalar. -/
theorem readPlain?_safe {t : Text} (hsafe : ∀ c ∈ t, isSafe c = true)
    (hlast : ∀ c ∈ t.getLast?, c ≠ ' ') {p : Position} (hp : p.column ≠ 0)
    (hfloor : flow = true ∨ floor ≤ p.column) (gap : Gap) (hgap : gap.first = none)
    (hne : gap = {} ∨ t ≠ []) (u : Text) :
    readPlain? flow floor gap p (t ++ u) =
      (readPlain? flow floor {} (p.right t.length) u).map (·.behind (gap.blanks ++ t)) := by
  induction t generalizing p gap with
  | nil =>
    obtain rfl : gap = {} := hne.resolve_right (by simp)
    show readPlain? flow floor {} p u = (readPlain? flow floor {} p u).map _
    cases readPlain? flow floor {} p u <;> rfl
  | cons c t ih =>
    obtain ⟨hc, hrest⟩ := List.forall_mem_cons.1 hsafe
    have hlast' : ∀ d ∈ t.getLast?, d ≠ ' ' := by
      intro d hd
      refine hlast d ?_
      cases t with
      | nil => cases hd
      | cons e t => rwa [List.getLast?_cons_cons]
    have hp' : (p.right 1).column ≠ 0 := Nat.succ_ne_zero _
    have hfloor' : flow = true ∨ floor ≤ (p.right 1).column :=
      hfloor.imp_right fun h => Nat.le_succ_of_le h
    have hlength : p.right (1 + t.length) = p.right (c :: t).length := by
      rw [List.length_cons, Nat.add_comm]
    by_cases hspace : c = ' '
    · subst hspace
      have ht : t ≠ [] := by
        rintro rfl
        exact hlast ' ' rfl rfl
      have hpush : gap.push ' ' = { gap with blanks := gap.blanks ++ [' '] } := by
        rw [Gap.push, hgap]
        rfl
      have hcross : gap.crosses = false := by simp [Gap.crosses, hgap]
      rw [List.cons_append, readPlain?, if_pos (by rfl), if_neg (by simp [hcross]), hpush,
        Position.after_of_isPrintable rfl,
        ih hrest hlast' hp' hfloor' { gap with blanks := gap.blanks ++ [' '] } hgap (.inr ht),
        Position.right_right, hlength]
      simp
    · have htext : gap.text = gap.blanks := by rw [Gap.text, hgap]
      rw [List.cons_append, readPlain?_cons hc hspace (isMarker_of_column hp _) (.inr hfloor),
        ih hrest hlast' hp' hfloor' {} rfl (.inl rfl), Position.right_right, hlength, htext,
        Option.map_map]
      congr 1
      funext scalar
      simp [PlainScalar.behind_behind]

/-- A word is read as it stands, up to where a plain scalar ends. -/
theorem readPlain?_word {t : Text} (h : IsWord t) {p : Position} {u : Text}
    (hmark : isMarker p (t ++ u) = false) (hfloor : flow = true ∨ floor ≤ p.column + 1) :
    readPlain? flow floor {} p (t ++ u) =
      (readPlain? flow floor {} (p.right t.length) u).map (·.behind t) := by
  obtain ⟨c, v, rfl, hspace, -, -⟩ := h.start
  obtain ⟨hc, hrest⟩ := List.forall_mem_cons.1 h.safe
  have hlast : ∀ d ∈ v.getLast?, d ≠ ' ' := by
    intro d hd
    refine h.last d ?_
    cases v with
    | nil => cases hd
    | cons e v => rwa [List.getLast?_cons_cons]
  rw [List.cons_append] at hmark ⊢
  rw [readPlain?_cons hc hspace hmark (.inl rfl),
    readPlain?_safe hrest hlast (Nat.succ_ne_zero _) hfloor {} rfl (.inl rfl),
    Position.right_right, Option.map_map, List.length_cons, Nat.add_comm 1]
  rfl

/-- What ends a plain scalar where it stands. -/
inductive Stops (flow : Bool) : Text → Prop
  | nil : Stops flow []
  | colon {t : Text} (h : endsWord t = true) : Stops flow (':' :: t)
  | indicator {c : Char} (hflow : flow = true) (hc : isFlowIndicator c = true) (t : Text) :
    Stops flow (c :: t)

theorem readPlain?_stops {u : Text} (h : Stops flow u) (p : Position) :
    readPlain? flow floor {} p u = some ⟨[], false, ⟨p, u⟩⟩ := by
  cases h with
  | nil => rfl
  | @colon t ht =>
    have hstray : isStrayColon flow ':' t = false := by
      cases t with
      | nil => simp [isStrayColon]
      | cons d t =>
        have hd : isFlowIndicator d = false ∧ d ≠ '?' := by
          constructor
          · refine Bool.eq_false_iff.2 fun hd => ?_
            simp only [isFlowIndicator, Bool.or_eq_true, beq_iff_eq] at hd
            rcases hd with (((rfl | rfl) | rfl) | rfl) | rfl <;> cases ht
          · rintro rfl
            cases ht
        simp [isStrayColon, hd]
    have hmark : isMarker p (':' :: t) = false := by simp [isMarker]
    rw [readPlain?, if_neg (by decide), if_neg (by simp [hmark]), if_neg (by simp [hstray]),
      if_pos (by simp [endsPlain, ht])]
    rfl
  | @indicator c hflow hc t =>
    have hmark : isMarker p (c :: t) = false := by
      simp only [isFlowIndicator, Bool.or_eq_true, beq_iff_eq] at hc
      rcases hc with (((rfl | rfl) | rfl) | rfl) | rfl <;> simp [isMarker]
    have hother : (isGap c || isBreak c) = false ∧ c ≠ ':' := by
      simp only [isFlowIndicator, Bool.or_eq_true, beq_iff_eq] at hc
      rcases hc with (((rfl | rfl) | rfl) | rfl) | rfl <;> decide
    rw [readPlain?, if_neg (by simp [hother.1]), if_neg (by simp [hmark]),
      if_neg (by simp [isStrayColon, hother.2]), if_pos (by simp [endsPlain, hflow, hc])]
    rfl

/-- Behind a line break a plain scalar of a block ends in front of a token that is not indented
behind the collection around it. -/
theorem readPlain?_leads {p q : Position} {t u : Text} (h : Leads p t q u)
    (hcolumn : q.column < floor) {gap : Gap} (hgap : gap.crosses = true) :
    readPlain? false floor gap p t = some ⟨[], true, ⟨q, u⟩⟩ := by
  induction h generalizing gap with
  | nil p => rw [readPlain?, hgap]
  | @solid p c hc t =>
    have hother : (isGap c || isBreak c) = false := by
      simp only [isSolid, Bool.and_eq_true, Bool.not_eq_true'] at hc
      simp [hc.1.1.1, hc.1.1.2]
    have hne : gap ≠ {} := by
      rintro rfl
      cases hgap
    rw [readPlain?, if_neg (by simp [hother]), if_pos (by simp [hne, hcolumn]), hgap]
  | @space p q t u _ ih =>
    have hpush : (gap.push ' ').crosses = true := by
      rw [Gap.push]
      cases hfirst : gap.first with
      | none => simp [Gap.crosses, hfirst] at hgap
      | some first => simp [Gap.crosses, hfirst, isBreak]
    rw [readPlain?, if_pos (by rfl), if_neg (by simp)]
    exact ih hcolumn hpush
  | @newline p q t u _ ih =>
    have hpush : (gap.push '\n').crosses = true := by
      rw [Gap.push]
      cases gap.first <;> simp [Gap.crosses, isBreak]
    rw [readPlain?, if_pos (by rfl), if_neg (by simp)]
    exact ih hcolumn hpush

/-- A plain scalar of a block goes on to the first token behind its line. -/
theorem readPlain?_newline {p q : Position} {t u : Text} (h : Leads ⟨p.line + 1, 0⟩ t q u)
    (hcolumn : q.column < floor) :
    readPlain? false floor {} p ('\n' :: t) = some ⟨[], true, ⟨q, u⟩⟩ := by
  rw [readPlain?, if_pos (by rfl), if_neg (by simp)]
  exact readPlain?_leads h hcolumn rfl

end

/-! ## Double quotes -/

theorem Position.foldl_after_of_isPrintable {t : Text} (h : ∀ c ∈ t, isPrintable c = true)
    (p : Position) : t.foldl Position.after p = p.right t.length := by
  induction t generalizing p with
  | nil => rfl
  | cons c t ih =>
    obtain ⟨hc, hrest⟩ := List.forall_mem_cons.1 h
    rw [List.foldl_cons, ih hrest, Position.after_of_isPrintable hc, Position.right_right,
      List.length_cons, Nat.add_comm]

/-- The characters that are written between double quotes are printable. -/
theorem isPrintable_of_mem_escapeChar {c d : Char} (hc : isWritable c = true)
    (hd : d ∈ escapeChar c) : isPrintable d = true := by
  rcases escapeChar_cases c with ⟨e, he, -, hprint, -⟩ | ⟨he, -, hbreaks⟩
  · rw [he, List.mem_cons, List.mem_singleton] at hd
    rcases hd with rfl | rfl
    · rfl
    · exact hprint
  · rw [he, List.mem_singleton] at hd
    subst hd
    simpa [isWritable, hbreaks] using hc

theorem isRawBreak_of_isWritable {c : Char} (h : isWritable c = true) : isRawBreak c = false := by
  have hne (d : Char) (hd : isWritable d = false) : c ≠ d := by
    rintro rfl
    rw [h] at hd
    cases hd
  simp [isRawBreak, hne '\x85' rfl, hne '\u2028' rfl, hne '\u2029' rfl]

namespace IsWritable

variable {t : Text} (h : IsWritable t)
include h

/-- No line break is left for the reader to unify. -/
theorem flatMap_quotedChar : t.flatMap quotedChar = t.flatMap escapeChar := by
  refine List.flatMap_congr fun c hc => ?_
  refine (List.map_congr_left fun d hd => if_neg fun heq => ?_).trans (List.map_id _)
  have hprint := isPrintable_of_mem_escapeChar (h c hc) hd
  rw [eq_of_beq heq] at hprint
  cases hprint

theorem isPrintable_of_mem_flatMap {d : Char} (hd : d ∈ t.flatMap escapeChar) :
    isPrintable d = true := by
  obtain ⟨c, hc, hd⟩ := List.mem_flatMap.1 hd
  exact isPrintable_of_mem_escapeChar (h c hc) hd

/-- No line break is left for a document marker to follow. -/
theorem meetsMarker_eq_false : meetsMarker false t = false := by
  induction t with
  | nil => rfl
  | cons c t ih =>
    obtain ⟨hc, hrest⟩ := List.forall_mem_cons.1 h
    rw [meetsMarker, isRawBreak_of_isWritable hc, ih hrest]
    rfl

theorem folded_eq_self : folded {} t = t := by
  refine folded_eq_self_iff.2 ⟨fun hnext => ?_, ?_⟩
  · exact absurd (h _ hnext) (by decide)
  · refine (List.pairwise_of_forall_mem_list fun c hc d hd => ?_).isChain
    simp [Apart, isRawBreak_of_isWritable (h c hc), isRawBreak_of_isWritable (h d hd)]

end IsWritable

/-! ## Tokens -/

theorem isSolid_of_isPrintable {c : Char} (h : isPrintable c = true) (hspace : c ≠ ' ')
    (hhash : c ≠ '#') : isSolid c = true := by
  have hmark : c ≠ '\ufeff' := by
    rintro rfl
    cases h
  simp [isSolid, isGap_of_isPrintable h, isBreak_of_isPrintable h, hspace, hhash, hmark]

/-- A spelling starts with a character that a token may start with. -/
theorem Spells.starts {w : Text} {plain : Bool} {t : Text} (h : Spells w plain t) : Starts w := by
  cases h with
  | quoted h => exact ⟨'"', _, rfl, rfl⟩
  | word h =>
    obtain ⟨c, v, rfl, hspace, -, -⟩ := h.start
    have hc := (List.forall_mem_cons.1 h.safe).1
    simp only [isSafe, Bool.and_eq_true, bne_iff_ne, ne_eq] at hc
    exact ⟨c, v, rfl, isSolid_of_isPrintable hc.1.1.1 hspace hc.1.2⟩

namespace Scanner

/-- What starts a word is dispatched to the reader of plain scalars. -/
theorem token?_word {s : Scanner} {c : Char} {t u : Text} (h : IsWord (c :: t))
    (hmark : isMarker s.cursor.position (c :: (t ++ u)) = false) :
    s.token? c (t ++ u) = s.plain? := by
  obtain ⟨c', t', hct, hspace, hindicator, hdash⟩ := h.start
  obtain ⟨rfl, rfl⟩ := List.cons_eq_cons.1 hct
  have hpercent : c ≠ '%' := by
    rintro rfl
    simp [isIndicator] at hindicator
  have hgap : isGap c = false := by
    have hc := (List.forall_mem_cons.1 h.safe).1
    simp only [isSafe, Bool.and_eq_true] at hc
    simp [isGap_of_isPrintable hc.1.1.1, hspace]
  have hdash' : c = '-' → endsWord (t ++ u) = false := by
    rintro rfl
    obtain ⟨d, v, rfl, hd⟩ := hdash rfl
    have hsafe := h.safe d (by simp)
    simp only [isSafe, Bool.and_eq_true] at hsafe
    simp [endsWord, isGap_of_isPrintable hsafe.1.1.1, isBreak_of_isPrintable hsafe.1.1.1, hd]
  fun_cases Scanner.token?
  case case1 hdirective => simp [hpercent] at hdirective
  case case2 _ hmarker => exact absurd (hmark.symm.trans hmarker) Bool.false_ne_true
  case case13 hends _ _ => exact absurd hends (by simp [hdash' rfl])
  case case23 hother _ _ => simp [hgap, hindicator] at hother
  all_goals first
    | rfl
    | simp [isIndicator] at hindicator

/-- The candidate that the next token is. -/
def nextCandidate (s : Scanner) : Candidate :=
  ⟨!s.inFlow && s.floor == s.cursor.position.column + 1, s.tokens.length, s.cursor.position⟩

/-- The scanner in front of a token that may start a key, when nothing had to become one. -/
def saved (s : Scanner) : Scanner :=
  if s.keyAllowed then { s with candidate := some s.nextCandidate } else s

section

variable (s : Scanner)

@[simp] theorem saved_cursor : s.saved.cursor = s.cursor := by rw [saved]; split <;> rfl

@[simp] theorem saved_columns : s.saved.columns = s.columns := by rw [saved]; split <;> rfl

@[simp] theorem saved_outer : s.saved.outer = s.outer := by rw [saved]; split <;> rfl

@[simp] theorem saved_tokens : s.saved.tokens = s.tokens := by rw [saved]; split <;> rfl

@[simp] theorem saved_inFlow : s.saved.inFlow = s.inFlow := by simp [inFlow]

@[simp] theorem saved_floor : s.saved.floor = s.floor := by simp [floor]

end

theorem dropCandidate?_eq {s : Scanner} (h : ∀ k ∈ s.candidate, k.required = false) :
    s.dropCandidate? = some { s with candidate := none } := by
  rw [dropCandidate?, if_neg]
  cases hcandidate : s.candidate with
  | none => simp
  | some k => simp [h k hcandidate]

theorem saveCandidate?_eq {s : Scanner} (h : ∀ k ∈ s.candidate, k.required = false) :
    s.saveCandidate? = some s.saved := by
  rw [saveCandidate?, saved]
  split
  · rw [dropCandidate?_eq h]
    rfl
  · rfl

/-- A string between double quotes is one token. -/
theorem token?_quotedChar {s : Scanner} {p : Position} {t u : Text}
    (hs : s.cursor = ⟨p, '"' :: (t.flatMap quotedChar ++ '"' :: u)⟩)
    (hcandidate : ∀ k ∈ s.candidate, k.required = false) :
    s.token? '"' (t.flatMap quotedChar ++ '"' :: u) =
      if meetsMarker false t then none
      else some { s.saved with
        cursor := ⟨(t.flatMap quotedChar ++ ['"']).foldl Position.after (p.right 1), u⟩
        keyAllowed := false
        tokens := .scalar false (folded {} t) :: s.tokens } := by
  have hskip : Cursor.skip 1 s.cursor = ⟨p.right 1, t.flatMap quotedChar ++ '"' :: u⟩ := by
    simp [hs, Cursor.skip, Position.after_of_isPrintable (c := '"') rfl]
  have hcolumn : ((p.right 1).column == 0) = false := rfl
  have htoken : s.token? '"' (t.flatMap quotedChar ++ '"' :: u) =
      s.quoted? (readDouble? (.words {})) := by
    rw [token?, if_neg (by simp), if_neg (by simp [isMarker])]
  rw [htoken, quoted?, saveCandidate?_eq hcandidate]
  simp only [Option.bind_eq_bind, Option.bind_some, saved_cursor, hskip, readDouble?_quotedChar,
    hcolumn]
  cases meetsMarker false t <;> simp [takeTo, emit]

section

variable {s : Scanner} {p : Position} {w t u : Text} (hs : s.cursor = ⟨p, w ++ u⟩)
  (hcandidate : ∀ k ∈ s.candidate, k.required = false)
include hs hcandidate

/-- A word is one token, up to where a plain scalar ends. -/
theorem token?_plain (h : IsWord w) (hmark : isMarker p (w ++ u) = false)
    (hfloor : s.floor ≤ p.column + 1) {crosses : Bool} {behind : Cursor}
    (hread : readPlain? s.inFlow s.floor {} (p.right w.length) u = some ⟨[], crosses, behind⟩)
    {c : Char} {v : Text} (hw : w ++ u = c :: v) :
    s.token? c v = some { s.saved with
      cursor := behind
      keyAllowed := crosses
      tokens := .scalar true w :: s.tokens } := by
  obtain ⟨c', w, rfl, -⟩ := h.start
  rw [List.cons_append, List.cons_eq_cons] at hw
  obtain ⟨rfl, rfl⟩ := hw
  rw [token?_word h (by rwa [hs]), plain?, saveCandidate?_eq hcandidate]
  simp only [Option.bind_eq_bind, Option.bind_some, saved_cursor, saved_inFlow, saved_floor, hs]
  rw [readPlain?_word h hmark (.inr hfloor), hread]
  simp [takeTo, emit, PlainScalar.behind]

/-- A scalar is one token, in front of what ends a plain scalar where it stands. -/
theorem token?_spelled {plain : Bool} (h : Spells w plain t)
    (hmark : isMarker p (w ++ u) = false) (hfloor : s.floor ≤ p.column + 1)
    (hstops : plain = true → Stops s.inFlow u) {c : Char} {v : Text} (hw : w ++ u = c :: v) :
    s.token? c v = some { s.saved with
      cursor := ⟨p.right w.length, u⟩
      keyAllowed := false
      tokens := .scalar plain t :: s.tokens } := by
  cases h with
  | word h => exact token?_plain hs hcandidate h hmark hfloor (readPlain?_stops (hstops rfl) _) hw
  | quoted h =>
    rw [quote, List.cons_append, List.cons_append, List.append_assoc, List.singleton_append,
      List.cons_eq_cons] at hw
    obtain ⟨rfl, rfl⟩ := hw
    have hcursor : s.cursor = ⟨p, '"' :: (t.flatMap quotedChar ++ '"' :: u)⟩ := by
      simpa [quote, h.flatMap_quotedChar] using hs
    have hposition : (t.flatMap escapeChar ++ ['"']).foldl Position.after (p.right 1) =
        p.right (quote t).length := by
      have hprint : ∀ c ∈ t.flatMap escapeChar ++ ['"'], isPrintable c = true :=
        List.forall_mem_append.2 ⟨fun c hc => h.isPrintable_of_mem_flatMap hc, by decide⟩
      rw [Position.foldl_after_of_isPrintable hprint, Position.right_right, Nat.add_comm]
      rfl
    have htoken := token?_quotedChar hcursor hcandidate
    rwa [h.meetsMarker_eq_false, h.folded_eq_self, h.flatMap_quotedChar, hposition] at htoken

end

namespace Stands

variable {s : Scanner} {depth : Nat} {p : Position} {w t u : Text} {columns : List Nat}
  {tokens : List Token}

theorem floor_le (h : Stands s depth p t columns tokens) : s.floor ≤ p.column := by
  obtain ⟨column, hcolumn, hlt⟩ := h.column
  rw [floor]
  cases hs : s.columns with
  | nil => simp [hs] at hcolumn
  | cons column' columns' =>
    rw [hs] at hcolumn
    obtain rfl := Option.some.inj hcolumn
    exact hlt

theorem column_ne_zero (h : Stands s depth p t columns tokens) : p.column ≠ 0 := by
  obtain ⟨column, -, hlt⟩ := h.column
  exact Nat.ne_zero_of_lt hlt

theorem nextCandidate_eq (h : Stands s depth p t columns tokens) :
    s.nextCandidate = ⟨false, tokens.length, p⟩ := by
  have hrequired : (!s.inFlow && s.floor == p.column + 1) = false := by
    have hfloor : s.floor ≠ p.column + 1 := Nat.ne_of_lt (Nat.lt_succ_of_le h.floor_le)
    simp [hfloor]
  rw [nextCandidate, h.cursor, h.tokens, hrequired]

/-- A token that may start a key does not have to. -/
theorem saved_loose (h : Stands s depth p t columns tokens) (n : Nat) :
    IsLoose (p.right n) s.saved.candidate := by
  rw [saved, h.nextCandidate_eq]
  split
  · rintro k hk
    obtain rfl := Option.some.inj hk
    exact ⟨rfl, Nat.le_refl _⟩
  · exact h.loose.1

/-- Behind a scalar the scanner stands on the same line, and remembers the scalar where a key may
start. -/
theorem scalar {plain : Bool} (h : Stands s depth p (w ++ u) columns tokens)
    (hw : Spells w plain t) (hstops : plain = true → Stops (decide (0 < depth)) u) :
    ∃ s', Reaches s s' ∧
      Stands s' depth (p.right w.length) u columns (.scalar plain t :: tokens) ∧
      (s.keyAllowed = true → s'.candidate = some ⟨false, tokens.length, p⟩) := by
  obtain ⟨c, v, rfl, hc⟩ := hw.starts
  obtain ⟨s₁, hnext, h₁, hkey, -⟩ := h.exists_next? hc rfl
  have htoken := token?_spelled h₁.cursor (fun k hk => (h₁.loose.1 k hk).1) hw
    (isMarker_of_column h.column_ne_zero _) (Nat.le_succ_of_le h₁.floor_le)
    (by rwa [h₁.inFlow]) rfl
  refine ⟨_, Reaches.step hnext (by rw [h₁.cursor]; rfl) htoken rfl ?_, ?_, ?_⟩
  · rw [h.cursor]
    exact Nat.lt_succ_of_le (List.suffix_append v u).length_le
  · obtain ⟨column, hcolumn, hlt⟩ := h₁.column
    refine ⟨rfl, ?_, ?_, ?_, ⟨column, ?_, Nat.lt_add_right _ hlt⟩, h₁.saved_loose _, ?_⟩
    · simp [h₁.columns]
    · simp [h₁.tokens]
    · simp [h₁.depth]
    · simpa using hcolumn
    · intro candidate hcandidate
      exact h₁.loose.2 candidate (by simpa using hcandidate)
  · intro hallowed
    rw [saved, if_pos (hkey.trans hallowed), h₁.nextCandidate_eq]

/-- A word at the end of a line is read up to the first token behind it, which must not be indented
behind the collection around the word. -/
theorem word_newline {q : Position} {v : Text} (h : Stands s 0 p (w ++ '\n' :: t) columns tokens)
    (hw : IsWord w) (hleads : Leads ⟨p.line + 1, 0⟩ t q v)
    (hcolumn : ∃ column ∈ columns.head?, q.column ≤ column) :
    Reaches s (block true ⟨p.line + 1, 0⟩ t columns (.scalar true w :: tokens)) := by
  obtain ⟨c, u, rfl, hc⟩ := (Spells.word hw).starts
  obtain ⟨s₁, hnext, h₁, -, -⟩ := h.exists_next? hc rfl
  have houter : s₁.outer = [] := List.length_eq_zero_iff.1 h₁.depth
  have hfloor : q.column < s₁.floor := by
    obtain ⟨column, hhead, hle⟩ := hcolumn
    obtain ⟨rest, rfl⟩ := List.head?_eq_some_iff.1 hhead
    rw [floor, h₁.columns]
    exact Nat.lt_succ_of_le hle
  have hline : p.line < q.line := hleads.line_le
  have hread : readPlain? s₁.inFlow s₁.floor {} (p.right (c :: u).length) ('\n' :: t) =
      some ⟨[], true, ⟨q, v⟩⟩ := by
    rw [h₁.inFlow]
    exact readPlain?_newline hleads hfloor
  have htoken := token?_plain h₁.cursor (fun k hk => (h₁.loose.1 k hk).1) hw
    (isMarker_of_column h.column_ne_zero _) (Nat.le_succ_of_le h₁.floor_le) hread rfl
  refine Reaches.step hnext (by rw [h₁.cursor]; rfl) htoken ?_ ?_
  · refine (next?_line rfl hleads.self ?_ ?_ hline (.inl rfl)).trans ?_
    · simp [houter]
    · exact h₁.saved_loose 0
    · simp [next?_block hleads, h₁.columns, h₁.tokens]
  · simp [h.cursor, block]
    omega

end Stands

end Scanner

end Scaffold.Yaml
