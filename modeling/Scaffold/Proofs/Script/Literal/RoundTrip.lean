import Scaffold.Proofs.Decimal.RoundTrip
import Scaffold.Proofs.Outcome
import Scaffold.Proofs.Script.Literal.Reading

/-!
# Literals read back what they write

`Literal.print_reads_back`: the source text of a value is read as an equal value.  The value may
hold any strings and keys; its numbers have to be read back as numbers, and its expressions and the
sources of the vocabulary have to stand between commas without ending there (`IsSource`).

The induction follows `Literal.print`.  What it carries is `ReadsAs`: the text of a value may stand
between commas and is read as the value.  For the lines of an array or an object it is what the
pieces between the commas are read as, whatever blanks follow the last line.
-/

namespace Scaffold.Script

namespace Literal

/-! ## Values that can be read back -/

mutual

/-- The parts of a value that hold no other values. -/
def leaves : Literal → List Literal
  | .array items => leavesOfItems items
  | .object entries => leavesOfEntries entries
  | v => [v]

/-- The leaves of all items. -/
def leavesOfItems : List Literal → List Literal
  | [] => []
  | item :: items => leaves item ++ leavesOfItems items

/-- The leaves of all values. -/
def leavesOfEntries : List (Text × Literal) → List Literal
  | [] => []
  | (_, value) :: entries => leaves value ++ leavesOfEntries entries

end

/-- The text of a number is read as an equal number. -/
def ReadsBack (x : Float) : Prop :=
  Decimal.isFinite x = true → ∃ y, number? (Decimal.scriptText x) = some y ∧ (y == x) = true

/-- The text of every finite number is read as an equal number. -/
theorem readsBack (x : Float) : ReadsBack x := by
  intro hx
  obtain ⟨negative, c, t, y, htext, hdigit, hread, -, hequal⟩ := Decimal.scriptText_eq hx
  rw [htext]
  cases negative with
  | true => exact ⟨-y, by rw [if_pos rfl, number?, hread, Option.map_some], hequal⟩
  | false =>
    have hsign : c ≠ '-' := by
      rintro rfl
      cases hdigit
    refine ⟨y, ?_, hequal⟩
    rw [if_neg Bool.false_ne_true, number?, hread]
    simpa using hsign

/-- A leaf that can be read back: numbers are, and expressions are sources of no string. -/
structure Leaf (voc : Vocabulary) (leaf : Literal) : Prop where
  number : ∀ x, leaf = .number x → ReadsBack x
  expression : ∀ s, leaf = .expression s → IsSource s ∧ voc.text? s = none

/-- The text may stand between commas and is read as the value. -/
structure ReadsAs (voc : Vocabulary) (t : Text) (v : Literal) : Prop where
  piece : IsPiece ',' t
  equal : (read voc t == v) = true

variable {voc : Vocabulary}

/-! ## Words -/

/-- A word is read as itself when it is no source. -/
theorem ReadsAs.of_word {t : Text} {v w : Literal} (ht : IsPiece ',' t)
    (hw : ∀ voc : Vocabulary, voc.text? t = none → word? voc t = some w)
    (hv : (w == v) = true) (hne : ∀ e, w ≠ .expression e) (hvoc : voc.Sound) :
    ReadsAs voc t v where
  piece := ht
  equal := by
    have hread : read {} t = w := read_of_word ht.trimmed (hw {} rfl)
    have htext : voc.text? t = none := hvoc.text?_eq_none fun e he => hne e (hread.symm.trans he)
    rw [read_of_word ht.trimmed (hw voc htext)]
    exact hv

theorem readsAs_boolean (b : Bool) (hvoc : voc.Sound) :
    ReadsAs voc (Text.ofBool b) (.boolean b) := by
  have hpiece : IsPiece ',' (Text.ofBool b) := by
    cases b <;> exact .of_plain (by decide) (by decide) (by decide) (by decide) (by decide)
  refine .of_word hpiece (w := .boolean b) (fun voc _ => ?_) ?_ ?_ hvoc
  · cases b <;> rfl
  · cases b <;> rfl
  · intro e
    exact Literal.noConfusion

theorem readsAs_null (hvoc : voc.Sound) : ReadsAs voc "null".toList .null := by
  have hpiece : IsPiece ',' "null".toList :=
    .of_plain (by decide) (by decide) (by decide) (by decide) (by decide)
  exact .of_word hpiece (w := .null) (fun _ _ => rfl) rfl (fun e => Literal.noConfusion) hvoc

theorem readsAs_undefined (hvoc : voc.Sound) : ReadsAs voc "undefined".toList .undefined := by
  have hpiece : IsPiece ',' "undefined".toList :=
    .of_plain (by decide) (by decide) (by decide) (by decide) (by decide)
  exact .of_word hpiece (w := .undefined) (fun _ _ => rfl) rfl (fun e => Literal.noConfusion) hvoc

theorem isBlank_of_isNumberChar {c : Char} (h : Decimal.isNumberChar c = true) :
    isBlank c = false := by
  simp only [Decimal.isNumberChar, Bool.or_eq_true, beq_iff_eq] at h
  rcases h with (h | rfl) | rfl
  · exact isBlank_of_isAlphanum (by simp [Char.isAlphanum, h])
  · rfl
  · rfl

/-- The text of a number may stand between separators. -/
theorem isPiece_number {sep : Char} (hsep : Decimal.isNumberChar sep = false) {t : Text}
    (h : Decimal.IsNumberText t) : IsPiece sep t := by
  have hblank (c : Char) (hc : c ∈ t) : isBlank c = false := isBlank_of_isNumberChar (h.2 c hc)
  refine .of_plain h.1 (fun c hc => isPlain_of_class (by decide) (h.2 c hc)) ?_ ?_ ?_
  · exact fun c hc => hblank c (List.mem_of_mem_head? hc)
  · exact fun c hc => hblank c (List.mem_of_getLast? hc)
  · intro hmem
    rw [h.2 sep hmem] at hsep
    cases hsep

theorem readsAs_number {x : Float} (hx : Decimal.isFinite x = true) (hback : ReadsBack x)
    (hvoc : voc.Sound) : ReadsAs voc (Decimal.scriptText x) (.number x) := by
  obtain ⟨y, hy, hyx⟩ := hback hx
  have htext := Decimal.isNumberText_scriptText hx
  refine .of_word (isPiece_number rfl htext) (w := .number y) (fun voc hfree => ?_) hyx ?_ hvoc
  · obtain ⟨c, t, ht⟩ := List.exists_cons_of_ne_nil htext.1
    have hc : Decimal.isNumberChar c = true := htext.2 c (by simp [ht])
    have hletter : c.isAlpha = false := Decimal.isAlpha_of_isNumberChar hc
    have hparen : c ≠ '(' := by
      rintro rfl
      cases hc
    rw [ht] at hfree hy ⊢
    rw [word?_cons hletter, hfree, lazyImport?_cons_of_ne hparen, hy]
    rfl
  · intro e
    exact Literal.noConfusion

/-- Only a number is equal to a number. -/
theorem eq_number_of_beq {v : Literal} {x : Float} (h : (v == .number x) = true) :
    ∃ y, v = .number y ∧ (y == x) = true := by
  cases v with
  | number y => exact ⟨y, rfl, h⟩
  | _ => cases h

/-! ## Imports -/

/-- A character of a module path is no quote, backslash or newline. -/
def isPathChar (c : Char) : Bool := c != '\'' && c != '\\' && c != '\n'

/-- What is read behind the head of a lazy import. -/
theorem lazyImport?_head (t : Text) :
    lazyImport? (lazyImportHead ++ t) =
      (lazyImportMiddle.isPrefixOf? (t.dropWhile isPathChar)).bind fun name =>
        if name.getLast? == some ')' && isIdentifier name.dropLast &&
            !(t.takeWhile isPathChar).isEmpty then
          some (.lazyImport (t.takeWhile isPathChar) name.dropLast)
        else none := by
  rw [lazyImport?, Text.isPrefixOf?_append]
  rfl

/-- The text of a lazy import. -/
def importText (m e : Text) : Text := lazyImportHead ++ m ++ lazyImportMiddle ++ e ++ [')']

theorem lazyImport?_importText {m e : Text} (hm : isPlainModulePath m = true)
    (he : isIdentifier e = true) : lazyImport? (importText m e) = some (.lazyImport m e) := by
  obtain ⟨hne, hall⟩ : m ≠ [] ∧ ∀ c ∈ m, isPathChar c = true := by
    simpa [isPlainModulePath, isPathChar] using hm
  have hempty : m.isEmpty = false := by simpa using hne
  have hmiddle : lazyImportMiddle ++ (e ++ [')']) =
      '\'' :: (lazyImportMiddle.drop 1 ++ (e ++ [')'])) := rfl
  have htake : (m ++ (lazyImportMiddle ++ (e ++ [')']))).takeWhile isPathChar = m := by
    rw [hmiddle, List.takeWhile_append_of_pos hall, List.takeWhile_cons_of_neg (by decide),
      List.append_nil]
  have hdrop : (m ++ (lazyImportMiddle ++ (e ++ [')']))).dropWhile isPathChar =
      lazyImportMiddle ++ (e ++ [')']) := by
    rw [hmiddle, List.dropWhile_append_of_pos hall, List.dropWhile_cons_of_neg (by decide)]
  have hsplit : importText m e = lazyImportHead ++ (m ++ (lazyImportMiddle ++ (e ++ [')']))) := by
    simp [importText]
  rw [hsplit, lazyImport?_head, htake, hdrop, Text.isPrefixOf?_append, Option.bind_some]
  simp [he, hempty]

theorem isPlain_of_isNameChar {c : Char} (h : isNameChar c = true) : isPlain c = true :=
  isPlain_of_class (by decide) h

theorem all_isNameChar {t : Text} (h : isIdentifier t = true) :
    t ≠ [] ∧ ∀ c ∈ t, isNameChar c = true := by
  cases t with
  | nil => cases h
  | cons c t =>
    obtain ⟨hc, ht⟩ : isNameStart c = true ∧ ∀ d ∈ t, isNameChar d = true := by
      simpa [isIdentifier] using h
    refine ⟨by simp, ?_⟩
    intro d hd
    rcases List.mem_cons.1 hd with rfl | hd
    · simp only [isNameStart, isNameChar, Char.isAlphanum, Bool.or_eq_true] at hc ⊢
      tauto
    · exact ht d hd

/-- The brackets, strings and plain texts of a lazy import. -/
theorem importText_eq (m e : Text) :
    importText m e = '(' :: [] ++ [')'] ++ " => import".toList ++
      ('(' :: ('\'' :: m ++ ['\'']) ++ [')'] ++ ".then".toList ++
        ('(' :: ("m => m.".toList ++ e) ++ [')'])) := by
  have hhead : lazyImportHead = ['(', ')'] ++ (" => import".toList ++ ['(', '\'']) := by decide
  have hmiddle : lazyImportMiddle = ['\'', ')'] ++ (".then".toList ++ '(' :: "m => m.".toList) := by
    decide
  rw [importText, hhead, hmiddle]
  simp only [List.append_assoc, List.cons_append, List.nil_append]

/-- A lazy import may stand between commas. -/
theorem isPiece_importText {m e : Text} (hm : isPlainModulePath m = true)
    (he : isIdentifier e = true) : IsPiece ',' (importText m e) := by
  have hbody : QuotedBody '\'' m := .of_all fun c hc => by
    have hall : ∀ c ∈ m, isPathChar c = true := by
      simpa [isPlainModulePath, isPathChar] using (Bool.and_eq_true_iff.1 hm).2
    have := hall c hc
    simp only [isPathChar, Bool.and_eq_true, bne_iff_ne] at this
    exact ⟨this.1.2, this.1.1⟩
  have hname : ∀ c ∈ "m => m.".toList ++ e, isPlain c = true := by
    intro c hc
    rcases List.mem_append.1 hc with hc | hc
    · exact (by decide : ∀ c ∈ "m => m.".toList, isPlain c = true) c hc
    · exact isPlain_of_isNameChar ((all_isNameChar he).2 c hc)
  have hparams : IsPiece ',' ('(' :: [] ++ [')']) := .brackets rfl rfl .nil (by decide) (by decide)
  have hpath : IsPiece ',' ('(' :: ('\'' :: m ++ ['\'']) ++ [')']) :=
    .brackets rfl rfl (.of_quotedBody rfl hbody) (by decide) (by decide)
  have hpick : IsPiece ',' ('(' :: ("m => m.".toList ++ e) ++ [')']) :=
    .brackets rfl rfl (.of_plain hname) (by decide) (by decide)
  have hthen := hpath.join hpick (m := ".then".toList) (by decide) (by decide)
  have hall := hparams.join hthen (m := " => import".toList) (by decide) (by decide)
  rw [importText_eq]
  exact hall

theorem readsAs_lazyImport {m e : Text} (hm : isPlainModulePath m = true)
    (he : isIdentifier e = true) (hvoc : voc.Sound) :
    ReadsAs voc (importText m e) (.lazyImport m e) := by
  refine .of_word (isPiece_importText hm he) (w := .lazyImport m e) (fun voc hfree => ?_) ?_ ?_ hvoc
  · have hcons : ∃ t, importText m e = '(' :: t := ⟨_, importText_eq m e⟩
    obtain ⟨t, ht⟩ := hcons
    have himport := lazyImport?_importText hm he
    rw [ht] at hfree himport ⊢
    rw [word?_cons rfl, hfree, himport]
  · show (m == m && e == e) = true
    simp
  · intro e
    exact Literal.noConfusion

/-! ## Strings and expressions -/

/-- A string is read back, from its source when it has one. -/
theorem readsAs_string (t : Text) (hvoc : voc.Sound) :
    ReadsAs voc ((voc.source? t).getD (quoted t)) (.string t) := by
  cases hsource : voc.source? t with
  | none =>
    have htext : voc.text? (quoted t) = none := hvoc.text?_eq_none fun e he => by
      rw [read_quoted rfl] at he
      cases he
    refine ⟨.quoted t, ?_⟩
    rw [Option.getD_none, read_quoted htext]
    exact beq_self_eq_true t
  | some s =>
    have hs := hvoc.isSource t s hsource
    refine ⟨hs.piece, ?_⟩
    have hword : word? voc s = some (.string t) := by
      rw [word?_of_none hs.word?, (hvoc.consistent s t).2 hsource]
      rfl
    rw [Option.getD_some, read_of_word hs.piece.trimmed hword]
    exact beq_self_eq_true t

/-- An expression that is no source is read as itself. -/
theorem readsAs_expression {s : Text} (hs : IsSource s) (hfree : voc.text? s = none) :
    ReadsAs voc s (.expression s) where
  piece := hs.piece
  equal := by
    have hword : word? voc s = none := by
      rw [word?_of_none hs.word?, hfree]
      rfl
    obtain ⟨e, he⟩ := hs.expression
    have hread : read voc s = .expression s := by
      rw [read_eq, hs.piece.trimmed, hs.word?] at he
      rw [read_eq, hs.piece.trimmed, hword]
      revert he
      cases enclosed? '[' s with
      | some inner => exact nofun
      | none =>
        cases enclosed? '\x7b' s with
        | some inner => exact nofun
        | none =>
          cases unquote? s with
          | some t => exact nofun
          | none => exact fun _ => rfl
    rw [hread]
    exact beq_self_eq_true s

/-! ## Arrays and objects -/

/-- Pieces that are read as the items. -/
theorem beqItems_of_readsAs {ts : List Text} {items : List Literal}
    (h : List.Forall₂ (ReadsAs voc) ts items) : beqItems (ts.map (read voc)) items = true := by
  induction h with
  | nil => rfl
  | cons ht _ ih => exact Bool.and_eq_true_iff.2 ⟨ht.equal, ih⟩

theorem isPiece_of_readsAs {ts : List Text} {items : List Literal}
    (h : List.Forall₂ (ReadsAs voc) ts items) : ∀ t ∈ ts, IsPiece ',' t := by
  induction h with
  | nil => simp
  | cons ht _ ih => exact List.forall_mem_cons.2 ⟨ht.piece, ih⟩

/-- Brackets around pieces that are read as items are read as the array of the items. -/
theorem readsAs_array {inner : Text} {items : List Literal} (hbal : Balanced inner)
    (h : List.Forall₂ (ReadsAs voc) (pieces ',' inner) items) (hvoc : voc.Sound) :
    ReadsAs voc ('[' :: inner ++ [']']) (.array items) := by
  have htext : voc.text? ('[' :: inner ++ [']']) = none := hvoc.text?_eq_none fun e he => by
    rw [read_array rfl hbal rfl] at he
    cases he
  refine ⟨.brackets rfl rfl hbal (by decide) (by decide), ?_⟩
  rw [read_array rfl hbal htext]
  exact beqItems_of_readsAs h

/-- The text of an entry: its key, a colon and a text that is read as its value. -/
def EntryReadsAs (voc : Vocabulary) (t : Text) (entry : Text × Literal) : Prop :=
  ∃ u, t = keyText entry.1 ++ ": ".toList ++ u ∧ ReadsAs voc u entry.2

theorem isPiece_keyText {sep : Char} (hsep : isNameChar sep = false) (key : Text) :
    IsPiece sep (keyText key) := by
  unfold keyText
  split
  · next hkey =>
    obtain ⟨hne, hall⟩ := all_isNameChar hkey
    have hblank (c : Char) (hc : c ∈ key) : isBlank c = false := by
      have := hall c hc
      simp only [isNameChar, Bool.or_eq_true, beq_iff_eq] at this
      rcases this with (h | rfl) | rfl
      · exact isBlank_of_isAlphanum h
      · rfl
      · rfl
    refine .of_plain hne (fun c hc => isPlain_of_isNameChar (hall c hc)) ?_ ?_ ?_
    · exact fun c hc => hblank c (List.mem_of_mem_head? hc)
    · exact fun c hc => hblank c (List.mem_of_getLast? hc)
    · intro hmem
      rw [hall sep hmem] at hsep
      cases hsep
  · exact .quoted key

/-- A key is read back, with or without quotes. -/
theorem keyOf_keyText (key : Text) : keyOf (keyText key) = key := by
  have hpiece : IsPiece ',' (keyText key) := isPiece_keyText rfl key
  rw [keyOf, hpiece.trimmed]
  unfold keyText
  split
  · next hkey =>
    obtain ⟨hne, hall⟩ := all_isNameChar hkey
    obtain ⟨c, t, rfl⟩ := List.exists_cons_of_ne_nil hne
    have hquote : (c == '\'' || c == '"') = false := by
      have hc := hall c List.mem_cons_self
      refine Bool.eq_false_iff.2 fun hq => ?_
      rcases (by simpa using hq : c = '\'' ∨ c = '"') with rfl | rfl <;> cases hc
    rw [unquote?, hquote]
    rfl
  · rw [unquote?_quoted]
    rfl

/-- An entry is divided at the colon behind its key. -/
theorem readEntry_keyText {t : Text} (key : Text) (h : IsPiece ',' t) :
    readEntry voc (keyText key ++ ": ".toList ++ t) = (key, read voc t) := by
  have hkey : IsPiece ':' (keyText key) := isPiece_keyText rfl key
  have hsplit : splitKeyValue? (keyText key ++ ": ".toList ++ t) = some (keyText key, ' ' :: t) := by
    rw [List.append_assoc]
    exact splitKeyValue?_of_balanced hkey.balanced hkey.free _
  have hspace : IsBlank [' '] := .spaces 1
  have htrim : trimCode (' ' :: t) = trimCode t := by
    have := trimCode_between_blanks hspace h.balanced IsBlank.nil
    rwa [List.append_nil] at this
  rw [readEntry, hsplit]
  show (keyOf (keyText key), read voc (' ' :: t)) = (key, read voc t)
  rw [keyOf_keyText, read_congr htrim]

theorem isPiece_entry {t : Text} {entry : Text × Literal} (h : EntryReadsAs voc t entry) :
    IsPiece ',' t := by
  obtain ⟨u, rfl, hu⟩ := h
  exact (isPiece_keyText rfl _).join hu.piece (by decide) (by decide)

theorem beqEntries_of_readsAs {ts : List Text} {entries : List (Text × Literal)}
    (h : List.Forall₂ (EntryReadsAs voc) ts entries) :
    beqEntries (ts.map (readEntry voc)) entries = true := by
  induction h with
  | nil => rfl
  | @cons t entry ts entries ht _ ih =>
    obtain ⟨key, value⟩ := entry
    obtain ⟨u, rfl, hu⟩ := ht
    rw [List.map_cons, readEntry_keyText _ hu.piece]
    have hkey : (key == key && read voc u == value) = true :=
      Bool.and_eq_true_iff.2 ⟨beq_self_eq_true key, hu.equal⟩
    exact Bool.and_eq_true_iff.2 ⟨hkey, ih⟩

theorem isPiece_of_entries {ts : List Text} {entries : List (Text × Literal)}
    (h : List.Forall₂ (EntryReadsAs voc) ts entries) : ∀ t ∈ ts, IsPiece ',' t := by
  induction h with
  | nil => simp
  | cons ht _ ih => exact List.forall_mem_cons.2 ⟨isPiece_entry ht, ih⟩

/-- Braces around pieces that are read as entries are read as the object of the entries. -/
theorem readsAs_object {inner : Text} {entries : List (Text × Literal)} (hbal : Balanced inner)
    (h : List.Forall₂ (EntryReadsAs voc) (pieces ',' inner) entries) (hvoc : voc.Sound) :
    ReadsAs voc ('\x7b' :: inner ++ ['\x7d']) (.object entries) := by
  have htext : voc.text? ('\x7b' :: inner ++ ['\x7d']) = none :=
    hvoc.text?_eq_none fun e he => by
      rw [read_object rfl hbal rfl] at he
      cases he
  refine ⟨.brackets rfl rfl hbal (by decide) (by decide), ?_⟩
  rw [read_object rfl hbal htext]
  exact beqEntries_of_readsAs h

/-- The inside of a literal whose pieces stand on lines of their own. -/
theorem inside_of_lines {ts : List Text} (m n : Nat) (h : ∀ t ∈ ts, IsPiece ',' t) :
    Balanced (commaLines m ts ++ '\n' :: Text.spaces n) ∧
      pieces ',' (commaLines m ts ++ '\n' :: Text.spaces n) = ts := by
  have hb : IsBlank ('\n' :: Text.spaces n) := .newline (.spaces n)
  exact ⟨(balanced_commaLines h).append hb.balanced (hb.apart_right _), pieces_commaLines h hb⟩

theorem pieces_nil (sep : Char) (h : isBlank sep = false) : pieces sep [] = [] :=
  pieces_blank .nil h

/-! ## Reading what was written -/

mutual

/-- The text of a value is read as the value. -/
theorem readsAs_print (hvoc : voc.Sound) : ∀ (v : Literal) (n : Nat) (t : Text),
    (∀ leaf ∈ v.leaves, Leaf voc leaf) → print voc n v = .ok t → ReadsAs voc t v
  | .string s, n, t, _, h => by
    obtain rfl := Except.ok.inj h
    exact readsAs_string s hvoc
  | .number x, n, t, hleaf, h => by
    have hback := (hleaf (.number x) List.mem_cons_self).number x rfl
    rw [print] at h
    split at h
    · next hx =>
      obtain rfl := Except.ok.inj h
      exact readsAs_number hx hback hvoc
    · cases h
  | .boolean b, n, t, _, h => by
    obtain rfl := Except.ok.inj h
    exact readsAs_boolean b hvoc
  | .null, n, t, _, h => by
    obtain rfl := Except.ok.inj h
    exact readsAs_null hvoc
  | .undefined, n, t, _, h => by
    obtain rfl := Except.ok.inj h
    exact readsAs_undefined hvoc
  | .lazyImport m e, n, t, _, h => by
    rw [print] at h
    split at h
    · next hplain =>
      obtain rfl := Except.ok.inj h
      obtain ⟨hm, he⟩ := Bool.and_eq_true_iff.1 hplain
      exact readsAs_lazyImport hm he hvoc
    · cases h
  | .expression s, n, t, hleaf, h => by
    obtain ⟨hs, hfree⟩ := (hleaf (.expression s) List.mem_cons_self).expression s rfl
    obtain rfl := Except.ok.inj h
    exact readsAs_expression hs hfree
  | .array [], n, t, _, h => by
    obtain rfl := Except.ok.inj h
    exact readsAs_array .nil (pieces_nil ',' rfl ▸ .nil) hvoc
  | .array (item :: items), n, t, hleaf, h => by
    obtain ⟨body, hbody, h⟩ := bind_eq_ok.1 h
    obtain ⟨ts, hts, hread⟩ :=
      readsAs_printItems hvoc (item :: items) _ body (by simp) hleaf hbody
    obtain rfl := Except.ok.inj h
    obtain ⟨hbal, hpieces⟩ := inside_of_lines (n + indentStep) n (isPiece_of_readsAs hread)
    have := readsAs_array hbal (hpieces.symm ▸ hread) hvoc
    rw [← hts] at this
    simpa using this
  | .object [], n, t, _, h => by
    obtain rfl := Except.ok.inj h
    exact readsAs_object .nil (pieces_nil ',' rfl ▸ .nil) hvoc
  | .object (entry :: entries), n, t, hleaf, h => by
    obtain ⟨body, hbody, h⟩ := bind_eq_ok.1 h
    obtain ⟨ts, hts, hread⟩ :=
      readsAs_printEntries hvoc (entry :: entries) _ body (by simp) hleaf hbody
    obtain rfl := Except.ok.inj h
    obtain ⟨hbal, hpieces⟩ := inside_of_lines (n + indentStep) n (isPiece_of_entries hread)
    have := readsAs_object hbal (hpieces.symm ▸ hread) hvoc
    rw [← hts] at this
    simpa using this

/-- The lines of items are read as the items. -/
theorem readsAs_printItems (hvoc : voc.Sound) : ∀ (items : List Literal) (n : Nat) (body : Text),
    items ≠ [] → (∀ leaf ∈ leavesOfItems items, Leaf voc leaf) →
    printItems voc n items = .ok body →
    ∃ ts, '\n' :: body = commaLines n ts ∧ List.Forall₂ (ReadsAs voc) ts items
  | [], n, body, hne, _, _ => absurd rfl hne
  | [item], n, body, _, hleaf, h => by
    obtain ⟨t, ht, rfl⟩ := bind_pure_eq_ok.1 h
    have hread := readsAs_print hvoc item n t (by simpa [leavesOfItems] using hleaf) ht
    exact ⟨[t], (commaLines_singleton n t).symm, .cons hread .nil⟩
  | item :: next :: items, n, body, _, hleaf, h => by
    obtain ⟨head, hhead, h⟩ := bind_eq_ok.1 h
    obtain ⟨tail, htail, rfl⟩ := bind_pure_eq_ok.1 h
    rw [leavesOfItems, List.forall_mem_append] at hleaf
    have hread := readsAs_print hvoc item n head hleaf.1 hhead
    obtain ⟨ts, hts, hrest⟩ :=
      readsAs_printItems hvoc (next :: items) n tail (by simp) hleaf.2 htail
    refine ⟨head :: ts, ?_, .cons hread hrest⟩
    have hne : ts ≠ [] := by
      rintro rfl
      cases hrest
    rw [commaLines_cons n head hne, ← hts]
    simp

/-- The lines of entries are read as the entries. -/
theorem readsAs_printEntries (hvoc : voc.Sound) :
    ∀ (entries : List (Text × Literal)) (n : Nat) (body : Text),
    entries ≠ [] → (∀ leaf ∈ leavesOfEntries entries, Leaf voc leaf) →
    printEntries voc n entries = .ok body →
    ∃ ts, '\n' :: body = commaLines n ts ∧ List.Forall₂ (EntryReadsAs voc) ts entries
  | [], n, body, hne, _, _ => absurd rfl hne
  | [(key, value)], n, body, _, hleaf, h => by
    obtain ⟨t, ht, rfl⟩ := bind_pure_eq_ok.1 h
    have hread := readsAs_print hvoc value n t (by simpa [leavesOfEntries] using hleaf) ht
    refine ⟨[keyText key ++ ": ".toList ++ t], ?_, .cons ⟨t, rfl, hread⟩ .nil⟩
    simp [commaLines_singleton]
  | (key, value) :: next :: entries, n, body, _, hleaf, h => by
    obtain ⟨head, hhead, h⟩ := bind_eq_ok.1 h
    obtain ⟨tail, htail, rfl⟩ := bind_pure_eq_ok.1 h
    rw [leavesOfEntries, List.forall_mem_append] at hleaf
    have hread := readsAs_print hvoc value n head hleaf.1 hhead
    obtain ⟨ts, hts, hrest⟩ :=
      readsAs_printEntries hvoc (next :: entries) n tail (by simp) hleaf.2 htail
    refine ⟨(keyText key ++ ": ".toList ++ head) :: ts, ?_, .cons ⟨head, rfl, hread⟩ hrest⟩
    have hne : ts ≠ [] := by
      rintro rfl
      cases hrest
    rw [commaLines_cons n _ hne, ← hts]
    simp

end

/-- The text of a value whose expressions are sources is read as the value. -/
theorem readsAs_of_print {v : Literal} {n : Nat} {t : Text}
    (hexpr : ∀ s, .expression s ∈ v.leaves → IsSource s) (h : v.print {} n = .ok t) :
    ReadsAs {} t v :=
  readsAs_print Vocabulary.sound_empty v n t
    (fun _ hmem => ⟨fun x _ => readsBack x, fun s hs => ⟨hexpr s (hs ▸ hmem), rfl⟩⟩) h

/-- The source text of a value is read as an equal value.  At no time two strings of the vocabulary
have the same source; its sources, and the expressions of the value, stand between commas and are
expressions, and no expression of the value is one of the sources. -/
theorem print_reads_back {pairs : List (Text × Text)} {v : Literal} {n : Nat} {t : Text}
    (hinj : ∀ early, early <+: pairs → (Vocabulary.ofList early).Injective)
    (hsource : ∀ u s, (Vocabulary.ofList pairs).source? u = some s → IsSource s)
    (hnumber : ∀ x, .number x ∈ v.leaves → ReadsBack x)
    (hexpr : ∀ s, .expression s ∈ v.leaves →
      IsSource s ∧ ∀ u, (Vocabulary.ofList pairs).source? u ≠ some s)
    (h : v.print (Vocabulary.ofList pairs) n = .ok t) :
    (read (Vocabulary.ofList pairs) t == v) = true := by
  have hcons := Vocabulary.ofList_consistent hinj
  refine (readsAs_print ⟨hcons, hsource⟩ v n t (fun leaf hleaf => ⟨?_, ?_⟩) h).equal
  · rintro x rfl
    exact hnumber x hleaf
  · rintro s rfl
    obtain ⟨hs, hfree⟩ := hexpr s hleaf
    refine ⟨hs, Option.eq_none_iff_forall_ne_some.2 fun u hu => ?_⟩
    exact hfree u ((hcons s u).1 hu)

/-- A vocabulary with one string, whose source is a property. -/
def homePairs : List (Text × Text) := [("home".toList, "process.env.HOME".toList)]

/-- A value with an empty key, a string full of marks, and a leaf of each kind that depends on a
vocabulary. -/
def nestedValue : Literal :=
  .object [
    ([], .string "it's \x7b\n, ok"),
    ("in list".toList, .array [
      .number 1.5, .expression "settings.level", .string "home", .lazyImport "./m" "routes"])]

theorem print_reads_back_nested :
    ∃ t, nestedValue.print (Vocabulary.ofList homePairs) 2 = .ok t ∧
      (read (Vocabulary.ofList homePairs) t == nestedValue) = true := by
  have hhome : IsSource "process.env.HOME".toList :=
    .of_plain (by decide) (by decide) (by decide) rfl
  have hlevel : IsSource "settings.level".toList :=
    .of_plain (by decide) (by decide) (by decide) rfl
  have hleaves : nestedValue.leaves =
      [.string "it's \x7b\n, ok", .number 1.5, .expression "settings.level", .string "home",
        .lazyImport "./m" "routes"] := rfl
  refine ⟨_, rfl, print_reads_back (n := 2) ?_ ?_ ?_ ?_ rfl⟩
  · exact fun early he => Vocabulary.injective_of_prefix (by decide) he
  · intro u s h
    have hmem := Vocabulary.mem_of_source?_ofList h
    obtain ⟨-, rfl⟩ : u = "home".toList ∧ s = "process.env.HOME".toList := by
      simpa [homePairs] using hmem
    exact hhome
  · intro x hx
    obtain rfl : x = 1.5 := by simpa [hleaves] using hx
    exact fun _ => ⟨1.5, by decide +kernel, by decide +kernel⟩
  · intro s hs
    obtain rfl : s = "settings.level".toList := by simpa [hleaves] using hs
    refine ⟨hlevel, fun u hu => ?_⟩
    have hmem := Vocabulary.mem_of_source?_ofList hu
    simp [homePairs] at hmem

end Literal

end Scaffold.Script
