import Scaffold.Proofs.Script.Literal.RoundTrip
import Scaffold.Proofs.Script.Locate

/-!
# Literals are found where they were written

`Literal.locate_print`: the source text of an array or an object that stands directly behind a
marker is the region of the marker, whatever follows it.

Two facts meet here.  What is written for an array or an object is a balanced text between brackets
(`IsEnclosed`): the induction follows `Literal.print` and carries that the text of any value may
stand between commas, so that lines of them are balanced again (`Literal.exists_print`).  And such
a text right behind the first marker is its region (`between?_enclosed`), since the scan starts
behind the marker and is left by the last bracket only.
-/

namespace Scaffold.Script

/-! ## Enclosed texts -/

/-- A balanced text between brackets that open a region. -/
def IsEnclosed (t : Text) : Prop :=
  ∃ o inner c, (o = '[' ∨ o = '\x7b') ∧ isClosing c = true ∧ Balanced inner ∧ t = o :: inner ++ [c]

theorem isOpening_of_region {o : Char} (h : o = '[' ∨ o = '\x7b') : isOpening o = true := by
  rcases h with rfl | rfl <;> rfl

theorem IsEnclosed.brackets {inner : Text} (h : Balanced inner) :
    IsEnclosed ('[' :: inner ++ [']']) :=
  ⟨'[', inner, ']', .inl rfl, rfl, h, rfl⟩

theorem IsEnclosed.braces {inner : Text} (h : Balanced inner) :
    IsEnclosed ('\x7b' :: inner ++ ['\x7d']) :=
  ⟨'\x7b', inner, '\x7d', .inr rfl, rfl, h, rfl⟩

theorem IsEnclosed.piece {t : Text} (h : IsEnclosed t) : IsPiece ',' t := by
  obtain ⟨o, inner, c, ho, hc, hbal, rfl⟩ := h
  refine .brackets (isOpening_of_region ho) hc hbal ?_ ?_
  · rcases ho with rfl | rfl <;> decide
  · rintro rfl
    cases hc

/-- An enclosed text does not end in a newline. -/
theorem IsEnclosed.count_dropLast {t : Text} (h : IsEnclosed t) :
    t.dropLast.count '\n' = t.count '\n' := by
  obtain ⟨o, inner, c, -, hc, -, rfl⟩ := h
  have hlast : '\n' ∉ [c] := by simp [newline_ne_of_closing hc]
  rw [List.dropLast_concat, List.count_append, List.count_eq_zero_of_not_mem hlast, Nat.add_zero]

/-- An enclosed text opens a region itself. -/
theorem breakAtOpening?_enclosed {t : Text} (h : IsEnclosed t) (suffix : Text) :
    breakAtOpening? (t ++ suffix) = some ([], t ++ suffix) := by
  obtain ⟨o, inner, c, ho, -, -, rfl⟩ := h
  have hscan : scan (o :: inner ++ [c] ++ suffix) =
      ⟨o, .code, 0⟩ :: scanFrom { depth := 1 } (inner ++ [c] ++ suffix) :=
    scan_opening (isOpening_of_region ho) _
  have htext : textOf (scan (o :: inner ++ [c] ++ suffix)) = o :: inner ++ [c] ++ suffix :=
    textOf_scan _
  rw [hscan] at htext
  rw [breakAtOpening?, hscan]
  rcases ho with rfl | rfl <;>
    exact congrArg (fun t => some (([] : Text), t)) htext

/-- An enclosed text ends at its last bracket. -/
theorem atStart?_enclosed {t : Text} (h : IsEnclosed t) (before suffix : Text) :
    Region.atStart? before (t ++ suffix) = some (.at before t) := by
  obtain ⟨o, inner, c, ho, hc, hbal, rfl⟩ := h
  have hsplit : o :: inner ++ [c] ++ suffix = o :: inner ++ c :: suffix := by simp
  rw [hsplit, Region.atStart?, bracketed?_of_balanced (isOpening_of_region ho) hc hbal suffix]
  rfl

/-- An enclosed text right behind a marker is its region. -/
theorem between?_enclosed {marker t : Text} (hmarker : IsOpenEnded marker) (h : IsEnclosed t)
    (before suffix : Text) :
    Region.between? before marker (t ++ suffix) = some (.at (before ++ marker) t) := by
  rw [Region.between?, openAt?_next hmarker, breakAtOpening?_enclosed h, Option.map_some,
    Option.bind_some]
  simp only [List.append_nil]
  exact atStart?_enclosed h _ _

/-! ## Markers -/

/-- Lines in front of a text, and the lines of the text, joined again. -/
theorem joinLines_front {front : List Text} (h : ∀ line ∈ front, '\n' ∉ line) (t : Text) :
    Text.joinLines (front ++ Text.lines t) = front.flatMap (· ++ ['\n']) ++ t := by
  rw [← Text.lines_flatMap_append h]
  exact List.intercalate_splitOn '\n'

/-- A marker that is first found behind `head`, on a line behind lines without it. -/
theorem firstMarker_of_lines {front : List Text} {head marker : Text}
    (hfront : ∀ line ∈ front, '\n' ∉ line ∧ Text.contains marker line = false)
    (hline : '\n' ∉ head ++ marker)
    (hfirst : Text.breakOn? marker (head ++ marker) = some (head, [])) :
    FirstMarker (front.flatMap (· ++ ['\n']) ++ head) marker :=
  ⟨front, head, rfl, hfront, hline, Text.breakOn?_congr hfirst⟩

/-- An enclosed text behind a marker is its region in a document whose earlier lines do not hold
the marker. -/
theorem ofDocument_enclosed {u head marker t : Text} (hu : Text.contains marker u = false)
    (hline : '\n' ∉ head ++ marker)
    (hfirst : Text.breakOn? marker (head ++ marker) = some (head, []))
    (hmarker : IsOpenEnded marker) (ht : IsEnclosed t) (path : Path) (rest : Text) :
    Region.ofDocument
        (.ofContent path (u ++ '\n' :: (head ++ marker ++ (t ++ (rest ++ ['\n']))))) marker =
      .ok (.at (u ++ '\n' :: head ++ marker) t) := by
  have hfront : ∀ line ∈ Text.lines u, '\n' ∉ line ∧ Text.contains marker line = false :=
    fun line hmem => ⟨Text.newline_notMem_lines u line hmem, Text.contains_line_eq_false hu hmem⟩
  have hmarked : FirstMarker (u ++ '\n' :: head) marker := by
    have := firstMarker_of_lines hfront hline hfirst
    rwa [Text.flatMap_lines, List.append_assoc, List.singleton_append] at this
  have hsplit : u ++ '\n' :: (head ++ marker ++ (t ++ (rest ++ ['\n']))) =
      u ++ '\n' :: head ++ marker ++ (t ++ rest) ++ ['\n'] := by
    simp
  rw [ofDocument_eq_ok_iff, hsplit, Document.lines_ofContent]
  exact locate_of_firstMarker hmarked (between?_enclosed hmarker ht _ _)

/-- The sources of a vocabulary may stand between commas. -/
def Vocabulary.SourcesStand (voc : Vocabulary) : Prop :=
  ∀ t s, voc.source? t = some s → IsPiece ',' s

namespace Literal

/-! ## What is written is enclosed -/

/-- Arrays and objects. -/
def isCollection : Literal → Bool
  | .array _ | .object _ => true
  | _ => false

/-- A leaf that has a source text: numbers are finite, imports are plain, and expressions may stand
between commas. -/
structure Writable (leaf : Literal) : Prop where
  number : ∀ x, leaf = .number x → Decimal.isFinite x = true
  lazyImport : ∀ m e, leaf = .lazyImport m e →
    isPlainModulePath m = true ∧ isIdentifier e = true
  expression : ∀ s, leaf = .expression s → IsPiece ',' s

/-- The text of a value may stand between commas, and is enclosed if the value holds others. -/
structure Written (v : Literal) (t : Text) : Prop where
  piece : IsPiece ',' t
  enclosed : v.isCollection = true → IsEnclosed t

theorem Written.of_enclosed {v : Literal} {t : Text} (h : IsEnclosed t) : Written v t :=
  ⟨h.piece, fun _ => h⟩

theorem Written.of_piece {v : Literal} {t : Text} (h : IsPiece ',' t)
    (hv : v.isCollection = false) : Written v t :=
  ⟨h, fun hc => by rw [hv] at hc; cases hc⟩

/-- Lines that hold something are not the lines of nothing. -/
theorem ne_nil_of_commaLines {t : Text} {n : Nat} {ts : List Text}
    (h : '\n' :: t = commaLines n ts) : ts ≠ [] := by
  rintro rfl
  cases h

theorem isPiece_keyed (key : Text) {t : Text} (h : IsPiece ',' t) :
    IsPiece ',' (keyText key ++ ": ".toList ++ t) :=
  (isPiece_keyText rfl key).join h (by decide) (by decide)

variable {voc : Vocabulary}

/-- The text of a string or of its source. -/
theorem isPiece_source (hvoc : voc.SourcesStand) (t : Text) :
    IsPiece ',' ((voc.source? t).getD (quoted t)) := by
  cases hsource : voc.source? t with
  | none => exact .quoted t
  | some s => exact hvoc t s hsource

mutual

/-- Every value whose leaves have a text has one. -/
theorem exists_print (hvoc : voc.SourcesStand) :
    ∀ (v : Literal) (n : Nat), (∀ leaf ∈ v.leaves, Writable leaf) →
    ∃ t, print voc n v = .ok t ∧ Written v t
  | .string s, n, _ => ⟨_, rfl, .of_piece (isPiece_source hvoc s) rfl⟩
  | .number x, n, hleaf => by
    have hx := (hleaf (.number x) List.mem_cons_self).number x rfl
    refine ⟨Decimal.scriptText x, ?_, .of_piece ?_ rfl⟩
    · rw [print, if_pos hx]
    · exact isPiece_number rfl (Decimal.isNumberText_scriptText hx)
  | .boolean b, n, _ => by
    refine ⟨_, rfl, .of_piece ?_ rfl⟩
    cases b <;> exact .of_plain (by decide) (by decide) (by decide) (by decide) (by decide)
  | .null, n, _ => ⟨_, rfl, .of_piece
      (.of_plain (by decide) (by decide) (by decide) (by decide) (by decide)) rfl⟩
  | .undefined, n, _ => ⟨_, rfl, .of_piece
      (.of_plain (by decide) (by decide) (by decide) (by decide) (by decide)) rfl⟩
  | .lazyImport m e, n, hleaf => by
    obtain ⟨hm, he⟩ := (hleaf (.lazyImport m e) List.mem_cons_self).lazyImport m e rfl
    refine ⟨importText m e, ?_, .of_piece (isPiece_importText hm he) rfl⟩
    rw [print, hm, he]
    rfl
  | .expression s, n, hleaf =>
    ⟨s, rfl, .of_piece ((hleaf (.expression s) List.mem_cons_self).expression s rfl) rfl⟩
  | .array [], n, _ => ⟨_, rfl, .of_enclosed (.brackets .nil)⟩
  | .array (item :: items), n, hleaf => by
    obtain ⟨body, ts, hbody, hts, hpiece⟩ :=
      exists_printItems hvoc (item :: items) (n + indentStep) (by simp) hleaf
    have hbal := (inside_of_lines (n + indentStep) n hpiece).1
    rw [← hts] at hbal
    refine ⟨'[' :: ('\n' :: body ++ '\n' :: Text.spaces n) ++ [']'], ?_,
      .of_enclosed (.brackets hbal)⟩
    rw [print, hbody]
    · simp
    · exact nofun
  | .object [], n, _ => ⟨_, rfl, .of_enclosed (.braces .nil)⟩
  | .object (entry :: entries), n, hleaf => by
    obtain ⟨body, ts, hbody, hts, hpiece⟩ :=
      exists_printEntries hvoc (entry :: entries) (n + indentStep) (by simp) hleaf
    have hbal := (inside_of_lines (n + indentStep) n hpiece).1
    rw [← hts] at hbal
    refine ⟨'\x7b' :: ('\n' :: body ++ '\n' :: Text.spaces n) ++ ['\x7d'], ?_,
      .of_enclosed (.braces hbal)⟩
    rw [print, hbody]
    · simp
    · exact nofun

/-- Items have texts, which stand on lines of their own. -/
theorem exists_printItems (hvoc : voc.SourcesStand) :
    ∀ (items : List Literal) (n : Nat), items ≠ [] →
    (∀ leaf ∈ leavesOfItems items, Writable leaf) →
    ∃ body ts, printItems voc n items = .ok body ∧ '\n' :: body = commaLines n ts ∧
      ∀ t ∈ ts, IsPiece ',' t
  | [], n, hne, _ => absurd rfl hne
  | [item], n, _, hleaf => by
    obtain ⟨t, ht, hwritten⟩ := exists_print hvoc item n (by simpa [leavesOfItems] using hleaf)
    refine ⟨Text.spaces n ++ t, [t], ?_, (commaLines_singleton n t).symm,
      by simpa using hwritten.piece⟩
    rw [printItems, ht]
    rfl
  | item :: next :: items, n, _, hleaf => by
    rw [leavesOfItems, List.forall_mem_append] at hleaf
    obtain ⟨t, ht, hwritten⟩ := exists_print hvoc item n hleaf.1
    obtain ⟨tail, ts, htail, hts, hpiece⟩ :=
      exists_printItems hvoc (next :: items) n (by simp) hleaf.2
    refine ⟨Text.spaces n ++ t ++ ",\n".toList ++ tail, t :: ts, ?_, ?_,
      List.forall_mem_cons.2 ⟨hwritten.piece, hpiece⟩⟩
    · rw [printItems, ht, htail]
      · rfl
      · exact nofun
    · rw [commaLines_cons n t (ne_nil_of_commaLines hts), ← hts]
      simp

/-- Entries have texts, which stand on lines of their own. -/
theorem exists_printEntries (hvoc : voc.SourcesStand) :
    ∀ (entries : List (Text × Literal)) (n : Nat), entries ≠ [] →
    (∀ leaf ∈ leavesOfEntries entries, Writable leaf) →
    ∃ body ts, printEntries voc n entries = .ok body ∧ '\n' :: body = commaLines n ts ∧
      ∀ t ∈ ts, IsPiece ',' t
  | [], n, hne, _ => absurd rfl hne
  | [(key, value)], n, _, hleaf => by
    obtain ⟨t, ht, hwritten⟩ := exists_print hvoc value n (by simpa [leavesOfEntries] using hleaf)
    refine ⟨Text.spaces n ++ keyText key ++ ": ".toList ++ t, [keyText key ++ ": ".toList ++ t],
      ?_, ?_, by simpa using isPiece_keyed key hwritten.piece⟩
    · rw [printEntries, ht]
      rfl
    · simp [commaLines_singleton]
  | (key, value) :: next :: entries, n, _, hleaf => by
    rw [leavesOfEntries, List.forall_mem_append] at hleaf
    obtain ⟨t, ht, hwritten⟩ := exists_print hvoc value n hleaf.1
    obtain ⟨tail, ts, htail, hts, hpiece⟩ :=
      exists_printEntries hvoc (next :: entries) n (by simp) hleaf.2
    refine ⟨Text.spaces n ++ keyText key ++ ": ".toList ++ t ++ ",\n".toList ++ tail,
      (keyText key ++ ": ".toList ++ t) :: ts, ?_, ?_,
      List.forall_mem_cons.2 ⟨isPiece_keyed key hwritten.piece, hpiece⟩⟩
    · rw [printEntries, ht, htail]
      · rfl
      · exact nofun
    · rw [commaLines_cons n _ (ne_nil_of_commaLines hts), ← hts]
      simp

end

/-- The text of an object whose leaves can be read back is enclosed. -/
theorem isEnclosed_print_object (hvoc : voc.Sound) {entries : List (Text × Literal)} {n : Nat}
    {t : Text} (hleaf : ∀ leaf ∈ (Literal.object entries).leaves, Leaf voc leaf)
    (h : (Literal.object entries).print voc n = .ok t) : IsEnclosed t := by
  cases entries with
  | nil =>
    obtain rfl := Except.ok.inj h
    exact .braces .nil
  | cons entry entries =>
    obtain ⟨body, hbody, h⟩ := bind_eq_ok.1 h
    obtain ⟨ts, hts, hread⟩ :=
      readsAs_printEntries hvoc (entry :: entries) _ body (by simp) hleaf hbody
    obtain rfl := Except.ok.inj h
    have hbal := (inside_of_lines (n + indentStep) n (isPiece_of_entries hread)).1
    rw [← hts] at hbal
    simpa using IsEnclosed.braces hbal

/-! ## Finding what was written -/

/-- The source text of an array or an object that stands behind the first marker of some lines is
found as the marker's region.  Neither the region nor the place it is found at depends on what
follows it. -/
theorem locate_print {v : Literal} (hv : v.isCollection = true) (hvoc : voc.SourcesStand)
    (hleaves : ∀ leaf ∈ v.leaves, Writable leaf) (n : Nat) {front : List Text} {head marker : Text}
    (hfront : ∀ line ∈ front, '\n' ∉ line ∧ Text.contains marker line = false)
    (hline : '\n' ∉ head ++ marker)
    (hfirst : Text.breakOn? marker (head ++ marker) = some (head, []))
    (hmarker : IsOpenEnded marker) :
    ∃ text region, v.print voc n = .ok text ∧ region.content = text ∧
      region.startLine = front.length ∧
      region.endLine = region.startLine + text.count '\n' ∧
      region.startOffset = (Text.joinLines (front ++ [head ++ marker])).byteLength ∧
      region.endOffset = region.startOffset + text.byteLength ∧
      ∀ suffix,
        Region.locate (front ++ Text.lines (head ++ marker ++ text ++ suffix)) marker = .ok region ∧
        Text.joinLines (front ++ Text.lines (head ++ marker ++ text ++ suffix)) =
          Text.joinLines (front ++ [head ++ marker]) ++ text ++ suffix := by
  obtain ⟨text, hprint, hwritten⟩ := exists_print hvoc v n hleaves
  have henclosed := hwritten.enclosed hv
  have hnewline : ∀ line ∈ front, '\n' ∉ line := fun line hmem => (hfront line hmem).1
  obtain ⟨before, hbefore⟩ : ∃ before, before = front.flatMap (· ++ ['\n']) ++ head := ⟨_, rfl⟩
  have hmarked : FirstMarker before marker := hbefore ▸ firstMarker_of_lines hfront hline hfirst
  have hlead : Text.joinLines (front ++ [head ++ marker]) = before ++ marker := by
    have := joinLines_front hnewline (head ++ marker)
    rwa [Text.lines_of_notMem hline, ← List.append_assoc, ← hbefore] at this
  have hsplit (suffix : Text) : front.flatMap (· ++ ['\n']) ++ (head ++ marker ++ text ++ suffix) =
      before ++ marker ++ (text ++ suffix) := by
    simp [hbefore]
  have hstart : (before ++ marker).count '\n' = front.length := by
    rw [hbefore, List.append_assoc]
    exact Text.count_flatMap_append hnewline hline
  have hend : text.dropLast.count '\n' = text.count '\n' := henclosed.count_dropLast
  refine ⟨text, .at (before ++ marker) text, hprint, rfl, hstart, ?_, hlead ▸ rfl, rfl,
    fun suffix => ⟨?_, ?_⟩⟩
  · rw [Region.at, hend]
  · rw [← Text.lines_flatMap_append hnewline, hsplit]
    exact locate_of_firstMarker hmarked (between?_enclosed hmarker henclosed _ _)
  · rw [joinLines_front hnewline, hsplit, hlead, ← List.append_assoc]

/-- A value with a brace in a string, a source of the vocabulary, an expression and an import is
found behind a marker on a line that holds brackets of its own. -/
theorem locate_print_nested :
    ∃ text region, nestedValue.print (Vocabulary.ofList homePairs) 2 = .ok text ∧
      region.content = text ∧ region.startLine = 2 ∧
      region.endLine = region.startLine + text.count '\n' ∧
      region.startOffset =
        (Text.joinLines (["it's [".toList, []] ++ ["x: [] ".toList ++ "= ".toList])).byteLength ∧
      region.endOffset = region.startOffset + text.byteLength ∧
      ∀ suffix,
        Region.locate (["it's [".toList, []] ++
          Text.lines ("x: [] ".toList ++ "= ".toList ++ text ++ suffix)) "= ".toList = .ok region ∧
        Text.joinLines (["it's [".toList, []] ++
          Text.lines ("x: [] ".toList ++ "= ".toList ++ text ++ suffix)) =
          Text.joinLines (["it's [".toList, []] ++ ["x: [] ".toList ++ "= ".toList]) ++ text ++
            suffix := by
  have hhome : IsPiece ',' "process.env.HOME".toList :=
    .of_plain (by decide) (by decide) (by decide) (by decide) (by decide)
  have hlevel : IsPiece ',' "settings.level".toList :=
    .of_plain (by decide) (by decide) (by decide) (by decide) (by decide)
  have hleaves : nestedValue.leaves =
      [.string "it's \x7b\n, ok", .number 1.5, .expression "settings.level", .string "home",
        .lazyImport "./m" "routes"] := rfl
  have hvoc : (Vocabulary.ofList homePairs).SourcesStand := by
    intro t s h
    obtain ⟨-, rfl⟩ : t = "home".toList ∧ s = "process.env.HOME".toList := by
      simpa [homePairs] using Vocabulary.mem_of_source?_ofList h
    exact hhome
  have hwritable : ∀ leaf ∈ nestedValue.leaves, Writable leaf := by
    intro leaf hleaf
    refine ⟨?_, ?_, ?_⟩
    · rintro x rfl
      obtain rfl : x = 1.5 := by simpa [hleaves] using hleaf
      decide +kernel
    · rintro m e rfl
      obtain ⟨rfl, rfl⟩ : m = "./m".toList ∧ e = "routes".toList := by
        simpa [hleaves] using hleaf
      decide
    · rintro s rfl
      obtain rfl : s = "settings.level".toList := by simpa [hleaves] using hleaf
      exact hlevel
  have hfront : ∀ line ∈ ["it's [".toList, []],
      '\n' ∉ line ∧ Text.contains "= ".toList line = false := by decide
  have hline : '\n' ∉ "x: [] ".toList ++ "= ".toList := by decide
  have hfirst : Text.breakOn? "= ".toList ("x: [] ".toList ++ "= ".toList) =
      some ("x: [] ".toList, []) := by decide
  have hmarker : IsOpenEnded "= ".toList := ⟨by decide, by decide⟩
  exact locate_print rfl hvoc hwritable 2 hfront hline hfirst hmarker

end Literal

end Scaffold.Script
