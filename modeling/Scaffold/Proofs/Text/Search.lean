import Scaffold.Text.Basic

/-!
# Searching a text

Where a text stands in another one that is put together from parts: at its start
(`isPrefixOf?_append`), behind a part without one of its characters (`breakOn?_of_notMem`), at a byte
position (`cutAt?_append`) and on a line (`lines_append`, `lines_append_line`).
-/

namespace Scaffold.Text

/-! ## Starts -/

/-- Removing a text from the start of a text that starts with it. -/
theorem isPrefixOf?_append (lead t : Text) : lead.isPrefixOf? (lead ++ t) = some t := by
  induction lead with
  | nil => rfl
  | cons c lead ih =>
    show (if c == c then lead.isPrefixOf? (lead ++ t) else none) = some t
    rw [beq_self_eq_true, if_pos rfl, ih]

theorem isPrefixOf?_cons_of_ne {c d : Char} (h : c ≠ d) (lead t : Text) :
    (c :: lead).isPrefixOf? (d :: t) = none := by
  have hcd : (c == d) = false := by simpa using h
  show (if c == d then lead.isPrefixOf? t else none) = none
  rw [hcd]
  rfl

/-- A text cut at the length of its first part. -/
theorem cutAt?_append (t u : Text) : (t ++ u).cutAt? t.byteLength = some (t, u) := by
  induction t with
  | nil =>
    cases u <;> rfl
  | cons c t ih =>
    obtain ⟨n, hn⟩ : ∃ n, c.utf8Size = n + 1 :=
      Nat.exists_eq_succ_of_ne_zero (Nat.ne_of_gt c.utf8Size_pos)
    have hrest : n + byteLength t + 1 - (n + 1) = byteLength t := by omega
    rw [byteLength_cons, hn, Nat.add_right_comm, List.cons_append, cutAt?, hn,
      if_pos (by omega), hrest, ih]
    rfl

/-! ## Places -/

/-- What is not in a text does not stand in front of it. -/
private theorem length_le_of_append {c : Char} {m n t u v : Text} (ht : c ∉ t) (hm : c ∉ m)
    (h : m ++ c :: u = t ++ n ++ c :: v) (hn : c ∉ n) : m = t ++ n := by
  have htn : c ∉ t ++ n := by simp [ht, hn]
  have htake (a b : Text) (ha : c ∉ a) : (a ++ c :: b).takeWhile (· != c) = a := by
    rw [List.takeWhile_append_of_pos fun d hd => by
      simp only [bne_iff_ne, ne_eq]
      rintro rfl
      exact ha hd]
    simp
  rw [← htake m u hm, h, htake _ v htn]

/-- A text stands first behind a part without one of its characters, when that character does not
stand in what precedes it in the text itself. -/
theorem breakOn?_of_notMem {c : Char} {m n t : Text} (ht : c ∉ t) (hm : c ∉ m) (u : Text) :
    breakOn? (m ++ c :: n) (t ++ ((m ++ c :: n) ++ u)) = some (t, u) := by
  induction t with
  | nil =>
    have hcons : ∃ d rest, (m ++ c :: n) ++ u = d :: rest := by
      cases m <;> exact ⟨_, _, rfl⟩
    obtain ⟨d, rest, hd⟩ := hcons
    have hprefix := isPrefixOf?_append (m ++ c :: n) u
    rw [List.nil_append, hd] at *
    rw [breakOn?, hprefix]
  | cons d t ih =>
    have hnone : (m ++ c :: n).isPrefixOf? (d :: t ++ ((m ++ c :: n) ++ u)) = none := by
      refine Option.eq_none_iff_forall_ne_some.2 fun rest hrest => ?_
      have happ := append_of_isPrefixOf? hrest
      have hlength := length_le_of_append (m := m) (n := m) (u := n ++ rest) (v := n ++ u) ht hm
        (by simpa using happ) hm
      have := congrArg List.length hlength
      simp only [List.length_append, List.length_cons] at this
      omega
    rw [List.cons_append, breakOn?, ← List.cons_append, hnone, ih fun hc => ht (.tail _ hc)]
    rfl

/-- A text without a character holds no text with it. -/
theorem contains_eq_false {c : Char} {needle t : Text} (hc : c ∈ needle) (ht : c ∉ t) :
    contains needle t = false := by
  cases hb : breakOn? needle t with
  | none => simp [contains, hb]
  | some p =>
    have := append_of_breakOn? (a := p.1) (b := p.2) hb
    exact absurd (this ▸ by simp [hc]) ht

theorem breakOn?_eq_none {c : Char} {t : Text} (h : c ∉ t) : breakOn? [c] t = none := by
  have hcontains := contains_eq_false (List.mem_singleton_self c) h
  rwa [contains, Option.isSome_eq_false_iff, Option.isNone_iff_eq_none] at hcontains

theorem breakOnLast?_eq_none {c : Char} {t : Text} (h : c ∉ t) : breakOnLast? c t = none := by
  rw [breakOnLast?, breakOn?_eq_none (by simpa using h)]
  rfl

/-- A separator that does not stand in the second text divides the two. -/
theorem breakOnLast?_append {c : Char} (t : Text) {u : Text} (h : c ∉ u) :
    breakOnLast? c (t ++ c :: u) = some (t, u) := by
  have hbreak : breakOn? [c] (t ++ c :: u).reverse = some (u.reverse, t.reverse) := by
    rw [List.reverse_append, List.reverse_cons, List.append_assoc]
    exact breakOn?_of_notMem (m := []) (n := []) (by simpa using h) nofun t.reverse
  rw [breakOnLast?, hbreak]
  simp

/-- A text holds what stands in it as one piece. -/
theorem contains_eq_true_iff {needle t : Text} : contains needle t = true ↔ needle <:+: t := by
  constructor
  · intro h
    obtain ⟨⟨a, b⟩, hbreak⟩ := Option.isSome_iff_exists.1 h
    exact ⟨a, b, append_of_breakOn? hbreak⟩
  · rintro ⟨a, b, rfl⟩
    induction a with
    | nil =>
      have hprefix := isPrefixOf?_append needle b
      rw [List.nil_append, contains]
      cases hneedle : needle ++ b with
      | nil =>
        obtain ⟨rfl, -⟩ := List.append_eq_nil_iff.1 hneedle
        rfl
      | cons c t =>
        rw [hneedle] at hprefix
        rw [breakOn?, hprefix]
        rfl
    | cons c a ih =>
      rw [List.cons_append, List.cons_append, contains, breakOn?]
      split
      · rfl
      · rwa [Option.isSome_map]

/-- What a text holds stands on one side of any character that it does not hold itself. -/
theorem contains_append_cons {needle : Text} {c : Char} (hc : c ∉ needle) (t u : Text) :
    contains needle (t ++ c :: u) = (contains needle t || contains needle u) := by
  have hnil {l : Text} (hl : l <+: c :: u) (hmem : c ∉ l) : l = [] := by
    rcases List.prefix_cons_iff.1 hl with hl | ⟨k, rfl, -⟩
    · exact hl
    · exact absurd List.mem_cons_self hmem
  rw [Bool.eq_iff_iff, Bool.or_eq_true, contains_eq_true_iff, contains_eq_true_iff,
    contains_eq_true_iff, List.infix_append_iff, List.infix_cons_iff]
  constructor
  · rintro (h | (h | h) | ⟨l₁, l₂, rfl, hl₁, hl₂⟩)
    · exact .inl h
    · exact .inl (hnil h hc ▸ List.nil_infix)
    · exact .inr h
    · rw [hnil hl₂ fun hmem => hc (List.mem_append_right _ hmem), List.append_nil]
      exact .inl hl₁.isInfix
  · rintro (h | h)
    · exact .inl h
    · exact .inr (.inl (.inr h))

/-- What a text does not start with it does not start with when it goes on in another way. -/
theorem isPrefixOf?_append_of_none {needle t u : Text} (h : needle.isPrefixOf? (t ++ u) = none)
    (hlength : needle.length ≤ t.length) (v : Text) : needle.isPrefixOf? (t ++ v) = none := by
  refine Option.eq_none_iff_forall_ne_some.2 fun rest hrest => ?_
  have htake := congrArg (List.take needle.length) (append_of_isPrefixOf? hrest)
  rw [List.take_left, List.take_append_of_le_length hlength] at htake
  have hsplit : needle ++ (t.drop needle.length ++ u) = t ++ u := by
    have hwhole := List.take_append_drop needle.length t
    rw [← htake] at hwhole
    rw [← List.append_assoc, hwhole]
  rw [← hsplit, isPrefixOf?_append] at h
  cases h

/-- A text is divided at the first place where another one stands. -/
theorem breakOn?_eq_some_iff {needle t a b : Text} :
    breakOn? needle t = some (a, b) ↔ a ++ needle ++ b = t ∧
      ∀ a' b', a' ++ needle ++ b' = t → a.length ≤ a'.length := by
  have hfirst {t a b : Text} (h : breakOn? needle t = some (a, b)) (a' b' : Text)
      (h' : a' ++ needle ++ b' = t) : a.length ≤ a'.length := by
    induction t generalizing a a' with
    | nil =>
      have := append_of_breakOn? h
      simp_all
    | cons c t ih =>
      rw [breakOn?] at h
      split at h
      · obtain ⟨rfl, -⟩ := Prod.mk.inj (Option.some.inj h)
        exact Nat.zero_le _
      · next hnone =>
        obtain ⟨⟨x, y⟩, hbreak, heq⟩ := Option.map_eq_some_iff.1 h
        obtain ⟨rfl, rfl⟩ := Prod.mk.inj heq
        cases a' with
        | nil =>
          rw [← h', List.nil_append, isPrefixOf?_append] at hnone
          cases hnone
        | cons d a' => exact Nat.succ_le_succ (ih hbreak a' (List.cons.inj h').2)
  constructor
  · exact fun h => ⟨append_of_breakOn? h, hfirst h⟩
  · rintro ⟨rfl, hleast⟩
    have hfound : contains needle (a ++ needle ++ b) = true := contains_eq_true_iff.2 ⟨a, b, rfl⟩
    obtain ⟨⟨x, y⟩, hbreak⟩ := Option.isSome_iff_exists.1 hfound
    have hsplit := append_of_breakOn? hbreak
    have hlength : x.length = a.length :=
      Nat.le_antisymm (hfirst hbreak a b rfl) (hleast x y hsplit)
    rw [List.append_assoc, List.append_assoc] at hsplit
    obtain ⟨rfl, hrest⟩ := List.append_inj hsplit hlength
    obtain rfl := List.append_cancel_left hrest
    exact hbreak

/-- Where a text first stands does not depend on what follows it there. -/
theorem breakOn?_congr {needle t a b : Text} (h : breakOn? needle t = some (a, b)) (u : Text) :
    breakOn? needle (a ++ needle ++ u) = some (a, u) := by
  induction t generalizing a with
  | nil =>
    cases needle with
    | cons c needle => cases h
    | nil =>
      obtain ⟨rfl, -⟩ := Prod.mk.inj (Option.some.inj h)
      cases u <;> rfl
  | cons c t ih =>
    rw [breakOn?] at h
    split at h
    · obtain ⟨rfl, -⟩ := Prod.mk.inj (Option.some.inj h)
      have hprefix := isPrefixOf?_append needle u
      rw [List.nil_append]
      cases hneedle : needle ++ u with
      | nil =>
        obtain ⟨rfl, rfl⟩ := List.append_eq_nil_iff.1 hneedle
        rfl
      | cons d v =>
        rw [hneedle] at hprefix
        rw [breakOn?, hprefix]
    · next hnone =>
      obtain ⟨⟨x, y⟩, hbreak, heq⟩ := Option.map_eq_some_iff.1 h
      obtain ⟨rfl, rfl⟩ := Prod.mk.inj heq
      have hnone' : needle.isPrefixOf? (c :: x ++ needle ++ u) = none := by
        rw [← append_of_breakOn? hbreak, ← List.cons_append, ← List.cons_append] at hnone
        refine isPrefixOf?_append_of_none hnone ?_ u
        rw [List.length_append]
        exact Nat.le_add_left _ _
      rw [List.cons_append, List.cons_append] at hnone' ⊢
      rw [breakOn?, hnone', ih hbreak]
      rfl

/-- What stands behind a character decides no prefix that ends with it at the latest. -/
theorem isPrefixOf_append_cons {c : Char} {needle : Text} (h : c ∉ needle.dropLast) (t u v : Text) :
    needle.isPrefixOf (t ++ c :: u) = needle.isPrefixOf (t ++ c :: v) := by
  induction needle generalizing t with
  | nil => rfl
  | cons a needle ih =>
    have hrest : needle ≠ [] → a ≠ c ∧ c ∉ needle.dropLast := by
      intro hne
      rw [List.dropLast_cons_of_ne_nil hne, List.mem_cons, not_or] at h
      exact ⟨Ne.symm h.1, h.2⟩
    cases t with
    | nil =>
      by_cases hne : needle = []
      · subst hne
        rfl
      · show (a == c && needle.isPrefixOf u) = (a == c && needle.isPrefixOf v)
        rw [beq_false_of_ne (hrest hne).1, Bool.false_and, Bool.false_and]
    | cons b t =>
      show (a == b && needle.isPrefixOf (t ++ c :: u)) = (a == b && needle.isPrefixOf (t ++ c :: v))
      by_cases hne : needle = []
      · subst hne
        rfl
      · rw [ih (hrest hne).2]

/-- What starts a text and has no separator starts the part in front of one. -/
theorem prefix_append_cons_iff {c : Char} {lead t u : Text} (hc : c ∉ lead) :
    lead <+: t ++ c :: u ↔ lead <+: t := by
  refine ⟨fun h => ?_, fun h => h.trans (List.prefix_append _ _)⟩
  rcases List.prefix_or_prefix_of_prefix h (List.prefix_append t (c :: u)) with hlead | ⟨r, rfl⟩
  · exact hlead
  · have hr : r <+: c :: u := (List.prefix_append_right_inj t).1 h
    cases r with
    | nil => exact ⟨[], by simp⟩
    | cons d r =>
      obtain ⟨rfl, -⟩ := List.cons_prefix_cons.1 hr
      simp at hc

/-! ## Lines -/

/-- What a text may be: empty, ended by a newline or not. -/
theorem ending_cases (t : Text) :
    t = [] ∨ (∃ u, t = u ++ ['\n']) ∨ t ≠ [] ∧ t.getLast? ≠ some '\n' := by
  by_cases hnil : t = []
  · exact .inl hnil
  by_cases hlast : t.getLast? = some '\n'
  · exact .inr (.inl (List.getLast?_eq_some_iff.1 hlast))
  · exact .inr (.inr ⟨hnil, hlast⟩)

/-- The lines around a newline. -/
theorem lines_append (t u : Text) : lines (t ++ '\n' :: u) = lines t ++ lines u :=
  List.splitOn_append_cons_self t u

theorem lines_ne_nil (t : Text) : lines t ≠ [] := List.splitOn_ne_nil '\n' t

/-- What has no newline belongs to the first line of what follows. -/
theorem lines_append_line {t u line : Text} {rest : List Text} (ht : '\n' ∉ t)
    (hu : lines u = line :: rest) : lines (t ++ u) = (t ++ line) :: rest := by
  induction t with
  | nil => exact hu
  | cons c t ih =>
    have hc : c ≠ '\n' := by
      rintro rfl
      exact ht List.mem_cons_self
    rw [lines] at ih ⊢
    rw [List.cons_append, List.splitOn_cons_eq_if_modifyHead, if_neg (by simpa using hc),
      ih fun h => ht (.tail _ h)]
    rfl

theorem lines_of_notMem {t : Text} (ht : '\n' ∉ t) : lines t = [t] :=
  List.splitOn_eq_singleton ht

/-- The lines, each ended by a newline, are the text and a newline. -/
theorem flatMap_lines (t : Text) : (lines t).flatMap (· ++ ['\n']) = t ++ ['\n'] := by
  have hjoin (l : Text) (ls : List Text) :
      (l :: ls).flatMap (· ++ ['\n']) = ['\n'].intercalate (l :: ls) ++ ['\n'] := by
    induction ls generalizing l with
    | nil => simp
    | cons k ls ih =>
      rw [List.flatMap_cons, ih]
      simp [List.intercalate]
  obtain ⟨l, ls, hl⟩ := List.exists_cons_of_ne_nil (lines_ne_nil t)
  rw [hl, hjoin, ← hl, lines, List.intercalate_splitOn]

/-- A text is known from its lines. -/
theorem lines_injective {t u : Text} (h : lines t = lines u) : t = u := by
  have htext := congrArg (List.flatMap (· ++ ['\n'])) h
  rw [flatMap_lines, flatMap_lines] at htext
  exact List.append_cancel_right htext

/-- Lines without newlines are the lines of the text they are joined to. -/
theorem lines_joinLines {ls : List Text} (h : ∀ line ∈ ls, '\n' ∉ line) (hne : ls ≠ []) :
    lines (joinLines ls) = ls :=
  List.splitOn_intercalate '\n' h hne

/-- Lines without newlines, each ended by one, are the first lines of a text. -/
theorem lines_flatMap_append {front : List Text} (h : ∀ line ∈ front, '\n' ∉ line) (t : Text) :
    lines (front.flatMap (· ++ ['\n']) ++ t) = front ++ lines t := by
  induction front with
  | nil => rfl
  | cons line front ih =>
    obtain ⟨hline, hrest⟩ := List.forall_mem_cons.1 h
    rw [List.flatMap_cons, List.append_assoc, List.append_assoc, List.singleton_append,
      lines_append, lines_of_notMem hline, ih hrest, List.singleton_append, List.cons_append]

/-- Lines without newlines, each behind one, are the last lines of a text. -/
theorem lines_append_flatMap (t : Text) {back : List Text} (h : ∀ line ∈ back, '\n' ∉ line) :
    lines (t ++ back.flatMap ('\n' :: ·)) = lines t ++ back := by
  induction back generalizing t with
  | nil => simp
  | cons line back ih =>
    obtain ⟨hline, hrest⟩ := List.forall_mem_cons.1 h
    rw [List.flatMap_cons, ← List.append_assoc, ih _ hrest, lines_append, lines_of_notMem hline,
      List.append_assoc, List.singleton_append]

/-- The lines from number `i` on, a newline between two of them, are the rest of the text. -/
theorem flatMap_take_lines {t line : Text} {rest : List Text} {i : Nat}
    (h : (lines t).drop i = line :: rest) :
    ((lines t).take i).flatMap (· ++ ['\n']) ++ (line ++ rest.flatMap ('\n' :: ·)) = t := by
  have hall := flatMap_lines t
  have hshift (l : Text) (ls : List Text) :
      (l :: ls).flatMap (· ++ ['\n']) = l ++ ls.flatMap ('\n' :: ·) ++ ['\n'] := by
    induction ls generalizing l with
    | nil => simp
    | cons k ls ih =>
      rw [List.flatMap_cons, ih]
      simp
  rw [← List.take_append_drop i (lines t), List.flatMap_append, h, hshift,
    ← List.append_assoc] at hall
  exact List.append_cancel_right hall

/-- The joined lines up to a column of line number `i`. -/
def upTo (ls : List Text) (i : Nat) (column : Text) : Text :=
  (ls.take i).flatMap (· ++ ['\n']) ++ column

/-- The joined lines from the rest of line number `i` on. -/
def fromLine (ls : List Text) (i : Nat) (rest : Text) : Text :=
  rest ++ (ls.drop (i + 1)).flatMap ('\n' :: ·)

/-- The joined lines, divided inside one of them. -/
theorem joinLines_eq {ls : List Text} (h : ∀ line ∈ ls, '\n' ∉ line) {i : Nat} {column rest : Text}
    (hline : ls[i]? = some (column ++ rest)) :
    joinLines ls = upTo ls i column ++ fromLine ls i rest := by
  obtain ⟨hi, hget⟩ := List.getElem?_eq_some_iff.1 hline
  have hlines := lines_joinLines h (List.ne_nil_of_length_pos (Nat.zero_lt_of_lt hi))
  have hdrop : (lines (joinLines ls)).drop i = (column ++ rest) :: ls.drop (i + 1) := by
    rw [hlines, List.drop_eq_getElem_cons hi, hget]
  have hwhole := flatMap_take_lines hdrop
  rw [hlines] at hwhole
  rw [← hwhole, upTo, fromLine]
  simp only [List.append_assoc]

/-- The lines behind the first, each behind a newline, are the rest of the text. -/
theorem append_flatMap_tail {t line : Text} {rest : List Text} (h : lines t = line :: rest) :
    line ++ rest.flatMap ('\n' :: ·) = t :=
  flatMap_take_lines (i := 0) h

/-- A line is a piece of the text. -/
theorem infix_of_mem_lines {t line : Text} (h : line ∈ lines t) : line <:+: t := by
  obtain ⟨i, hi, rfl⟩ := List.getElem_of_mem h
  have hsplit := flatMap_take_lines (List.drop_eq_getElem_cons hi)
  rw [← List.append_assoc] at hsplit
  exact ⟨_, _, hsplit⟩

/-- No line holds what the text does not hold. -/
theorem contains_line_eq_false {needle t line : Text} (ht : contains needle t = false)
    (h : line ∈ lines t) : contains needle line = false := by
  refine Bool.eq_false_iff.2 fun hline => Bool.eq_false_iff.1 ht ?_
  rw [contains_eq_true_iff] at hline ⊢
  exact hline.trans (infix_of_mem_lines h)

/-- The last line of a text. -/
def lastLine (t : Text) : Text := (lines t).getLast?.getD []

theorem lastLine_of_notMem {t : Text} (h : '\n' ∉ t) : lastLine t = t := by
  rw [lastLine, lines_of_notMem h]
  rfl

theorem lastLine_append (t : Text) {line : Text} (h : '\n' ∉ line) :
    lastLine (t ++ '\n' :: line) = line := by
  rw [lastLine, lines_append, lines_of_notMem h, List.getLast?_concat]
  rfl

/-- There is one line more than there are newlines. -/
theorem length_lines (t : Text) : (lines t).length = t.count '\n' + 1 := by
  induction t with
  | nil => rfl
  | cons c t ih =>
    rw [lines] at ih ⊢
    rw [List.splitOn_cons_eq_if_modifyHead]
    by_cases hc : c = '\n'
    · simp [hc, ih]
    · simp [hc, ih]

/-- Lines without newlines, each ended by one, hold as many newlines as they are. -/
theorem count_flatMap_append {front : List Text} {line : Text} (hfront : ∀ l ∈ front, '\n' ∉ l)
    (hline : '\n' ∉ line) : (front.flatMap (· ++ ['\n']) ++ line).count '\n' = front.length := by
  have hlength := length_lines (front.flatMap (· ++ ['\n']) ++ line)
  rw [lines_flatMap_append hfront, lines_of_notMem hline, List.length_append] at hlength
  simpa using hlength.symm

/-- What a piece between separators holds stands in the text and is no separator. -/
theorem mem_of_mem_splitOn {c sep : Char} {t piece : Text} (h : piece ∈ t.splitOn sep)
    (hc : c ∈ piece) : c ∈ t ∧ c ≠ sep := by
  induction t generalizing piece with
  | nil =>
    rw [List.splitOn_nil, List.mem_singleton] at h
    simp [h] at hc
  | cons d t ih =>
    rw [List.splitOn_cons_eq_if_modifyHead] at h
    split at h
    · rcases List.mem_cons.1 h with rfl | h
      · simp at hc
      · exact (ih h hc).imp_left (List.mem_cons_of_mem d)
    · next hd =>
      obtain ⟨first, rest, hsplit⟩ := List.exists_cons_of_ne_nil (List.splitOn_ne_nil sep t)
      rw [hsplit, List.modifyHead_cons] at h
      rw [hsplit] at ih
      rcases List.mem_cons.1 h with rfl | h
      · rcases List.mem_cons.1 hc with rfl | hc
        · exact ⟨List.mem_cons_self, by simpa using hd⟩
        · exact (ih List.mem_cons_self hc).imp_left (List.mem_cons_of_mem d)
      · exact (ih (List.mem_cons_of_mem _ h) hc).imp_left (List.mem_cons_of_mem d)

theorem notMem_of_mem_splitOn {sep : Char} {t piece : Text} (h : piece ∈ t.splitOn sep) :
    sep ∉ piece :=
  fun hsep => (mem_of_mem_splitOn h hsep).2 rfl

theorem newline_notMem_lines (t : Text) : ∀ line ∈ lines t, '\n' ∉ line :=
  fun _ hline => notMem_of_mem_splitOn hline

/-- A text is lines that are ended by newlines, and a last one that is not. -/
theorem exists_eq_flatMap_append (t : Text) : ∃ (front : List Text) (line : Text),
    t = front.flatMap (· ++ ['\n']) ++ line ∧ (∀ l ∈ front, '\n' ∉ l) ∧ '\n' ∉ line := by
  obtain ⟨front, line, hlines⟩ := (List.eq_nil_or_concat (lines t)).resolve_left (lines_ne_nil t)
  rw [List.concat_eq_append] at hlines
  have hnewline (l : Text) (hl : l ∈ front ++ [line]) : '\n' ∉ l :=
    newline_notMem_lines t l (hlines ▸ hl)
  have hdrop : (lines t).drop front.length = [line] := by rw [hlines, List.drop_left]
  have hwhole := flatMap_take_lines hdrop
  rw [hlines, List.take_left, List.flatMap_nil, List.append_nil] at hwhole
  exact ⟨front, line, hwhole.symm, fun l hl => hnewline l (List.mem_append_left _ hl),
    hnewline line (by simp)⟩

/-- The last line is empty when nothing or a newline ends the text. -/
theorem getLast?_lines_eq_nil_iff {t : Text} :
    (lines t).getLast? = some [] ↔ t = [] ∨ t.getLast? = some '\n' := by
  obtain ⟨front, line, rfl, hfront, hline⟩ := exists_eq_flatMap_append t
  have hlast : (lines (front.flatMap (· ++ ['\n']) ++ line)).getLast? = some line := by
    rw [lines_flatMap_append hfront, lines_of_notMem hline, List.getLast?_concat]
  rw [hlast, Option.some_inj]
  by_cases hempty : line = []
  · subst hempty
    refine iff_of_true rfl ?_
    obtain rfl | ⟨init, l, rfl⟩ := List.eq_nil_or_concat front
    · exact .inl rfl
    · exact .inr (by simp)
  · refine iff_of_false hempty ?_
    rintro (hnil | hend)
    · exact hempty (List.append_eq_nil_iff.1 hnil).2
    · obtain ⟨init, c, rfl⟩ := (List.eq_nil_or_concat line).resolve_left hempty
      rw [List.concat_eq_append, ← List.append_assoc, List.getLast?_concat] at hend
      obtain rfl : c = '\n' := Option.some.inj hend
      simp at hline

/-- What pieces with a separator between them hold. -/
theorem mem_intercalate {c sep : Char} {pieces : List Text} (h : c ∈ [sep].intercalate pieces) :
    c = sep ∨ ∃ piece ∈ pieces, c ∈ piece := by
  induction pieces with
  | nil => simp [List.intercalate] at h
  | cons first rest ih =>
    cases rest with
    | nil => exact .inr ⟨first, List.mem_cons_self, by simpa [List.intercalate] using h⟩
    | cons second rest =>
      have hsplit : [sep].intercalate (first :: second :: rest) =
          first ++ sep :: [sep].intercalate (second :: rest) := by
        simp [List.intercalate]
      rw [hsplit, List.mem_append, List.mem_cons] at h
      rcases h with h | rfl | h
      · exact .inr ⟨first, List.mem_cons_self, h⟩
      · exact .inl rfl
      · exact (ih h).imp_right fun ⟨piece, hp, hc⟩ => ⟨piece, List.mem_cons_of_mem _ hp, hc⟩

/-- No line holds a character that the text does not hold. -/
theorem notMem_of_mem_lines {c : Char} {t line : Text} (ht : c ∉ t) (h : line ∈ lines t) :
    c ∉ line :=
  fun hc => ht (mem_of_mem_splitOn h hc).1

end Scaffold.Text
