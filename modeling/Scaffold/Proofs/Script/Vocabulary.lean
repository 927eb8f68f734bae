import Mathlib.Data.List.Induction
import Scaffold.Script.Literal.Printer

/-!
# Vocabularies that can be read back

A vocabulary keeps its pairs twice, by string and by source.  What is read from a source is always
written as that source again (`faithful_ofList`): this holds of no pairs, and a further pair takes
from the table by source whatever it changes in the other one.

The other way round a pair may lose its source to another string.  A string is what its source is
read as exactly when no later pair touches the source (`text?_ofList_last_iff`), so the two tables
say the same when at no time two strings had the same source (`ofList_consistent`).
-/

namespace Scaffold.Script.Vocabulary

/-- No two strings have the same source. -/
def Injective (v : Vocabulary) : Prop :=
  ∀ t u s, v.source? t = some s → v.source? u = some s → t = u

/-- A source stands for the string that has it. -/
def Consistent (v : Vocabulary) : Prop := ∀ s t, v.text? s = some t ↔ v.source? t = some s

/-- A source stands for no string but one that has it. -/
def Faithful (v : Vocabulary) : Prop := ∀ s t, v.text? s = some t → v.source? t = some s

/-! ## One more pair -/

/-- The strings by source after a further pair. -/
theorem text?_insert (v : Vocabulary) (text source s : Text) :
    (v.insert text source).text? s =
      if s = source then some text
      else if v.source? text = some s then none else v.text? s := by
  unfold Vocabulary.text?
  by_cases hs : s = source
  · simp [insert, Table.lookup_insert, hs]
  · cases hsource : v.source? text with
    | some previous =>
      have hl : v.byText.lookup text = some previous := hsource
      by_cases hp : s = previous
      · simp [insert, Table.lookup_insert, Table.lookup_erase, hl, hp]
      · simp [insert, Table.lookup_insert, Table.lookup_erase, hl, hs, hp, Ne.symm hp]
    | none =>
      have hl : v.byText.lookup text = none := hsource
      simp [insert, Table.lookup_insert, hl, hs]

/-- A source stays with a string when a pair of another string neither takes the source nor gives it
up. -/
theorem text?_insert_eq_some_iff {v : Vocabulary} {text source s t : Text} (hne : text ≠ t) :
    (v.insert text source).text? s = some t ↔
      (source ≠ s ∧ v.source? text ≠ some s) ∧ v.text? s = some t := by
  rw [text?_insert]
  split
  · next hs => simp [hs, hne]
  split
  · next hgiven => simp [hgiven]
  · next hs hgiven => simp [Ne.symm hs, hgiven]

/-- A further pair keeps a vocabulary faithful. -/
theorem Faithful.insert {v : Vocabulary} (h : v.Faithful) (text source : Text) :
    (v.insert text source).Faithful := by
  intro s t ht
  rw [text?_insert] at ht
  rw [source?_insert]
  split at ht
  · next hs =>
    obtain rfl := Option.some.inj ht
    rw [if_pos (beq_self_eq_true text), hs]
  split at ht
  · cases ht
  · next hgiven =>
    -- the source would have been given up if it were the one of the string that gets another
    have hsource := h s t ht
    have hne : t ≠ text := by
      rintro rfl
      exact hgiven hsource
    rwa [if_neg (by simpa using hne)]

/-! ## Any pairs -/

theorem ofList_concat (pairs : List (Text × Text)) (text source : Text) :
    ofList (pairs ++ [(text, source)]) = (ofList pairs).insert text source := by
  simp [ofList]

/-- Every vocabulary is faithful. -/
theorem faithful_ofList (pairs : List (Text × Text)) : (ofList pairs).Faithful := by
  induction pairs using List.reverseRecOn with
  | nil => exact fun s t ht => nomatch ht
  | append_singleton pairs p ih =>
    rw [ofList_concat]
    exact ih.insert p.1 p.2

/-- The last pair of a string counts. -/
theorem source?_ofList (pairs : List (Text × Text)) (t : Text) :
    (ofList pairs).source? t = pairs.reverse.lookup t := by
  induction pairs using List.reverseRecOn with
  | nil => rfl
  | append_singleton pairs p ih =>
    rw [ofList_concat, source?_insert, ih, List.reverse_append, List.reverse_singleton,
      List.singleton_append, List.lookup_cons]
    cases t == p.1 <;> rfl

theorem source?_ofList_eq_some_iff {pairs : List (Text × Text)} {s t : Text} :
    (ofList pairs).source? t = some s ↔
      ∃ before after, pairs = before ++ (t, s) :: after ∧ ∀ p ∈ after, p.1 ≠ t := by
  rw [source?_ofList, List.lookup_eq_some_iff]
  constructor
  · rintro ⟨later, earlier, hsplit, hne⟩
    refine ⟨earlier.reverse, later.reverse, ?_, fun p hp => Ne.symm ?_⟩
    · rw [← List.reverse_inj, hsplit]
      simp
    · simpa using hne p (List.mem_reverse.1 hp)
  · rintro ⟨before, after, rfl, hne⟩
    refine ⟨after.reverse, before.reverse, by simp, fun p hp => ?_⟩
    simpa using Ne.symm (hne p (List.mem_reverse.1 hp))

/-- Every source comes from one of the pairs. -/
theorem mem_of_source?_ofList {pairs : List (Text × Text)} {t s : Text}
    (h : (ofList pairs).source? t = some s) : (t, s) ∈ pairs := by
  obtain ⟨before, after, rfl, -⟩ := source?_ofList_eq_some_iff.1 h
  exact List.mem_append_right _ List.mem_cons_self

/-- Pairs that neither give a source to a string nor another one to a string that has it do not
change which strings have the source. -/
theorem source?_ofList_append_iff {before after : List (Text × Text)} {s : Text}
    (h : ∀ p ∈ after, p.2 ≠ s ∧ (ofList before).source? p.1 ≠ some s) (t : Text) :
    (ofList (before ++ after)).source? t = some s ↔ (ofList before).source? t = some s := by
  rw [source?_ofList (before ++ after), List.reverse_append, List.lookup_append]
  cases hlater : after.reverse.lookup t with
  | none => rw [Option.none_or, source?_ofList]
  | some u =>
    have hmem : (t, u) ∈ after := mem_of_source?_ofList ((source?_ofList after t).trans hlater)
    obtain ⟨hne, hgiven⟩ := h _ hmem
    simp only [Option.some_or, Option.some.injEq, hne, hgiven]

/-- A source stays with a string as long as the pairs of other strings neither take the source nor
give it up. -/
theorem text?_ofList_append_iff {before after : List (Text × Text)} {s t : Text}
    (h : (ofList before).text? s = some t) (hne : ∀ p ∈ after, p.1 ≠ t) :
    (ofList (before ++ after)).text? s = some t ↔
      ∀ p ∈ after, p.2 ≠ s ∧ (ofList before).source? p.1 ≠ some s := by
  induction after using List.reverseRecOn with
  | nil => simpa using h
  | append_singleton after p ih =>
    obtain ⟨hafter, hp⟩ := List.forall_mem_append.1 hne
    rw [← List.append_assoc, ofList_concat, text?_insert_eq_some_iff (hp p List.mem_cons_self),
      ih hafter, List.forall_mem_append, List.forall_mem_singleton, and_comm]
    refine and_congr_right fun hkept => and_congr_right fun _ => not_congr ?_
    exact source?_ofList_append_iff hkept p.1

/-- The source of a string stands for it when no pair behind its last one touches the source. -/
theorem text?_ofList_last_iff {before after : List (Text × Text)} {s t : Text}
    (hne : ∀ p ∈ after, p.1 ≠ t) :
    (ofList (before ++ (t, s) :: after)).text? s = some t ↔
      ∀ p ∈ after, p.2 ≠ s ∧ (ofList before).source? p.1 ≠ some s := by
  have hread : (ofList (before ++ [(t, s)])).text? s = some t := by
    rw [ofList_concat, text?_insert, if_pos rfl]
  rw [List.append_cons, text?_ofList_append_iff hread hne]
  refine forall₂_congr fun p hp => ?_
  rw [ofList_concat, source?_insert, if_neg (by simpa using hne p hp)]

/-! ## Sources that are shared by no strings -/

/-- The tables of a vocabulary are consistent when at no time two strings had the same source. -/
theorem ofList_consistent {pairs : List (Text × Text)}
    (h : ∀ early, early <+: pairs → (ofList early).Injective) : (ofList pairs).Consistent := by
  intro s t
  refine ⟨faithful_ofList pairs s t, fun hsource => ?_⟩
  obtain ⟨before, after, rfl, hne⟩ := source?_ofList_eq_some_iff.1 hsource
  refine (text?_ofList_last_iff hne).2 fun p hp => ⟨?_, fun hgiven => ?_⟩
  · rintro rfl
    obtain ⟨front, back, rfl⟩ := List.append_of_mem hp
    have hearly : before ++ (t, p.2) :: front ++ [p] <+: before ++ (t, p.2) :: (front ++ p :: back) :=
      ⟨back, by simp⟩
    have hold : (ofList (before ++ (t, p.2) :: front ++ [p])).source? t = some p.2 :=
      source?_ofList_eq_some_iff.2 ⟨before, front ++ [p], by simp, fun q hq => hne q (by
        simp only [List.mem_append, List.mem_singleton] at hq
        simp only [List.mem_append, List.mem_cons]
        tauto)⟩
    have hnew : (ofList (before ++ (t, p.2) :: front ++ [p])).source? p.1 = some p.2 := by
      rw [ofList_concat, source?_insert, if_pos (beq_self_eq_true p.1)]
    exact hne p hp (h _ hearly _ _ _ hnew hold)
  · have hearly : before ++ [(t, s)] <+: before ++ (t, s) :: after := ⟨after, by simp⟩
    have hold : (ofList (before ++ [(t, s)])).source? p.1 = some s := by
      rw [ofList_concat, source?_insert, if_neg (by simpa using hne p hp), hgiven]
    have hnew : (ofList (before ++ [(t, s)])).source? t = some s := by
      rw [ofList_concat, source?_insert, if_pos (beq_self_eq_true t)]
    exact hne p hp (h _ hearly _ _ _ hold hnew)

/-- Pairs whose strings have sources of their own make no source ambiguous at any time. -/
theorem injective_of_prefix {pairs early : List (Text × Text)}
    (h : ∀ p ∈ pairs, ∀ q ∈ pairs, p.2 = q.2 → p.1 = q.1) (he : early <+: pairs) :
    (ofList early).Injective := by
  intro t u s ht hu
  have htmem := he.subset (mem_of_source?_ofList ht)
  have humem := he.subset (mem_of_source?_ofList hu)
  exact h _ htmem _ humem rfl

/-! ## Sources that are read and written -/

/-- What is read from a source is written as the source again, and the source of a string is the one
of its last pair. -/
theorem text?_writes_back (pairs : List (Text × Text)) :
    (∀ s t, (ofList pairs).text? s = some t →
      (ofList pairs).source? t = some s ∧
        ∀ n, (Literal.string t).print (ofList pairs) n = .ok s) ∧
      ∀ t, (ofList pairs).source? t = pairs.reverse.lookup t := by
  refine ⟨fun s t htext => ?_, source?_ofList pairs⟩
  have hsource := faithful_ofList pairs s t htext
  refine ⟨hsource, fun n => ?_⟩
  rw [Literal.print, hsource]
  rfl

/-- Two strings with one source, the first of which gets another one. -/
def sharedPairs : List (Text × Text) := [("a", "X"), ("b", "X"), ("a", "Y"), ("c", "Z")]

theorem text?_writes_back_shared :
    (ofList sharedPairs).text? "Y" = some "a".toList ∧
      ((ofList sharedPairs).source? "a" = some "Y".toList ∧
        ∀ n, (Literal.string "a").print (ofList sharedPairs) n = .ok "Y".toList) ∧
      (ofList sharedPairs).source? "b" = sharedPairs.reverse.lookup "b".toList := by
  have htext : (ofList sharedPairs).text? "Y" = some "a".toList := by decide
  exact ⟨htext, (text?_writes_back sharedPairs).1 _ _ htext, (text?_writes_back sharedPairs).2 _⟩

/-- A string with a source is what the source is read as if and only if, behind the last pair of the
string, no pair gives the source to another string, or another source to a string that had it. -/
theorem source?_reads_back_iff {pairs : List (Text × Text)} {s t : Text}
    (h : (ofList pairs).source? t = some s) :
    (ofList pairs).text? s = some t ↔
      ∃ before after, pairs = before ++ (t, s) :: after ∧
        ∀ p ∈ after, p.1 ≠ t ∧ p.2 ≠ s ∧ (ofList before).source? p.1 ≠ some s := by
  constructor
  · intro htext
    obtain ⟨before, after, rfl, hne⟩ := source?_ofList_eq_some_iff.1 h
    rw [text?_ofList_last_iff hne] at htext
    exact ⟨before, after, rfl, fun p hp => ⟨hne p hp, htext p hp⟩⟩
  · rintro ⟨before, after, rfl, hkept⟩
    exact (text?_ofList_last_iff fun p hp => (hkept p hp).1).2 fun p hp => (hkept p hp).2

theorem source?_reads_back_iff_shared :
    (ofList sharedPairs).source? "a" = some "Y".toList ∧
      ((ofList sharedPairs).text? "Y" = some "a".toList ↔
        ∃ before after, sharedPairs = before ++ ("a".toList, "Y".toList) :: after ∧
          ∀ p ∈ after, p.1 ≠ "a".toList ∧ p.2 ≠ "Y".toList ∧
            (ofList before).source? p.1 ≠ some "Y".toList) := by
  have hsource : (ofList sharedPairs).source? "a" = some "Y".toList := by decide
  exact ⟨hsource, source?_reads_back_iff hsource⟩

/-- A string may have a source that is no longer read as any string. -/
theorem not_source?_reads_back_always :
    ¬ ∀ (pairs : List (Text × Text)) (s t : Text),
      (ofList pairs).source? t = some s → (ofList pairs).text? s = some t := by
  intro h
  have hread := h sharedPairs "X" "b" (by decide)
  exact absurd hread (by decide)

end Scaffold.Script.Vocabulary
