import Scaffold.Proofs.Yaml.Meaning

/-!
# Strings that are written and read back

A string without quotes has been tried out by the writer, so it is read back.  One between double
quotes is read as its folded form; it may also hold a character that no YAML text may hold, because
only five characters are escaped.

* **What a quoted string means** (`read?_quote`).
* **What survives quotes** (`read?_quote_iff`): `SurvivesQuotes` names the three ways in which a
  string is lost between double quotes.
* **What is read back** (`read?_writeText_iff`): the strings that need no quotes and those that
  survive them, and no others.
-/

namespace Scaffold.Yaml

/-! ## Scanning -/

theorem return_not_mem_escapeChar (c : Char) : '\r' ∉ escapeChar c := by
  rcases escapeChar_cases c with ⟨e, he, -, hprint, -⟩ | ⟨he, -, -, -, hreturn⟩
  · have hne : '\r' ≠ e := by
      rintro rfl
      cases hprint
    simp [he, hne]
  · simpa [he] using hreturn.symm

theorem unifyBreaks_quote (t : Text) :
    unifyBreaks (quote t) = '"' :: (t.flatMap quotedChar ++ ['"']) := by
  have hreturn : '\r' ∉ quote t := by
    simpa [quote] using fun c _ => return_not_mem_escapeChar c
  rw [unifyBreaks_eq_map hreturn, quote, List.cons_append, List.map_cons, List.map_append,
    List.map_flatMap]
  rfl

theorem all_isAllowed_escapeChar (c : Char) : (escapeChar c).all isAllowed = isAllowed c := by
  rcases escapeChar_cases c with ⟨e, he, -, hprint, hc⟩ | ⟨he, -⟩
  · have hallowed : isAllowed c = true := by rcases hc with rfl | rfl | rfl | rfl | rfl <;> rfl
    simp [he, hallowed, isAllowed_of_isPrintable hprint]
    rfl
  · simp [he]

/-- A text may hold a string between double quotes if it may hold the string. -/
theorem all_isAllowed_quote (t : Text) : (quote t).all isAllowed = t.all isAllowed := by
  have hquote : isAllowed '"' = true := rfl
  simp [quote, List.all_flatMap, all_isAllowed_escapeChar, hquote]

theorem Position.line_le_foldl_after (t : Text) (p : Position) :
    p.line ≤ (t.foldl Position.after p).line := by
  induction t generalizing p with
  | nil => exact Nat.le_refl _
  | cons c t ih =>
    refine Nat.le_trans ?_ (ih (p.after c))
    rw [Position.after]
    split
    · exact Nat.le_succ _
    · exact Nat.le_refl _

namespace Scanner

/-- A string between double quotes is scanned as one scalar. -/
theorem tokens?_quotedChar (t : Text) (fuel : Nat) :
    tokens? (fuel + 2) (block true {} ('"' :: (t.flatMap quotedChar ++ ['"'])) [] []) =
      if meetsMarker false t then none else some [.scalar false (folded {} t)] := by
  have hnext : (block true {} ('"' :: (t.flatMap quotedChar ++ ['"'])) [] []).next? =
      some (block true {} ('"' :: (t.flatMap quotedChar ++ ['"'])) [] []) := by
    rw [next?_block (.of_starts ⟨'"', _, rfl, rfl⟩ {})]
    rfl
  have htoken := token?_quotedChar (t := t)
    (s := block true {} ('"' :: (t.flatMap quotedChar ++ ['"'])) [] []) rfl nofun
  rw [tokens?_succ, hnext, Option.bind_some]
  simp only [block] at htoken ⊢
  rw [htoken]
  cases meetsMarker false t with
  | true => rfl
  | false =>
    refine tokens?_end rfl rfl rfl fun k hk => ?_
    obtain rfl := Option.some.inj hk
    exact ⟨rfl, Position.line_le_foldl_after _ (Position.right {} 1)⟩

end Scanner

theorem Token.ofText?_quote (t : Text) :
    ofText? (quote t) =
      if t.all isAllowed && !meetsMarker false t then some [.scalar false (folded {} t)]
      else none := by
  have hlength : ('"' :: (t.flatMap quotedChar ++ ['"'])).length + 1 =
      (t.flatMap quotedChar).length + 1 + 2 := by simp
  rw [ofText?, all_isAllowed_quote, unifyBreaks_quote]
  simp only [hlength]
  cases t.all isAllowed with
  | true =>
    refine (Scanner.tokens?_quotedChar t _).trans ?_
    cases meetsMarker false t <;> rfl
  | false => rfl

/-- A string between double quotes means its folded form, unless it holds a character that no text
may hold, or a document marker behind a line break. -/
theorem read?_quote (t : Text) :
    read? (quote t) =
      if t.all isAllowed && !meetsMarker false t then some (.text (folded {} t)) else none := by
  have htokens := Token.ofText?_quote t
  split at htokens
  · next h => rw [if_pos h, read?_of_single htokens, Value.ofScalar?]; rfl
  · next h => rw [if_neg h, read?, htokens]; rfl

/-! ## Reading back -/

/-- A string that is the same between double quotes. -/
structure SurvivesQuotes (t : Text) : Prop where
  /-- Every character may stand in a YAML text, and is not unified. -/
  allowed : ∀ c ∈ t, isAllowed c = true ∧ c ≠ '\x85'
  /-- No space stands next to a line break. -/
  apart : t.IsChain Apart
  /-- No document marker stands behind a line break. -/
  unmarked : meetsMarker false t = false

/-- A string between double quotes is read back if and only if it survives them. -/
theorem read?_quote_iff {t : Text} : read? (quote t) = some (.text t) ↔ SurvivesQuotes t := by
  rw [read?_quote]
  constructor
  · intro h
    split at h
    · next hread =>
      rw [Bool.and_eq_true, Bool.not_eq_true', List.all_eq_true] at hread
      obtain ⟨hallowed, hmarker⟩ := hread
      obtain ⟨hnext, hapart⟩ := folded_eq_self_iff.1 (Value.text.inj (Option.some.inj h))
      exact ⟨fun c hc => ⟨hallowed c hc, fun heq => hnext (heq ▸ hc)⟩, hapart, hmarker⟩
    · cases h
  · intro ⟨hallowed, hapart, hmarker⟩
    have hnext : '\x85' ∉ t := fun hmem => (hallowed _ hmem).2 rfl
    have hall : t.all isAllowed = true := List.all_eq_true.2 fun c hc => (hallowed c hc).1
    rw [hall, hmarker, folded_eq_self_iff.2 ⟨hnext, hapart⟩]
    rfl

/-- The writer tries out a string before it leaves out the quotes. -/
theorem read?_of_isPlainText {t : Text} (h : isPlainText t = true) : read? t = some (.text t) := by
  have hreads : readsBack t = true := by
    cases t with
    | nil => cases h
    | cons c t =>
      rw [isPlainText, Bool.and_eq_true] at h
      exact h.2
  rw [readsBack] at hreads
  split at hreads
  · next u hu => rw [hu, eq_of_beq hreads]
  · cases hreads

/-- A written string is read back as the same string if and only if it needs no quotes or survives
them. -/
theorem read?_writeText_iff (t : Text) :
    read? (writeText t) = some (.text t) ↔ isPlainText t = true ∨ SurvivesQuotes t := by
  rw [writeText]
  split
  · next h => exact iff_of_true (read?_of_isPlainText h) (.inl h)
  · next h => rw [read?_quote_iff, or_iff_right h]

/-- Not every string is read back: a next line needs quotes, and is read as a space there. -/
theorem not_read?_writeText : ¬∀ t : Text, read? (writeText t) = some (.text t) := by
  intro h
  have hcontrol : isControl '\x85' = true := by decide
  have hwrite : writeText ['a', '\x85', 'b'] = quote ['a', '\x85', 'b'] :=
    if_neg (by simp [isPlainText, needsQuotes, hcontrol])
  have hread := h ['a', '\x85', 'b']
  rw [hwrite, read?_quote_iff] at hread
  exact (hread.allowed '\x85' (by simp)).2 rfl

end Scaffold.Yaml
