import Scaffold.Env.Expr
import Scaffold.Proofs.Script.Pieces
import Scaffold.Proofs.Text.Search

/-!
# Templates read back what they write

The pieces that a template is read into are in normal form: no text is empty, no two texts stand
side by side, and references have keys that a script may refer to (`normal_of_readTemplate`).
Pieces in that form are read back from what they are written as (`readTemplate_render`), and what
they are written as may stand between backticks (`quotedBody_template`).
-/

namespace Scaffold.Env

open Script

/-- A key that a script may refer to. -/
def IsReferenceKey (key : Text) : Prop := key ≠ [] ∧ ∀ c ∈ key, isReferenceChar c = true

/-- Pieces as a template is read into. -/
inductive Normal : List TemplatePart → Prop
  | nil : Normal []
  | reference {key : Text} {parts : List TemplatePart} (hkey : IsReferenceKey key)
    (h : Normal parts) : Normal (.reference key :: parts)
  | text {t : Text} {parts : List TemplatePart} (ht : t ≠ []) (h : Normal parts)
    (hnext : ∀ u, parts.head? ≠ some (.text u)) : Normal (.text t :: parts)

/-! ## Keys -/

theorem isReferenceChar_cases {c : Char} (h : isReferenceChar c = true) :
    c.isAlphanum = true ∨ c = '_' := by
  simpa [isReferenceChar] using h

theorem isBlank_of_isReferenceChar {c : Char} (h : isReferenceChar c = true) :
    isBlank c = false := by
  rcases isReferenceChar_cases h with h | rfl
  · exact isBlank_of_isAlphanum h
  · rfl

theorem isReferenceKey_of_referenceKey? {t key : Text} (h : referenceKey? t = some key) :
    IsReferenceKey key := by
  obtain ⟨-, hkey⟩ := Option.filter_eq_some_iff.1 h
  simpa [IsReferenceKey] using hkey

/-- The key of a reference is read back. -/
theorem referenceKey?_append {key : Text} (h : IsReferenceKey key) :
    referenceKey? (referenceHead ++ key) = some key := by
  have hkey : (!key.isEmpty && key.all isReferenceChar) = true := by
    simpa [IsReferenceKey] using h
  rw [referenceKey?, Text.isPrefixOf?_append, Option.filter_some, if_pos hkey]

/-! ## Reading pieces -/

/-- An escape stands for one character. -/
theorem readTemplate_escape (c : Char) (t : Text) :
    readTemplate ('\\' :: c :: t) = (readTemplate t).map (consChar (unescapeTemplate c)) := by
  rw [readTemplate]
  rfl

/-- A character that starts no escape and no reference stands for itself. -/
theorem readTemplate_cons {c : Char} {t : Text} (hslash : c ≠ '\\') (htick : c ≠ '`')
    (hopen : c = '$' → t.head? ≠ some '\x7b') :
    readTemplate (c :: t) = (readTemplate t).map (consChar c) := by
  rw [readTemplate]
  · rfl
  · exact fun hc _ => hslash hc
  · exact fun _ _ hc _ => hslash hc
  · exact htick
  · rintro u hc rfl
    exact hopen hc rfl

/-- What follows an opening brace is the inside of a reference. -/
theorem readTemplate_open (t : Text) :
    readTemplate ('$' :: '\x7b' :: t) =
      match breakAt? (· == '\x7d') t with
      | none => .error .openInterpolation
      | some (inner, _, rest) =>
        match referenceKey? (Text.trim inner) with
        | none => .error (.interpolation inner)
        | some key => (readTemplate rest).map (.reference key :: ·) := by
  rw [readTemplate]
  split
  · next hnone => rw [hnone]
  · next hsome =>
    rw [hsome]
    rfl

/-- A reference is read up to its brace. -/
theorem readTemplate_reference {key : Text} (h : IsReferenceKey key) (t : Text) :
    readTemplate ((TemplatePart.reference key).render ++ t) =
      (readTemplate t).map (.reference key :: ·) := by
  have hinner : ∀ c ∈ referenceHead ++ key, isBlank c = false ∧ (c == '\x7d') = false := by
    intro c hc
    rcases List.mem_append.1 hc with hc | hc
    · exact (by decide : ∀ c ∈ referenceHead, isBlank c = false ∧ (c == '\x7d') = false) c hc
    · refine ⟨isBlank_of_isReferenceChar (h.2 c hc), beq_eq_false_iff_ne.2 ?_⟩
      rintro rfl
      exact nomatch h.2 _ hc
  have hbreak : breakAt? (· == '\x7d') (referenceHead ++ key ++ '\x7d' :: t) =
      some (referenceHead ++ key, '\x7d', t) :=
    breakAt?_append (fun c hc => (hinner c hc).2) rfl t
  have htrim : Text.trim (referenceHead ++ key) = referenceHead ++ key :=
    Text.trim_of_notBlank fun c hc => (hinner c hc).1
  have hsplit : (TemplatePart.reference key).render ++ t =
      '$' :: '\x7b' :: (referenceHead ++ key ++ '\x7d' :: t) := by
    simp [TemplatePart.render]
  have hkey : referenceKey? (Text.trim (referenceHead ++ key)) = some key := by
    rw [htrim, referenceKey?_append h]
  rw [hsplit, readTemplate_open, hbreak]
  simp only [hkey]

/-! ## Reading texts -/

/-- The first character of an escaped text is a backslash or that of the text. -/
theorem head?_escapeTemplate_append {t u : Text} (ht : t.head? ≠ some '\x7b')
    (hu : u.head? ≠ some '\x7b') : (escapeTemplate t ++ u).head? ≠ some '\x7b' := by
  unfold escapeTemplate
  split
  · exact hu
  iterate 5 simp
  · exact ht

/-- An escaped text is read as its characters. -/
theorem readTemplate_escapeTemplate (t : Text) {u : Text} (hu : u.head? ≠ some '\x7b') :
    readTemplate (escapeTemplate t ++ u) = (readTemplate u).map fun parts => t.foldr consChar parts := by
  have hmap (c : Char) (t : Text) (x : Except Flaw (List TemplatePart)) :
      (x.map fun parts => t.foldr consChar parts).map (consChar c) =
        x.map fun parts => (c :: t).foldr consChar parts := by
    cases x <;> rfl
  fun_induction escapeTemplate t with
  | case1 =>
    show readTemplate u = (readTemplate u).map fun parts => parts
    cases readTemplate u <;> rfl
  | case2 t ih => rw [List.cons_append, List.cons_append, readTemplate_escape, ih, hmap]; rfl
  | case3 t ih => rw [List.cons_append, List.cons_append, readTemplate_escape, ih, hmap]; rfl
  | case4 t ih => rw [List.cons_append, List.cons_append, readTemplate_escape, ih, hmap]; rfl
  | case5 t ih => rw [List.cons_append, List.cons_append, readTemplate_escape, ih, hmap]; rfl
  | case6 t ih => rw [List.cons_append, List.cons_append, readTemplate_escape, ih, hmap]; rfl
  | case7 c t hslash htick _ _ hopen ih =>
    rw [List.cons_append, readTemplate_cons hslash htick, ih, hmap]
    rintro rfl
    refine head?_escapeTemplate_append ?_ hu
    intro hhead
    obtain ⟨u, rfl⟩ := List.head?_eq_some_iff.1 hhead
    exact hopen u rfl rfl

/-- The characters of a text in front of pieces that start with no text are one text. -/
theorem foldr_consChar {t : Text} (ht : t ≠ []) {parts : List TemplatePart}
    (hnext : ∀ u, parts.head? ≠ some (.text u)) : t.foldr consChar parts = .text t :: parts := by
  induction t with
  | nil => exact absurd rfl ht
  | cons c t ih =>
    by_cases hnil : t = []
    · subst hnil
      show consChar c parts = _
      unfold consChar
      split
      · next u rest => exact absurd rfl (hnext u)
      · rfl
    · rw [List.foldr_cons, ih hnil]
      rfl

/-- Pieces in normal form are read back. -/
theorem readTemplate_render {parts : List TemplatePart} (h : Normal parts) :
    readTemplate (parts.flatMap TemplatePart.render) = .ok parts := by
  induction h with
  | nil => rw [List.flatMap_nil, readTemplate]
  | reference hkey _ ih =>
    rw [List.flatMap_cons, readTemplate_reference hkey, ih]
    rfl
  | @text t parts ht h hnext ih =>
    have hhead : (parts.flatMap TemplatePart.render).head? ≠ some '\x7b' := by
      cases h with
      | nil => simp
      | reference => simp [TemplatePart.render]
      | text => exact absurd rfl (hnext _)
    rw [List.flatMap_cons, TemplatePart.render, readTemplate_escapeTemplate t hhead, ih]
    exact congrArg Except.ok (foldr_consChar ht hnext)

/-! ## Normal form -/

theorem Normal.consChar (c : Char) {parts : List TemplatePart} (h : Normal parts) :
    Normal (Env.consChar c parts) := by
  cases h with
  | nil => exact .text (by simp) .nil (by simp)
  | reference hkey h => exact .text (by simp) (.reference hkey h) (by simp)
  | text ht h hnext => exact .text (by simp) h hnext

/-- What a template is read into is in normal form. -/
theorem normal_of_readTemplate {t : Text} {parts : List TemplatePart}
    (h : readTemplate t = .ok parts) : Normal parts := by
  have hbind {x : Except Flaw (List TemplatePart)} {f : List TemplatePart → List TemplatePart}
      {parts : List TemplatePart} (hx : x.map f = .ok parts)
      (hnormal : ∀ parts, x = .ok parts → Normal (f parts)) : Normal parts := by
    cases x with
    | error e => cases hx
    | ok a => exact Except.ok.inj hx ▸ hnormal a rfl
  induction t using readTemplate.induct generalizing parts with
  | case1 =>
    rw [readTemplate] at h
    exact Except.ok.inj h ▸ .nil
  | case2 =>
    rw [readTemplate] at h
    cases h
  | case3 c t ih =>
    rw [readTemplate_escape] at h
    exact hbind h fun parts hp => (ih hp).consChar _
  | case4 =>
    rw [readTemplate] at h
    cases h
  | case5 t hbreak =>
    rw [readTemplate_open, hbreak] at h
    cases h
  | case6 t inner c rest hbreak hkey =>
    rw [readTemplate_open, hbreak] at h
    simp only [hkey] at h
    cases h
  | case7 t inner c rest hbreak key hkey ih =>
    rw [readTemplate_open, hbreak] at h
    simp only [hkey] at h
    exact hbind h fun parts hp => .reference (isReferenceKey_of_referenceKey? hkey) (ih hp)
  | case8 c t h₁ h₂ h₃ h₄ ih =>
    have hslash : c ≠ '\\' := by
      rintro rfl
      cases t with
      | nil => exact h₁ rfl rfl
      | cons d t => exact h₂ d t rfl rfl
    rw [readTemplate_cons hslash h₃] at h
    · exact hbind h fun parts hp => (ih hp).consChar _
    · rintro rfl hhead
      obtain ⟨u, rfl⟩ := List.head?_eq_some_iff.1 hhead
      exact h₄ u rfl rfl

/-! ## Quoting -/

theorem quotedBody_escapeTemplate (t : Text) : QuotedBody '`' (escapeTemplate t) := by
  fun_induction escapeTemplate t with
  | case1 => exact .nil
  | case2 t ih => exact .escape _ ih
  | case3 t ih => exact .escape _ ih
  | case4 t ih => exact .escape _ ih
  | case5 t ih => exact .escape _ ih
  | case6 t ih => exact .escape _ ih
  | case7 c t hslash htick _ _ _ ih => exact .char hslash htick ih

/-- What pieces are written as may stand between backticks. -/
theorem quotedBody_template {parts : List TemplatePart} (h : Normal parts) :
    QuotedBody '`' (parts.flatMap TemplatePart.render) := by
  induction h with
  | nil => exact .nil
  | @reference key parts hkey _ ih =>
    rw [List.flatMap_cons]
    refine .append (.of_all fun c hc => ?_) ih
    have hc : c ∈ "$\x7benv.".toList ∨ isReferenceChar c = true ∨ c = '\x7d' := by
      have hmem : c ∈ "$\x7b".toList ++ referenceHead ++ key ++ ['\x7d'] := hc
      simp only [List.mem_append, List.mem_singleton] at hmem
      rcases hmem with (hmem | hmem) | hmem
      · exact .inl (List.mem_append.2 hmem)
      · exact .inr (.inl (hkey.2 c hmem))
      · exact .inr (.inr hmem)
    rcases hc with hc | hc | rfl
    · exact (by decide : ∀ c ∈ "$\x7benv.".toList, c ≠ '\\' ∧ c ≠ '`') c hc
    · constructor <;> rintro rfl <;> cases hc
    · decide
  | text _ _ _ ih =>
    rw [List.flatMap_cons]
    exact (quotedBody_escapeTemplate _).append ih

end Scaffold.Env
