import Scaffold.Proofs.Env.Template
import Scaffold.Proofs.Script.Literal.RoundTrip

/-!
# Expressions read back what they write

`Expr.read_render`: an expression is read back from what it is written as, up to the equality of
numbers.  Its number has to be read back as a number, its reference has to name a key that a script
may refer to, and its template has to be in the form that a template is read into (`Expr.Readable`).
-/

namespace Scaffold.Env

open Script

namespace Expr

/-- An expression that is read back from what it is written as. -/
def Readable : Expr → Prop
  | .literal (.number x) => Decimal.isFinite x = true ∧ Literal.ReadsBack x
  | .literal _ => True
  | .reference key => IsReferenceKey key
  | .template parts => Normal parts

/-! ## Pieces -/

theorem isPiece_word {sep : Char} (b : Bool) (hsep : sep.isAlpha = false) :
    IsPiece sep (Text.ofBool b) := by
  have hletter : ∀ c ∈ Text.ofBool b, c.isAlpha = true := by
    cases b <;> decide
  refine .of_plain (by cases b <;> decide) (by cases b <;> decide) (by cases b <;> decide)
    (by cases b <;> decide) fun hmem => ?_
  rw [hletter sep hmem] at hsep
  cases hsep

theorem isPiece_reference {key : Text} (h : IsReferenceKey key) :
    IsPiece ';' (referenceHead ++ key) := by
  have hhead : ∀ c ∈ referenceHead, isPlain c = true ∧ isBlank c = false ∧ c ≠ ';' := by decide
  have hall : ∀ c ∈ referenceHead ++ key, isPlain c = true ∧ isBlank c = false ∧ c ≠ ';' := by
    intro c hc
    rcases List.mem_append.1 hc with hc | hc
    · exact hhead c hc
    · refine ⟨isPlain_of_class (by decide) (h.2 c hc), isBlank_of_isReferenceChar (h.2 c hc), ?_⟩
      rintro rfl
      exact nomatch h.2 _ hc
  have hne : referenceHead ++ key ≠ [] := by
    intro hnil
    exact h.1 (List.append_eq_nil_iff.1 hnil).2
  exact .of_plain hne (fun c hc => (hall c hc).1)
    (fun c hc => (hall c (List.mem_of_mem_head? hc)).2.1)
    (fun c hc => (hall c (List.mem_of_getLast? hc)).2.1) fun hc => (hall _ hc).2.2 rfl

/-- What an expression is written as may stand between semicolons. -/
theorem isPiece_render {e : Expr} (h : e.Readable) : IsPiece ';' e.render := by
  match e, h with
  | .literal (.string t), _ => exact .quoted t
  | .literal (.number x), h => exact Literal.isPiece_number rfl (Decimal.isNumberText_scriptText h.1)
  | .literal (.boolean b), _ => exact isPiece_word b rfl
  | .reference key, h => exact isPiece_reference h
  | .template parts, h => exact .between rfl (quotedBody_template h)

/-! ## Reading -/

theorem templateInner?_cons_of_ne {c : Char} (h : c ≠ '`') (t : Text) :
    templateInner? (c :: t) = none := by
  unfold templateInner?
  split
  · next heq => exact absurd (List.cons.inj heq).1 h
  · rfl

theorem referenceKey?_cons_of_ne {c : Char} (h : c ≠ 'e') (t : Text) :
    referenceKey? (c :: t) = none := by
  have hprefix : referenceHead.isPrefixOf? (c :: t) = none :=
    Text.isPrefixOf?_cons_of_ne (Ne.symm h) _ t
  rw [referenceKey?, hprefix]
  rfl

/-- A text that starts neither like a template nor like a reference is read as a literal. -/
theorem read_of_head {t : Text} (htrim : trimCode t = t)
    (hhead : ∀ c ∈ t.head?, c ≠ '`' ∧ c ≠ 'e') :
    read t =
      match Literal.read {} t with
      | .string t => .ok (.literal (.string t))
      | .number x => .ok (.literal (.number x))
      | .boolean b => .ok (.literal (.boolean b))
      | _ => .error (.expression t) := by
  have hforms : templateInner? t = none ∧ referenceKey? t = none := by
    cases t with
    | nil => exact ⟨rfl, rfl⟩
    | cons c t =>
      obtain ⟨htick, hletter⟩ := hhead c rfl
      exact ⟨templateInner?_cons_of_ne htick t, referenceKey?_cons_of_ne hletter t⟩
  cases hread : Literal.read {} t <;> simp only [read, htrim, hforms, hread]

theorem read_reference {key : Text} (h : IsReferenceKey key) :
    read (referenceHead ++ key) = .ok (.reference key) := by
  have htemplate : templateInner? (referenceHead ++ key) = none := rfl
  rw [read, (isPiece_reference h).trimmed]
  simp only [htemplate, referenceKey?_append h]

theorem read_template {parts : List TemplatePart} (h : Normal parts) :
    read (Expr.template parts).render = .ok (.template parts) := by
  have htrim : trimCode (Expr.template parts).render = (Expr.template parts).render :=
    (isPiece_render (e := .template parts) h).trimmed
  have hinner : templateInner? (Expr.template parts).render =
      some (parts.flatMap TemplatePart.render) := by
    simp [Expr.render, templateInner?]
  rw [read, htrim]
  simp only [hinner, readTemplate_render h]
  rfl

/-- An expression is read back from what it is written as. -/
theorem read_render {e : Expr} (h : e.Readable) :
    ∃ e', read e.render = .ok e' ∧ (e' == e) = true := by
  have htrim := (isPiece_render h).trimmed
  match e, h with
  | .literal (.string t), _ =>
    have hread : Literal.read {} (quoted t) = .string t := Literal.read_quoted rfl
    have hhead : ∀ c ∈ (quoted t).head?, c ≠ '`' ∧ c ≠ 'e' := by
      rintro _ ⟨⟩
      decide
    refine ⟨.literal (.string t), ?_, beq_self_eq_true t⟩
    change trimCode (quoted t) = quoted t at htrim
    change read (quoted t) = _
    rw [read_of_head htrim hhead, hread]
  | .literal (.number x), h =>
    have hnumber := Literal.readsAs_number h.1 h.2 Vocabulary.sound_empty
    obtain ⟨y, hy, hyx⟩ := Literal.eq_number_of_beq hnumber.equal
    have hhead : ∀ c ∈ (Decimal.scriptText x).head?, c ≠ '`' ∧ c ≠ 'e' := by
      intro c hc
      have := (Decimal.isNumberText_scriptText h.1).2 c (List.mem_of_mem_head? hc)
      constructor <;> rintro rfl <;> cases this
    refine ⟨.literal (.number y), ?_, hyx⟩
    change trimCode (Decimal.scriptText x) = Decimal.scriptText x at htrim
    change read (Decimal.scriptText x) = _
    rw [read_of_head htrim hhead, hy]
  | .literal (.boolean b), _ =>
    have hread : Literal.read {} (Text.ofBool b) = .boolean b :=
      Literal.read_of_word htrim (by cases b <;> rfl)
    refine ⟨.literal (.boolean b), ?_, beq_self_eq_true b⟩
    change trimCode (Text.ofBool b) = Text.ofBool b at htrim
    change read (Text.ofBool b) = _
    rw [read_of_head htrim (by cases b <;> decide), hread]
  | .reference key, h => exact ⟨.reference key, read_reference h, beq_self_eq_true key⟩
  | .template parts, h => exact ⟨.template parts, read_template h, beq_self_eq_true parts⟩

end Expr

end Scaffold.Env
