import Scaffold.Document
import Scaffold.Proofs.Text.Occurrence

/-!
# Mutations of a document

The edits of a document in memory as data (`Mutation`), so that sequences of them can be spoken of:
one that does not fit is refused and leaves the document as it is.

`replaceOnce_replaces` says when a text is replaced.  The occurrences are counted without overlaps,
so a text is replaced when no occurrence lies behind the end of the first one; this is when it
stands in the document at one position exactly for the texts that do not overlap themselves.
-/

namespace Scaffold.Document

/-! ## Edits as data -/

/-- An edit of a document in memory. -/
inductive Mutation where
  | setContent (content : Text)
  | appendLines (new : List Text)
  | prependLines (new : List Text)
  | insertLines (index : Nat) (new : List Text)
  | replaceLines (start stop : Nat) (new : List Text)
  | replaceOnce (exact replacement : Text)
  | spliceText (offset length : Nat) (replacement : Text)
  deriving DecidableEq, Repr

namespace Mutation

/-- The document that an edit leads to, or why it does not fit. -/
def run (d : Document) : Mutation → Except Fault Document
  | setContent content => .ok (d.setContent content)
  | appendLines new => .ok (d.appendLines new).2
  | prependLines new => .ok (d.prependLines new).2
  | insertLines index new => d.insertLines index new
  | replaceLines start stop new => d.replaceLines start stop new
  | replaceOnce exact replacement => d.replaceOnce exact replacement
  | spliceText offset length replacement => d.spliceText offset length replacement

/-- The document after an edit; one that does not fit changes nothing. -/
def apply (d : Document) (m : Mutation) : Document :=
  match m.run d with
  | .ok e => e
  | .error _ => d

theorem apply_of_error {d : Document} {m : Mutation} {fault : Fault}
    (h : m.run d = .error fault) : m.apply d = d := by
  rw [apply, h]

end Mutation

/-- The document after edits, one after the other. -/
def after (d : Document) (ms : List Mutation) : Document := ms.foldl Mutation.apply d

/-! ## Replacing a text -/

open Text

/-- What replacing a text leads to: the first occurrence is replaced when no other one lies behind
its end, and otherwise the number of those that were counted is reported. -/
theorem replaceOnce_eq (d : Document) (exact replacement : Text) :
    (∃ before after, d.content = before ++ exact ++ after ∧ exact ≠ [] ∧
      NearOccurrence exact d.content before.byteLength ∧
      d.replaceOnce exact replacement =
        .ok (ofContent d.path (before ++ replacement ++ after))) ∨
    ∃ n, ¬ (exact ≠ [] ∧ ∃ n, NearOccurrence exact d.content n) ∧ n ≠ 1 ∧
      (n = 0 ↔ exact = [] ∨ ∀ m, ¬ OccursAt exact d.content m) ∧
      d.replaceOnce exact replacement = .error (.ambiguousReplacement d.path n) := by
  by_cases hne : exact = []
  · subst hne
    exact .inr ⟨0, by simp, by decide, by simp, rfl⟩
  have hempty : exact.isEmpty = false := by simpa using hne
  have hone := countApart_eq_one_iff hne (t := d.content)
  have hzero := countApart_eq_zero_iff hne (t := d.content)
  rw [replaceOnce, hempty, if_neg Bool.false_ne_true]
  by_cases hcount : countApart exact 0 d.content = 1
  · obtain ⟨n, hn, hnear⟩ := hone.1 hcount
    cases hbreak : breakOn? exact d.content with
    | none => exact absurd hn (breakOn?_eq_none_iff.1 hbreak n)
    | some p =>
      obtain ⟨before, after⟩ := p
      obtain ⟨hsplit, hleast⟩ := breakOn?_eq_some_iff_bytes.1 hbreak
      -- the occurrence that is counted is the one that is replaced
      have hplace : n = before.byteLength :=
        Nat.le_antisymm (hnear _ ⟨before, after, hsplit, rfl⟩).1 (hleast n hn)
      refine .inl ⟨before, after, hsplit.symm, hne, hplace ▸ ⟨hn, hnear⟩, ?_⟩
      simp only [hcount]
      rfl
  · refine .inr ⟨_, fun h => hcount (hone.2 h.2), hcount, by simp [hne, hzero], ?_⟩
    split
    · next h _ => exact absurd h hcount
    · rfl

/-- A text is replaced when it stands in the document and every occurrence is the first one or lies
inside it; the replacement then stands where the first one was.  Otherwise the number of occurrences
without overlaps is reported, and the document stays the same.  That the text stands at one position
exactly is the same for every document when it does not overlap itself, and not when it does. -/
theorem replaceOnce_replaces (exact replacement : Text) :
    (∀ d : Document,
      ((∃ e, d.replaceOnce exact replacement = .ok e) ↔
        exact ≠ [] ∧ ∃ n, OccursAt exact d.content n ∧
          ∀ m, OccursAt exact d.content m → n ≤ m ∧ m < n + exact.byteLength) ∧
      (∀ e, d.replaceOnce exact replacement = .ok e → ∃ before after,
        d.content = before ++ exact ++ after ∧
        (∀ m, OccursAt exact d.content m → before.byteLength ≤ m) ∧
        e = ofContent d.path (before ++ replacement ++ after) ∧
        e.content = before ++ replacement ++ after) ∧
      (∀ fault, d.replaceOnce exact replacement = .error fault →
        (∃ n, n ≠ 1 ∧ fault = .ambiguousReplacement d.path n ∧
          (n = 0 ↔ exact = [] ∨ ∀ m, ¬ OccursAt exact d.content m)) ∧
        (Mutation.replaceOnce exact replacement).apply d = d)) ∧
    ((∀ d : Document, (∃ e, d.replaceOnce exact replacement = .ok e) ↔
        exact ≠ [] ∧ ∃! n, OccursAt exact d.content n) ↔ ¬ OverlapsItself exact) := by
  have hok (d : Document) : (∃ e, d.replaceOnce exact replacement = .ok e) ↔
      exact ≠ [] ∧ ∃ n, NearOccurrence exact d.content n := by
    rcases replaceOnce_eq d exact replacement with
      ⟨before, after, -, hne, hnear, heq⟩ | ⟨n, hnot, -, -, heq⟩
    · exact iff_of_true ⟨_, heq⟩ ⟨hne, _, hnear⟩
    · refine iff_of_false ?_ hnot
      rintro ⟨e, he⟩
      cases heq.symm.trans he
  refine ⟨fun d => ⟨hok d, fun e he => ?_, fun fault hfault => ⟨?_, Mutation.apply_of_error hfault⟩⟩,
    fun h hoverlap => ?_, fun hoverlap d => ?_⟩
  · rcases replaceOnce_eq d exact replacement with
      ⟨before, after, hsplit, -, hnear, heq⟩ | ⟨n, -, -, -, heq⟩
    · obtain rfl := Except.ok.inj (heq.symm.trans he)
      exact ⟨before, after, hsplit, fun m hm => (hnear.2 m hm).1, rfl, content_ofContent ..⟩
    · cases heq.symm.trans he
  · rcases replaceOnce_eq d exact replacement with
      ⟨before, after, -, -, -, heq⟩ | ⟨n, -, hn, hzero, heq⟩
    · cases heq.symm.trans hfault
    · obtain rfl := Except.error.inj (heq.symm.trans hfault)
      exact ⟨n, hn, rfl, hzero⟩
  · obtain ⟨t, hnear, hmany⟩ := hoverlap.exists_near
    have hne : exact ≠ [] := by
      rintro rfl
      obtain ⟨u, hu, -, hstart, -⟩ := hoverlap
      exact hu (List.prefix_nil.1 hstart)
    have hplace := h (ofContent ⟨[]⟩ t)
    rw [hok, content_ofContent] at hplace
    exact hmany (hplace.1 ⟨hne, hnear⟩).2
  · rw [hok]
    exact and_congr_right fun hne => near_iff_existsUnique hne hoverlap d.content

/-- A file with the end of a block in it once. -/
def sampleBlock : Document := ofContent ⟨"app.ts"⟩ "f(() => \x7b\n    g();\n\x7d)\n"

theorem replaceOnce_replaces_sample :
    ¬ OverlapsItself "\n\x7d" ∧ (∃! n, OccursAt "\n\x7d" sampleBlock.content n) ∧
      sampleBlock.replaceOnce "\n\x7d" "\n    h();\n\x7d" =
        .ok (ofContent ⟨"app.ts"⟩ "f(() => \x7b\n    g();\n    h();\n\x7d)\n") ∧
      sampleBlock.replaceOnce "()" "" = .error (.ambiguousReplacement ⟨"app.ts"⟩ 2) ∧
      (Mutation.replaceOnce "()" "").apply sampleBlock = sampleBlock := by
  have hoverlap : ¬ OverlapsItself "\n\x7d" := by decide
  have hreplaced : sampleBlock.replaceOnce "\n\x7d" "\n    h();\n\x7d" =
      .ok (ofContent ⟨"app.ts"⟩ "f(() => \x7b\n    g();\n    h();\n\x7d)\n") := rfl
  have hrefused : sampleBlock.replaceOnce "()" "" = .error (.ambiguousReplacement ⟨"app.ts"⟩ 2) := rfl
  have honce := (replaceOnce_replaces "\n\x7d" "\n    h();\n\x7d").2.2 hoverlap sampleBlock
  exact ⟨hoverlap, (honce.1 ⟨_, hreplaced⟩).2, hreplaced, hrefused,
    (((replaceOnce_replaces "()" "").1 sampleBlock).2.2 _ hrefused).2⟩

/-- The end of a block inside another one overlaps itself: it stands at two positions, and the first
one is replaced. -/
theorem not_replaceOnce_replaces_always :
    ¬ ∀ (d : Document) (exact replacement : Text),
      (∃ e, d.replaceOnce exact replacement = .ok e) ↔
        exact ≠ [] ∧ ∃! n, OccursAt exact d.content n := by
  intro honce
  have hreplaced : (ofContent ⟨"app.ts"⟩ "\x7d\n\x7d\n\x7d").replaceOnce "\x7d\n\x7d" "x" =
      .ok (ofContent ⟨"app.ts"⟩ "x\n\x7d") := rfl
  obtain ⟨-, hunique⟩ := (honce _ _ _).1 ⟨_, hreplaced⟩
  rw [content_ofContent] at hunique
  have hfirst : OccursAt "\x7d\n\x7d" "\x7d\n\x7d\n\x7d" 0 := ⟨[], "\n\x7d", rfl, rfl⟩
  have hsecond : OccursAt "\x7d\n\x7d" "\x7d\n\x7d\n\x7d" 2 := ⟨"\x7d\n", [], rfl, rfl⟩
  cases hunique.unique hfirst hsecond

end Scaffold.Document
