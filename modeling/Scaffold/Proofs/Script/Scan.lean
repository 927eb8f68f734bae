import Scaffold.Script.Slice

/-!
# Scanning a text piece by piece

The scan looks one character ahead, so the visits of two texts put together are those of the parts
only when no comment mark stands across the place where they meet.  `Apart` is that condition, and
`scanFrom_append` and `after_append` take the scan of a text apart under it.

`scanFrom_raise` moves a scan to another depth.  It needs a text that closes no bracket of its
surroundings, because the depth stops at zero.
-/

namespace Scaffold.Script

/-- The state behind a text that is entered in state `s`. -/
def ScanState.after (s : ScanState) : Text → ScanState
  | [] => s
  | c :: t => ScanState.after (s.step c t.head?).2 t

@[simp] theorem scanFrom_nil (s : ScanState) : scanFrom s [] = [] := rfl

theorem ScanState.after_cons (s : ScanState) (c : Char) (t : Text) :
    s.after (c :: t) = (s.step c t.head?).2.after t := rfl

theorem scanFrom_cons (s : ScanState) (c : Char) (t : Text) :
    scanFrom s (c :: t) = (s.step c t.head?).1 :: scanFrom (s.step c t.head?).2 t := rfl

@[simp] theorem textOf_scanFrom (s : ScanState) (t : Text) : textOf (scanFrom s t) = t :=
  map_char_scanFrom s t

@[simp] theorem textOf_scan (t : Text) : textOf (scan t) = t := map_char_scanFrom {} t

/-! ## Texts that meet -/

/-- The two characters make a comment mark. -/
def isCommentMark (c d : Char) : Bool := c == '/' && (d == '/' || d == '*') || c == '*' && d == '/'

/-- No comment mark stands across the place where the two texts meet. -/
def Apart (t u : Text) : Prop :=
  ∀ c d, t.getLast? = some c → u.head? = some d → isCommentMark c d = false

/-- What follows a character matters only when both make a comment mark. -/
theorem ScanState.step_of_not_mark {c : Char} {next : Option Char} (s : ScanState)
    (h : ∀ d, next = some d → isCommentMark c d = false) : s.step c next = s.step c none := by
  cases next with
  | none => rfl
  | some d =>
    have hcd := h d rfl
    have hline : (c == '/' && d == '/') = false := by
      simp_all [isCommentMark]
    have hblock : (c == '/' && d == '*') = false := by
      simp_all [isCommentMark]
    have hclose : (c == '*' && d == '/') = false := by
      simp_all [isCommentMark]
    cases hm : s.mode <;> simp [ScanState.step, hm, hline, hblock, hclose]

@[simp] theorem apart_nil_left (u : Text) : Apart [] u := by simp [Apart]

@[simp] theorem apart_nil_right (t : Text) : Apart t [] := by simp [Apart]

/-- A first character other than a slash or a star keeps two texts apart. -/
theorem apart_cons {d : Char} (t u : Text) (h₁ : d ≠ '/') (h₂ : d ≠ '*') : Apart t (d :: u) := by
  intro c e _ he
  obtain rfl : d = e := by simpa using he
  simp [isCommentMark, h₁, h₂]

/-- A last character other than a slash or a star keeps two texts apart. -/
theorem apart_concat {c : Char} (t u : Text) (h₁ : c ≠ '/') (h₂ : c ≠ '*') :
    Apart (t ++ [c]) u := by
  intro e d he _
  obtain rfl : c = e := by simpa using he
  simp [isCommentMark, h₁, h₂]

theorem Apart.of_cons {c : Char} {t u : Text} (h : Apart (c :: t) u) (ht : t ≠ []) :
    Apart t u := by
  intro a b ha hb
  refine h a b ?_ hb
  obtain ⟨d, t, rfl⟩ := List.exists_cons_of_ne_nil ht
  simpa [List.getLast?_cons_cons] using ha

/-- The step at the head of two texts that meet apart is the one at the head of the first. -/
theorem Apart.step_head {c : Char} {t u : Text} (h : Apart (c :: t) u) (s : ScanState) :
    s.step c (t ++ u).head? = s.step c t.head? := by
  cases t with
  | cons d t => rfl
  | nil =>
    rw [List.nil_append, List.head?_nil]
    exact s.step_of_not_mark fun d hd => h c d rfl hd

/-- Two texts that meet apart are scanned one after the other. -/
theorem scanFrom_append {t u : Text} (h : Apart t u) (s : ScanState) :
    scanFrom s (t ++ u) = scanFrom s t ++ scanFrom (s.after t) u := by
  induction t generalizing s with
  | nil => rfl
  | cons c t ih =>
    rw [List.cons_append, scanFrom_cons, scanFrom_cons, h.step_head, ScanState.after_cons,
      List.cons_append]
    by_cases ht : t = []
    · subst ht
      rfl
    · rw [ih (h.of_cons ht)]

/-- The state behind two texts that meet apart is the one behind the second. -/
theorem after_append {t u : Text} (h : Apart t u) (s : ScanState) :
    s.after (t ++ u) = (s.after t).after u := by
  induction t generalizing s with
  | nil => rfl
  | cons c t ih =>
    rw [List.cons_append, ScanState.after_cons, ScanState.after_cons, h.step_head]
    by_cases ht : t = []
    · subst ht
      rfl
    · rw [ih (h.of_cons ht)]

/-! ## Depth -/

/-- The visit `k` brackets deeper. -/
def Visit.raise (k : Nat) (v : Visit) : Visit := { v with depth := v.depth + k }

/-- The state `k` brackets deeper. -/
def ScanState.raise (k : Nat) (s : ScanState) : ScanState := { s with depth := s.depth + k }

@[simp] theorem Visit.char_raise (k : Nat) (v : Visit) : (v.raise k).char = v.char := rfl

@[simp] theorem Visit.lexeme_raise (k : Nat) (v : Visit) : (v.raise k).lexeme = v.lexeme := rfl

@[simp] theorem Visit.depth_raise (k : Nat) (v : Visit) : (v.raise k).depth = v.depth + k := rfl

@[simp] theorem textOf_map_raise (k : Nat) (vs : List Visit) :
    textOf (vs.map (Visit.raise k)) = textOf vs := by
  simp [textOf, Function.comp_def]

/-- Only a closing bracket of code outside all brackets is not stepped over alike at any depth. -/
theorem ScanState.step_raise (s : ScanState) (c : Char) (next : Option Char) (k : Nat)
    (h : s.mode = .code → isClosing c = true → 0 < s.depth) :
    (s.raise k).step c next = ((s.step c next).1.raise k, (s.step c next).2.raise k) := by
  obtain ⟨mode, depth⟩ := s
  cases mode with
  | code =>
    simp only [ScanState.step, ScanState.raise]
    repeat' split
    all_goals simp_all [Visit.raise]
    all_goals omega
  | quoted q =>
    simp only [ScanState.step, ScanState.raise]
    split
    · rfl
    · split <;> rfl
  | escaped q => rfl
  | lineComment =>
    simp only [ScanState.step, ScanState.raise]
    split <;> rfl
  | blockOpen => rfl
  | block =>
    simp only [ScanState.step, ScanState.raise]
    split <;> rfl
  | blockClose => rfl

/-- One bracket deep, a closing bracket of code is visited below depth one when it closes what
surrounds the text. -/
theorem ScanState.depth_pos_of_step {s : ScanState} {c : Char} {next : Option Char}
    (h : 1 ≤ ((s.raise 1).step c next).1.depth) (hmode : s.mode = .code)
    (hc : isClosing c = true) : 0 < s.depth := by
  obtain ⟨mode, depth⟩ := s
  have hq : isQuote c = false ∧ isOpening c = false ∧ (c == '/') = false := by
    rcases (by simpa [isClosing] using hc : (c = ']' ∨ c = '\x7d') ∨ c = ')') with (rfl | rfl) | rfl <;>
      decide
  simp only at hmode
  subst hmode
  have hdepth : 1 ≤ depth := by simpa [ScanState.step, ScanState.raise, hq, hc] using h
  exact hdepth

/-- A text that closes no bracket around it is scanned alike at any depth. -/
theorem scanFrom_raise {t : Text} {s : ScanState}
    (h : ∀ v ∈ scanFrom (s.raise 1) t, 1 ≤ v.depth) (k : Nat) :
    scanFrom (s.raise k) t = (scanFrom s t).map (Visit.raise k) ∧
      (s.raise k).after t = (s.after t).raise k := by
  induction t generalizing s with
  | nil => exact ⟨rfl, rfl⟩
  | cons c t ih =>
    rw [scanFrom_cons] at h
    have hpos (hm : s.mode = .code) (hc : isClosing c = true) : 0 < s.depth :=
      ScanState.depth_pos_of_step (h _ List.mem_cons_self) hm hc
    rw [s.step_raise c _ 1 hpos] at h
    obtain ⟨hscan, hafter⟩ := ih fun v hv => h v (List.mem_cons_of_mem _ hv)
    simp only [scanFrom_cons, ScanState.after_cons, s.step_raise c _ k hpos, List.map_cons]
    exact ⟨by rw [hscan], hafter⟩

end Scaffold.Script
