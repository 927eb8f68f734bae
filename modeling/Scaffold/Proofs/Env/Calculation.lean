import Scaffold.Proofs.Env.Switch

/-!
# Calculations read back what they write

`Calculation.read_render`: a calculation is read back from what it is written as, up to the equality
of numbers, when its expressions are (`Expr.read_render`).

A written calculation is a `switch` with one branch for each label that has an expression
(`branches`), so it is read as every switch is (`readCases_branches`): what is left is that the
written text is one of such branches (`branchesText_statements`), and that the first branch with a
label is the only one (`firstFor_branches`).
-/

namespace Scaffold.Env.Calculation

open Script

/-- The labels in the order in which they are written: the targets, then the default. -/
def labels : List Label := Target.all.map some ++ [none]

/-- A calculation whose expressions are read back from what they are written as. -/
def Readable (c : Calculation) : Prop := ∀ l e, c.at? l = some e → e.Readable

/-! ## Statements -/

/-- A target between quotes, with a blank in front. -/
def quotedName (target : Target) : Text := ' ' :: quoted target.name

/-- The text of a label. -/
def labelText : Label → Text
  | some target => caseWord ++ quotedName target
  | none => defaultWord

/-- What follows a label: a colon, and on the next line what is returned. -/
def returnText (indent : Nat) (e : Expr) : Text :=
  '\n' :: Text.spaces (indent + 12) ++ (returnWord ++ e.render)

/-- The statement that returns an expression for a label. -/
def statement (indent : Nat) (l : Label) (e : Expr) : Text :=
  labelText l ++ ':' :: returnText indent e

/-- The statements of the labels that have an expression. -/
def statements (c : Calculation) (indent : Nat) (ls : List Label) : List Text :=
  ls.filterMap fun l => (c.at? l).map (statement indent l)

/-! ## Branches -/

/-- The branches of the labels that have an expression. -/
def branches (c : Calculation) (ls : List Label) : List Branch :=
  ls.filterMap fun l => (c.at? l).map fun e => ⟨[l], e, List.cons_ne_nil _ _⟩

theorem labelText_label (l : Label) : LabelText l (labelText l) := by
  cases l with
  | none => exact .default
  | some target =>
    have hname : quotedName target = [' '] ++ ('\'' :: target.name ++ ['\'']) := by
      cases target <;> rfl
    rw [labelText, hname]
    exact .target (.inl rfl) (.inl rfl) (.spaces 1)

theorem branchText_statement (indent : Nat) (l : Label) (e : Expr) :
    BranchText ⟨[l], e, List.cons_ne_nil _ _⟩ (statement indent l e) := by
  have hline : Spacing ('\n' :: Text.spaces (indent + 12)) := .of_isBlank (.newline (.spaces _))
  refine ⟨labelText l ++ ([] ++ [':'] ++ '\n' :: Text.spaces (indent + 12)) ++ [],
    .cons (labelText_label l) .nil hline .nil, ?_⟩
  simp [statement, returnText]

/-- The written statements are branches, with blanks around them. -/
theorem branchesText_statements (c : Calculation) (indent : Nat) (ls : List Label) {a x y : Text}
    (ha : IsBlank a) (hx : IsBlank x) (hy : IsBlank y) :
    BranchesText (c.branches ls) (x ++ endedLines ';' a ['\n'] (c.statements indent ls) ++ y) := by
  induction ls generalizing x with
  | nil =>
    refine .nil (.of_isBlank ?_)
    rw [statements, List.filterMap_nil, endedLines, List.flatMap_nil, List.append_nil]
    exact hx.append hy
  | cons l ls ih =>
    cases hc : c.at? l with
    | none =>
      have hskip : c.branches (l :: ls) = c.branches ls ∧
          c.statements indent (l :: ls) = c.statements indent ls := by
        simp [branches, statements, hc]
      rw [hskip.1, hskip.2]
      exact ih hx
    | some e =>
      have htake : c.branches (l :: ls) = ⟨[l], e, List.cons_ne_nil _ _⟩ :: c.branches ls ∧
          c.statements indent (l :: ls) = statement indent l e :: c.statements indent ls := by
        simp [branches, statements, hc]
      have hsplit : x ++ endedLines ';' a ['\n'] (statement indent l e :: c.statements indent ls) ++ y =
          (x ++ a) ++ statement indent l e ++ [';'] ++
            (['\n'] ++ endedLines ';' a ['\n'] (c.statements indent ls) ++ y) := by
        simp [endedLines]
      rw [htake.1, htake.2, hsplit]
      exact .cons (.of_isBlank (hx.append ha)) (branchText_statement indent l e) .plain
        (ih (.newline .nil))

theorem readable_branches {c : Calculation} (h : c.Readable) (ls : List Label) :
    ∀ g ∈ c.branches ls, g.expr.Readable := by
  intro g hg
  obtain ⟨l, -, hl⟩ := List.mem_filterMap.1 hg
  obtain ⟨e, he, rfl⟩ := Option.map_eq_some_iff.1 hl
  exact h l e he

/-- The first branch with a label is the one of the label. -/
theorem firstFor_branches (c : Calculation) (ls : List Label) (l : Label) :
    firstFor (c.branches ls) l = if l ∈ ls then c.at? l else none := by
  induction ls with
  | nil => rfl
  | cons m ls ih =>
    cases hm : c.at? m with
    | none =>
      have hskip : c.branches (m :: ls) = c.branches ls := by simp [branches, hm]
      rw [hskip, ih]
      by_cases hlm : l = m
      · simp [hlm, hm]
      · simp [hlm]
    | some e =>
      have htake : c.branches (m :: ls) = ⟨[m], e, List.cons_ne_nil _ _⟩ :: c.branches ls := by
        simp [branches, hm]
      rw [htake, firstFor_cons, ih]
      by_cases hlm : l = m
      · simp [hlm, hm]
      · simp [hlm]

/-- Calculations with equal expressions for all labels are equal. -/
theorem beq_of_at? {a b : Calculation} (h : ∀ l ∈ labels, (a.at? l == b.at? l) = true) :
    (a == b) = true := by
  show (Target.all.all (fun t => a.cases t == b.cases t) && a.fallback == b.fallback) = true
  rw [Bool.and_eq_true, List.all_eq_true]
  refine ⟨fun t ht => h (some t) ?_, h none ?_⟩
  · exact List.mem_append_left _ (List.mem_map_of_mem ht)
  · exact List.mem_append_right _ List.mem_cons_self

/-! ## Written cases -/

theorem caseLabel_eq (target : Target) : caseLabel target = labelText (some target) := by
  cases target <;> decide

/-- The lines of a label are those of its statement. -/
theorem renderCase_eq (indent : Nat) (l : Label) (e : Expr) :
    renderCase indent (labelText l) e =
      Text.spaces (indent + 8) ++ statement indent l e ++ ';' :: ['\n'] := by
  have hword : ("return " : Text) = returnWord := rfl
  rw [renderCase, hword, statement, returnText]
  simp only [line, List.append_assoc, List.cons_append, List.nil_append]

/-- The written cases are the statements of all labels. -/
theorem renderCases_eq (c : Calculation) (indent : Nat) :
    c.renderCases indent =
      endedLines ';' (Text.spaces (indent + 8)) ['\n'] (c.statements indent labels) := by
  have hlines (ls : List Label) :
      endedLines ';' (Text.spaces (indent + 8)) ['\n'] (c.statements indent ls) =
        ls.flatMap fun l => (c.at? l).elim [] (renderCase indent (labelText l)) := by
    induction ls with
    | nil => rfl
    | cons l ls ih =>
      rw [List.flatMap_cons, ← ih]
      cases hc : c.at? l with
      | none => simp [statements, hc]
      | some e => simp [statements, hc, endedLines, renderCase_eq]
  rw [hlines, labels, List.flatMap_append, List.flatMap_map, List.flatMap_singleton, renderCases]
  refine congrArg₂ (· ++ ·) (congrArg (Target.all.flatMap ·) (funext fun target => ?_)) ?_
  · rw [caseLabel_eq, at?]
    cases c.cases target <;> rfl
  · rw [at?]
    cases c.fallback <;> rfl

/-! ## Switches -/

/-- The inside of a switch. -/
def switchBody (c : Calculation) (indent : Nat) : Text :=
  ['\n'] ++ c.renderCases indent ++ Text.spaces (indent + 4)

section

variable {c : Calculation} (h : c.Readable) (indent : Nat)
include h

/-- The inside of a written switch is balanced, and it is read as an equal calculation. -/
theorem balanced_and_readCases_switchBody : Balanced (c.switchBody indent) ∧
    ∃ c', readCases (c.switchBody indent) = .ok c' ∧ (c' == c) = true := by
  have htext : BranchesText (c.branches labels) (c.switchBody indent) := by
    rw [switchBody, renderCases_eq]
    exact branchesText_statements c indent labels (.spaces _) (.newline .nil) (.spaces _)
  have hreadable := readable_branches h labels
  obtain ⟨c', hread, hfirst⟩ := readCases_branches htext hreadable
  refine ⟨balanced_branches htext hreadable, c', hread, beq_of_at? fun l hl => ?_⟩
  have := hfirst l
  rwa [firstFor_branches, if_pos hl] at this

end

/-- What follows the word of a written switch. -/
def switchText (c : Calculation) (indent : Nat) : Text :=
  discriminant ++ ('\x7b' :: c.switchBody indent ++ ['\x7d'])

/-! ## Functions -/

/-- The inside of a written function. -/
def functionBody (c : Calculation) (indent : Nat) : Text :=
  '\n' :: Text.spaces (indent + 4) ++ (switchWord ++ c.switchText indent) ++
    '\n' :: Text.spaces indent

/-- A written function is a switch between braces. -/
theorem render_eq (c : Calculation) (indent : Nat) :
    c.render indent = arrow ++ ('\x7b' :: c.functionBody indent ++ ['\x7d']) := by
  have hhead : ("(env, target) => \x7b\n" : Text) = arrow ++ ['\x7b', '\n'] := by decide
  have hswitch : ("switch (target) \x7b" : Text) = switchWord ++ (discriminant ++ ['\x7b']) := by
    decide
  have hrender : c.render indent =
      arrow ++ ['\x7b', '\n'] ++ line (indent + 4) (switchWord ++ (discriminant ++ ['\x7b'])) ++
        c.renderCases indent ++ line (indent + 4) ['\x7d'] ++ Text.spaces indent ++ ['\x7d'] := by
    rw [← hhead, ← hswitch]
    rfl
  rw [hrender, functionBody, switchText, switchBody]
  simp only [line, List.append_assoc, List.cons_append, List.nil_append]

section

variable {c : Calculation} (h : c.Readable) (indent : Nat)
include h

/-- A written function may stand between commas. -/
theorem isPiece_render : IsPiece ',' (c.render indent) := by
  rw [render_eq]
  exact isPiece_function (balanced_and_readCases_switchBody h indent).1
    (IsBlank.newline (.spaces (indent + 4))).filler (IsBlank.newline (.spaces indent)).filler

/-- A calculation is read back from what it is written as. -/
theorem read_render : ∃ c', read (c.render indent) = .ok c' ∧ (c' == c) = true := by
  obtain ⟨hbal, c', hread, heq⟩ := balanced_and_readCases_switchBody h indent
  refine ⟨c', ?_, heq⟩
  rw [render_eq, ← hread]
  exact read_function hbal
    (IsBlank.newline (.spaces (indent + 4))).filler (IsBlank.newline (.spaces indent)).filler

end

end Scaffold.Env.Calculation
