import Scaffold.Env.Calculation
import Scaffold.Proofs.Env.Expression
import Scaffold.Proofs.Script.Spacing

/-!
# Switches over the target

A switch is a list of branches (`Branch`): some labels and the expression that is returned for them.
`BranchesText` says which texts a switch may have inside, as people write them: labels in either
quotes, for targets and for compose files, blanks and comments behind labels and between statements,
a `break` behind a branch or none.

`foldlM_branches` is the meaning of such a text: for each label it is the first branch with the
label that counts (`firstFor`).  `read_function` puts the function around it, so that only the inside
of the switch is left to be read.
-/

namespace Scaffold.Env.Calculation

open Script

/-- The expression for a label. -/
def at? (c : Calculation) : Label → Option Expr
  | some target => c.cases target
  | none => c.fallback

/-! ## Texts -/

/-- The word in front of a target. -/
def caseWord : Text := "case"

/-- The word for all other targets. -/
def defaultWord : Text := "default"

/-- The word in front of an expression, with a blank. -/
def returnWord : Text := "return "

/-- The word that leaves a switch. -/
def breakWord : Text := "break"

/-- A label without its colon: the word `case` and the name of a target, or of its compose file,
between quotes, or the word `default`. -/
inductive LabelText : Label → Text → Prop
  | target {target : Target} {name a : Text} {q : Char}
    (hname : name = target.name ∨ name = target.composeFileName) (hq : q = '\'' ∨ q = '"')
    (ha : IsBlank a) : LabelText (some target) (caseWord ++ (a ++ (q :: name ++ [q])))
  | default : LabelText none defaultWord

/-- Labels with their colons.  Blanks may stand in front of a colon, and comments too behind it. -/
inductive LabelsText : List Label → Text → Prop
  | nil : LabelsText [] []
  | cons {l : Label} {ls : List Label} {t b s u : Text} (ht : LabelText l t) (hb : IsBlank b)
    (hs : Spacing s) (hu : LabelsText ls u) : LabelsText (l :: ls) (t ++ (b ++ [':'] ++ s) ++ u)

/-- Labels and the expression that is returned for them. -/
structure Branch where
  labels : List Label
  expr : Expr
  nonempty : labels ≠ []

/-- A branch without its end: the labels and what is returned. -/
def BranchText (g : Branch) (t : Text) : Prop :=
  ∃ u, LabelsText g.labels u ∧ t = u ++ (returnWord ++ g.expr.render)

/-- What ends a branch: a semicolon, or a `break` behind it. -/
inductive BranchEnd : Text → Prop
  | plain : BranchEnd [';']
  | leaving {s : Text} (hs : Spacing s) : BranchEnd (';' :: (s ++ breakWord ++ [';']))

/-- Branches one behind the other, with blanks and comments around them. -/
inductive BranchesText : List Branch → Text → Prop
  | nil {s : Text} (hs : Spacing s) : BranchesText [] s
  | cons {g : Branch} {gs : List Branch} {s t e u : Text} (hs : Spacing s) (ht : BranchText g t)
    (he : BranchEnd e) (hu : BranchesText gs u) : BranchesText (g :: gs) (s ++ t ++ e ++ u)

/-- The expression of the first branch with a label. -/
def firstFor (gs : List Branch) (l : Label) : Option Expr :=
  (gs.find? (·.labels.contains l)).map Branch.expr

/-- What branches give for a target: the first one that has a label for it counts, and without one
the first that has the default label, wherever that stands. -/
def chosen (gs : List Branch) (target : Target) : Option Expr :=
  firstFor gs (some target) <|> firstFor gs none

/-! ## Pieces -/

/-- Word characters of the language itself may stand between semicolons. -/
theorem isPiece_keyword {w : Text} (hne : w ≠ []) (h : ∀ c ∈ w, c.isAlphanum = true) :
    IsPiece ';' w := by
  have hblank (c : Char) (hc : c ∈ w) : isBlank c = false := isBlank_of_isAlphanum (h c hc)
  refine .of_plain hne (fun c hc => isPlain_of_class (by decide) (h c hc)) ?_ ?_ ?_
  · exact fun c hc => hblank c (List.mem_of_mem_head? hc)
  · exact fun c hc => hblank c (List.mem_of_getLast? hc)
  · intro hmem
    exact absurd (h _ hmem) (by decide)

/-- The names of a target need no escapes between quotes. -/
theorem plain_name {target : Target} {name : Text} {q : Char}
    (hname : name = target.name ∨ name = target.composeFileName) (hq : q = '\'' ∨ q = '"') :
    ∀ c ∈ name, c ≠ '\\' ∧ c ≠ q := by
  have hall : ∀ c ∈ name, c ≠ '\\' ∧ c ≠ '\'' ∧ c ≠ '"' := by
    rcases hname with rfl | rfl <;> cases target <;> decide
  rcases hq with rfl | rfl
  · exact fun c hc => ⟨(hall c hc).1, (hall c hc).2.1⟩
  · exact fun c hc => ⟨(hall c hc).1, (hall c hc).2.2⟩

theorem isPiece_name {sep : Char} {target : Target} {name : Text} {q : Char}
    (hname : name = target.name ∨ name = target.composeFileName) (hq : q = '\'' ∨ q = '"') :
    IsPiece sep (q :: name ++ [q]) := by
  refine .between ?_ (.of_all (plain_name hname hq))
  rcases hq with rfl | rfl <;> rfl

theorem LabelText.isPiece {l : Label} {t : Text} (h : LabelText l t) : IsPiece ';' t := by
  cases h with
  | default => exact isPiece_keyword (by decide) (by decide)
  | @target target name a q hname hq ha =>
    have hword : IsPiece ';' caseWord := isPiece_keyword (by decide) (by decide)
    have hgap : Apart (caseWord ++ a) (q :: name ++ [q]) := by
      refine apart_cons _ _ ?_ ?_ <;> rcases hq with rfl | rfl <;> decide
    rw [← List.append_assoc]
    exact hword.join_balanced (isPiece_name hname hq) ha.balanced (ha.filler.freeOf rfl)
      (ha.apart_right _) hgap

theorem LabelText.apart {l : Label} {t : Text} (h : LabelText l t) (s u : Text) :
    Apart s (t ++ u) := by
  cases h <;> exact apart_cons _ _ (by decide) (by decide)

section

variable {ls : List Label} {u : Text} (h : LabelsText ls u)
include h

/-- A statement with labels may stand between semicolons, whatever stands in front of it. -/
theorem isPiece_labels {t : Text} (ht : IsPiece ';' (returnWord ++ t)) :
    IsPiece ';' (u ++ (returnWord ++ t)) ∧ ∀ s, Apart s (u ++ (returnWord ++ t)) := by
  induction h with
  | nil => exact ⟨ht, fun s => apart_cons _ _ (by decide) (by decide)⟩
  | @cons l ls label b s u hlabel hb hs _ ih =>
    obtain ⟨hpiece, hapart⟩ := ih
    have hplain : ∀ c ∈ b ++ [':'], IsSeparator c ∧ c ≠ ';' := by
      intro c hc
      rcases List.mem_append.1 hc with hc | hc
      · exact ⟨⟨hb.plain c hc, hb.ne_of_mem hc rfl⟩, hb.ne_of_mem hc rfl⟩
      · rw [List.mem_singleton.1 hc]
        decide
    constructor
    · have := hlabel.isPiece.join_filler rfl hpiece (by simp) hplain hs.filler (hapart s)
      rwa [← List.append_assoc] at this
    · intro a
      rw [List.append_assoc, List.append_assoc]
      exact hlabel.apart a _

end

/-! ## Reading labels -/

theorem caseTail?_caseWord {t : Text}
    (h : t.head?.any (fun c => isBlank c || c == '\'' || c == '"') = true) :
    caseTail? (caseWord ++ t) = some t := by
  have hprefix : List.isPrefixOf? "case".toList (caseWord ++ t) = some t :=
    Text.isPrefixOf?_append caseWord t
  rw [caseTail?, hprefix, Option.filter_some, if_pos h]

theorem defaultTail?_defaultWord {b : Text} (hb : IsBlank b) (t : Text) :
    defaultTail? (defaultWord ++ (b ++ ':' :: t)) = some t := by
  have hprefix : List.isPrefixOf? "default".toList (defaultWord ++ (b ++ ':' :: t)) =
      some (b ++ ':' :: t) :=
    Text.isPrefixOf?_append defaultWord _
  have htrim : Text.trimStart (b ++ ':' :: t) = ':' :: t := by
    rw [Text.trimStart, List.dropWhile_append_of_pos hb, List.dropWhile_cons_of_neg (by decide)]
  rw [defaultTail?, hprefix, Option.bind_some, htrim]
  rfl

/-- A name of a target between quotes names the target, with blanks around it or without. -/
theorem readTarget_between {target : Target} {name a b : Text} {q : Char}
    (hname : name = target.name ∨ name = target.composeFileName) (hq : q = '\'' ∨ q = '"')
    (ha : IsBlank a) (hb : IsBlank b) :
    readTarget (a ++ (q :: name ++ [q]) ++ b) = .ok target := by
  have hread : Literal.read {} (q :: name ++ [q]) = .string name :=
    Literal.read_between hq (plain_name hname hq)
  have htarget : Target.read? name = some target := by
    rcases hname with rfl | rfl <;> cases target <;> decide
  have hpiece : IsPiece ',' (q :: name ++ [q]) := isPiece_name hname hq
  rw [readTarget, Literal.read_congr (trimCode_between_blanks ha hpiece.balanced hb), hread]
  simp only [htarget]

theorem readLabels_return (fuel : Nat) (t : Text) :
    readLabels fuel (returnWord ++ t) = .ok ([], returnWord ++ t) := by
  cases fuel <;> rfl

/-- Labels are read one by one, up to what is returned for them. -/
theorem readLabels_labels {ls : List Label} {u t : Text} (h : LabelsText ls u)
    (ht : IsPiece ';' (returnWord ++ t)) {fuel : Nat} (hfuel : ls.length ≤ fuel) :
    readLabels fuel (u ++ (returnWord ++ t)) = .ok (ls, returnWord ++ t) := by
  induction h generalizing fuel with
  | nil => exact readLabels_return fuel t
  | @cons l ls label b s u hlabel hb hs hu ih =>
    obtain ⟨fuel, rfl⟩ : ∃ n, fuel = n + 1 := ⟨fuel - 1, by simp at hfuel; omega⟩
    obtain ⟨hpiece, hapart⟩ := isPiece_labels hu ht
    have hrest : readLabels fuel (trimCode (s ++ (u ++ (returnWord ++ t)))) =
        .ok (ls, returnWord ++ t) := by
      rw [trimCode_filler_append hs.filler hpiece.balanced (hapart s), hpiece.trimmed]
      exact ih (by simpa using hfuel)
    cases hlabel with
    | default =>
      have hsplit : defaultWord ++ (b ++ [':'] ++ s) ++ u ++ (returnWord ++ t) =
          defaultWord ++ (b ++ ':' :: (s ++ (u ++ (returnWord ++ t)))) := by
        simp
      have hcase (v : Text) : caseTail? (defaultWord ++ v) = none := rfl
      rw [hsplit, readLabels, hcase]
      simp only [defaultTail?_defaultWord hb, hrest]
      rfl
    | @target target name a q hname hq ha =>
      have hsplit : caseWord ++ (a ++ (q :: name ++ [q])) ++ (b ++ [':'] ++ s) ++ u ++
          (returnWord ++ t) = caseWord ++ (a ++ (q :: name ++ [q]) ++ b ++
            ':' :: (s ++ (u ++ (returnWord ++ t)))) := by
        simp
      have hhead : (a ++ (q :: name ++ [q]) ++ b ++
          ':' :: (s ++ (u ++ (returnWord ++ t)))).head?.any
            (fun c => isBlank c || c == '\'' || c == '"') = true := by
        cases a with
        | nil => rcases hq with rfl | rfl <;> rfl
        | cons c a => simp [ha c List.mem_cons_self]
      have hname' : IsPiece ':' (q :: name ++ [q]) := isPiece_name hname hq
      have hbal : Balanced (a ++ (q :: name ++ [q]) ++ b) :=
        (ha.balanced.append hname'.balanced (ha.apart_left _)).append hb.balanced (hb.apart_right _)
      rw [hsplit, readLabels, caseTail?_caseWord hhead]
      simp only [splitKeyValue?_of_balanced hbal (hname'.freeOf_padded ha hb rfl),
        readTarget_between hname hq ha hb]
      show (readLabels fuel (trimCode (s ++ (u ++ (returnWord ++ t))))).bind _ = _
      rw [hrest]
      rfl

/-! ## Reading branches -/

/-- A blank in front of a balanced text is trimmed away. -/
theorem trimCode_space {t : Text} (h : Balanced t) : trimCode (' ' :: t) = trimCode t := by
  have := trimCode_between_blanks (.spaces 1) h IsBlank.nil
  rwa [List.append_nil] at this

theorem isPiece_return {e : Expr} (h : e.Readable) : IsPiece ';' (returnWord ++ e.render) := by
  have hword : IsPiece ';' returnWord.dropLast := isPiece_keyword (by decide) (by decide)
  exact hword.join (Expr.isPiece_render h) (m := [' ']) (by decide) (by decide)

/-- Each label takes up text. -/
theorem LabelsText.length_le {ls : List Label} {u : Text} (h : LabelsText ls u) :
    ls.length ≤ u.length := by
  induction h with
  | nil => exact Nat.le_refl 0
  | cons _ _ _ _ ih =>
    simp only [List.length_cons, List.length_append, List.length_nil]
    omega

section

variable {g : Branch} {t : Text} (h : BranchText g t) (he : g.expr.Readable)
include h he

theorem BranchText.isPiece : IsPiece ';' t ∧ ∀ s, Apart s t := by
  obtain ⟨u, hu, rfl⟩ := h
  exact isPiece_labels hu (isPiece_return he)

/-- A branch is read as its labels and an expression equal to its own. -/
theorem BranchText.readStatement :
    ∃ e', readStatement t = .ok (g.labels, some e') ∧ (e' == g.expr) = true := by
  obtain ⟨u, hu, rfl⟩ := h
  obtain ⟨e', hread, heq⟩ := Expr.read_render he
  have hlabels : readLabels ((u ++ (returnWord ++ g.expr.render)).length + 1)
      (u ++ (returnWord ++ g.expr.render)) = .ok (g.labels, returnWord ++ g.expr.render) := by
    refine readLabels_labels hu (isPiece_return he) ?_
    have := hu.length_le
    rw [List.length_append]
    omega
  have htail : returnTail? (returnWord ++ g.expr.render) = some (' ' :: g.expr.render) := rfl
  have hspace : Expr.read (' ' :: g.expr.render) = .ok e' := by
    have htrim := trimCode_space (Expr.isPiece_render he).balanced
    rw [← hread, Expr.read, Expr.read, htrim]
  have hsome : g.labels.isEmpty = false := by simp [g.nonempty]
  refine ⟨e', ?_, heq⟩
  rw [Calculation.readStatement, hlabels]
  simp only [bind, Except.bind, hsome, htail, hspace]
  rfl

end

theorem at?_addLabel (e : Expr) (c : Calculation) (l m : Label) :
    (addLabel e c l).at? m = if m = l then (c.at? l).or (some e) else c.at? m := by
  cases l with
  | none =>
    cases hc : c.fallback <;> cases m <;> simp [addLabel, at?, otherwise, hc]
  | some target =>
    cases hc : c.cases target with
    | none =>
      cases m <;> simp [addLabel, at?, withCase, hc]
    | some e =>
      cases m with
      | none => simp [addLabel, at?, hc]
      | some m =>
        by_cases hm : m = target
        · subst hm
          simp [addLabel, at?, hc]
        · simp [addLabel, at?, hc, hm]

/-- An expression is added for each of its labels that has none yet. -/
theorem at?_foldl_addLabel (e : Expr) (c : Calculation) (ls : List Label) (m : Label) :
    (ls.foldl (addLabel e) c).at? m = if m ∈ ls then (c.at? m).or (some e) else c.at? m := by
  induction ls generalizing c with
  | nil => simp
  | cons l ls ih =>
    rw [List.foldl_cons, ih, at?_addLabel]
    by_cases hml : m = l
    · subst hml
      cases c.at? m <;> simp
    · simp [hml]

theorem firstFor_cons (g : Branch) (gs : List Branch) (l : Label) :
    firstFor (g :: gs) l = if l ∈ g.labels then some g.expr else firstFor gs l := by
  by_cases h : l ∈ g.labels <;> simp [firstFor, h]

/-- The end of a branch is balanced and meets every text apart, on either side. -/
theorem BranchEnd.balanced {e : Text} (h : BranchEnd e) :
    Balanced e ∧ (∀ t, Apart t e) ∧ ∀ t u, Apart (t ++ e) u := by
  have hsemicolon : Balanced [';'] := .of_plain (by decide)
  cases h with
  | plain =>
    exact ⟨hsemicolon, fun t => apart_separator (by decide) _ _,
      fun t u => apart_concat _ _ (by decide) (by decide)⟩
  | @leaving s hs =>
    have hbreak : Balanced (breakWord ++ [';']) := .of_plain (by decide)
    have hlast : Balanced (s ++ breakWord ++ [';']) := by
      rw [List.append_assoc]
      exact hs.filler.balanced.append hbreak (apart_cons _ _ (by decide) (by decide))
    refine ⟨hsemicolon.append hlast (apart_concat [] _ (by decide) (by decide)),
      fun t => apart_separator (by decide) _ _, fun t u => ?_⟩
    rw [← List.cons_append, ← List.append_assoc]
    exact apart_concat _ _ (by decide) (by decide)

/-- Behind a branch its end adds no statement that changes a calculation. -/
theorem BranchEnd.pieces {e : Text} (h : BranchEnd e) {s t : Text} (hs : Spacing s)
    (ht : IsPiece ';' t) (hst : Apart s t) (u : Text) :
    ∃ ws, pieces ';' (s ++ t ++ e ++ u) = t :: ws ++ pieces ';' u ∧
      ∀ c : Calculation, ws.foldlM addStatement c = .ok c := by
  cases h with
  | plain =>
    refine ⟨[], ?_, fun c => rfl⟩
    rw [List.append_assoc _ [';'], List.singleton_append]
    exact pieces_filler_cons rfl (by decide) hs.filler ht hst u
  | @leaving a ha =>
    have hbreak : IsPiece ';' breakWord := isPiece_keyword (by decide) (by decide)
    refine ⟨[breakWord], ?_, fun c => rfl⟩
    have hsplit : s ++ t ++ ';' :: (a ++ breakWord ++ [';']) ++ u =
        s ++ t ++ ';' :: (a ++ breakWord ++ ';' :: u) := by
      simp
    rw [hsplit, pieces_filler_cons rfl (by decide) hs.filler ht hst,
      pieces_filler_cons rfl (by decide) ha.filler hbreak (apart_cons _ _ (by decide) (by decide))]
    rfl

section

variable {gs : List Branch} {body : Text} (h : BranchesText gs body)
  (hreadable : ∀ g ∈ gs, g.expr.Readable)
include h hreadable

theorem balanced_branches : Balanced body := by
  induction h with
  | nil hs => exact hs.filler.balanced
  | @cons g gs s t e u hs ht he _ ih =>
    obtain ⟨hhead, htail⟩ := List.forall_mem_cons.1 hreadable
    obtain ⟨hpiece, hapart⟩ := ht.isPiece hhead
    have hfront : Balanced (s ++ t) := hs.filler.balanced.append hpiece.balanced (hapart s)
    obtain ⟨hend, hstart, hrest⟩ := he.balanced
    exact (hfront.append hend (hstart _)).append (ih htail) (hrest _ u)

/-- The branches are read one by one: a label that already has an expression keeps it, and each
other one gets that of the first branch with the label. -/
theorem foldlM_branches (acc : Calculation) :
    ∃ c, (statementsOf body).foldlM addStatement acc = .ok c ∧
      (∀ l, acc.at? l ≠ none → c.at? l = acc.at? l) ∧
      ∀ l, acc.at? l = none → (c.at? l == firstFor gs l) = true := by
  induction h generalizing acc with
  | nil hs =>
    have hnone : statementsOf _ = [] := hs.filler.pieces_eq_nil (by decide) rfl
    exact ⟨acc, by rw [hnone]; rfl, fun _ _ => rfl, fun l hl => by rw [hl]; rfl⟩
  | @cons g gs s t e u hs ht he _ ih =>
    obtain ⟨hhead, htail⟩ := List.forall_mem_cons.1 hreadable
    obtain ⟨hpiece, hapart⟩ := ht.isPiece hhead
    obtain ⟨e', hread, heq⟩ := ht.readStatement hhead
    obtain ⟨ws, hws, hskip⟩ := he.pieces hs hpiece (hapart s) u
    have hadd : addStatement acc t = .ok (g.labels.foldl (addLabel e') acc) := by
      rw [addStatement, hread]
      rfl
    obtain ⟨c, hfold, hold, hnew⟩ := ih htail (g.labels.foldl (addLabel e') acc)
    have hat (l : Label) := at?_foldl_addLabel e' acc g.labels l
    refine ⟨c, ?_, fun l hl => ?_, fun l hl => ?_⟩
    · have hstatements : statementsOf (s ++ t ++ e ++ u) = t :: ws ++ statementsOf u := hws
      rw [hstatements, List.cons_append, List.foldlM_cons, hadd]
      show (ws ++ statementsOf u).foldlM addStatement _ = _
      rw [List.foldlM_append, hskip]
      exact hfold
    · obtain ⟨e, he⟩ := Option.ne_none_iff_exists'.1 hl
      have hkept : (g.labels.foldl (addLabel e') acc).at? l = acc.at? l := by
        simp [hat, he]
      rw [hold l (by rwa [hkept]), hkept]
    · rw [firstFor_cons]
      by_cases hmem : l ∈ g.labels
      · have hfirst : (g.labels.foldl (addLabel e') acc).at? l = some e' := by
          simp [hat, hl, hmem]
        rw [hold l (by simp [hfirst]), hfirst, if_pos hmem]
        exact heq
      · rw [if_neg hmem]
        exact hnew l (by rw [hat, if_neg hmem, hl])

/-- The branches of a switch are its cases: each label has the expression of the first branch with
the label. -/
theorem readCases_branches :
    ∃ c, readCases body = .ok c ∧ ∀ l, (c.at? l == firstFor gs l) = true := by
  obtain ⟨c, hfold, -, hfirst⟩ := foldlM_branches h hreadable {}
  exact ⟨c, hfold, fun l => hfirst l (by cases l <;> rfl)⟩

end

/-! ## Functions -/

/-- The word in front of the value that a switch looks at. -/
def switchWord : Text := "switch"

/-- The value that a switch looks at, between blanks. -/
def discriminant : Text := " (target) "

/-- What follows the word of a switch with the given inside. -/
def switchOf (body : Text) : Text := discriminant ++ ('\x7b' :: body ++ ['\x7d'])

theorem balanced_discriminant : Balanced discriminant := by
  have hbrackets : Balanced ('(' :: "target".toList ++ [')']) :=
    .brackets rfl rfl (.of_plain (by decide))
  have hspace : IsBlank [' '] := .spaces 1
  exact (hspace.balanced.append hbrackets (hspace.apart_left _)).append hspace.balanced
    (hspace.apart_right _)

/-- What stands in front of the body of a written function. -/
def arrow : Text := "(env, target) => "

theorem arrowBody?_arrow (t : Text) :
    arrowBody? (arrow ++ '\x7b' :: t) = some (trimCode ('\x7b' :: t)) := rfl

section

variable {body : Text} (h : Balanced body)
include h

/-- A switch is read as its cases. -/
theorem readSwitch_switchOf : readSwitch (switchOf body) = readCases body := by
  have hopen : breakAtOpening? (switchOf body) =
      some (discriminant, '\x7b' :: body ++ ['\x7d']) :=
    breakAtOpening?_append balanced_discriminant (by decide) _
  have hbody : bracketed? ('\x7b' :: body ++ ['\x7d']) = some ('\x7b' :: body ++ ['\x7d'], []) :=
    bracketed?_of_balanced rfl rfl h []
  have hkept : ((discriminant.filter fun c => !isBlank c) != "(target)".toList) = false := by decide
  have hinner : (List.drop 1 ('\x7b' :: body ++ ['\x7d'])).dropLast = body := by simp
  rw [readSwitch, hopen]
  simp only [hkept, hbody, hinner, trimCode_blank IsBlank.nil]
  rfl

theorem isPiece_switchOf : IsPiece ',' (switchWord ++ switchOf body) := by
  have hword : IsPiece ',' switchWord :=
    .of_plain (by decide) (by decide) (by decide) (by decide) (by decide)
  have htarget : IsPiece ',' ('(' :: "target".toList ++ [')']) :=
    .brackets rfl rfl (.of_plain (by decide)) (by decide) (by decide)
  have hbody : IsPiece ',' ('\x7b' :: body ++ ['\x7d']) :=
    .brackets rfl rfl h (by decide) (by decide)
  have hhead := hword.join htarget (m := [' ']) (by decide) (by decide)
  exact hhead.join hbody (m := [' ']) (by decide) (by decide)

variable {a b : Text} (ha : IsFiller a) (hb : IsFiller b)
include ha hb

/-- A switch with blanks and comments around it is balanced, and they do not count. -/
theorem balanced_and_trimCode_switch :
    Balanced (a ++ (switchWord ++ switchOf body) ++ b) ∧
      trimCode (a ++ (switchWord ++ switchOf body) ++ b) = switchWord ++ switchOf body := by
  have hpiece := isPiece_switchOf h
  have hfront : Apart a (switchWord ++ switchOf body) := apart_cons _ _ (by decide) (by decide)
  have hback : Apart (a ++ (switchWord ++ switchOf body)) b := by
    have hend : a ++ (switchWord ++ switchOf body) =
        (a ++ (switchWord ++ (discriminant ++ '\x7b' :: body))) ++ ['\x7d'] := by
      simp [switchOf]
    rw [hend]
    exact apart_concat _ _ (by decide) (by decide)
  refine ⟨(ha.balanced.append hpiece.balanced hfront).append hb.balanced hback, ?_⟩
  rw [trimCode_between_fillers ha hpiece.balanced hb hfront hback, hpiece.trimmed]

/-- A function may stand between commas. -/
theorem isPiece_function : IsPiece ','
    (arrow ++ ('\x7b' :: (a ++ (switchWord ++ switchOf body) ++ b) ++ ['\x7d'])) := by
  have hparams : IsPiece ',' ('(' :: "env, target".toList ++ [')']) :=
    .brackets rfl rfl (.of_plain (by decide)) (by decide) (by decide)
  have hbraces : IsPiece ',' ('\x7b' :: (a ++ (switchWord ++ switchOf body) ++ b) ++ ['\x7d']) :=
    .brackets rfl rfl (balanced_and_trimCode_switch h ha hb).1 (by decide) (by decide)
  exact hparams.join hbraces (m := " => ".toList) (by decide) (by decide)

/-- A function is read as the cases of its switch, whatever blanks and comments stand around it. -/
theorem read_function :
    read (arrow ++ ('\x7b' :: (a ++ (switchWord ++ switchOf body) ++ b) ++ ['\x7d'])) =
      readCases body := by
  obtain ⟨hbal, htrim⟩ := balanced_and_trimCode_switch h ha hb
  have hbraces : IsPiece ',' ('\x7b' :: (a ++ (switchWord ++ switchOf body) ++ b) ++ ['\x7d']) :=
    .brackets rfl rfl hbal (by decide) (by decide)
  have hliteral := bracketed?_of_balanced (o := '\x7b') (c := '\x7d') rfl rfl hbal []
  have hinner : (List.drop 1
      ('\x7b' :: (a ++ (switchWord ++ switchOf body) ++ b) ++ ['\x7d'])).dropLast =
        a ++ (switchWord ++ switchOf body) ++ b := by
    simp
  have hblock : readBlock (switchWord ++ switchOf body) = readSwitch (switchOf body) := rfl
  rw [read, (isPiece_function h ha hb).trimmed, List.cons_append, arrowBody?_arrow,
    ← List.cons_append, hbraces.trimmed]
  simp only [hliteral, hinner, htrim, hblock, readSwitch_switchOf h]
  rfl

end

end Scaffold.Env.Calculation
