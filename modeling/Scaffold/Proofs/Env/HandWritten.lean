import Scaffold.Proofs.Env.RoundTrip
import Scaffold.Proofs.Env.Switch

/-!
# Switches as people write them

A function whose switch is written by hand means what a switch means: for each target the expression
of the first branch with a label for it, and without such a branch that of the first branch with the
default label, wherever it stands (`Calculation.read_branches`).  Labels may fall through, name a
compose file, repeat or stand behind the default; comments may hold anything.
-/

namespace Scaffold.Env.Calculation

open Script

/-- Of two values the first that is there: equal ones for equal values. -/
theorem beq_or {a a' b b' : Option Expr} (ha : (a == a') = true) (hb : (b == b') = true) :
    ((a <|> b) == (a' <|> b')) = true := by
  cases a <;> cases a'
  · exact hb
  · cases ha
  · cases ha
  · exact ha

/-- A function with a switch over the target is read, and for each target it gives the expression
that the branches of the switch give, up to the equality of numbers. -/
theorem read_branches {gs : List Branch} {body a b : Text} (hbody : BranchesText gs body)
    (ha : Spacing a) (hb : Spacing b) (h : ∀ g ∈ gs, g.expr.Supported) :
    ∃ c, read ("(env, target) => \x7b" ++ a ++ "switch (target) \x7b" ++ body ++ "\x7d" ++ b ++
        "\x7d") = .ok c ∧
      ∀ target, (c.exprFor? target == chosen gs target) = true := by
  have hreadable : ∀ g ∈ gs, g.expr.Readable := fun g hg => (h g hg).readable
  obtain ⟨c, hread, hfirst⟩ := readCases_branches hbody hreadable
  have htext : ("(env, target) => \x7b" ++ a ++ "switch (target) \x7b" ++ body ++ "\x7d" ++ b ++
      "\x7d" : Text) =
        arrow ++ ('\x7b' :: (a ++ (switchWord ++ switchOf body) ++ b) ++ ['\x7d']) := by
    have hhead : ("(env, target) => \x7b" : Text) = arrow ++ ['\x7b'] := by decide
    have hswitch : ("switch (target) \x7b" : Text) = switchWord ++ (discriminant ++ ['\x7b']) := by
      decide
    have hclose : ("\x7d" : Text) = ['\x7d'] := rfl
    rw [hhead, hswitch, hclose]
    simp [switchOf]
  refine ⟨c, ?_, fun target => beq_or (hfirst (some target)) (hfirst none)⟩
  rw [htext, read_function (balanced_branches hbody hreadable) ha.filler hb.filler, hread]

/-! ## A sample -/

/-- Branches that fall through, with the default in front of others and with labels that repeat. -/
def sampleBranches : List Branch :=
  [⟨[some .dev, none], .literal (.string "default: '; // \x7d"), List.cons_ne_nil _ _⟩,
    ⟨[some .prod, some .dev], .template [.text "case 'dev': ", .reference "host"],
      List.cons_ne_nil _ _⟩,
    ⟨[none, some .stage], .literal (.number 1.5), List.cons_ne_nil _ _⟩]

/-- The sample branches as someone may write them. -/
def sampleBody : Text :=
  "// case 'stage': \x7b;\n" ++
      ("case 'dev' :/* ; \x7d ' */default:" ++
        (returnWord ++ Expr.render (.literal (.string "default: '; // \x7d")))) ++
      ";// leave\nbreak;" ++
    ("\n" ++
        ("case\"docker-compose.yaml\":case\t'dev':// return\n" ++
          (returnWord ++ Expr.render (.template [.text "case 'dev': ", .reference "host"]))) ++
        ";" ++
      ("/* break; */" ++
          ("default\t: case'stage':" ++ (returnWord ++ Expr.render (.literal (.number 1.5)))) ++
          ";" ++
        " "))

theorem branchesText_sampleBody : BranchesText sampleBranches sampleBody := by
  have htab : IsBlank ['\t'] := List.forall_mem_singleton.2 rfl
  have hspace : IsBlank [' '] := .spaces 1
  have hfirst : LabelsText [some .dev, none] "case 'dev' :/* ; \x7d ' */default:" :=
    .cons (.target (.inl rfl) (.inl rfl) hspace) hspace
      (.block (show ¬ commentEnd <:+: " ; \x7d ' ".toList by decide) .nil) (.cons .default .nil .nil .nil)
  have hsecond : LabelsText [some .prod, some .dev]
      "case\"docker-compose.yaml\":case\t'dev':// return\n" :=
    .cons (.target (.inr rfl) (.inr rfl) .nil) .nil .nil
      (.cons (.target (.inl rfl) (.inl rfl) htab) .nil
        (.line (show '\n' ∉ " return".toList by decide) .nil) .nil)
  have hthird : LabelsText [none, some .stage] "default\t: case'stage':" :=
    .cons .default htab (.of_isBlank hspace)
      (.cons (.target (.inl rfl) (.inl rfl) .nil) .nil .nil .nil)
  exact .cons (.line (show '\n' ∉ " case 'stage': \x7b;".toList by decide) .nil) ⟨_, hfirst, rfl⟩
    (.leaving (.line (show '\n' ∉ " leave".toList by decide) .nil))
    (.cons (.of_isBlank (.newline .nil)) ⟨_, hsecond, rfl⟩ .plain
      (.cons (.block (show ¬ commentEnd <:+: " break; ".toList by decide) .nil) ⟨_, hthird, rfl⟩ .plain
        (.nil (.of_isBlank hspace))))

theorem supported_sampleBranches : ∀ g ∈ sampleBranches, g.expr.Supported := by
  have hhost : IsReferenceKey ("host" : Text) := ⟨by decide, by decide⟩
  have hparts : Normal [.text "case 'dev': ", .reference "host"] :=
    .text (by decide) (.reference hhost .nil) (by simp)
  have hnumber : Decimal.isFinite 1.5 = true := by decide
  intro g hg
  simp only [sampleBranches, List.mem_cons, List.not_mem_nil, or_false] at hg
  rcases hg with rfl | rfl | rfl
  · trivial
  · exact hparts
  · exact hnumber

theorem read_branches_sample :
    BranchesText sampleBranches sampleBody ∧ Spacing "\n" ∧ Spacing "// \x7d\n" ∧
      (∀ g ∈ sampleBranches, g.expr.Supported) ∧
      ∃ c, read ("(env, target) => \x7b" ++ "\n" ++ "switch (target) \x7b" ++ sampleBody ++ "\x7d" ++
          "// \x7d\n" ++ "\x7d") = .ok c ∧
        ∀ target, (c.exprFor? target == chosen sampleBranches target) = true :=
  have hfront : Spacing "\n" := .of_isBlank (.newline .nil)
  have hback : Spacing "// \x7d\n" := .line (show '\n' ∉ " \x7d".toList by decide) .nil
  ⟨branchesText_sampleBody, hfront, hback, supported_sampleBranches,
    read_branches branchesText_sampleBody hfront hback supported_sampleBranches⟩

/-- The second label for a target does not count, and the first default does. -/
example : chosen sampleBranches .dev = chosen sampleBranches .local ∧
    chosen sampleBranches .stage = some (.literal (.number 1.5)) := ⟨rfl, rfl⟩

end Scaffold.Env.Calculation
