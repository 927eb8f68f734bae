import Scaffold.Proofs.Env.Calls
import Scaffold.Proofs.Env.Evaluation
import Scaffold.Proofs.Script.Array

/-!
# Calculations round trip

Every calculation of supported expressions is read back from its script text, at every indentation,
as an equal one (`Calculation.read_inverts_render`).  No assumption about numbers is left: the text
of a finite number is read as an equal number (`Literal.readsBack`).
-/

namespace Scaffold.Env

/-- An expression that a script can state: a string, a boolean or a finite number, a reference to a
key of letters, digits and underscores, or pieces of a template as they are read, without empty
texts and without two texts side by side. -/
def Expr.Supported : Expr → Prop
  | .literal v => v.IsFinite
  | .reference key => IsReferenceKey key
  | .template parts => Normal parts

theorem Expr.Supported.readable {e : Expr} (h : e.Supported) : e.Readable := by
  cases e with
  | literal v =>
    cases v with
    | string t => trivial
    | number x => exact ⟨h, Script.Literal.readsBack x⟩
    | boolean b => trivial
  | reference key => exact h
  | template parts => exact h

namespace Calculation

/-- A calculation whose expressions are supported, whatever targets have cases and whether there is
a fallback, is read back from its script text. -/
theorem read_inverts_render {c : Calculation} (h : ∀ e ∈ c.exprs, e.Supported) (indent : Nat) :
    ∃ c', read (c.render indent) = .ok c' ∧ (c' == c) = true := by
  have hreadable : c.Readable := by
    intro l e he
    exact (h e (mem_exprs he)).readable
  exact read_render hreadable indent

/-- A calculation with texts that look like labels, comments, escapes and references. -/
def sampleCalculation : Calculation where
  cases
    | .dev => some (.literal (.string "case 'dev': return \x60$\x7b'; // \\"))
    | .prod => some (.template [.text "$\x7b\\\x60$", .reference "host", .text ";\x7d\n/*"])
    | .stage => some (.literal (.number 1.5))
    | .local => none
  fallback := some (.reference "host")

theorem supported_sampleCalculation : ∀ e ∈ sampleCalculation.exprs, e.Supported := by
  have hhost : IsReferenceKey ("host" : Text) := ⟨by decide, by decide⟩
  have hlast : Normal [.text ";\x7d\n/*"] := .text (by decide) .nil (by simp)
  have hparts : Normal [.text "$\x7b\\\x60$", .reference "host", .text ";\x7d\n/*"] :=
    .text (by decide) (.reference hhost hlast) (by simp)
  have hnumber : Decimal.isFinite 1.5 = true := by decide
  intro e he
  simp only [sampleCalculation, exprs, Target.all, List.filterMap_cons, List.filterMap_nil,
    Option.toList_some, List.cons_append, List.nil_append, List.mem_cons, List.not_mem_nil,
    or_false] at he
  rcases he with rfl | rfl | rfl | rfl
  · trivial
  · exact hnumber
  · exact hparts
  · exact hhost

theorem read_inverts_render_sample : (∀ e ∈ sampleCalculation.exprs, e.Supported) ∧
    ∃ c', read (sampleCalculation.render 4) = .ok c' ∧ (c' == sampleCalculation) = true :=
  ⟨supported_sampleCalculation, read_inverts_render supported_sampleCalculation 4⟩

end Calculation

end Scaffold.Env
