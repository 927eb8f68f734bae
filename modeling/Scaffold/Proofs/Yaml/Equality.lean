import Scaffold.Proofs.Decimal.Equality
import Scaffold.Yaml.Value

/-!
# Equality of YAML values

Unlike numbers, YAML values are equal to themselves (`Value.beq_self`), the undefined number
included.  A text is equal to the same text only, and never to a tagged one (`Value.beq_text_eq_false`).
-/

namespace Scaffold.Yaml.Value

theorem sameFraction_self (x : Float) : sameFraction x x = true := by
  rw [sameFraction, Bool.or_eq_true, Bool.and_self]
  by_cases hundefined : x.toModel.unpack = .notANumber
  · right
    show x.toModel.unpack.isNaN = true
    rw [hundefined]
    rfl
  · exact .inl (Decimal.beq_iff.2 ⟨hundefined, .inl rfl⟩)

mutual

theorem same_self : ∀ v : Value, same v v = true
  | .null => rfl
  | .boolean b => beq_self_eq_true b
  | .whole n => beq_self_eq_true n
  | .fraction x => sameFraction_self x
  | .text t => beq_self_eq_true t
  | .sequence items => sameItems_self items
  | .mapping entries =>
    Bool.and_eq_true_iff.2 ⟨beq_self_eq_true entries.length, includes_of_subset fun _ he => he⟩
  | .tagged name v => Bool.and_eq_true_iff.2 ⟨beq_self_eq_true name, same_self v⟩

theorem sameItems_self : ∀ items : List Value, sameItems items items = true
  | [] => rfl
  | v :: items => Bool.and_eq_true_iff.2 ⟨same_self v, sameItems_self items⟩

theorem includes_of_subset : ∀ {as bs : List (Value × Value)}, as ⊆ bs → includes as bs = true
  | [], _, _ => rfl
  | (key, value) :: as, bs, h => by
    obtain ⟨hmem, hrest⟩ := List.cons_subset.1 h
    refine Bool.and_eq_true_iff.2 ⟨List.any_eq_true.2 ⟨_, hmem, ?_⟩, includes_of_subset hrest⟩
    exact Bool.and_eq_true_iff.2 ⟨same_self key, same_self value⟩

end

theorem beq_self (v : Value) : (v == v) = true := same_self v

/-- A text is equal to the same text only. -/
theorem beq_text_eq_false {v : Value} {t : Text} (h : v ≠ .text t) : (v == .text t) = false := by
  cases v with
  | text u =>
    have hne : u ≠ t := fun heq => h (congrArg Value.text heq)
    show (u == t) = false
    exact beq_eq_false_iff_ne.2 hne
  | _ => rfl

theorem text_beq_eq_false {v : Value} {t : Text} (h : v ≠ .text t) : (.text t == v) = false := by
  cases v with
  | text u =>
    have hne : t ≠ u := fun heq => h (congrArg Value.text heq.symm)
    show (t == u) = false
    exact beq_eq_false_iff_ne.2 hne
  | _ => rfl

end Scaffold.Yaml.Value
