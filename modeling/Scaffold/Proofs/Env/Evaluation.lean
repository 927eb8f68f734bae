import Scaffold.Env.Resolve
import Scaffold.Proofs.Decimal.Equality
import Scaffold.Proofs.Env.Checks

/-!
# The values of expressions

What calculations see of a static variable is a value of its declared type
(`Snapshot.lookup_ofModel`, `type_of_visibleValue`).  An expression whose references are declared
has a value (`Expr.exists_evaluate`) of the type that it is checked for (`Expr.type_of_evaluate`),
and equal expressions have equal values (`Expr.evaluate_of_beq`).
-/

namespace Scaffold.Env

/-! ## Equal values -/

namespace Setting

/-- A value that is no number, or a finite one. -/
def IsFinite : Setting → Prop
  | .number x => Decimal.isFinite x = true
  | _ => True

theorem beq_self {x : Setting} (h : x.IsFinite) : (x == x) = true := by
  cases x with
  | string t => exact beq_self_eq_true t
  | number x => exact Decimal.beq_self_of_isFinite h
  | boolean b => exact beq_self_eq_true b

theorem type_eq_of_beq {x y : Setting} (h : (x == y) = true) : x.type = y.type := by
  cases x <;> cases y <;> first | rfl | cases h

end Setting

/-- What is read as a value is finite. -/
theorem ValueType.isFinite_of_read? {τ : ValueType} {t : Text} {x : Setting}
    (h : τ.read? t = some x) : x.IsFinite := by
  have htype := type_of_read? h
  cases τ with
  | number =>
    obtain ⟨y, hy, rfl⟩ := Option.map_eq_some_iff.1 h
    exact (Option.filter_eq_some_iff.1 hy).2
  | string | boolean =>
    cases x with
    | number => cases htype
    | string | boolean => trivial

/-! ## What calculations see -/

/-- What calculations see of a static variable. -/
def visibleValue (env : DotEnv) (d : Declaration) : Option Setting := (staticValue env d).toOption.join

/-- A visible value has been read as one of the declared type. -/
theorem read?_of_visibleValue {env : DotEnv} {d : Declaration} {x : Setting}
    (h : visibleValue env d = some x) : ∃ raw, d.type.read? raw = some x := by
  rw [visibleValue, staticValue] at h
  split at h
  · next raw _ =>
    refine ⟨raw, ?_⟩
    rw [coerce] at h
    split at h
    · next hread =>
      rw [hread]
      exact h
    · cases h
  · cases h

theorem type_of_visibleValue {env : DotEnv} {d : Declaration} {x : Setting}
    (h : visibleValue env d = some x) : x.type = d.type :=
  let ⟨_, hread⟩ := read?_of_visibleValue h
  ValueType.type_of_read? hread

namespace Snapshot

/-- Declaring variables with different keys, each with what is visible of it. -/
theorem lookup_foldl_insert (env : DotEnv) {ds : List Declaration} {s : Snapshot}
    (hnodup : (ds.map Declaration.key).Nodup) (hnew : ∀ d ∈ ds, s.lookup d.key = none) (key : Text) :
    (ds.foldl (fun s d => s.insert d.key (visibleValue env d)) s).lookup key =
      match ds.find? fun d => d.key == key with
      | some d => some (visibleValue env d)
      | none => s.lookup key := by
  induction ds generalizing s with
  | nil => rfl
  | cons d ds ih =>
    rw [List.map_cons, List.nodup_cons] at hnodup
    have hinsert (k : Text) : (s.insert d.key (visibleValue env d)).lookup k =
        if k = d.key then some (visibleValue env d) else s.lookup k := by
      have hvalue : (visibleValue env d <|> (s.lookup d.key).join) = visibleValue env d := by
        rw [hnew d List.mem_cons_self]
        cases visibleValue env d <;> rfl
      rw [Snapshot.insert, Table.lookup_insert, hvalue]
      simp
    have hrest : ∀ e ∈ ds, (s.insert d.key (visibleValue env d)).lookup e.key = none := by
      intro e he
      have hne : e.key ≠ d.key := fun heq => hnodup.1 (List.mem_map.2 ⟨e, he, heq⟩)
      rw [hinsert, if_neg hne, hnew e (List.mem_cons_of_mem _ he)]
    rw [List.foldl_cons, ih hnodup.2 hrest, List.find?_cons]
    by_cases hkey : d.key = key
    · have hnone : (ds.find? fun e => e.key == key) = none := by
        rw [List.find?_eq_none]
        intro e he heq
        exact hnodup.1 (List.mem_map.2 ⟨e, he, (beq_iff_eq.1 heq).trans hkey.symm⟩)
      have hbeq : (d.key == key) = true := beq_iff_eq.2 hkey
      rw [hnone, hbeq, hinsert, if_pos hkey.symm]
    · have hbeq : (d.key == key) = false := beq_eq_false_iff_ne.2 hkey
      rw [hbeq, hinsert, if_neg (Ne.symm hkey)]

/-- The snapshot of a model has its static variables, each with what is visible of it. -/
theorem lookup_ofModel {m : Model} (hnodup : (m.statics.map Declaration.key).Nodup) (env : DotEnv)
    (key : Text) : (ofModel m env).lookup key = (m.static? key).map (visibleValue env) := by
  rw [Model.static?]
  refine (lookup_foldl_insert env hnodup (fun _ _ => rfl) key).trans ?_
  cases m.statics.find? fun d => d.key == key <;> rfl

end Snapshot

/-! ## Evaluating expressions -/

/-- The value of a declared variable. -/
theorem Snapshot.value_eq {s : Snapshot} {key : Text} {v : Option Setting}
    (h : s.lookup key = some v) : s.value key = .ok v := by
  rw [value, h]

namespace Expr

/-- An expression has a value when its references are declared. -/
theorem exists_evaluate {s : Snapshot} {e : Expr}
    (h : ∀ r ∈ e.references, (s.lookup r).isSome = true) : ∃ v, e.evaluate s = .ok v := by
  cases e with
  | literal x => exact ⟨some x, rfl⟩
  | reference key =>
    obtain ⟨v, hv⟩ := Option.isSome_iff_exists.1 (h key List.mem_cons_self)
    exact ⟨v, s.value_eq hv⟩
  | template parts =>
    have hparts : ∃ texts, parts.mapM (TemplatePart.evaluate s) = .ok texts := by
      induction parts with
      | nil => exact ⟨[], rfl⟩
      | cons part parts ih =>
        have hpart : ∃ t, part.evaluate s = .ok t := by
          cases part with
          | text t => exact ⟨t, rfl⟩
          | reference key =>
            obtain ⟨v, hv⟩ := Option.isSome_iff_exists.1 (h key List.mem_cons_self)
            rw [TemplatePart.evaluate, s.value_eq hv]
            exact ⟨_, rfl⟩
        have hrest : ∀ r ∈ (template parts).references, (s.lookup r).isSome = true := by
          intro r hr
          refine h r ?_
          cases part with
          | text t => exact hr
          | reference key => exact List.mem_cons_of_mem _ hr
        obtain ⟨t, ht⟩ := hpart
        obtain ⟨texts, htexts⟩ := ih hrest
        rw [List.mapM_cons, ht, htexts]
        exact ⟨_, rfl⟩
    obtain ⟨texts, htexts⟩ := hparts
    rw [evaluate, htexts]
    exact ⟨_, rfl⟩

variable {m : Model} (hnodup : (m.statics.map Declaration.key).Nodup) (env : DotEnv)
include hnodup

/-- The value that a reference has in the snapshot of a model. -/
theorem visible_of_evaluate_reference {key : Text} {x : Setting}
    (h : (reference key).evaluate (.ofModel m env) = .ok (some x)) :
    ∃ d, m.static? key = some d ∧ visibleValue env d = some x := by
  rw [evaluate, Snapshot.value, Snapshot.lookup_ofModel hnodup] at h
  cases hd : m.static? key with
  | none =>
    rw [hd] at h
    cases h
  | some d =>
    rw [hd] at h
    exact ⟨d, rfl, Except.ok.inj h⟩

/-- The value of an expression is of the type that the expression is checked for. -/
theorem type_of_evaluate {e : Expr} {τ : ValueType} (ht : ∀ σ, e.type? m.type? = some σ → σ = τ)
    {x : Setting} (h : e.evaluate (.ofModel m env) = .ok (some x)) : x.type = τ := by
  cases e with
  | literal y =>
    obtain rfl : y = x := Option.some.inj (Except.ok.inj h)
    exact ht y.type rfl
  | reference key =>
    obtain ⟨d, hd, hx⟩ := visible_of_evaluate_reference hnodup env h
    rw [type_of_visibleValue hx]
    refine ht d.type ?_
    rw [type?, Model.type?, hd]
    rfl
  | template parts =>
    rw [evaluate] at h
    cases hparts : parts.mapM (TemplatePart.evaluate (.ofModel m env)) with
    | error key =>
      rw [hparts] at h
      cases h
    | ok texts =>
      rw [hparts] at h
      obtain rfl : Setting.string texts.flatten = x := Option.some.inj (Except.ok.inj h)
      exact ht .string rfl

/-- Equal expressions have equal values. -/
theorem evaluate_of_beq {e e' : Expr} (heq : (e' == e) = true) {v : Option Setting}
    (h : e.evaluate (.ofModel m env) = .ok v) :
    ∃ v', e'.evaluate (.ofModel m env) = .ok v' ∧ (v' == v) = true := by
  match e', e, heq with
  | .literal x, .literal y, heq =>
    obtain rfl : some y = v := Except.ok.inj h
    exact ⟨some x, rfl, heq⟩
  | .reference key', .reference key, heq =>
    obtain rfl : key' = key := beq_iff_eq.1 heq
    refine ⟨v, h, ?_⟩
    cases v with
    | none => rfl
    | some x =>
      obtain ⟨d, -, hx⟩ := visible_of_evaluate_reference hnodup env h
      obtain ⟨raw, hraw⟩ := read?_of_visibleValue hx
      exact Setting.beq_self (ValueType.isFinite_of_read? hraw)
  | .template parts', .template parts, heq =>
    obtain rfl : parts' = parts := beq_iff_eq.1 heq
    refine ⟨v, h, ?_⟩
    rw [evaluate] at h
    cases hparts : parts'.mapM (TemplatePart.evaluate (.ofModel m env)) with
    | error key =>
      rw [hparts] at h
      cases h
    | ok texts =>
      rw [hparts] at h
      obtain rfl : some (Setting.string texts.flatten) = v := Except.ok.inj h
      exact beq_self_eq_true texts.flatten

end Expr

/-! ## Calculations -/

namespace Calculation

/-- A calculation without missing targets has an expression for each, one of its own. -/
theorem exists_exprFor? {c : Calculation} (h : c.missing = []) (target : Target) :
    ∃ e, c.exprFor? target = some e ∧ e ∈ c.exprs := by
  have hsome : (c.exprFor? target).isSome = true := by
    have hmissing : target ∉ c.missing := by simp [h]
    rw [missing, List.mem_filter] at hmissing
    simpa [Target.mem_all, Option.isSome_iff_ne_none] using hmissing
  obtain ⟨e, he⟩ := Option.isSome_iff_exists.1 hsome
  refine ⟨e, he, ?_⟩
  rw [exprFor?] at he
  rw [exprs, List.mem_append]
  cases hcase : c.cases target with
  | some e' =>
    rw [hcase] at he
    obtain rfl : e' = e := Option.some.inj he
    exact .inl (List.mem_filterMap.2 ⟨target, Target.mem_all target, hcase⟩)
  | none =>
    rw [hcase] at he
    exact .inr (Option.mem_toList.2 he)

/-- Equal calculations have equal expressions for a target. -/
theorem exprFor?_of_beq {c c' : Calculation} (heq : (c' == c) = true) {target : Target} {e : Expr}
    (h : c.exprFor? target = some e) : ∃ e', c'.exprFor? target = some e' ∧ (e' == e) = true := by
  obtain ⟨hcases, hfallback⟩ : (∀ t ∈ Target.all, (c'.cases t == c.cases t) = true) ∧
      (c'.fallback == c.fallback) = true := by
    change (Target.all.all (fun t => c'.cases t == c.cases t) && c'.fallback == c.fallback) = true
      at heq
    rwa [Bool.and_eq_true, List.all_eq_true] at heq
  have hboth : (c'.exprFor? target == c.exprFor? target) = true := by
    have hcase := hcases target (Target.mem_all target)
    rw [exprFor?, exprFor?]
    cases hc : c.cases target <;> cases hc' : c'.cases target <;> rw [hc, hc'] at hcase
    · exact hfallback
    · cases hcase
    · cases hcase
    · exact hcase
  rw [h] at hboth
  cases he' : c'.exprFor? target with
  | none =>
    rw [he'] at hboth
    cases hboth
  | some e' =>
    rw [he'] at hboth
    exact ⟨e', rfl, hboth⟩

end Calculation

end Scaffold.Env
