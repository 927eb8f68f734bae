import Mathlib.Data.List.Basic
import Scaffold.Proofs.Env.Session

/-!
# Validation agrees with the values of variables

Validation goes over all declarations at once, reading a value goes from one key to its declaration.
Where no key is declared twice both come to the same: what is reported about a variable follows from
the values that it has for the targets (`validate_reflects`), for every model and all entries
of the environment file, and so it does on a disk (`validateWorkspace_reflects`).
-/

namespace Scaffold.Env

/-! ## What is reported -/

/-- The findings about a key. -/
def findingsAbout (key : Text) (fs : List Finding) : List Finding :=
  fs.filter fun f => f.key == some key

/-- All declared keys, those of the static variables first. -/
def Model.keys (m : Model) : List Text := (m.statics ++ m.calculated).map Declaration.key

theorem Accepted.keys_model (a : Accepted) : a.model.keys = a.keys := by
  simp [Model.keys, model, keys]

/-- What a variable has for a target: the answer of `resolve` and `getVariable`. -/
abbrev Answer := Except Fault (Option Setting)

/-- The value of a static variable is not of its type. -/
def Answer.IsInvalidValue (r : Answer) : Prop := ∃ key raw type, r = .error (.invalidValue key raw type)

/-- The calculation of a variable cannot be read. -/
def Answer.IsInvalidCalculation (r : Answer) : Prop :=
  ∃ key flaw, r = .error (.invalidCalculation key flaw)

/-- There is an answer, and its value, if any, has the declared type. -/
def Declaration.accepts (d : Declaration) : Answer → Bool
  | .ok (some x) => x.type == d.type
  | .ok none => true
  | .error _ => false

/-- The findings report exactly what is wrong with the answers for the declared variables. -/
structure Reflects (m : Model) (answer : Text → Target → Answer) (fs : List Finding) : Prop where
  declared : ∀ f ∈ fs, ∃ key ∈ m.keys, f.key = some key
  static_once : ∀ d ∈ m.statics, (findingsAbout d.key fs).length ≤ 1
  static_mistyped : ∀ d ∈ m.statics, ∀ target,
    (∃ f ∈ findingsAbout d.key fs, f.reason = .number ∨ f.reason = .boolean) ↔
      (answer d.key target).IsInvalidValue
  static_missing : ∀ d ∈ m.statics, ∀ target,
    (∃ f ∈ findingsAbout d.key fs, f.reason = .required) ↔
      d.required = true ∧ answer d.key target = .ok none
  static_only : ∀ d ∈ m.statics, ∀ f ∈ findingsAbout d.key fs,
    f.reason = .number ∨ f.reason = .boolean ∨ f.reason = .required
  /-- A calculation that cannot be read is reported once. -/
  unreadable : ∀ d ∈ m.calculated, (∀ c, m.calculation d.key ≠ .ok c) →
    (∀ target, (answer d.key target).IsInvalidCalculation) ∧
      ∃ message, findingsAbout d.key fs = [⟨some d.key, .calculation, message⟩]
  /-- Any other calculation is reported once for each target that it fails for. -/
  readable : ∀ d ∈ m.calculated, ∀ c, m.calculation d.key = .ok c →
    (∀ target, ¬ (answer d.key target).IsInvalidCalculation) ∧
      ∃ message : Target → Text, findingsAbout d.key fs =
        (Target.all.filter fun target => !d.accepts (answer d.key target)).map fun target =>
          ⟨some d.key, .calculation, message target⟩
  empty : fs = [] ↔
    (∀ d ∈ m.statics ++ m.calculated, ∀ target, d.accepts (answer d.key target) = true) ∧
      ∀ d ∈ m.statics, d.required = true → ∀ target, answer d.key target ≠ .ok none

/-! ## Findings of one key -/

section

variable {report : Declaration → List Finding} (hreport : ∀ d, ∀ f ∈ report d, f.key = some d.key)
include hreport

theorem findingsAbout_report (d : Declaration) (key : Text) :
    findingsAbout key (report d) = if d.key = key then report d else [] := by
  have hbeq : ∀ f ∈ report d, (f.key == some key) = decide (d.key = key) := by
    intro f hf
    rw [hreport d f hf, Bool.eq_iff_iff]
    simp
  rw [findingsAbout, List.filter_congr hbeq]
  by_cases h : d.key = key <;> simp [h]

/-- Nothing is reported about a key that is not declared. -/
theorem findingsAbout_of_notMem {ds : List Declaration} {key : Text}
    (h : key ∉ ds.map Declaration.key) : findingsAbout key (ds.flatMap report) = [] := by
  rw [findingsAbout, List.filter_eq_nil_iff]
  intro f hf hkey
  obtain ⟨d, hd, hfd⟩ := List.mem_flatMap.1 hf
  rw [hreport d f hfd] at hkey
  exact h (List.mem_map.2 ⟨d, hd, by simpa using hkey⟩)

/-- What is reported about a key that is declared once is what is reported for its declaration. -/
theorem findingsAbout_of_mem {ds : List Declaration} (hnodup : (ds.map Declaration.key).Nodup)
    {d : Declaration} (hd : d ∈ ds) : findingsAbout d.key (ds.flatMap report) = report d := by
  induction ds with
  | nil => cases hd
  | cons e ds ih =>
    rw [List.map_cons, List.nodup_cons] at hnodup
    rw [List.flatMap_cons, findingsAbout, List.filter_append]
    change findingsAbout _ _ ++ findingsAbout _ _ = _
    rw [findingsAbout_report hreport]
    rcases List.mem_cons.1 hd with rfl | hd
    · rw [if_pos rfl, findingsAbout_of_notMem hreport hnodup.1, List.append_nil]
    · have hne : e.key ≠ d.key := fun heq => hnodup.1 (heq ▸ List.mem_map_of_mem hd)
      rw [if_neg hne, ih hnodup.2 hd, List.nil_append]

end

theorem key_of_checkStatic {env : DotEnv} {d : Declaration} {f : Finding}
    (h : checkStatic env d = some f) : f.key = some d.key := by
  rw [checkStatic] at h
  split at h
  · split at h <;> cases h
    rfl
  · split at h <;> cases h
    rfl

theorem key_of_mem_checkCalculated {m : Model} {s : Snapshot} {d : Declaration} {f : Finding}
    (h : f ∈ checkCalculated m s d) : f.key = some d.key := by
  rw [checkCalculated] at h
  split at h
  · rw [List.mem_singleton.1 h]
  · obtain ⟨message, -, rfl⟩ := List.mem_map.1 h
    rfl

/-! ## Looking up a declaration -/

namespace Model

variable {m : Model} (hnodup : m.keys.Nodup) {d : Declaration}
include hnodup

theorem nodup_statics : (m.statics.map Declaration.key).Nodup := by
  rw [keys, List.map_append] at hnodup
  exact (List.nodup_append.1 hnodup).1

theorem nodup_calculated : (m.calculated.map Declaration.key).Nodup := by
  rw [keys, List.map_append] at hnodup
  exact (List.nodup_append.1 hnodup).2.1

/-- No key is static and calculated. -/
theorem key_ne {e : Declaration} (hd : d ∈ m.statics) (he : e ∈ m.calculated) : d.key ≠ e.key := by
  rw [keys, List.map_append] at hnodup
  exact (List.nodup_append.1 hnodup).2.2 _ (List.mem_map_of_mem hd) _ (List.mem_map_of_mem he)

theorem declaration?_of_mem_statics (hd : d ∈ m.statics) :
    m.declaration? d.key = some (.static, d) := by
  rw [declaration?, static?, Table.find?_of_mem (nodup_statics hnodup) hd]

theorem declaration?_of_mem_calculated (hd : d ∈ m.calculated) :
    m.declaration? d.key = some (.calculated, d) := by
  have hnone : m.static? d.key = none := by
    rw [static?, List.find?_eq_none]
    intro e he heq
    exact key_ne hnodup he hd (by simpa using heq)
  rw [declaration?, hnone, Table.find?_of_mem (nodup_calculated hnodup) hd]
  rfl

/-! ## One variable -/

theorem resolve_of_mem_statics (hd : d ∈ m.statics) (env : DotEnv) (target : Target) :
    resolve m env d.key target = staticValue env d := by
  rw [resolve, declaration?_of_mem_statics hnodup hd]

/-- A calculated variable has what its calculation has for the target. -/
theorem resolve_of_mem_calculated (hd : d ∈ m.calculated) {c : Calculation}
    (hc : m.calculation d.key = .ok c) (env : DotEnv) (target : Target) :
    resolve m env d.key target =
      match c.exprFor? target with
      | none => .error (.missingValue d.key target)
      | some e => (e.evaluate (.ofModel m env)).mapError (.unresolvedReference d.key) := by
  rw [resolve, declaration?_of_mem_calculated hnodup hd]
  exact bind_of_ok hc _

/-- A calculation that cannot be read has nothing for any target. -/
theorem resolve_of_unreadable (hd : d ∈ m.calculated) {fault : Fault}
    (hfault : m.calculation d.key = .error fault) (env : DotEnv) (target : Target) :
    resolve m env d.key target = .error fault := by
  rw [resolve, declaration?_of_mem_calculated hnodup hd]
  simp only
  rw [hfault]
  rfl

end Model

/-- The fault of a calculation that cannot be read. -/
theorem Model.calculation_eq_error {m : Model} {key : Text} {fault : Fault}
    (h : m.calculation key = .error fault) : ∃ flaw, fault = .invalidCalculation key flaw := by
  rw [calculation] at h
  split at h
  · cases h
    exact ⟨.noEntry, rfl⟩
  · next source _ =>
    cases hread : Calculation.read source with
    | ok c =>
      rw [hread] at h
      cases h
    | error flaw =>
      rw [hread] at h
      cases h
      exact ⟨flaw, rfl⟩

/-- The reasons to refuse a value. -/
theorem ValueType.reason_cases {type : ValueType} {reason : Reason}
    (h : type.reason? = some reason) : reason = .number ∨ reason = .boolean := by
  cases type with
  | string => cases h
  | number => exact .inl (Option.some.inj h).symm
  | boolean => exact .inr (Option.some.inj h).symm

/-- What is reported about a static variable depends on the answer for it: a value that is not of
its type, no value where one is required, or nothing. -/
theorem checkStatic_cases (env : DotEnv) (d : Declaration) :
    (∃ raw reason message, staticValue env d = .error (.invalidValue d.key raw d.type) ∧
      d.type.reason? = some reason ∧ checkStatic env d = some ⟨some d.key, reason, message⟩) ∨
    (staticValue env d = .ok none ∧ d.required = true ∧
      ∃ message, checkStatic env d = some ⟨some d.key, .required, message⟩) ∨
    (staticValue env d = .ok none ∧ d.required = false ∧ checkStatic env d = none) ∨
    (∃ x, staticValue env d = .ok (some x) ∧ x.type = d.type ∧ checkStatic env d = none) := by
  rw [staticValue, checkStatic]
  cases env.get? d.key with
  | none =>
    cases d.required with
    | true => exact .inr (.inl ⟨rfl, rfl, _, rfl⟩)
    | false => exact .inr (.inr (.inl ⟨rfl, rfl, rfl⟩))
  | some raw =>
    simp only [coerce]
    cases hread : d.type.read? raw with
    | some x =>
      refine .inr (.inr (.inr ⟨x, rfl, ValueType.type_of_read? hread, ?_⟩))
      cases d.type.reason? <;> rfl
    | none =>
      -- every text is a string, so the type has a reason to refuse one
      obtain ⟨reason, hreason⟩ : ∃ reason, d.type.reason? = some reason := by
        cases htype : d.type with
        | string =>
          rw [htype] at hread
          cases hread
        | number => exact ⟨.number, rfl⟩
        | boolean => exact ⟨.boolean, rfl⟩
      exact .inl ⟨raw, reason, "'" ++ raw ++ "' is not a valid " ++ d.type.name, rfl, hreason,
        by rw [hreason]⟩

section

variable (env : DotEnv) (d : Declaration)

theorem reason_of_checkStatic {f : Finding} (h : checkStatic env d = some f) :
    f.reason = .number ∨ f.reason = .boolean ∨ f.reason = .required := by
  obtain ⟨raw, reason, message, -, hreason, hcheck⟩ | ⟨-, -, message, hcheck⟩ | ⟨-, -, hcheck⟩ |
    ⟨x, -, -, hcheck⟩ := checkStatic_cases env d
  all_goals
    rw [hcheck] at h
    cases h
  · exact (ValueType.reason_cases hreason).imp_right .inl
  · exact .inr (.inr rfl)

/-- A value that is not of its type is reported, and only that is reported as a wrong value. -/
theorem checkStatic_mistyped_iff :
    (∃ f ∈ (checkStatic env d).toList, f.reason = .number ∨ f.reason = .boolean) ↔
      Answer.IsInvalidValue (staticValue env d) := by
  obtain ⟨raw, reason, message, hvalue, hreason, hcheck⟩ | ⟨hvalue, -, message, hcheck⟩ |
    ⟨hvalue, -, hcheck⟩ | ⟨x, hvalue, -, hcheck⟩ := checkStatic_cases env d
  · rw [hvalue, hcheck]
    exact iff_of_true ⟨_, List.mem_singleton_self _, ValueType.reason_cases hreason⟩ ⟨_, _, _, rfl⟩
  all_goals
    rw [hvalue, hcheck]
    refine iff_of_false (by simp) ?_
    rintro ⟨_, _, _, h⟩
    cases h

/-- A required variable without a value is reported, and only that is reported as missing. -/
theorem checkStatic_missing_iff :
    (∃ f ∈ (checkStatic env d).toList, f.reason = .required) ↔
      d.required = true ∧ staticValue env d = .ok none := by
  obtain ⟨raw, reason, message, hvalue, hreason, hcheck⟩ | ⟨hvalue, hrequired, message, hcheck⟩ |
    ⟨hvalue, hrequired, hcheck⟩ | ⟨x, hvalue, -, hcheck⟩ := checkStatic_cases env d
  · have hkind : reason ≠ .required := by
      rintro rfl
      rcases ValueType.reason_cases hreason with h | h <;> cases h
    rw [hvalue, hcheck]
    exact iff_of_false (by simpa using hkind) (fun h => nomatch h.2)
  · rw [hvalue, hcheck]
    exact iff_of_true ⟨_, List.mem_singleton_self _, rfl⟩ ⟨hrequired, rfl⟩
  · rw [hvalue, hcheck, hrequired]
    exact iff_of_false (by simp) (fun h => nomatch h.1)
  · rw [hvalue, hcheck]
    exact iff_of_false (by simp) (fun h => nomatch h.2)

/-- Nothing is reported about a static variable whose value may stand. -/
theorem checkStatic_eq_none_iff :
    checkStatic env d = none ↔
      d.accepts (staticValue env d) = true ∧
        (d.required = true → staticValue env d ≠ .ok none) := by
  obtain ⟨raw, reason, message, hvalue, -, hcheck⟩ | ⟨hvalue, hrequired, message, hcheck⟩ |
    ⟨hvalue, hrequired, hcheck⟩ | ⟨x, hvalue, htype, hcheck⟩ := checkStatic_cases env d
  · rw [hvalue, hcheck]
    exact iff_of_false nofun fun h => nomatch h.1
  · rw [hvalue, hcheck]
    exact iff_of_false nofun fun h => h.2 hrequired rfl
  · rw [hvalue, hcheck, hrequired]
    exact iff_of_true rfl ⟨rfl, nofun⟩
  · rw [hvalue, hcheck]
    exact iff_of_true rfl ⟨beq_iff_eq.2 htype, fun _ => nofun⟩

end

/-- A target is reported when the answer for it is no value of the declared type. -/
theorem checkTarget_isSome {m : Model} (hnodup : m.keys.Nodup) {d : Declaration}
    (hd : d ∈ m.calculated) {c : Calculation} (hc : m.calculation d.key = .ok c) (env : DotEnv)
    (target : Target) :
    (checkTarget (.ofModel m env) d c target).isSome =
      !d.accepts (resolve m env d.key target) := by
  rw [Model.resolve_of_mem_calculated hnodup hd hc, checkTarget]
  cases c.exprFor? target with
  | none => rfl
  | some e =>
    simp only [Option.map_some]
    match e.evaluate (.ofModel m env) with
    | .error reference => rfl
    | .ok none => rfl
    | .ok (some x) =>
      show Option.isSome (if x.type == d.type then none else some _) = !(x.type == d.type)
      cases x.type == d.type <;> rfl

/-- What is reported about a calculation that can be read: one finding for each target that it fails
for. -/
theorem checkCalculated_of_readable {m : Model} (hnodup : m.keys.Nodup) {d : Declaration}
    (hd : d ∈ m.calculated) {c : Calculation} (hc : m.calculation d.key = .ok c) (env : DotEnv) :
    checkCalculated m (.ofModel m env) d =
      (Target.all.filter fun target => !d.accepts (resolve m env d.key target)).map fun target =>
        ⟨some d.key, .calculation, (checkTarget (.ofModel m env) d c target).getD []⟩ := by
  have hmessages (targets : List Target) :
      targets.filterMap (checkTarget (.ofModel m env) d c) =
        (targets.filter fun target => !d.accepts (resolve m env d.key target)).map fun target =>
          (checkTarget (.ofModel m env) d c target).getD [] := by
    induction targets with
    | nil => rfl
    | cons target targets ih =>
      rw [List.filterMap_cons, List.filter_cons, ← checkTarget_isSome hnodup hd hc env target, ih]
      cases htarget : checkTarget (.ofModel m env) d c target with
      | none => rfl
      | some message => simp [htarget]
  rw [checkCalculated, hc]
  simp only [hmessages, List.map_map]
  rfl

/-- Nothing is reported about a calculated variable whose answers may stand. -/
theorem checkCalculated_eq_nil_iff {m : Model} (hnodup : m.keys.Nodup) {d : Declaration}
    (hd : d ∈ m.calculated) (env : DotEnv) :
    checkCalculated m (.ofModel m env) d = [] ↔
      ∀ target, d.accepts (resolve m env d.key target) = true := by
  cases hc : m.calculation d.key with
  | ok c =>
    rw [checkCalculated_of_readable hnodup hd hc, List.map_eq_nil_iff, List.filter_eq_nil_iff]
    simp [Target.mem_all]
  | error fault =>
    simp only [Model.resolve_of_unreadable hnodup hd hc, checkCalculated, hc]
    exact iff_of_false nofun fun h => nomatch h .dev

/-! ## All variables -/

section

variable {m : Model} (hnodup : m.keys.Nodup) (env : DotEnv) {d : Declaration}
include hnodup

/-- What is reported about a static variable. -/
theorem findingsAbout_static (hd : d ∈ m.statics) :
    findingsAbout d.key (validate m env) = (checkStatic env d).toList := by
  have hstatic : ∀ e, ∀ f ∈ (checkStatic env e).toList, f.key = some e.key :=
    fun e f hf => key_of_checkStatic (Option.mem_toList.1 hf)
  have hcalculated : d.key ∉ m.calculated.map Declaration.key := by
    intro hmem
    obtain ⟨e, he, heq⟩ := List.mem_map.1 hmem
    exact m.key_ne hnodup hd he heq.symm
  rw [validate, List.filterMap_eq_flatMap_toList, findingsAbout, List.filter_append]
  change findingsAbout _ _ ++ findingsAbout _ _ = _
  rw [findingsAbout_of_mem hstatic (m.nodup_statics hnodup) hd,
    findingsAbout_of_notMem (fun _ _ => key_of_mem_checkCalculated) hcalculated, List.append_nil]

/-- What is reported about a calculated variable. -/
theorem findingsAbout_calculated (hd : d ∈ m.calculated) :
    findingsAbout d.key (validate m env) = checkCalculated m (.ofModel m env) d := by
  have hstatic : ∀ e, ∀ f ∈ (checkStatic env e).toList, f.key = some e.key :=
    fun e f hf => key_of_checkStatic (Option.mem_toList.1 hf)
  have hnotStatic : d.key ∉ m.statics.map Declaration.key := by
    intro hmem
    obtain ⟨e, he, heq⟩ := List.mem_map.1 hmem
    exact m.key_ne hnodup he hd heq
  rw [validate, List.filterMap_eq_flatMap_toList, findingsAbout, List.filter_append]
  change findingsAbout _ _ ++ findingsAbout _ _ = _
  rw [findingsAbout_of_notMem hstatic hnotStatic,
    findingsAbout_of_mem (fun _ _ => key_of_mem_checkCalculated) (m.nodup_calculated hnodup) hd,
    List.nil_append]

end

/-- Nothing is reported about a model whose answers may all stand. -/
theorem validate_eq_nil_iff {m : Model} (hnodup : m.keys.Nodup) (env : DotEnv) :
    validate m env = [] ↔
      (∀ d ∈ m.statics ++ m.calculated, ∀ target,
        d.accepts (resolve m env d.key target) = true) ∧
      ∀ d ∈ m.statics, d.required = true → ∀ target, resolve m env d.key target ≠ .ok none := by
  have hstatic (d) (hd : d ∈ m.statics) : checkStatic env d = none ↔
      (∀ target, d.accepts (resolve m env d.key target) = true) ∧
        (d.required = true → ∀ target, resolve m env d.key target ≠ .ok none) := by
    simp only [m.resolve_of_mem_statics hnodup hd, checkStatic_eq_none_iff]
    have hsome : Nonempty Target := ⟨.dev⟩
    simp
  rw [validate, List.append_eq_nil_iff, List.filterMap_eq_nil_iff, List.flatMap_eq_nil_iff,
    List.forall_mem_append]
  constructor
  · rintro ⟨hs, hc⟩
    exact ⟨⟨fun d hd => ((hstatic d hd).1 (hs d hd)).1,
      fun d hd => (checkCalculated_eq_nil_iff hnodup hd env).1 (hc d hd)⟩,
      fun d hd => ((hstatic d hd).1 (hs d hd)).2⟩
  · rintro ⟨⟨hs, hc⟩, hrequired⟩
    exact ⟨fun d hd => (hstatic d hd).2 ⟨hs d hd, hrequired d hd⟩,
      fun d hd => (checkCalculated_eq_nil_iff hnodup hd env).2 (hc d hd)⟩

/-- What is reported about the variables of a model reflects the answers for them. -/
theorem validate_reflects {m : Model} (hnodup : m.keys.Nodup) (env : DotEnv) :
    Reflects m (resolve m env) (validate m env) where
  declared f hf := by
    rcases List.mem_append.1 hf with hf | hf
    · obtain ⟨d, hd, hfd⟩ := List.mem_filterMap.1 hf
      exact ⟨d.key, List.mem_map_of_mem (List.mem_append_left _ hd), key_of_checkStatic hfd⟩
    · obtain ⟨d, hd, hfd⟩ := List.mem_flatMap.1 hf
      exact ⟨d.key, List.mem_map_of_mem (List.mem_append_right _ hd),
        key_of_mem_checkCalculated hfd⟩
  static_once d hd := by
    rw [findingsAbout_static hnodup env hd]
    cases checkStatic env d <;> simp
  static_mistyped d hd target := by
    rw [findingsAbout_static hnodup env hd, m.resolve_of_mem_statics hnodup hd]
    exact checkStatic_mistyped_iff env d
  static_missing d hd target := by
    rw [findingsAbout_static hnodup env hd, m.resolve_of_mem_statics hnodup hd]
    exact checkStatic_missing_iff env d
  static_only d hd f hf := by
    rw [findingsAbout_static hnodup env hd, Option.mem_toList] at hf
    exact reason_of_checkStatic env d hf
  unreadable d hd hunreadable := by
    cases hc : m.calculation d.key with
    | ok c => exact absurd hc (hunreadable c)
    | error fault =>
      obtain ⟨flaw, rfl⟩ := m.calculation_eq_error hc
      refine ⟨fun target => ⟨d.key, flaw, m.resolve_of_unreadable hnodup hd hc env target⟩,
        (Fault.invalidCalculation d.key flaw).message, ?_⟩
      rw [findingsAbout_calculated hnodup env hd, checkCalculated, hc]
  readable d hd c hc := by
    refine ⟨fun target => ?_, fun target => (checkTarget (.ofModel m env) d c target).getD [], ?_⟩
    · rw [m.resolve_of_mem_calculated hnodup hd hc]
      rintro ⟨key, flaw, h⟩
      split at h
      · cases h
      · next e _ =>
        cases hvalue : e.evaluate (.ofModel m env) <;> rw [hvalue] at h <;> cases h
    · rw [findingsAbout_calculated hnodup env hd]
      exact checkCalculated_of_readable hnodup hd hc env
  empty := validate_eq_nil_iff hnodup env

/-! ## Workspaces -/

/-- The entries of an environment file that holds text. -/
theorem readDotEnv_of_text {l : Layout} {d : Disk} {t : Text} (h : d.text? l.envFile = some t) :
    readDotEnv l d = .ok (.ofText t) := by
  have hcontains : d.contains l.envFile = true := by
    rw [Disk.text?] at h
    rw [Disk.contains]
    split at h
    · next heq => rw [heq]; rfl
    · cases h
  have hopen : d.openOrEmpty l.envFile = .ok (.ofContent l.envFile t) := by
    rw [Disk.openOrEmpty, hcontains, if_pos rfl, Disk.openDocument, hcontains, if_pos rfl, Disk.read,
      h]
    rfl
  rw [readDotEnv, bind_of_ok hopen, DotEnv.ofDocument, Document.content_ofContent]
  rfl

/-- The entries of an environment file that exists and holds no text cannot be read. -/
theorem readDotEnv_of_unreadable {l : Layout} {d : Disk} (hcontains : d.contains l.envFile = true)
    (h : d.text? l.envFile = none) :
    readDotEnv l d = .error (.fileAccess l.envFile .readingFile) := by
  have hopen : d.openOrEmpty l.envFile = .error (.fileAccess l.envFile .readingFile) := by
    rw [Disk.openOrEmpty, hcontains, if_pos rfl, Disk.openDocument, hcontains, if_pos rfl, Disk.read,
      h]
    rfl
  rw [readDotEnv, hopen]
  rfl

/-- In a workspace whose environment file exists and whose model declares no key twice, validation
reports exactly what is wrong with the values of the declared variables, whatever text the
environment file holds.  One that is no text is reported by neither: then both fail alike. -/
theorem validateWorkspace_reflects {l : Layout} {d : Disk} {m : Model}
    (henv : d.contains l.envFile = true) (hmodel : readModel l d = .ok m) (hnodup : m.keys.Nodup) :
    (∀ t, d.text? l.envFile = some t → ∃ findings, validateWorkspace l d = .ok findings ∧
      Reflects m (fun key target => getVariable l key target d) findings) ∧
    (d.text? l.envFile = none → ∃ fault, validateWorkspace l d = .error fault ∧
      ∀ key target, getVariable l key target d = .error fault) := by
  have hvalidate :
      validateWorkspace l d = readDotEnv l d >>= fun env => pure (validate m env) := by
    rw [validateWorkspace, henv, if_pos rfl, bind_of_ok hmodel]
  have hget (key : Text) (target : Target) :
      getVariable l key target d = readDotEnv l d >>= fun env => resolve m env key target := by
    rw [getVariable, bind_of_ok hmodel]
  refine ⟨fun t ht => ⟨validate m (.ofText t), ?_, ?_⟩,
    fun hnone => ⟨.fileAccess l.envFile .readingFile, ?_, fun key target => ?_⟩⟩
  · rw [hvalidate, bind_of_ok (readDotEnv_of_text ht)]
    rfl
  · have hresolve : (fun key target => getVariable l key target d) = resolve m (.ofText t) := by
      funext key target
      rw [hget, bind_of_ok (readDotEnv_of_text ht)]
    rw [hresolve]
    exact validate_reflects hnodup (.ofText t)
  · rw [hvalidate, readDotEnv_of_unreadable henv hnone]
    rfl
  · rw [hget, readDotEnv_of_unreadable henv hnone]
    rfl

/-- A session after which the value of a required variable is empty. -/
theorem validateWorkspace_reflects_sample : ∃ findings,
    validateWorkspace sampleLayout (session sampleLayout sampleDisk (sampleEvents (.text "host="))).2
        = .ok findings ∧
      Reflects (session sampleLayout sampleDisk (sampleEvents (.text "host="))).1.model
        (fun key target => getVariable sampleLayout key target
          (session sampleLayout sampleDisk (sampleEvents (.text "host="))).2) findings := by
  obtain ⟨root, files, haccepted, hinv⟩ := session_sample (.text "host=")
  generalize session sampleLayout sampleDisk (sampleEvents (.text "host=")) = s at haccepted hinv ⊢
  have hcontains : s.2.contains sampleLayout.envFile = true :=
    (hinv.holds.contains_eq .env).trans (by simp)
  have hentry : s.2.entryAt? sampleLayout.envFile = some (.file (.text "host=")) :=
    (hinv.holds.entryAt?_eq .env).trans (by simp)
  have hmem : sampleUrl ∈ s.1.calculated := haccepted ▸ List.mem_singleton_self sampleUrl
  exact (validateWorkspace_reflects hcontains (hinv.readModel_of_mem hmem)
    (s.1.keys_model ▸ hinv.nodup)).1 "host=" (by rw [Disk.text?, hentry])

end Scaffold.Env
