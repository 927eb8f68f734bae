import Scaffold.Env.Store
import Scaffold.Proofs.Outcome

/-!
# What is checked before a variable is added

A variable is added exactly when its checks succeed, and then the documents to save are known
(`staticAdded_eq_ok`, `calculatedAdded_eq_ok`).  Both hold for every disk, whatever its files are.
-/

namespace Scaffold.Env

/-! ## Keys -/

theorem checkKey_eq_ok {key : Text} : checkKey key = .ok () ↔ isValidKey key = true := by
  rw [checkKey]
  split <;> simp [*]

theorem Model.contains_eq_false {m : Model} {key : Text} :
    m.contains key = false ↔ (∀ d ∈ m.statics, d.key ≠ key) ∧ ∀ d ∈ m.calculated, d.key ≠ key := by
  have hfind (ds : List Declaration) :
      (ds.find? fun d => d.key == key) = none ↔ ∀ d ∈ ds, d.key ≠ key := by
    simp
  rw [contains, Option.isSome_eq_false_iff, Option.isNone_iff_eq_none, declaration?, static?,
    ← hfind, ← hfind]
  split
  · next h => simp [h]
  · next h => simp [h]

/-- A key is new when neither the model nor any of the environment files has it. -/
theorem checkNew_eq_ok {l : Layout} {key : Text} {document : Document} {files : List Document}
    {m : Model} :
    checkNew l key document files = .ok m ↔
      Model.read document l.vocabulary = .ok m ∧ m.contains key = false ∧
        ∀ file ∈ files, (DotEnv.ofDocument file).contains key = false := by
  rw [checkNew, bind_eq_ok]
  constructor
  · rintro ⟨m', hread, h⟩
    split at h
    · cases h
    · next hnew =>
      split at h
      · cases h
      · next hfiles =>
        cases h
        exact ⟨hread, by simpa using hnew, by simpa using hfiles⟩
  · rintro ⟨hread, hnew, hfiles⟩
    have hnone : (files.find? fun file => (DotEnv.ofDocument file).contains key) = none := by
      simpa using hfiles
    exact ⟨m, hread, by rw [hnew, if_neg Bool.false_ne_true, hnone]; rfl⟩

/-! ## Static variables -/

/-- The value, when there is one, is of the declared type, and a line can hold it. -/
def StaticVariable.Fits (v : StaticVariable) : Prop :=
  ∀ x, v.value = some x → x.type = v.type ∧ '\n' ∉ x.text

/-- The text of the value. -/
def StaticVariable.raw (v : StaticVariable) : Option Text := v.value.map Setting.text

theorem checkValue_eq_ok {v : StaticVariable} : checkValue v = .ok () ↔ v.Fits := by
  rw [checkValue, StaticVariable.Fits]
  split
  · next value hvalue =>
    simp only [hvalue, Option.some.injEq, forall_eq']
    split
    · next h =>
      refine iff_of_false nofun ?_
      rintro ⟨htype, hline⟩
      simp [htype, hline] at h
    · next h =>
      refine iff_of_true rfl ?_
      simpa using h
  · next hvalue => simp [hvalue]

theorem StaticVariable.Fits.newline_notMem {v : StaticVariable} (h : v.Fits) :
    '\n' ∉ v.raw.getD [] := by
  rw [raw]
  cases hvalue : v.value with
  | none => exact List.not_mem_nil
  | some x => exact (h x hvalue).2

theorem StaticVariable.Fits.newline_notMem_public {v : StaticVariable} (h : v.Fits)
    (isPublic : Bool) : '\n' ∉ (v.raw.filter fun _ => isPublic).getD [] := by
  have hraw := h.newline_notMem
  cases hv : v.raw with
  | none => exact List.not_mem_nil
  | some t =>
    rw [hv] at hraw
    cases isPublic with
    | true => exact hraw
    | false => exact List.not_mem_nil

/-- The line of the environment file. -/
def StaticVariable.envLine (v : StaticVariable) : Text := DotEnv.entryLine v.key v.raw

/-- The line of the shared environment file, with the value only if it is public. -/
def StaticVariable.sharedLine (v : StaticVariable) (isPublic : Bool) : Text :=
  DotEnv.entryLine v.key (v.raw.filter fun _ => isPublic)

/-- The documents of a static variable that is added. -/
theorem staticAdded_eq_ok {l : Layout} {v : StaticVariable} {isPublic : Bool} {d : Disk}
    {documents : List Document} :
    staticAdded l v isPublic d = .ok documents ↔
      isValidKey v.key = true ∧ v.Fits ∧ ∃ model env shared m declared,
        openModel l d = .ok model ∧ d.openOrEmpty l.envFile = .ok env ∧
        d.openOrEmpty l.publicEnvFile = .ok shared ∧
        checkNew l v.key model [env, shared] = .ok m ∧
        model.appendToLiteral VariableKind.static.marker .semicolon [v.toDeclaration.render] =
          .ok declared ∧
        documents = [declared, (env.appendLines [v.envLine]).2,
          (shared.appendLines [v.sharedLine isPublic]).2] := by
  simp only [staticAdded, bind_eq_ok]
  constructor
  · rintro ⟨⟨⟩, hkey, model, hmodel, env, henv, shared, hshared, m, hm, ⟨⟩, hvalue, declared,
      hdeclared, h⟩
    exact ⟨checkKey_eq_ok.1 hkey, checkValue_eq_ok.1 hvalue, model, env, shared, m, declared, hmodel,
      henv, hshared, hm, hdeclared, (Except.ok.inj h).symm⟩
  · rintro ⟨hkey, hvalue, model, env, shared, m, declared, hmodel, henv, hshared, hm, hdeclared, rfl⟩
    exact ⟨(), checkKey_eq_ok.2 hkey, model, hmodel, env, henv, shared, hshared, m, hm, (),
      checkValue_eq_ok.2 hvalue, declared, hdeclared, rfl⟩

/-! ## Calculated variables -/

/-- The type of a static variable. -/
def Model.type? (m : Model) (key : Text) : Option ValueType := (m.static? key).map (·.type)

/-- The calculation has a value for every target, refers to static variables only, and has no value
of another type than its variable. -/
structure CalculatedVariable.Fits (m : Model) (v : CalculatedVariable) : Prop where
  complete : v.value.missing = []
  resolved : ∀ r ∈ v.value.references, (m.static? r).isSome = true
  typed : ∀ e ∈ v.value.exprs, ∀ τ, e.type? m.type? = some τ → τ = v.type

/-- Whether a calculation fits depends on the static variables only. -/
theorem CalculatedVariable.Fits.of_statics_eq {m m' : Model} {v : CalculatedVariable}
    (h : v.Fits m) (hstatics : m'.statics = m.statics) : v.Fits m' where
  complete := h.complete
  resolved r hr := by
    rw [Model.static?, hstatics]
    exact h.resolved r hr
  typed e he τ hτ := by
    have htype : m'.type? = m.type? := by
      funext key
      rw [Model.type?, Model.type?, Model.static?, Model.static?, hstatics]
    exact h.typed e he τ (htype ▸ hτ)

theorem checkCalculation_eq_ok {m : Model} {v : CalculatedVariable} :
    checkCalculation m v = .ok () ↔ v.Fits m := by
  have htypes : (∀ e ∈ v.value.exprs, ∀ τ, e.type? m.type? = some τ → τ = v.type) ↔
      (v.value.exprs.filterMap (Expr.type? m.type?)).find? (· != v.type) = none := by
    simp only [List.find?_eq_none, List.mem_filterMap, bne_iff_ne, ne_eq, Decidable.not_not,
      forall_exists_index, and_imp]
    exact ⟨fun h τ e he hτ => h e he τ hτ, fun h e he τ hτ => h τ e he hτ⟩
  have hreferences : (∀ r ∈ v.value.references, (m.static? r).isSome = true) ↔
      (v.value.references.find? fun r => (m.static? r).isNone) = none := by
    simp [List.find?_eq_none, Option.isSome_iff_ne_none]
  have hcheck : checkCalculation m v = .ok () ↔
      v.value.missing = [] ∧ (v.value.references.find? fun r => (m.static? r).isNone) = none ∧
        (v.value.exprs.filterMap (Expr.type? m.type?)).find? (· != v.type) = none := by
    have htype : m.type? = fun key => (m.static? key).map (·.type) := rfl
    rw [htype]
    unfold checkCalculation
    simp only
    split <;> simp_all
  rw [hcheck, ← htypes, ← hreferences]
  constructor
  · rintro ⟨hcomplete, hresolved, htyped⟩
    exact ⟨hcomplete, hresolved, htyped⟩
  · intro h
    exact ⟨h.complete, h.resolved, h.typed⟩

/-- The document of a calculated variable that is added. -/
theorem calculatedAdded_eq_ok {l : Layout} {v : CalculatedVariable} {d : Disk}
    {document : Document} :
    calculatedAdded l v d = .ok document ↔
      isValidKey v.key = true ∧ ∃ model env m declared,
        openModel l d = .ok model ∧ d.openOrEmpty l.envFile = .ok env ∧
        checkNew l v.key model [env] = .ok m ∧ v.Fits m ∧
        model.appendToLiteral VariableKind.calculated.marker .semicolon [v.toDeclaration.render] =
          .ok declared ∧
        declared.appendToLiteral schemaMarker .comma
          [v.key ++ ": " ++ v.value.render (schemaIndent declared + Script.indentStep)] =
            .ok document := by
  simp only [calculatedAdded, bind_eq_ok]
  constructor
  · rintro ⟨⟨⟩, hkey, model, hmodel, env, henv, m, hm, ⟨⟩, hfits, declared, hdeclared, h⟩
    exact ⟨checkKey_eq_ok.1 hkey, model, env, m, declared, hmodel, henv, hm,
      checkCalculation_eq_ok.1 hfits, hdeclared, h⟩
  · rintro ⟨hkey, model, env, m, declared, hmodel, henv, hm, hfits, hdeclared, h⟩
    exact ⟨(), checkKey_eq_ok.2 hkey, model, hmodel, env, henv, m, hm, (),
      checkCalculation_eq_ok.2 hfits, declared, hdeclared, h⟩

end Scaffold.Env
