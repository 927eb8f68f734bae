import Scaffold.Proofs.Decimal.Equality
import Scaffold.Proofs.Decimal.RoundTrip
import Scaffold.Proofs.Env.Lookup
import Scaffold.Proofs.Env.Validation

/-!
# Values that are stored and read

A static variable that is accepted has the value that its line is read as, for every target and
whatever has happened before (`Invariant.getVariable_added`).  The line loses the blanks at its end,
and a number is read only when it is finite.  So exactly the values of `Setting.Carried` are read
back (`addStatic_readsBack_iff`); others are accepted as well (`not_addStatic_readsBack_always`).
-/

namespace Scaffold.Env

/-! ## Values on a line -/

namespace Setting

/-- A value that the line of a variable carries: a text without trailing blanks or a finite
number. -/
def Carried : Setting → Prop
  | .string t => Text.trimEnd t = t
  | .number x => Decimal.isFinite x = true
  | .boolean _ => True

/-- The value is read, but nothing is for the empty string. -/
def IsReadBack (x : Setting) (result : Except Fault (Option Setting)) : Prop :=
  match x with
  | .string [] => result = .ok none
  | x => ∃ y, result = .ok (some y) ∧ (y == x) = true

/-- What the line of a variable with the value is read as. -/
def onLine (key : Text) (x : Setting) : Except Fault (Option Setting) :=
  if (Text.trimEnd x.text).isEmpty then .ok none
  else (coerce x.type key (Text.trimEnd x.text)).map some

variable (key : Text)

theorem onLine_string (t : Text) :
    onLine key (.string t) =
      .ok (if (Text.trimEnd t).isEmpty then none else some (.string (Text.trimEnd t))) := by
  rw [onLine]
  split
  · next hempty =>
    rw [if_pos]
    exact hempty
  · next hne =>
    rw [if_neg]
    · rfl
    · exact hne

/-- The text of a finite number has no blanks to lose. -/
theorem onLine_number {x : Float} (h : Decimal.isFinite x = true) :
    ∃ y, onLine key (.number x) = .ok (some (.number y)) ∧ (y == x) = true := by
  obtain ⟨hne, hchars⟩ := Decimal.isNumberText_scriptText h
  obtain ⟨y, hread, hfinite, heq⟩ := Decimal.read?_scriptText h
  have hblank : ∀ c ∈ Decimal.scriptText x, isBlank c = false := fun c hc =>
    Script.Literal.isBlank_of_isNumberChar (hchars c hc)
  have hend : Text.trimEnd (Decimal.scriptText x) = Decimal.scriptText x :=
    Text.trimEnd_of_notBlank hblank
  have htrim : Text.trim (Decimal.scriptText x) = Decimal.scriptText x :=
    Text.trim_of_notBlank hblank
  refine ⟨y, ?_, heq⟩
  rw [onLine, text, hend, if_neg (by simpa using hne), coerce, type, ValueType.read?, htrim, hread,
    Option.filter_some, hfinite]
  rfl

/-- The names of the numbers that are not finite are no numbers of an environment file. -/
theorem onLine_not_finite {x : Float} (h : Decimal.isFinite x = false) :
    ∃ fault, onLine key (.number x) = .error fault := by
  have hname {t : Text} (ht : Decimal.scriptText x = t) (hne : (Text.trimEnd t).isEmpty = false)
      (hnone : ValueType.number.read? (Text.trimEnd t) = none) :
      ∃ fault, onLine key (.number x) = .error fault := by
    refine ⟨.invalidValue key (Text.trimEnd t) .number, ?_⟩
    rw [onLine, text, ht, hne, if_neg Bool.false_ne_true, coerce, type, hnone]
    rfl
  have htext : Decimal.scriptText x = Decimal.Style.plain.write x := by
    rw [Decimal.scriptText, Decimal.beq_zero_of_not_finite h, if_neg Bool.false_ne_true]
  rw [Decimal.Style.write] at htext
  rw [Decimal.isFinite] at h
  cases hparts : Decimal.parts x with
  | notANumber =>
    rw [hparts] at htext
    exact hname htext rfl rfl
  | infinite negative =>
    rw [hparts] at htext
    cases negative
    · exact hname htext rfl rfl
    · exact hname htext rfl rfl
  | finite negative m q =>
    rw [hparts] at h
    cases h

/-- Exactly the values that the line carries are read back from it. -/
theorem isReadBack_onLine_iff (x : Setting) : x.IsReadBack (x.onLine key) ↔ x.Carried := by
  cases x with
  | string t =>
    rw [onLine_string, Carried]
    cases t with
    | nil => exact iff_of_true rfl rfl
    | cons c t =>
      show (∃ y, _ = _ ∧ _) ↔ _
      constructor
      · rintro ⟨y, hy, heq⟩
        split at hy
        · cases hy
        · obtain rfl := Option.some.inj (Except.ok.inj hy)
          exact beq_iff_eq.1 heq
      · intro htrim
        rw [htrim]
        exact ⟨_, rfl, beq_self_eq_true (c :: t)⟩
  | number x =>
    rw [Carried]
    by_cases hfinite : Decimal.isFinite x = true
    · obtain ⟨y, hy, heq⟩ := onLine_number key hfinite
      exact iff_of_true ⟨_, hy, heq⟩ hfinite
    · obtain ⟨fault, hfault⟩ := onLine_not_finite key (Bool.eq_false_iff.2 hfinite)
      refine iff_of_false ?_ hfinite
      rintro ⟨y, hy, -⟩
      rw [hfault] at hy
      cases hy
  | boolean b =>
    refine iff_of_true ⟨.boolean b, ?_, ?_⟩ trivial
    · cases b <;> rfl
    · cases b <;> rfl

end Setting

/-! ## A static variable that is added -/

section

variable {l : Layout} {d e : Disk} {v : StaticVariable} {x : Setting} {isPublic : Bool}

/-- An accepted static variable has the value of its line. -/
theorem Invariant.getVariable_added {root : Location} {a : Accepted} {files : Contents}
    (h : Invariant l root a files d) (hx : v.value = some x)
    (hadd : (Env.addStatic l v isPublic).outcome d = (.ok (), e)) (target : Target) :
    getVariable l v.key target e = x.onLine v.key := by
  obtain ⟨-, fault, hfault⟩ | ⟨hnew, env, shared, e', hadded, -, -, hinv⟩ := h.addStatic v isPublic
  · rw [hfault] at hadd
    cases hadd
  rw [hadded] at hadd
  obtain rfl : e' = e := (Prod.mk.inj hadd).2
  have hmodel : readModel l e' = .ok (a.add (.addStatic v isPublic)).model := by
    refine hinv.readModel_eq ((hinv.holds.contains_eq .model).trans ?_)
    rw [Contents.set_of_ne _ (by decide), Contents.set_of_ne _ (by decide), Contents.set_self]
    rfl
  have hraw : v.raw.getD [] = x.text := by
    rw [StaticVariable.raw, hx]
    rfl
  have henv := hinv.readDotEnv_eq
    ((Contents.text?_set_of_ne _ (by decide) _).trans (Contents.text?_set_self ..))
  rw [StaticVariable.envLine, DotEnv.ofText_withLine _
    (DotEnv.newline_notMem_entryLine hnew.valid hnew.fits.newline_notMem),
    DotEnv.entryOfLine?_entryLine hnew.valid, hraw] at henv
  have hkeys : (a.add (.addStatic v isPublic)).model.keys.Nodup :=
    Accepted.keys_model _ ▸ hinv.nodup
  have hdeclared : v.toDeclaration ∈ (a.add (.addStatic v isPublic)).model.statics := by
    simp [Accepted.model, Accepted.declarations_add_static]
  rw [getVariable, bind_of_ok hmodel, bind_of_ok henv, Model.resolve_of_mem_statics hkeys hdeclared,
    staticValue, Option.toList_some, DotEnv.get?_concat, Setting.onLine, (hnew.fits x hx).1]
  cases hempty : (Text.trimEnd x.text).isEmpty with
  | true => rfl
  | false => rfl

/-- Whatever has happened in a session, a static variable that is accepted then has the value of its
line for every target, and that is the value it was added with exactly when a line carries it. -/
theorem addStatic_readsBack_iff (h : EmptyWorkspace l d) {events : List Event}
    (hevents : ∀ e ∈ events, e.Buildable) (hx : v.value = some x)
    (hadd : (addStatic l v isPublic).outcome (session l d events).2 = (.ok (), e))
    (target : Target) :
    getVariable l v.key target e = x.onLine v.key ∧
      (x.IsReadBack (getVariable l v.key target e) ↔ x.Carried) := by
  obtain ⟨root, hroot⟩ := h.refines
  obtain ⟨files, hfiles⟩ := hroot.toInvariant.foldl_event events hevents
  have hget := hfiles.getVariable_added hx hadd target
  exact ⟨hget, hget ▸ Setting.isReadBack_onLine_iff v.key x⟩

end

/-! ## A value with a blank at its end -/

/-- A static variable whose value ends in a blank. -/
def samplePadded : StaticVariable where
  key := "motto"
  required := true
  type := .string
  value := some (.string "a ")

/-- The sample variable is accepted by an empty workspace. -/
theorem addStatic_samplePadded :
    ∃ e, (addStatic sampleLayout samplePadded false).outcome sampleDisk = (.ok (), e) := by
  obtain ⟨root, hempty⟩ := emptyWorkspace_sample.refines
  have hnew : samplePadded.IsNew {} fun _ => none :=
    ⟨by decide, by simp [StaticVariable.Fits, samplePadded, Setting.type, Setting.text], by decide,
      ⟨[], rfl, rfl⟩, ⟨[], rfl, rfl⟩⟩
  obtain ⟨hnot, -⟩ | ⟨-, -, -, e, he, -⟩ := hempty.toInvariant.addStatic samplePadded false
  · exact absurd hnew hnot
  · exact ⟨e, he⟩

theorem addStatic_readsBack_iff_sample : ∃ e,
    (addStatic sampleLayout samplePadded false).outcome sampleDisk = (.ok (), e) ∧
      getVariable sampleLayout samplePadded.key .prod e = .ok (some (.string "a")) := by
  obtain ⟨e, he⟩ := addStatic_samplePadded
  have hevents : ∀ event ∈ ([] : List Event), event.Buildable := nofun
  have hget := (addStatic_readsBack_iff emptyWorkspace_sample hevents rfl he .prod).1
  exact ⟨e, he, hget⟩

/-- A value that is accepted need not be read back. -/
theorem not_addStatic_readsBack_always :
    ¬ ∀ (l : Layout) (d e : Disk) (events : List Event) (v : StaticVariable) (x : Setting)
      (isPublic : Bool), EmptyWorkspace l d → (∀ event ∈ events, event.Buildable) →
      v.value = some x →
      (addStatic l v isPublic).outcome (session l d events).2 = (.ok (), e) →
      ∀ target, x.IsReadBack (getVariable l v.key target e) := by
  intro h
  obtain ⟨e, he⟩ := addStatic_samplePadded
  obtain ⟨root, hempty⟩ := emptyWorkspace_sample.refines
  have hback := h sampleLayout sampleDisk e [] samplePadded _ false emptyWorkspace_sample nofun rfl
    he .prod
  rw [hempty.toInvariant.getVariable_added rfl he, Setting.isReadBack_onLine_iff] at hback
  have hcarried : Text.trimEnd "a " = "a ".toList := hback
  exact absurd hcarried (by decide)

end Scaffold.Env
