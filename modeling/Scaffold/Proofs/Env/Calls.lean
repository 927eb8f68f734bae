import Scaffold.Proofs.Env.Adding
import Scaffold.Proofs.Env.Checks
import Scaffold.Proofs.Env.DotEnv
import Scaffold.Proofs.Env.Files

/-!
# Calls on a workspace

What a run of calls has accepted (`Accepted`) determines the model file: it is missing as long as
nothing has been accepted, or else the text of these variables (`Invariant`).  Every call keeps that,
whether it succeeds or fails, and whatever the environment files hold (`Invariant.step`).
-/

namespace Scaffold.Env

/-! ## Calls -/

/-- A call that changes the environment of a workspace. -/
inductive Call where
  | init
  | addStatic (v : StaticVariable) (isPublic : Bool)
  | addCalculated (v : CalculatedVariable)

/-- The edit that a call makes. -/
def Call.edit (l : Layout) : Call → Edit Unit
  | .init => do let _ ← Env.init l
  | .addStatic v isPublic => Env.addStatic l v isPublic
  | .addCalculated v => Env.addCalculated l v

/-- An expression as it can be put together from literals, references and the texts of templates. -/
def Expr.Buildable : Expr → Prop
  | .literal (.number x) => Decimal.isFinite x = true ∧ Script.Literal.ReadsBack x
  | .literal _ => True
  | .reference _ => True
  | .template parts => ∃ t, readTemplate t = .ok parts

/-- A calculation of such expressions. -/
def Calculation.Buildable (c : Calculation) : Prop := ∀ e ∈ c.exprs, e.Buildable

/-- A call with such a calculation, if any. -/
def Call.Buildable : Call → Prop
  | .addCalculated v => v.value.Buildable
  | _ => True

/-! ## Accepted variables -/

/-- The variables of the calls that have succeeded, in the order of the calls; each static one with
whether its value is public. -/
structure Accepted where
  statics : List (StaticVariable × Bool) := []
  calculated : List CalculatedVariable := []

namespace Accepted

/-- The declarations of the static variables. -/
def declarations (a : Accepted) : List Declaration := a.statics.map fun s => s.1.toDeclaration

/-- All keys: those of the static variables, then those of the calculated ones. -/
def keys (a : Accepted) : List Text :=
  a.declarations.map Declaration.key ++ a.calculated.map fun v => v.key

/-- The variables after one more call has succeeded. -/
def add (a : Accepted) : Call → Accepted
  | .init => a
  | .addStatic v isPublic => { a with statics := a.statics ++ [(v, isPublic)] }
  | .addCalculated v => { a with calculated := a.calculated ++ [v] }

/-- What a model of the variables declares. -/
def model (a : Accepted) : Model where
  statics := a.declarations
  calculated := a.calculated.map CalculatedVariable.toDeclaration
  calculations := a.calculated.map fun v => (v.key, v.value.render Script.indentStep)

theorem declarations_add_static (a : Accepted) (v : StaticVariable) (isPublic : Bool) :
    (a.add (.addStatic v isPublic)).declarations = a.declarations ++ [v.toDeclaration] := by
  simp [declarations, add]

theorem keys_add_static (a : Accepted) (v : StaticVariable) (isPublic : Bool) :
    (a.add (.addStatic v isPublic)).keys =
      a.declarations.map Declaration.key ++ v.key :: a.calculated.map fun v => v.key := by
  simp [keys, add, declarations]

theorem keys_add_calculated (a : Accepted) (v : CalculatedVariable) :
    (a.add (.addCalculated v)).keys = a.keys ++ [v.key] := by
  simp [keys, add, declarations]

theorem contains_model {a : Accepted} {key : Text} :
    a.model.contains key = false ↔ key ∉ a.keys := by
  simp [Model.contains_eq_false, model, keys]

/-- The declaration of a static variable stays when one with another key is added. -/
theorem static?_add_static {a : Accepted} {key : Text} (h : (a.model.static? key).isSome = true)
    (v : StaticVariable) (isPublic : Bool) :
    (a.add (.addStatic v isPublic)).model.static? key = a.model.static? key := by
  obtain ⟨d, hd⟩ := Option.isSome_iff_exists.1 h
  have hsplit : (a.add (.addStatic v isPublic)).model.statics =
      a.model.statics ++ [v.toDeclaration] := by
    simp [model, add, declarations]
  rw [Model.static?] at hd
  rw [Model.static?, hsplit, List.find?_append, hd, Model.static?, hd]
  rfl

end Accepted

/-! ## Steps -/

/-- What has been accepted and the disk, after one more call. -/
def Call.step (l : Layout) (s : Accepted × Disk) (c : Call) : Accepted × Disk :=
  match (c.edit l).outcome s.2 with
  | (.ok (), e) => (s.1.add c, e)
  | (.error _, e) => (s.1, e)

theorem Call.step_of_ok {l : Layout} {c : Call} {a : Accepted} {d e : Disk}
    (h : (c.edit l).outcome d = (.ok (), e)) : c.step l (a, d) = (a.add c, e) := by
  rw [step, h]

theorem Call.step_of_error {l : Layout} {c : Call} {a : Accepted} {d e : Disk} {x : Fault}
    (h : (c.edit l).outcome d = (.error x, e)) : c.step l (a, d) = (a, e) := by
  rw [step, h]

theorem Call.step_init (l : Layout) (a : Accepted) (d : Disk) :
    Call.init.step l (a, d) = (a, ((Call.init.edit l).outcome d).2) := by
  rw [step]
  split
  · next h => rw [h]; rfl
  · next h => rw [h]

/-! ## Calculations that fit -/

/-- A calculation keeps fitting when a static variable is added. -/
theorem CalculatedVariable.Fits.add_static {a : Accepted} {c : CalculatedVariable}
    (h : c.Fits a.model) (v : StaticVariable) (isPublic : Bool) :
    c.Fits (a.add (.addStatic v isPublic)).model where
  complete := h.complete
  resolved r hr := by
    rw [Accepted.static?_add_static (h.resolved r hr)]
    exact h.resolved r hr
  typed e he τ hτ := by
    refine h.typed e he τ ?_
    cases e with
    | literal x => exact hτ
    | template parts => exact hτ
    | reference key =>
      have hkey : key ∈ c.value.references :=
        List.mem_flatMap.2 ⟨.reference key, he, List.mem_cons_self⟩
      rw [← hτ]
      show a.model.type? key = Model.type? _ key
      rw [Model.type?, Model.type?, Accepted.static?_add_static (h.resolved key hkey)]

/-! ## Calculations that refer to static variables -/

theorem isReferenceKey_of_isValidKey {key : Text} (h : isValidKey key = true) :
    IsReferenceKey key := by
  refine ⟨?_, fun c hc => ?_⟩
  · rintro rfl
    cases h
  · obtain halphanum | rfl := isAlphanum_of_isKeyChar (isKeyChar_of_mem h hc)
    · simp [isReferenceChar, halphanum]
    · rfl

theorem Expr.Buildable.readable {e : Expr} (h : e.Buildable)
    (hkeys : ∀ r ∈ e.references, isValidKey r = true) : e.Readable := by
  cases e with
  | literal x => cases x <;> exact h
  | reference key => exact isReferenceKey_of_isValidKey (hkeys key List.mem_cons_self)
  | template parts =>
    obtain ⟨t, ht⟩ := h
    exact normal_of_readTemplate ht

theorem Calculation.mem_exprs {c : Calculation} {l : Label} {e : Expr} (h : c.at? l = some e) :
    e ∈ c.exprs := by
  cases l with
  | none => exact List.mem_append_right _ (by simpa [at?] using h)
  | some target =>
    exact List.mem_append_left _ (List.mem_filterMap.2 ⟨target, Target.mem_all target, h⟩)

/-- A calculation that refers to static variables is read back. -/
theorem Calculation.Buildable.readable {c : Calculation} (h : c.Buildable)
    (hkeys : ∀ r ∈ c.references, isValidKey r = true) : c.Readable := by
  intro l e he
  have hmem := mem_exprs he
  exact (h e hmem).readable fun r hr => hkeys r (List.mem_flatMap.2 ⟨e, hmem, hr⟩)

/-! ## The invariant -/

/-- The text of the model file. -/
def Accepted.modelText (a : Accepted) : Text := modelOf a.declarations a.calculated ++ ['\n']

/-- A workspace whose model file holds what has been accepted. -/
structure Invariant (l : Layout) (root : Location) (a : Accepted) (files : Contents) (d : Disk) :
    Prop where
  holds : Holds l root files d
  model : (files .model = none ∧ a.statics = [] ∧ a.calculated = []) ∨
    files .model = some (.text a.modelText)
  wellFormed : WellFormed a.declarations a.calculated
  nodup : a.keys.Nodup
  fits : ∀ v ∈ a.calculated, v.Fits a.model

/-- A file can be read and has no entry of a key. -/
def Contents.Lacks (files : Contents) (f : EnvFile) (key : Text) : Prop :=
  ∃ t, files.text? f = some t ∧ (DotEnv.ofText t).contains key = false

/-- A static variable that can be added: its key is valid and stands nowhere, and its value fits. -/
structure StaticVariable.IsNew (a : Accepted) (files : Contents) (v : StaticVariable) : Prop where
  valid : isValidKey v.key = true
  fits : v.Fits
  notAccepted : v.key ∉ a.keys
  env : files.Lacks .env v.key
  shared : files.Lacks .shared v.key

/-- A calculated variable that can be added: its key is valid and stands nowhere, and its calculation
fits the static variables. -/
structure CalculatedVariable.IsNew (a : Accepted) (files : Contents) (v : CalculatedVariable) :
    Prop where
  valid : isValidKey v.key = true
  fits : v.Fits a.model
  notAccepted : v.key ∉ a.keys
  env : files.Lacks .env v.key

namespace Invariant

variable {l : Layout} {root : Location} {a : Accepted} {files : Contents} {d : Disk}
  (h : Invariant l root a files d)
include h

/-- What has been accepted stands in the model file only. -/
theorem of_holds {files' : Contents} {e : Disk} (he : Holds l root files' e)
    (hmodel : files' .model = files .model) : Invariant l root a files' e :=
  ⟨he, hmodel ▸ h.model, h.wellFormed, h.nodup, h.fits⟩

theorem text?_model : (files.text? .model).isSome = true := by
  rcases h.model with ⟨hnone, -, -⟩ | hsome
  · rw [Contents.text?, hnone]
    rfl
  · rw [Contents.text?, hsome]
    rfl

theorem openModel_eq :
    openModel l d = .ok (modelDocument l.environmentModel a.declarations a.calculated) := by
  have hopen (document : Document) (hdocument : d.openOrEmpty l.environmentModel = .ok document) :
      openModel l d =
        .ok (if document.lines.isEmpty then document.setContent skeleton else document) := by
    rw [openModel, bind_of_ok hdocument]
    rfl
  have hfile : d.openOrEmpty l.environmentModel = _ := h.holds.openOrEmpty_eq .model
  rcases h.model with ⟨hnone, hstatics, hcalculated⟩ | hsome
  · rw [Contents.text?, hnone] at hfile
    have hempty : (Document.ofContent (EnvFile.path l .model) []).lines.isEmpty = true := rfl
    rw [hopen _ hfile, hempty, if_pos rfl, Document.setContent, Document.path_ofContent,
      Accepted.declarations, hstatics, hcalculated, List.map_nil, modelDocument_nil, EnvFile.path]
  · rw [Contents.text?, hsome] at hfile
    have hlines : (Document.ofContent l.environmentModel a.modelText).lines.isEmpty = false := by
      rw [Accepted.modelText, Document.lines_ofContent]
      simpa using Text.lines_ne_nil _
    rw [hopen _ hfile, EnvFile.path, hlines, if_neg Bool.false_ne_true, modelDocument,
      Accepted.modelText]

theorem read_model :
    Model.read (modelDocument l.environmentModel a.declarations a.calculated) l.vocabulary =
      .ok a.model := by
  rw [h.holds.vocabulary_eq]
  exact h.wellFormed.read_modelDocument _

/-- Once the model file exists, it is read as what has been accepted. -/
theorem readModel_eq (hexists : d.contains l.environmentModel = true) :
    readModel l d = .ok a.model := by
  have hcontains := h.holds.contains_eq .model
  rw [EnvFile.path, hexists] at hcontains
  have htext : files .model = some (.text a.modelText) := by
    refine h.model.resolve_left ?_
    rintro ⟨hnone, -, -⟩
    rw [hnone] at hcontains
    cases hcontains
  have hopen : d.openDocument l.environmentModel =
      .ok (modelDocument l.environmentModel a.declarations a.calculated) :=
    h.holds.openDocument_eq htext
  rw [readModel, bind_of_ok hopen, h.read_model]

/-! ## One call -/

/-- A model file that is made while it is missing holds what has been accepted. -/
theorem of_ensure_model {e : Disk} (he : Holds l root (files.ensure .model skeleton) e) :
    Invariant l root a (files.ensure .model skeleton) e := by
  refine ⟨he, .inr ?_, h.wellFormed, h.nodup, h.fits⟩
  rw [Contents.ensure_self]
  rcases h.model with ⟨hnone, hstatics, hcalculated⟩ | hsome
  · rw [hnone, skeleton_eq, Accepted.modelText, Accepted.declarations, hstatics, hcalculated]
    rfl
  · rw [hsome]
    rfl

/-- Making the missing files keeps what has been accepted. -/
theorem init : ∃ files' e, ((Call.init.edit l).outcome d).2 = e ∧ Invariant l root a files' e ∧
    files'.text? .shared = files.text? .shared ∧
    (files' .env = files .env ∨
      files .env = none ∧ files'.text? .env = files.text? .shared) := by
  obtain ⟨status, e, hmodel, he⟩ := h.holds.createIfMissing .model skeleton
  have hinv := h.of_ensure_model he
  have hshared : (files.ensure .model skeleton).text? .shared = files.text? .shared :=
    Contents.text?_ensure_of_ne _ (by decide) _
  have henv : files.ensure .model skeleton .env = files .env :=
    Contents.ensure_of_ne _ (by decide) _
  generalize files.ensure .model skeleton = files₁ at he hinv hshared henv
  have hmodel : (Edit.createIfMissing l.environmentModel skeleton).outcome d = (.ok status, e) :=
    hmodel
  have hopen : e.openOrEmpty l.publicEnvFile = _ := he.openOrEmpty_eq .shared
  have hlook := Edit.outcome_look e (Disk.openOrEmpty l.publicEnvFile)
  rw [Call.edit, Edit.outcome_bind, Env.init, Edit.outcome_bind_of_ok d hmodel]
  match hcontent : files₁.text? .shared with
  | none =>
    -- the shared file is no text, so the environment file is not made
    rw [hopen, hcontent] at hlook
    exact ⟨files₁, e, by rw [Edit.outcome_bind_of_error e hlook], hinv, hshared, .inl henv⟩
  | some t =>
    rw [hopen, hcontent] at hlook
    obtain ⟨status', e', hcreate, he'⟩ := he.createIfMissing .env t
    have hcreate : (Edit.createIfMissing l.envFile
        (Document.ofContent (EnvFile.path l .shared) t).content).outcome e = (.ok status', e') := by
      rw [Document.content_ofContent]
      exact hcreate
    refine ⟨_, e', ?_, hinv.of_holds he' (Contents.ensure_of_ne _ (by decide) _),
      (Contents.text?_ensure_of_ne _ (by decide) _).trans hshared, ?_⟩
    · rw [Edit.outcome_bind_of_ok e hlook, Edit.outcome_bind_of_ok e hcreate]
      rfl
    · rw [← henv, ← hshared, hcontent, Contents.text?, Contents.ensure_self]
      cases files₁ .env with
      | none => exact .inr ⟨rfl, rfl⟩
      | some content => exact .inl rfl

theorem openOrEmpty_of_text? {f : EnvFile} {t : Text} (ht : files.text? f = some t) :
    d.openOrEmpty (f.path l) = .ok (.ofContent (f.path l) t) := by
  rw [h.holds.openOrEmpty_eq, ht]

/-- A file that is opened as a document without an entry of a key has no entry of it. -/
theorem lacks_of_openOrEmpty {f : EnvFile} {document : Document} {key : Text}
    (hopen : d.openOrEmpty (f.path l) = .ok document)
    (hnone : (DotEnv.ofDocument document).contains key = false) : files.Lacks f key := by
  rw [h.holds.openOrEmpty_eq] at hopen
  split at hopen
  · next t ht =>
    obtain rfl := Except.ok.inj hopen
    rw [DotEnv.ofDocument, Document.content_ofContent] at hnone
    exact ⟨t, ht, hnone⟩
  · cases hopen

/-- The model that a new key is checked against is the one that has been accepted. -/
theorem checkNew_eq {key : Text} {documents : List Document} {m : Model} :
    checkNew l key (modelDocument l.environmentModel a.declarations a.calculated) documents =
        .ok m ↔
      m = a.model ∧ key ∉ a.keys ∧
        ∀ document ∈ documents, (DotEnv.ofDocument document).contains key = false := by
  rw [checkNew_eq_ok, h.read_model, Except.ok.injEq]
  constructor
  · rintro ⟨rfl, hnew, hfiles⟩
    exact ⟨rfl, Accepted.contains_model.1 hnew, hfiles⟩
  · rintro ⟨rfl, hnew, hfiles⟩
    exact ⟨rfl, Accepted.contains_model.2 hnew, hfiles⟩

/-- Only a new static variable is added. -/
theorem isNew_of_staticAdded {v : StaticVariable} {isPublic : Bool} {documents : List Document}
    (hadded : staticAdded l v isPublic d = .ok documents) : v.IsNew a files := by
  obtain ⟨hkey, hfits, model, env, shared, m, -, hmodel, henv, hshared, hm, -⟩ :=
    staticAdded_eq_ok.1 hadded
  obtain rfl := Except.ok.inj (h.openModel_eq.symm.trans hmodel)
  obtain ⟨-, hnew, hfiles⟩ := h.checkNew_eq.1 hm
  exact ⟨hkey, hfits, hnew, h.lacks_of_openOrEmpty (f := .env) henv (hfiles env (by simp)),
    h.lacks_of_openOrEmpty (f := .shared) hshared (hfiles shared (by simp))⟩

/-- A new static variable is declared in the model and gets a line in both environment files. -/
theorem staticAdded_of_isNew {v : StaticVariable} (hnew : v.IsNew a files) (isPublic : Bool) :
    ∃ env shared, files.text? .env = some env ∧ files.text? .shared = some shared ∧
      staticAdded l v isPublic d = .ok
        [modelDocument l.environmentModel (a.declarations ++ [v.toDeclaration]) a.calculated,
          .ofContent l.envFile (env.withLine v.envLine),
          .ofContent l.publicEnvFile (shared.withLine (v.sharedLine isPublic))] := by
  obtain ⟨env, henv, henvNew⟩ := hnew.env
  obtain ⟨shared, hshared, hsharedNew⟩ := hnew.shared
  have henvLine : ((Document.ofContent l.envFile env).appendLines [v.envLine]).2 =
      .ofContent l.envFile (env.withLine v.envLine) :=
    DotEnv.appendLines_entryLine hnew.valid hnew.fits.newline_notMem _ henvNew
  have hsharedLine :
      ((Document.ofContent l.publicEnvFile shared).appendLines [v.sharedLine isPublic]).2 =
        .ofContent l.publicEnvFile (shared.withLine (v.sharedLine isPublic)) :=
    DotEnv.appendLines_entryLine hnew.valid (hnew.fits.newline_notMem_public isPublic) _ hsharedNew
  refine ⟨env, shared, henv, hshared, staticAdded_eq_ok.2 ⟨hnew.valid, hnew.fits, _, _, _, a.model,
    _, h.openModel_eq, h.openOrEmpty_of_text? henv, h.openOrEmpty_of_text? hshared,
    h.checkNew_eq.2 ⟨rfl, hnew.notAccepted, ?_⟩, h.wellFormed.appendStatic .., ?_⟩⟩
  · simp [DotEnv.ofDocument, Document.content_ofContent, henvNew, hsharedNew]
  · rw [← henvLine, ← hsharedLine]
    rfl

/-- What has been accepted, with a new static variable, in a workspace whose model declares it. -/
theorem extend_static {v : StaticVariable} (hnew : v.IsNew a files) (isPublic : Bool)
    {files' : Contents} {e : Disk} (he : Holds l root files' e)
    (hmodel : files' .model = some (.text (a.add (.addStatic v isPublic)).modelText)) :
    Invariant l root (a.add (.addStatic v isPublic)) files' e where
  holds := he
  model := .inr hmodel
  wellFormed := by
    refine ⟨?_, h.wellFormed.calculated⟩
    rw [Accepted.declarations_add_static]
    exact List.forall_mem_append.2 ⟨h.wellFormed.statics, by simpa using hnew.valid⟩
  nodup := by
    rw [Accepted.keys_add_static, List.perm_middle.nodup_iff]
    exact List.nodup_cons.2 ⟨hnew.notAccepted, h.nodup⟩
  fits c hc := (h.fits c hc).add_static v isPublic

/-- A static variable is refused and nothing changes, or it is declared in the model and gets a line
in both environment files. -/
theorem addStatic (v : StaticVariable) (isPublic : Bool) :
    (¬ v.IsNew a files ∧ ∃ x, (Env.addStatic l v isPublic).outcome d = (.error x, d)) ∨
    v.IsNew a files ∧ ∃ env shared e, (Env.addStatic l v isPublic).outcome d = (.ok (), e) ∧
      files.text? .env = some env ∧ files.text? .shared = some shared ∧
      Invariant l root (a.add (.addStatic v isPublic))
        (((files.set .model (a.add (.addStatic v isPublic)).modelText).set .env
          (env.withLine (v.envLine))).set .shared (shared.withLine (v.sharedLine isPublic))) e := by
  have hlook := Edit.outcome_look d (staticAdded l v isPublic)
  by_cases hnew : v.IsNew a files
  · obtain ⟨env, shared, henv, hshared, hadded⟩ := h.staticAdded_of_isNew hnew isPublic
    rw [hadded] at hlook
    obtain ⟨e, hsave, he⟩ := h.holds.saveAll
      [(.model, (a.add (.addStatic v isPublic)).modelText), (.env, env.withLine v.envLine),
        (.shared, shared.withLine (v.sharedLine isPublic))]
      (by simp [h.text?_model, henv, hshared])
    refine .inr ⟨hnew, env, shared, e, ?_, henv, hshared, h.extend_static hnew isPublic he (by simp)⟩
    rw [Env.addStatic, Edit.outcome_bind_of_ok d hlook, ← hsave, List.map_cons,
      Accepted.modelText, Accepted.declarations_add_static]
    rfl
  · cases hadded : staticAdded l v isPublic d with
    | ok documents => exact absurd (h.isNew_of_staticAdded hadded) hnew
    | error x =>
      rw [hadded] at hlook
      exact .inl ⟨hnew, x, Edit.outcome_bind_of_error d hlook _⟩

/-- Only a new calculated variable is added. -/
theorem isNew_of_calculatedAdded {v : CalculatedVariable} {document : Document}
    (hadded : calculatedAdded l v d = .ok document) : v.IsNew a files := by
  obtain ⟨hkey, model, env, m, -, hmodel, henv, hm, hfits, -⟩ := calculatedAdded_eq_ok.1 hadded
  obtain rfl := Except.ok.inj (h.openModel_eq.symm.trans hmodel)
  obtain ⟨rfl, hnew, hfiles⟩ := h.checkNew_eq.1 hm
  exact ⟨hkey, hfits, hnew, h.lacks_of_openOrEmpty (f := .env) henv (hfiles env (by simp))⟩

/-- A new calculated variable is declared in the model and its calculation put there. -/
theorem calculatedAdded_of_isNew {v : CalculatedVariable} (hnew : v.IsNew a files) :
    calculatedAdded l v d =
      .ok (modelDocument l.environmentModel a.declarations (a.calculated ++ [v])) := by
  obtain ⟨env, henv, henvNew⟩ := hnew.env
  obtain ⟨declared, hdeclared, hindent, hadded⟩ :=
    h.wellFormed.appendCalculated l.environmentModel hnew.valid
  refine calculatedAdded_eq_ok.2 ⟨hnew.valid, _, _, a.model, declared, h.openModel_eq,
    h.openOrEmpty_of_text? henv, h.checkNew_eq.2 ⟨rfl, hnew.notAccepted, ?_⟩, hnew.fits, hdeclared,
    ?_⟩
  · simp [DotEnv.ofDocument, Document.content_ofContent, henvNew]
  · rw [hindent, Nat.zero_add]
    exact hadded

/-- A calculation that fits is read back, because its references are keys of static variables. -/
theorem readable_of_fits {v : CalculatedVariable} (hbuildable : v.value.Buildable)
    (hfits : v.Fits a.model) : v.value.Readable := by
  refine hbuildable.readable fun r hr => ?_
  obtain ⟨d, hd⟩ := Option.isSome_iff_exists.1 (hfits.resolved r hr)
  obtain rfl : d.key = r := by simpa using List.find?_some hd
  exact h.wellFormed.statics d (List.mem_of_find?_eq_some hd)

/-- What has been accepted, with a new calculated variable, in a workspace whose model has it. -/
theorem extend_calculated {v : CalculatedVariable} (hbuildable : v.value.Buildable)
    (hnew : v.IsNew a files) {files' : Contents} {e : Disk} (he : Holds l root files' e)
    (hmodel : files' .model = some (.text (a.add (.addCalculated v)).modelText)) :
    Invariant l root (a.add (.addCalculated v)) files' e where
  holds := he
  model := .inr hmodel
  wellFormed := by
    refine ⟨h.wellFormed.statics, List.forall_mem_append.2 ⟨h.wellFormed.calculated, ?_⟩⟩
    simpa using ⟨hnew.valid, h.readable_of_fits hbuildable hnew.fits⟩
  nodup := by
    rw [Accepted.keys_add_calculated, List.perm_append_comm.nodup_iff]
    exact List.nodup_cons.2 ⟨hnew.notAccepted, h.nodup⟩
  fits c hc := by
    have hall : ∀ c ∈ a.calculated ++ [v], c.Fits a.model :=
      List.forall_mem_append.2 ⟨h.fits, by simpa using hnew.fits⟩
    exact (hall c hc).of_statics_eq rfl

/-- A calculated variable is refused and nothing changes, or it is declared in the model and its
calculation put there. -/
theorem addCalculated {v : CalculatedVariable} (hbuildable : v.value.Buildable) :
    (¬ v.IsNew a files ∧ ∃ x, (Env.addCalculated l v).outcome d = (.error x, d)) ∨
    v.IsNew a files ∧ ∃ e, (Env.addCalculated l v).outcome d = (.ok (), e) ∧
      Invariant l root (a.add (.addCalculated v))
        (files.set .model (a.add (.addCalculated v)).modelText) e := by
  have hlook := Edit.outcome_look d (calculatedAdded l v)
  by_cases hnew : v.IsNew a files
  · rw [h.calculatedAdded_of_isNew hnew] at hlook
    obtain ⟨e, hsave, he⟩ := h.holds.saveAll [(.model, (a.add (.addCalculated v)).modelText)]
      (by simp [h.text?_model])
    refine .inr ⟨hnew, e, ?_, h.extend_calculated hbuildable hnew he (by simp)⟩
    rw [Env.addCalculated, Edit.outcome_bind_of_ok d hlook, ← hsave]
    rfl
  · cases hadded : calculatedAdded l v d with
    | ok document => exact absurd (h.isNew_of_calculatedAdded hadded) hnew
    | error x =>
      rw [hadded] at hlook
      exact .inl ⟨hnew, x, Edit.outcome_bind_of_error d hlook _⟩

/-- Every call keeps the model file in step with what has been accepted. -/
theorem step {c : Call} (hc : c.Buildable) :
    ∃ files', Invariant l root (c.step l (a, d)).1 files' (c.step l (a, d)).2 := by
  cases c with
  | init =>
    obtain ⟨files', e, he, hinv, -⟩ := h.init
    rw [Call.step_init, he]
    exact ⟨files', hinv⟩
  | addStatic v isPublic =>
    rcases h.addStatic v isPublic with ⟨-, x, hx⟩ | ⟨-, env, shared, e, he, -, -, hinv⟩
    · rw [Call.step_of_error (c := .addStatic v isPublic) hx]
      exact ⟨files, h⟩
    · rw [Call.step_of_ok (c := .addStatic v isPublic) he]
      exact ⟨_, hinv⟩
  | addCalculated v =>
    rcases h.addCalculated hc with ⟨-, x, hx⟩ | ⟨-, e, he, hinv⟩
    · rw [Call.step_of_error (c := .addCalculated v) hx]
      exact ⟨files, h⟩
    · rw [Call.step_of_ok (c := .addCalculated v) he]
      exact ⟨_, hinv⟩

end Invariant

end Scaffold.Env
