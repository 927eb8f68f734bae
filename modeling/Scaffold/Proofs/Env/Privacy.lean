import Mathlib.Data.List.Forall2
import Scaffold.Proofs.Env.Calls
import Scaffold.Proofs.Env.PublicView

/-!
# Private values

Two runs of the same requests may differ in the values of private variables.  Each request then
succeeds in both runs or in neither, and the files that are shared are the same after every request
(`replay_agrees`).  A private value reaches the environment file only, where its line is an entry of
its key whatever the value is, and all later decisions depend on the keys of that file.
-/

namespace Scaffold.Env

/-! ## Shared files -/

section

variable {l : Layout} (hconfig : l.config = {})
include hconfig

theorem endsIn_path (f : EnvFile) : (f.path l).EndsIn f.name := by
  rw [EnvFile.path_eq hconfig]
  exact .join (.inl rfl) (by cases f <;> decide) l.root

theorem isPublicFile_path {f : EnvFile} (hf : f ≠ .env) : IsPublicFile (f.path l) :=
  ⟨f.name, endsIn_path hconfig f, f.isFileName, fun hname => hf (EnvFile.name_injective hname)⟩

theorem isPublicFile_environmentModel : IsPublicFile l.environmentModel :=
  isPublicFile_path hconfig (f := .model) (by decide)

theorem isPublicFile_publicEnvFile : IsPublicFile l.publicEnvFile :=
  isPublicFile_path hconfig (f := .shared) (by decide)

theorem isPublicFile_projectModel (project : Path) : IsPublicFile (l.projectModel project) := by
  have hname : Disk.IsFileName "environment.model.ts" :=
    ⟨⟨by decide, by decide⟩, by decide, by decide, by decide⟩
  have hends : Path.EndsIn (Config.projectModel {}) "environment.model.ts" :=
    .inr ⟨"src/environment", rfl⟩
  rw [Layout.projectModel, hconfig]
  exact ⟨_, hends.join (by decide) _, hname, by decide⟩

end

/-! ## Reading -/

namespace SamePublic

variable {d e : Disk} (h : SamePublic d e)
include h

theorem openDocument_eq {p : Path} (hp : IsPublicFile p) : e.openDocument p = d.openDocument p := by
  rw [Disk.openDocument, Disk.openDocument, Disk.read, Disk.read, Disk.text?, Disk.text?,
    h.entryAt?_eq hp, h.contains_eq]

theorem openOrEmpty_eq {p : Path} (hp : IsPublicFile p) : e.openOrEmpty p = d.openOrEmpty p := by
  rw [Disk.openOrEmpty, Disk.openOrEmpty, h.openDocument_eq hp, h.contains_eq]

/-- An environment file that is read has the same keys on both disks. -/
theorem openOrEmpty_env {p : Path} {document : Document} (hopen : d.openOrEmpty p = .ok document) :
    ∃ t u, document = .ofContent p t ∧ e.openOrEmpty p = .ok (.ofContent p u) ∧ SameKeys t u := by
  unfold Disk.openOrEmpty Disk.openDocument Disk.contains Disk.read Disk.text? at hopen ⊢
  obtain heq | ⟨-, t, u, -, ht, hu, hkeys⟩ := h.entryAt?_cases p
  · rw [heq]
    generalize d.entryAt? p = entry at hopen ⊢
    rcases entry with _ | _ | t | bytes
    · exact ⟨[], [], (Except.ok.inj hopen).symm, rfl, rfl⟩
    · cases hopen
    · exact ⟨t, t, (Except.ok.inj hopen).symm, rfl, rfl⟩
    · cases hopen
  · rw [ht] at hopen
    rw [hu]
    exact ⟨t, u, (Except.ok.inj hopen).symm, rfl, hkeys⟩

variable {l : Layout} (hconfig : l.config = {})
include hconfig

theorem openModel_eq : openModel l e = openModel l d := by
  rw [openModel, openModel, h.openOrEmpty_eq (isPublicFile_environmentModel hconfig)]

theorem readModel_eq : readModel l e = readModel l d := by
  rw [readModel, readModel, h.openDocument_eq (isPublicFile_environmentModel hconfig)]

theorem projectWithKeys_eq (project : Path) (keys : List Text) :
    projectWithKeys l project keys e = projectWithKeys l project keys d := by
  simp only [projectWithKeys, h.readModel_eq hconfig, h.contains_eq,
    h.openDocument_eq (isPublicFile_projectModel hconfig project)]

end SamePublic

/-- What a project selects is written to its model file. -/
theorem path_of_projectWithKeys {l : Layout} {project : Path} {keys : List Text} {d : Disk}
    {file : Path × Text} (h : projectWithKeys l project keys d = .ok file) :
    file.1 = l.projectModel project := by
  obtain ⟨model, -, h⟩ := bind_eq_ok.1 h
  split at h
  · cases h
  · simp only at h
    split at h
    · obtain ⟨document, -, h⟩ := bind_eq_ok.1 h
      obtain ⟨added, -, h⟩ := bind_eq_ok.1 h
      rw [← Except.ok.inj h]
    · obtain ⟨text, -, h⟩ := bind_eq_ok.1 h
      rw [← Except.ok.inj h]

theorem path_of_openOrEmpty {d : Disk} {p : Path} {document : Document}
    (h : d.openOrEmpty p = .ok document) : document.path = p := by
  obtain ⟨t, -, rfl, -⟩ := (SamePublic.refl d).openOrEmpty_env h
  exact Document.path_ofContent p t

theorem path_of_openModel {l : Layout} {d : Disk} {document : Document}
    (h : openModel l d = .ok document) : document.path = l.environmentModel := by
  obtain ⟨opened, hopened, h⟩ := bind_eq_ok.1 h
  rw [← Except.ok.inj h]
  split
  · rw [Document.setContent, Document.path_ofContent, path_of_openOrEmpty hopened]
  · exact path_of_openOrEmpty hopened

/-! ## Adding variables -/

/-- The same static variable, up to its value, which has to fit. -/
structure SameVariable (v v' : StaticVariable) : Prop where
  declaration : v'.toDeclaration = v.toDeclaration
  fits : v.Fits
  fits' : v'.Fits

theorem SameVariable.symm {v v' : StaticVariable} (h : SameVariable v v') : SameVariable v' v :=
  ⟨h.declaration.symm, h.fits', h.fits⟩

section

variable {l : Layout} (hconfig : l.config = {}) {d e : Disk} (h : SamePublic d e)
include hconfig h

/-- The documents of a variable that is added on both disks: all are equal but the environment
files, and these have the same keys. -/
theorem SamePublic.staticAdded {v v' : StaticVariable} (hv : SameVariable v v') {isPublic : Bool}
    (hpublic : v.sharedLine isPublic = v'.sharedLine isPublic) {documents : List Document}
    (hadded : Env.staticAdded l v isPublic d = .ok documents) :
    ∃ declared shared t u, documents = [declared, .ofContent l.envFile t, shared] ∧
      Env.staticAdded l v' isPublic e = .ok [declared, .ofContent l.envFile u, shared] ∧
      SameKeys t u ∧ declared.path = l.environmentModel ∧ shared.path = l.publicEnvFile := by
  obtain ⟨hkey, -, model, env, shared, m, declared, hmodel, henv, hshared, hm, hdeclared, rfl⟩ :=
    staticAdded_eq_ok.1 hadded
  have hkey' : v'.key = v.key := congrArg Declaration.key hv.declaration
  obtain ⟨t, u, rfl, henv', hkeys⟩ := h.openOrEmpty_env henv
  obtain ⟨hread, hnew, hfiles⟩ := checkNew_eq_ok.1 hm
  have ht := hfiles (.ofContent l.envFile t) (by simp)
  rw [DotEnv.ofDocument, Document.content_ofContent] at ht
  have hu : (DotEnv.ofText u).contains v.key = false := (hkeys.contains_eq v.key).trans ht
  have hline : ((Document.ofContent l.envFile t).appendLines [v.envLine]).2 =
      .ofContent l.envFile (t.withLine v.envLine) :=
    DotEnv.appendLines_entryLine hkey hv.fits.newline_notMem _ ht
  have hline' : ((Document.ofContent l.envFile u).appendLines [v'.envLine]).2 =
      .ofContent l.envFile (u.withLine v'.envLine) := by
    rw [← hkey'] at hkey hu
    exact DotEnv.appendLines_entryLine hkey hv.fits'.newline_notMem _ hu
  refine ⟨declared, (shared.appendLines [v.sharedLine isPublic]).2, t.withLine v.envLine,
    u.withLine v'.envLine, by rw [hline], ?_, ?_, ?_, ?_⟩
  · refine staticAdded_eq_ok.2 ⟨hkey' ▸ hkey, hv.fits', model, .ofContent l.envFile u, shared, m,
      declared, ?_, henv', ?_, ?_, ?_, by rw [hline', hpublic]⟩
    · rw [h.openModel_eq hconfig, hmodel]
    · rw [h.openOrEmpty_eq (isPublicFile_publicEnvFile hconfig), hshared]
    · rw [hkey', checkNew_eq_ok]
      refine ⟨hread, hnew, ?_⟩
      have hshared := hfiles shared (by simp)
      simpa [DotEnv.ofDocument, Document.content_ofContent, hu] using hshared
    · rw [hv.declaration, hdeclared]
  · rw [SameKeys, StaticVariable.envLine, StaticVariable.envLine, hkey',
      DotEnv.keys_withLine hkey hv.fits.newline_notMem,
      DotEnv.keys_withLine hkey hv.fits'.newline_notMem, hkeys]
  · rw [Document.path_of_appendToLiteral hdeclared, path_of_openModel hmodel]
  · rw [Document.path_appendLines, path_of_openOrEmpty hshared]

/-- The document of a calculated variable that is added is the same on both disks. -/
theorem SamePublic.calculatedAdded {v : CalculatedVariable} {document : Document}
    (hadded : Env.calculatedAdded l v d = .ok document) :
    Env.calculatedAdded l v e = .ok document ∧ document.path = l.environmentModel := by
  obtain ⟨hkey, model, env, m, declared, hmodel, henv, hm, hfits, hdeclared, hdocument⟩ :=
    calculatedAdded_eq_ok.1 hadded
  obtain ⟨t, u, rfl, henv', hkeys⟩ := h.openOrEmpty_env henv
  obtain ⟨hread, hnew, hfiles⟩ := checkNew_eq_ok.1 hm
  refine ⟨calculatedAdded_eq_ok.2 ⟨hkey, model, .ofContent l.envFile u, m, declared, ?_, henv', ?_,
    hfits, hdeclared, hdocument⟩, ?_⟩
  · rw [h.openModel_eq hconfig, hmodel]
  · refine checkNew_eq_ok.2 ⟨hread, hnew, ?_⟩
    have ht := hfiles (.ofContent l.envFile t) (by simp)
    rw [DotEnv.ofDocument, Document.content_ofContent, ← hkeys.contains_eq] at ht
    simp [DotEnv.ofDocument, Document.content_ofContent, ht]
  · rw [Document.path_of_appendToLiteral hdocument, Document.path_of_appendToLiteral hdeclared,
      path_of_openModel hmodel]

end

/-! ## Edits -/

theorem sameResult_of {α β : Type} {R : α → β → Prop} {x : Except Fault α} {y : Except Fault β}
    (h : ∀ a, x = .ok a → ∃ b, y = .ok b ∧ R a b) (hback : ∀ b, y = .ok b → ∃ a, x = .ok a) :
    SameResult R x y := by
  cases x with
  | ok a =>
    obtain ⟨b, rfl, hab⟩ := h a rfl
    exact hab
  | error _ =>
    cases y with
    | error _ => exact trivial
    | ok b =>
      obtain ⟨a, ha⟩ := hback b rfl
      cases ha

namespace SameEdit

/-- Saving documents one by one. -/
theorem saveAll_cons {document document' : Document} {documents documents' : List Document}
    (h : SameEdit (fun _ _ => True) (Edit.save document) (Edit.save document'))
    (hrest : SameEdit (fun _ _ => True) (saveAll documents) (saveAll documents')) :
    SameEdit (fun _ _ => True) (saveAll (document :: documents))
      (saveAll (document' :: documents')) := by
  have hfirst : SameEdit (fun _ _ => True) (do let _ ← Edit.save document : Edit Unit)
      (do let _ ← Edit.save document') := h.bind fun _ _ _ => pure trivial
  exact hfirst.bind fun _ _ _ => hrest

theorem saveAll_nil : SameEdit (fun _ _ => True) (saveAll []) (saveAll []) := pure trivial

/-- Saving the same document of a shared file. -/
theorem save {document : Document} (h : IsPublicFile document.path) :
    SameEdit (fun _ _ => True) (Edit.save document) (Edit.save document) :=
  (writeIfChanged h document.content).mono fun _ _ _ => trivial

variable {l : Layout} (hconfig : l.config = {})
include hconfig

/-- Saving an environment file with the same keys. -/
theorem save_env {t u : Text} (hkeys : SameKeys t u) :
    SameEdit (fun _ _ => True) (Edit.save (.ofContent l.envFile t))
      (Edit.save (.ofContent l.envFile u)) := by
  rw [Edit.save, Edit.save, Document.path_ofContent, Document.path_ofContent,
    Document.content_ofContent, Document.content_ofContent]
  exact writeEnvFile (endsIn_path hconfig .env) hkeys

/-- Making the files that are missing. -/
theorem init : SameEdit (fun _ _ => True) (Env.init l) (Env.init l) := by
  have hshared : SameEdit Eq (Edit.look (Disk.openOrEmpty l.publicEnvFile))
      (Edit.look (Disk.openOrEmpty l.publicEnvFile)) := by
    refine look fun d e hde => ?_
    rw [hde.openOrEmpty_eq (isPublicFile_publicEnvFile hconfig)]
    exact sameResult_of (fun a ha => ⟨a, ha, rfl⟩) fun b hb => ⟨b, hb⟩
  refine (ite_contains _ (pure rfl)
    (writeIfChanged (isPublicFile_environmentModel hconfig) skeleton)).bind fun _ _ _ => ?_
  refine hshared.bind ?_
  rintro shared _ rfl
  have hcreate : SameEdit (fun _ _ => True) (Edit.createIfMissing l.envFile shared.content)
      (Edit.createIfMissing l.envFile shared.content) := by
    exact ite_contains _ (pure trivial) (writeEnvFile (endsIn_path hconfig .env) rfl)
  exact hcreate.bind fun _ _ _ => pure trivial

theorem addStatic {v v' : StaticVariable} (hv : SameVariable v v') {isPublic : Bool}
    (hpublic : v.sharedLine isPublic = v'.sharedLine isPublic) :
    SameEdit (fun _ _ => True) (Env.addStatic l v isPublic) (Env.addStatic l v' isPublic) := by
  have hlook : SameEdit (fun documents documents' => ∃ declared shared t u,
      documents = [declared, .ofContent l.envFile t, shared] ∧
      documents' = [declared, .ofContent l.envFile u, shared] ∧ SameKeys t u ∧
      declared.path = l.environmentModel ∧ shared.path = l.publicEnvFile)
      (Edit.look (Env.staticAdded l v isPublic)) (Edit.look (Env.staticAdded l v' isPublic)) := by
    refine look fun d e hde => sameResult_of (fun documents hdocuments => ?_) fun documents' h' => ?_
    · obtain ⟨declared, shared, t, u, hd, he, hrest⟩ :=
        hde.staticAdded hconfig hv hpublic hdocuments
      exact ⟨_, he, declared, shared, t, u, hd, rfl, hrest⟩
    · obtain ⟨declared, shared, t, u, -, hd, -⟩ :=
        hde.symm.staticAdded hconfig hv.symm hpublic.symm h'
      exact ⟨_, hd⟩
  refine hlook.bind ?_
  rintro _ _ ⟨declared, shared, t, u, rfl, rfl, hkeys, hdeclared, hshared⟩
  have hmodel : IsPublicFile declared.path := hdeclared ▸ isPublicFile_environmentModel hconfig
  have hpublicEnv : IsPublicFile shared.path := hshared ▸ isPublicFile_publicEnvFile hconfig
  exact saveAll_cons (save hmodel) (saveAll_cons (save_env hconfig hkeys)
    (saveAll_cons (save hpublicEnv) saveAll_nil))

theorem addCalculated (v : CalculatedVariable) :
    SameEdit (fun _ _ => True) (Env.addCalculated l v) (Env.addCalculated l v) := by
  have hlook : SameEdit (fun document document' => document = document' ∧
      document.path = l.environmentModel)
      (Edit.look (Env.calculatedAdded l v)) (Edit.look (Env.calculatedAdded l v)) := by
    refine look fun d e hde => sameResult_of (fun document hdocument => ?_) fun document' h' => ?_
    · obtain ⟨he, hpath⟩ := hde.calculatedAdded hconfig hdocument
      exact ⟨document, he, rfl, hpath⟩
    · exact ⟨document', (hde.symm.calculatedAdded hconfig h').1⟩
  refine hlook.bind ?_
  rintro document _ ⟨rfl, hpath⟩
  have hmodel : IsPublicFile document.path := hpath ▸ isPublicFile_environmentModel hconfig
  exact saveAll_cons (save hmodel) saveAll_nil

theorem setupProject (project : Path) (keys : List Text) :
    SameEdit (fun _ _ => True) (Env.setupProject l project keys)
      (Env.setupProject l project keys) := by
  have hlook : SameEdit (fun file file' => file = file' ∧ file.1 = l.projectModel project)
      (Edit.look (projectWithKeys l project keys)) (Edit.look (projectWithKeys l project keys)) := by
    refine look fun d e hde => ?_
    rw [hde.projectWithKeys_eq hconfig]
    exact sameResult_of (fun file hfile => ⟨file, hfile, rfl, path_of_projectWithKeys hfile⟩)
      fun file hfile => ⟨file, hfile⟩
  refine hlook.bind ?_
  rintro ⟨path, content⟩ _ ⟨rfl, hpath⟩
  obtain rfl : path = l.projectModel project := hpath
  exact (writeIfChanged (isPublicFile_projectModel hconfig project) content).bind
    fun _ _ _ => pure trivial

end SameEdit

/-! ## Requests -/

/-- What is asked of a workspace: a call on its environment, or keys for a project. -/
inductive Request where
  | call (c : Call)
  | setupProject (project : Path) (keys : List Text)

/-- The edit that a request makes. -/
def Request.edit (l : Layout) : Request → Edit Unit
  | .call c => c.edit l
  | .setupProject project keys => do let _ ← Env.setupProject l project keys

/-- The same request, up to the value of a private variable, which fits in both. -/
inductive SameRequest : Request → Request → Prop where
  | refl (r : Request) : SameRequest r r
  | secret {v v' : StaticVariable} (h : SameVariable v v') :
      SameRequest (.call (.addStatic v false)) (.call (.addStatic v' false))

/-- The same static variable is added alike, or refused alike when its value does not fit. -/
theorem SameEdit.addStatic_self {l : Layout} (hconfig : l.config = {}) (v : StaticVariable)
    (isPublic : Bool) : SameEdit (fun _ _ => True) (Env.addStatic l v isPublic)
      (Env.addStatic l v isPublic) := by
  by_cases hfits : v.Fits
  · exact SameEdit.addStatic hconfig ⟨rfl, hfits, hfits⟩ rfl
  · have hnone (f : Disk) (documents : List Document) :
        Env.staticAdded l v isPublic f ≠ .ok documents :=
      fun hadded => hfits (staticAdded_eq_ok.1 hadded).2.1
    have hlook : SameEdit (fun _ _ => False) (Edit.look (Env.staticAdded l v isPublic))
        (Edit.look (Env.staticAdded l v isPublic)) :=
      SameEdit.look fun d e _ => sameResult_of (fun documents h => absurd h (hnone d documents))
        fun documents h => absurd h (hnone e documents)
    exact hlook.bind fun _ _ h => h.elim

/-- The same request succeeds or fails alike. -/
theorem SameRequest.sameEdit {l : Layout} (hconfig : l.config = {}) {r r' : Request}
    (h : SameRequest r r') : SameEdit (fun _ _ => True) (r.edit l) (r'.edit l) := by
  cases h with
  | secret h =>
    refine SameEdit.addStatic hconfig h ?_
    have hkey : _ = _ := congrArg Declaration.key h.declaration
    rw [StaticVariable.sharedLine, StaticVariable.sharedLine, hkey]
    simp
  | refl =>
    match r with
    | .call .init => exact (SameEdit.init hconfig).bind fun _ _ _ => .pure trivial
    | .call (.addStatic v isPublic) => exact SameEdit.addStatic_self hconfig v isPublic
    | .call (.addCalculated v) => exact SameEdit.addCalculated hconfig v
    | .setupProject project keys =>
      exact (SameEdit.setupProject hconfig project keys).bind fun _ _ _ => .pure trivial

/-! ## Two runs -/

/-- Which requests of a run succeed, and the disk that the run leaves. -/
def replay (l : Layout) : Disk → List Request → List Bool × Disk
  | d, [] => ([], d)
  | d, r :: rs =>
    let rest := replay l ((r.edit l).outcome d).2 rs
    (((r.edit l).outcome d).1.isOk :: rest.1, rest.2)

/-- The files of a workspace that are shared are the same on both disks. -/
structure SameShared (l : Layout) (d e : Disk) : Prop where
  env : e.entryAt? l.publicEnvFile = d.entryAt? l.publicEnvFile
  model : e.entryAt? l.environmentModel = d.entryAt? l.environmentModel
  project : ∀ project, e.entryAt? (l.projectModel project) = d.entryAt? (l.projectModel project)

theorem SamePublic.sameShared {l : Layout} (hconfig : l.config = {}) {d e : Disk}
    (h : SamePublic d e) : SameShared l d e where
  env := h.entryAt?_eq (isPublicFile_publicEnvFile hconfig)
  model := h.entryAt?_eq (isPublicFile_environmentModel hconfig)
  project project := h.entryAt?_eq (isPublicFile_projectModel hconfig project)

/-- Two runs of the same requests keep disks that differ at most in the values of environment files,
and the same requests succeed in both. -/
theorem replay_samePublic {l : Layout} (hconfig : l.config = {}) {rs rs' : List Request}
    (hrs : List.Forall₂ SameRequest rs rs') {d e : Disk} (h : SamePublic d e) :
    (replay l e rs').1 = (replay l d rs).1 ∧ SamePublic (replay l d rs).2 (replay l e rs').2 := by
  induction hrs generalizing d e with
  | nil => exact ⟨rfl, h⟩
  | @cons r r' rs rs' hr _ ih =>
    obtain ⟨hresult, hdisks⟩ := hr.sameEdit hconfig d e h
    obtain ⟨hanswers, hrest⟩ := ih hdisks
    refine ⟨?_, hrest⟩
    rw [replay, replay, hanswers, hresult.isOk_eq]

/-- From any disk on, two runs of the same requests succeed alike and leave the same shared files
after each request. -/
theorem replay_agrees {l : Layout} (hconfig : l.config = {}) {rs rs' : List Request}
    (hrs : List.Forall₂ SameRequest rs rs') (d : Disk) :
    (replay l d rs').1 = (replay l d rs).1 ∧
      ∀ n, SameShared l (replay l d (rs.take n)).2 (replay l d (rs'.take n)).2 := by
  refine ⟨(replay_samePublic hconfig hrs (.refl d)).1, fun n => ?_⟩
  have hfirst := List.forall₂_take n hrs
  exact (replay_samePublic hconfig hfirst (.refl d)).2.sameShared hconfig

/-- Requests that add a private variable with a value and let a project select it. -/
def sampleRequests (value : Text) : List Request :=
  [.call .init,
    .call (.addStatic
      { key := "token", required := true, type := .string, value := some (.string value) } false),
    .setupProject ⟨"apps/web"⟩ [("token" : Text)]]

/-- A workspace on a disk with nothing on it. -/
def sampleReplay (rs : List Request) : List Bool × Disk := replay { root := ⟨"ws"⟩ } ⟨[], []⟩ rs

theorem replay_agrees_sample :
    (sampleReplay (sampleRequests "b=c")).1 = (sampleReplay (sampleRequests "a")).1 ∧
      ∀ n, SameShared { root := ⟨"ws"⟩ } (sampleReplay ((sampleRequests "a").take n)).2
        (sampleReplay ((sampleRequests "b=c").take n)).2 := by
  have hrs : List.Forall₂ SameRequest (sampleRequests "a") (sampleRequests "b=c") := by
    refine .cons (.refl _) (.cons (.secret ⟨rfl, ?_, ?_⟩) (.cons (.refl _) .nil))
    · rintro x ⟨⟩
      exact ⟨rfl, by decide⟩
    · rintro x ⟨⟩
      exact ⟨rfl, by decide⟩
  exact replay_agrees rfl hrs ⟨[], []⟩

end Scaffold.Env
