import Scaffold.Proofs.Env.Calls

/-!
# The files after a run of calls

Starting from an empty workspace, the files of a workspace hold what the calls have accepted, after
every call and whatever the calls were (`run_agrees`): the model is read as the accepted
declarations and calculations, and both environment files have one entry for each static variable.
-/

namespace Scaffold.Env

/-! ## Runs -/

/-- What a run of calls has accepted and the disk that it leaves. -/
def run (l : Layout) (d : Disk) (calls : List Call) : Accepted × Disk :=
  calls.foldl (Call.step l) ({}, d)

/-- A workspace in the default configuration whose root is a directory with nothing in it. -/
structure EmptyWorkspace (l : Layout) (d : Disk) : Prop where
  config : l.config = {}
  root : ∃ root, d.LeadsTo l.root root ∧ ∀ m, root <+: m → m ≠ root → d.get? m = none

namespace Accepted

/-- The lines of the environment file. -/
def envText (a : Accepted) : Text := a.statics.flatMap fun s => s.1.envLine ++ ['\n']

/-- The lines of the shared environment file. -/
def sharedText (a : Accepted) : Text := a.statics.flatMap fun s => s.1.sharedLine s.2 ++ ['\n']

end Accepted

/-- An environment file with the given text, whose entries are those of the static variables, each
once. -/
def HasEntries (a : Accepted) (path : Path) (text : Text) (d : Disk) : Prop :=
  ∃ document, d.openOrEmpty path = .ok document ∧ document.content = text ∧
    (DotEnv.ofDocument document).keys = a.declarations.map Declaration.key

/-- The files of a workspace hold what has been accepted. -/
structure Agrees (l : Layout) (a : Accepted) (d : Disk) : Prop where
  /-- The model declares what has been accepted, and its calculations are read as those that have
  been added. -/
  model : d.contains l.environmentModel = true → ∃ m, readModel l d = .ok m ∧
    m.statics = a.declarations ∧ m.calculated = a.calculated.map CalculatedVariable.toDeclaration ∧
    List.Forall₂ (fun v entry => entry.1 = v.key ∧
      ∃ c, Calculation.read entry.2 = .ok c ∧ (c == v.value) = true) a.calculated m.calculations
  /-- As long as there is no model, nothing has been accepted. -/
  missing : d.contains l.environmentModel = false → a.statics = [] ∧ a.calculated = []
  nodup : a.keys.Nodup
  env : HasEntries a l.envFile a.envText d
  shared : HasEntries a l.publicEnvFile a.sharedText d

/-! ## The invariant of a run -/

/-- The files hold what has been accepted, and nothing else. -/
structure Refines (l : Layout) (root : Location) (a : Accepted) (files : Contents) (d : Disk) : Prop
    extends Invariant l root a files d where
  env : files.text? .env = some a.envText
  envKeys : (DotEnv.ofText a.envText).keys = a.declarations.map Declaration.key
  shared : files.text? .shared = some a.sharedText
  sharedKeys : (DotEnv.ofText a.sharedText).keys = a.declarations.map Declaration.key

theorem EmptyWorkspace.refines {l : Layout} {d : Disk} (h : EmptyWorkspace l d) :
    ∃ root, Refines l root {} (fun _ => none) d := by
  obtain ⟨root, hleads, hempty⟩ := h.root
  have hholds : Holds l root (fun _ => none) d := by
    refine ⟨h.config, hleads, fun m hm hne => ?_, fun f => ?_⟩
    · rw [hempty m hm hne]
      exact nofun
    · rw [hempty _ (List.prefix_append _ _) (by simp)]
      rfl
  have hwellFormed : WellFormed ({} : Accepted).declarations ({} : Accepted).calculated :=
    ⟨nofun, nofun⟩
  exact ⟨root, ⟨hholds, .inl ⟨rfl, rfl, rfl⟩, hwellFormed, List.nodup_nil, nofun⟩, rfl, rfl, rfl,
    rfl⟩

namespace Refines

variable {l : Layout} {root : Location} {a : Accepted} {files : Contents} {d : Disk}
  (h : Refines l root a files d)
include h

theorem step_init : ∃ files', Refines l root (Call.init.step l (a, d)).1 files'
    (Call.init.step l (a, d)).2 := by
  obtain ⟨files', e, he, hinv, hshared, henv⟩ := h.toInvariant.init
  rw [Call.step_init, he]
  refine ⟨files', hinv, ?_, h.envKeys, hshared.trans h.shared, h.sharedKeys⟩
  rcases henv with henv | ⟨hnone, henv⟩
  · rw [← h.env, Contents.text?, Contents.text?, henv]
  · -- the environment file is made only while there are no static variables
    have hempty : a.envText = [] := by
      have := h.env
      rw [Contents.text?, hnone] at this
      exact (Option.some.inj this).symm
    have hstatics : a.statics = [] := by
      cases hs : a.statics with
      | nil => rfl
      | cons s ss => simp [Accepted.envText, hs] at hempty
    rw [henv, h.shared, Accepted.envText, Accepted.sharedText, hstatics]
    rfl

theorem step_addStatic (v : StaticVariable) (isPublic : Bool) :
    ∃ files', Refines l root ((Call.addStatic v isPublic).step l (a, d)).1 files'
      ((Call.addStatic v isPublic).step l (a, d)).2 := by
  rcases h.toInvariant.addStatic v isPublic with ⟨-, x, hx⟩ |
    ⟨hnew, env, shared, e, he, henv, hshared, hinv⟩
  · rw [Call.step_of_error (c := .addStatic v isPublic) hx]
    exact ⟨files, h⟩
  obtain rfl : a.envText = env := Option.some.inj (h.env.symm.trans henv)
  obtain rfl : a.sharedText = shared := Option.some.inj (h.shared.symm.trans hshared)
  have henvText : a.envText.withLine v.envLine = (a.add (.addStatic v isPublic)).envText :=
    Text.withLine_flatMap (fun s : StaticVariable × Bool => s.1.envLine) a.statics (v, isPublic)
  have hsharedText : a.sharedText.withLine (v.sharedLine isPublic) =
      (a.add (.addStatic v isPublic)).sharedText :=
    Text.withLine_flatMap (fun s : StaticVariable × Bool => s.1.sharedLine s.2) a.statics (v, isPublic)
  have hdeclarations : (a.add (.addStatic v isPublic)).declarations.map Declaration.key =
      a.declarations.map Declaration.key ++ [v.key] := by
    simp [Accepted.declarations_add_static]
  rw [henvText, hsharedText] at hinv
  rw [Call.step_of_ok (c := .addStatic v isPublic) he]
  refine ⟨_, hinv, ?_, ?_, Contents.text?_set_self .., ?_⟩
  · rw [Contents.text?_set_of_ne _ (by decide), Contents.text?_set_self]
  · rw [← henvText, StaticVariable.envLine, DotEnv.keys_withLine hnew.valid hnew.fits.newline_notMem,
      h.envKeys, hdeclarations]
  · rw [← hsharedText, StaticVariable.sharedLine,
      DotEnv.keys_withLine hnew.valid (hnew.fits.newline_notMem_public isPublic), h.sharedKeys,
      hdeclarations]

theorem step_addCalculated {v : CalculatedVariable} (hv : v.value.Buildable) :
    ∃ files', Refines l root ((Call.addCalculated v).step l (a, d)).1 files'
      ((Call.addCalculated v).step l (a, d)).2 := by
  rcases h.toInvariant.addCalculated hv with ⟨-, x, hx⟩ | ⟨-, e, he, hinv⟩
  · rw [Call.step_of_error (c := .addCalculated v) hx]
    exact ⟨files, h⟩
  rw [Call.step_of_ok (c := .addCalculated v) he]
  refine ⟨_, hinv, ?_, h.envKeys, ?_, h.sharedKeys⟩
  · rw [Contents.text?_set_of_ne _ (by decide)]
    exact h.env
  · rw [Contents.text?_set_of_ne _ (by decide)]
    exact h.shared

/-- Every call keeps the files and what has been accepted in step. -/
theorem step {c : Call} (hc : c.Buildable) :
    ∃ files', Refines l root (c.step l (a, d)).1 files' (c.step l (a, d)).2 := by
  cases c with
  | init => exact h.step_init
  | addStatic v isPublic => exact h.step_addStatic v isPublic
  | addCalculated v => exact h.step_addCalculated hc

/-- A run of calls keeps them in step. -/
theorem foldl_step (calls : List Call) (hcalls : ∀ c ∈ calls, c.Buildable) :
    ∃ files', Refines l root (calls.foldl (Call.step l) (a, d)).1 files'
      (calls.foldl (Call.step l) (a, d)).2 := by
  induction calls generalizing a files d with
  | nil => exact ⟨files, h⟩
  | cons c calls ih =>
    obtain ⟨hc, hrest⟩ := List.forall_mem_cons.1 hcalls
    obtain ⟨files', h'⟩ := h.step hc
    exact ih h' hrest

/-- Files in step with what has been accepted are read as that. -/
theorem agrees : Agrees l a d where
  model hexists := by
    refine ⟨a.model, h.readModel_eq hexists, rfl, rfl, ?_⟩
    have hcalculated := h.wellFormed.calculated
    show List.Forall₂ _ a.calculated
      (a.calculated.map fun v => (v.key, v.value.render Script.indentStep))
    generalize a.calculated = vs at hcalculated ⊢
    induction vs with
    | nil => exact .nil
    | cons v vs ih =>
      obtain ⟨hv, hvs⟩ := List.forall_mem_cons.1 hcalculated
      exact .cons ⟨rfl, Calculation.read_render hv.2 _⟩ (ih hvs)
  missing hmissing := by
    have hcontains := h.holds.contains_eq .model
    rw [EnvFile.path, hmissing] at hcontains
    rcases h.model with ⟨-, hnothing⟩ | hsome
    · exact hnothing
    · rw [hsome] at hcontains
      cases hcontains
  nodup := h.nodup
  env := by
    have hopen : d.openOrEmpty l.envFile = _ := h.holds.openOrEmpty_eq .env
    rw [h.env] at hopen
    refine ⟨_, hopen, Document.content_ofContent .., ?_⟩
    rw [DotEnv.ofDocument, Document.content_ofContent, h.envKeys]
  shared := by
    have hopen : d.openOrEmpty l.publicEnvFile = _ := h.holds.openOrEmpty_eq .shared
    rw [h.shared] at hopen
    refine ⟨_, hopen, Document.content_ofContent .., ?_⟩
    rw [DotEnv.ofDocument, Document.content_ofContent, h.sharedKeys]

end Refines

/-! ## A sample run -/

/-- A workspace `ws` in the directory where relative paths start. -/
def sampleLayout : Layout := { root := ⟨"ws"⟩ }

/-- A disk with nothing but the root of the sample workspace. -/
def sampleDisk : Disk := ⟨[], [([("ws" : Text)], .directory)]⟩

/-- A static variable whose value would open a block and a string in a script. -/
def sampleHost : StaticVariable where
  key := "host"
  required := true
  type := .string
  value := some (.string "\x7b'")

/-- A calculated variable that reads the static one. -/
def sampleUrl : CalculatedVariable where
  key := "url"
  required := true
  type := .string
  value := .uniform (.template [.text "http://", .reference "host"])

/-- A sample run of calls. -/
def sampleCalls : List Call := [.init, .addStatic sampleHost false, .addCalculated sampleUrl]

theorem emptyWorkspace_sample : EmptyWorkspace sampleLayout sampleDisk where
  config := rfl
  root := by
    refine ⟨[("ws" : Text)], ⟨by decide, by decide⟩, fun m hm hne => ?_⟩
    have hnil : m ≠ [] := by
      rintro rfl
      exact nomatch List.prefix_nil.1 hm
    have hbeq : (m == [("ws" : Text)]) = false := by simpa using hne
    have hempty : ¬ m.isEmpty = true := by simpa using hnil
    rw [Disk.get?, if_neg hempty, sampleDisk, List.lookup_cons, hbeq]
    rfl

theorem buildable_sample : ∀ c ∈ sampleCalls, c.Buildable := by
  have hreference : IsReferenceKey ("host" : Text) := ⟨by decide, by decide⟩
  have hparts : Normal [.text "http://", .reference "host"] :=
    .text (by decide) (.reference hreference .nil) (by simp)
  have hurl : sampleUrl.value.Buildable := by
    intro e he
    obtain rfl : e = _ := List.mem_singleton.1 he
    exact ⟨_, readTemplate_render hparts⟩
  simp [sampleCalls, Call.Buildable, hurl]

theorem isNew_sampleUrl {files : Contents}
    (henv : files.text? .env = some (Text.withLine [] sampleHost.envLine)) :
    sampleUrl.IsNew (({} : Accepted).add (.addStatic sampleHost false)) files where
  valid := by decide
  fits := by
    refine ⟨rfl, by decide, fun e he τ hτ => ?_⟩
    obtain rfl : e = _ := List.mem_singleton.1 he
    exact (Option.some.inj hτ).symm
  notAccepted := by decide
  env := ⟨_, henv, by decide⟩

/-- What a sample run accepts: all that it adds. -/
theorem run_sample : ∃ root files,
    (run sampleLayout sampleDisk sampleCalls).1 = ⟨[(sampleHost, false)], [sampleUrl]⟩ ∧
      Invariant sampleLayout root (run sampleLayout sampleDisk sampleCalls).1 files
        (run sampleLayout sampleDisk sampleCalls).2 := by
  obtain ⟨root, hempty⟩ := emptyWorkspace_sample.refines
  obtain ⟨files, d, hinit, hinv, hshared, henv⟩ := hempty.toInvariant.init
  have henvText : files.text? .env = some [] := by
    rcases henv with henv | ⟨-, henv⟩
    · rw [Contents.text?, henv]
    · exact henv
  have hhost : sampleHost.IsNew {} files :=
    ⟨by decide, by simp [StaticVariable.Fits, sampleHost, Setting.type, Setting.text], by decide,
      ⟨[], henvText, rfl⟩, ⟨[], hshared, rfl⟩⟩
  obtain ⟨hnot, -⟩ | ⟨-, env, shared, d₁, hd₁, henv₁, -, hinv₁⟩ := hinv.addStatic sampleHost false
  · exact absurd hhost hnot
  obtain rfl : [] = env := Option.some.inj (henvText.symm.trans henv₁)
  have henv₂ : Contents.text? (((files.set .model (Accepted.modelText
      (({} : Accepted).add (.addStatic sampleHost false)))).set .env
        (Text.withLine [] sampleHost.envLine)).set .shared
          (shared.withLine (sampleHost.sharedLine false))) .env =
      some (Text.withLine [] sampleHost.envLine) := by
    rw [Contents.text?_set_of_ne _ (by decide), Contents.text?_set_self]
  obtain ⟨hnot, -⟩ | ⟨-, d₂, hd₂, hinv₂⟩ :=
    hinv₁.addCalculated (buildable_sample (.addCalculated sampleUrl) (by simp [sampleCalls]))
  · exact absurd (isNew_sampleUrl henv₂) hnot
  have hrun : run sampleLayout sampleDisk sampleCalls =
      ((Accepted.add {} (.addStatic sampleHost false)).add (.addCalculated sampleUrl), d₂) := by
    rw [run, sampleCalls, List.foldl_cons, Call.step_init, hinit, List.foldl_cons,
      Call.step_of_ok (c := .addStatic sampleHost false) hd₁, List.foldl_cons,
      Call.step_of_ok (c := .addCalculated sampleUrl) hd₂, List.foldl_nil]
  rw [hrun]
  exact ⟨root, _, rfl, hinv₂⟩

/-! ## All runs -/

/-- After every run of calls on an empty workspace its files hold what has been accepted. -/
theorem run_agrees {l : Layout} {d : Disk} (h : EmptyWorkspace l d) {calls : List Call}
    (hcalls : ∀ c ∈ calls, c.Buildable) : Agrees l (run l d calls).1 (run l d calls).2 := by
  obtain ⟨root, hroot⟩ := h.refines
  obtain ⟨files, hfiles⟩ := hroot.foldl_step calls hcalls
  exact hfiles.agrees

theorem run_agrees_sample :
    (run sampleLayout sampleDisk sampleCalls).1 = ⟨[(sampleHost, false)], [sampleUrl]⟩ ∧
      Agrees sampleLayout ⟨[(sampleHost, false)], [sampleUrl]⟩
        (run sampleLayout sampleDisk sampleCalls).2 := by
  obtain ⟨-, -, haccepted, -⟩ := run_sample
  have hagrees := run_agrees emptyWorkspace_sample buildable_sample
  rw [haccepted] at hagrees
  exact ⟨haccepted, hagrees⟩

end Scaffold.Env
