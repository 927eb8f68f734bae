import Scaffold.Proofs.Env.Files
import Scaffold.Proofs.Env.Selection

/-!
# The generated file of a project

A build that succeeds leaves a file that is read as one entry for each selected key, in order, with
the value of the variable for the target, and a second build leaves it alone (`build_generates`).
Which literal stands for which value is said without the writer (`StandsFor`).  The text of the file
is read back by its marker (`exists_of_renderEnvironmentFile`).  Nothing that a build reads is
written by it, since no file that it reads has the name of the generated one
(`sameInputs_of_writes`); so it computes the same text again.
-/

namespace Scaffold.Env

open Script

/-! ## The text of the file -/

/-- The text that opens the object of a generated file. -/
def environmentMarker : Text := "environment = "

/-- The first line of a generated file. -/
def generatedHeader (target : Target) : Text :=
  "// Generated by monux for the '".toList ++ target.name ++
    "' target. Run `monux env build` to regenerate.".toList

theorem contains_generatedHeader (target : Target) :
    Text.contains environmentMarker (generatedHeader target) = false := by
  cases target <;> rfl

/-- A text in six pieces, divided around the marker. -/
theorem append_divided_generated (name object : Text) {a b m e b' m' e' : Text}
    (hb : b = b' ++ ['\n']) (hm : m = m' ++ environmentMarker) (he : e = e' ++ ['\n']) :
    a ++ name ++ b ++ m ++ object ++ e =
      (a ++ name ++ b') ++ '\n' :: (m' ++ environmentMarker ++ (object ++ (e' ++ ['\n']))) := by
  rw [hb, hm, he]
  simp only [List.append_assoc, List.cons_append, List.nil_append]

theorem renderEnvironmentFile_eq {values : List (Text × Literal)} {object : Text}
    (h : (Literal.object values).print {} 0 = .ok object) (target : Target) :
    renderEnvironmentFile target values {} =
      .ok (generatedHeader target ++ '\n' :: ("export const ".toList ++ environmentMarker ++
        (object ++ (";".toList ++ ['\n'])))) := by
  rw [renderEnvironmentFile, bind_of_ok h]
  have hheader : "' target. Run `monux env build` to regenerate.\n".toList =
      "' target. Run `monux env build` to regenerate.".toList ++ ['\n'] := by cbv
  have hmarker : "export const environment = ".toList =
      "export const ".toList ++ environmentMarker := by cbv
  have hend : ";\n".toList = ";".toList ++ ['\n'] := by cbv
  exact congrArg Except.ok (append_divided_generated target.name object hheader hmarker hend)

/-- The leaves of an object of variables are their values. -/
theorem exists_of_mem_leaves {values : List (Text × Literal)}
    (h : ∀ entry ∈ values, ∃ r, entry.2 = literalOf r) {leaf : Literal}
    (hleaf : leaf ∈ (Literal.object values).leaves) : ∃ r, leaf = literalOf r := by
  rw [Literal.leaves] at hleaf
  induction values with
  | nil => cases hleaf
  | cons entry values ih =>
    obtain ⟨⟨r, hr⟩, hrest⟩ := List.forall_mem_cons.1 h
    rw [Literal.leavesOfEntries, hr, List.mem_append] at hleaf
    rcases hleaf with hleaf | hleaf
    · refine ⟨r, ?_⟩
      cases r with
      | none => exact List.mem_singleton.1 hleaf
      | some value => cases value <;> exact List.mem_singleton.1 hleaf
    · exact ih hrest hleaf

/-- A value of a variable can be read back. -/
theorem leaf_literalOf (r : Option Setting) : Literal.Leaf {} (literalOf r) where
  number x _ := Literal.readsBack x
  expression s h := by
    rcases r with _ | _ | _ | _ <;> cases h

/-- The object of a generated file is found by its marker and read as the values. -/
theorem exists_of_renderEnvironmentFile {target : Target} {values : List (Text × Literal)}
    {content : Text} (hvalues : ∀ entry ∈ values, ∃ r, entry.2 = literalOf r)
    (h : renderEnvironmentFile target values {} = .ok content) (path : Path) :
    ∃ region entries, Region.ofDocument (.ofContent path content) environmentMarker = .ok region ∧
      Literal.read {} region.content = .object entries ∧
      Literal.beqEntries entries values = true := by
  have hleaf (leaf : Literal) (hmem : leaf ∈ (Literal.object values).leaves) :
      Literal.Leaf {} leaf := by
    obtain ⟨r, rfl⟩ := exists_of_mem_leaves hvalues hmem
    exact leaf_literalOf r
  obtain ⟨object, hobject, -⟩ := bind_eq_ok.1 h
  rw [renderEnvironmentFile_eq hobject] at h
  obtain rfl := Except.ok.inj h
  have henclosed := Literal.isEnclosed_print_object Vocabulary.sound_empty hleaf hobject
  have hreads :=
    Literal.readsAs_print Vocabulary.sound_empty (.object values) 0 object hleaf hobject
  have hline : '\n' ∉ "export const ".toList ++ environmentMarker :=
    mt List.elem_eq_true_of_mem (Bool.eq_false_iff.1 rfl)
  have hfirst : Text.breakOn? environmentMarker ("export const ".toList ++ environmentMarker) =
      some ("export const ".toList, []) := rfl
  have hmarker : IsOpenEnded environmentMarker := ⟨by decide, by decide⟩
  have hlocated := ofDocument_enclosed (contains_generatedHeader target) hline hfirst hmarker
    henclosed path ";".toList
  obtain ⟨entries, hentries, hequal⟩ : ∃ entries, Literal.read {} object = .object entries ∧
      Literal.beqEntries entries values = true := by
    have hequal := hreads.equal
    cases hread : Literal.read {} object with
    | object entries =>
      rw [hread] at hequal
      exact ⟨entries, rfl, hequal⟩
    | _ =>
      rw [hread] at hequal
      cases hequal
  exact ⟨_, entries, hlocated, hentries, hequal⟩

/-! ## What is computed -/

/-- A key with the value of its variable. -/
def IsValueOf (l : Layout) (target : Target) (d : Disk) (key : Text) (entry : Text × Literal) :
    Prop :=
  entry.1 = key ∧ ∃ r, getVariable l key target d = .ok r ∧ entry.2 = literalOf r

/-- A literal for the value of a variable: the same text or truth value, an equal number, and the
undefined literal when there is no value. -/
inductive StandsFor : Literal → Option Setting → Prop
  | string (t : Text) : StandsFor (.string t) (some (.string t))
  | number {x y : Float} (h : (y == x) = true) : StandsFor (.number y) (some (.number x))
  | boolean (b : Bool) : StandsFor (.boolean b) (some (.boolean b))
  | undefined : StandsFor .undefined none

/-- A key with a literal for the value of its variable. -/
def IsEntryOf (l : Layout) (target : Target) (d : Disk) (key : Text) (entry : Text × Literal) :
    Prop :=
  entry.1 = key ∧ ∃ r, getVariable l key target d = .ok r ∧ StandsFor entry.2 r

/-- A literal that equals what is written for a value stands for the value. -/
theorem standsFor_of_beq {v : Literal} {r : Option Setting} (h : (v == literalOf r) = true) :
    StandsFor v r := by
  cases r with
  | none =>
    cases v with
    | undefined => exact .undefined
    | _ => cases h
  | some value =>
    cases value with
    | string t =>
      cases v with
      | string u =>
        obtain rfl : u = t := beq_iff_eq.1 h
        exact .string u
      | _ => cases h
    | number x =>
      cases v with
      | number y => exact .number h
      | _ => cases h
    | boolean b =>
      cases v with
      | boolean c =>
        obtain rfl : c = b := beq_iff_eq.1 h
        exact .boolean c
      | _ => cases h

section

variable {l : Layout} {project : Path} {target : Target} {d : Disk}

theorem exists_literalOf {keys : List Text} {values : List (Text × Literal)}
    (h : List.Forall₂ (IsValueOf l target d) keys values) :
    ∀ entry ∈ values, ∃ r, entry.2 = literalOf r := by
  induction h with
  | nil => exact nofun
  | cons hentry _ ih =>
    obtain ⟨-, r, -, hr⟩ := hentry
    exact List.forall_mem_cons.2 ⟨⟨r, hr⟩, ih⟩

/-- Entries that equal what is written for the keys are entries of the keys. -/
theorem isEntryOf_of_beqEntries {keys : List Text} {values entries : List (Text × Literal)}
    (h : List.Forall₂ (IsValueOf l target d) keys values)
    (hequal : Literal.beqEntries entries values = true) :
    List.Forall₂ (IsEntryOf l target d) keys entries := by
  induction h generalizing entries with
  | nil =>
    cases entries with
    | nil => exact .nil
    | cons entry entries => cases hequal
  | cons hentry _ ih =>
    cases entries with
    | nil => cases hequal
    | cons entry entries =>
      obtain ⟨rfl, r, hr, hliteral⟩ := hentry
      obtain ⟨hhead, hrest⟩ := Bool.and_eq_true_iff.1 hequal
      obtain ⟨hkey, hvalue⟩ := Bool.and_eq_true_iff.1 hhead
      exact .cons ⟨beq_iff_eq.1 hkey, r, hr, standsFor_of_beq (hliteral ▸ hvalue)⟩ (ih hrest)

/-- What is computed by a build: the values of the selected keys, in order. -/
theorem exists_of_builtProject {file : Path × Text}
    (h : builtProject l project target d = .ok file) :
    file.1 = l.projectFile project ∧ ∃ keys values, projectKeys l project d = .ok keys ∧
      List.Forall₂ (IsValueOf l target d) keys values ∧
      renderEnvironmentFile target values l.vocabulary = .ok file.2 := by
  obtain ⟨model, hmodel, h⟩ := bind_eq_ok.1 h
  obtain ⟨env, henv, h⟩ := bind_eq_ok.1 h
  obtain ⟨keys, hkeys, h⟩ := bind_eq_ok.1 h
  obtain ⟨values, hvalues, h⟩ := bind_eq_ok.1 h
  obtain ⟨content, hrender, rfl⟩ := bind_pure_eq_ok.1 h
  refine ⟨rfl, keys, values, hkeys, (mapM_eq_ok.1 hvalues).imp fun key entry hentry => ?_, hrender⟩
  obtain ⟨r, hr, rfl⟩ := bind_pure_eq_ok.1 hentry
  refine ⟨rfl, r, ?_, rfl⟩
  rw [getVariable, bind_of_ok hmodel, bind_of_ok henv]
  exact hr

/-- A variable that is not declared has no value. -/
theorem getVariable_of_not_contains {key : Text} {model : Model}
    (hmodel : readModel l d = .ok model)
    (hkey : model.contains key = false) : ∃ fault, getVariable l key target d = .error fault := by
  rw [getVariable, bind_of_ok hmodel]
  cases readDotEnv l d with
  | error fault => exact ⟨fault, rfl⟩
  | ok env =>
    have hnone : model.declaration? key = none := by simpa [Model.contains] using hkey
    refine ⟨.notDeclared key, ?_⟩
    show resolve model env key target = _
    rw [resolve, hnone]

/-- Nothing is computed when a selected key has no value. -/
theorem builtProject_of_error {keys : List Text} (hkeys : projectKeys l project d = .ok keys)
    {key : Text} (hkey : key ∈ keys) {fault : Fault}
    (hfault : getVariable l key target d = .error fault) :
    ∃ fault', builtProject l project target d = .error fault' := by
  rw [getVariable] at hfault
  rw [builtProject]
  cases hmodel : readModel l d with
  | error fault => exact ⟨fault, rfl⟩
  | ok model =>
    rw [bind_of_ok hmodel] at hfault
    cases henv : readDotEnv l d with
    | error fault => exact ⟨fault, rfl⟩
    | ok env =>
      rw [bind_of_ok henv] at hfault
      have hentry : (do return (key, literalOf (← resolve model env key target)) :
          Except Fault (Text × Literal)) = .error fault := by
        rw [hfault]
        rfl
      obtain ⟨fault', hmap⟩ := mapM_of_error (f := fun key => do
        return (key, literalOf (← resolve model env key target))) hkey hentry
      refine ⟨fault', ?_⟩
      show (projectKeys l project d >>= _) = _
      rw [bind_of_ok hkeys]
      show (List.mapM _ keys >>= _) = _
      rw [hmap]
      rfl

/-- The files that a build reads are the same on two disks. -/
structure SameInputs (l : Layout) (project : Path) (d e : Disk) : Prop where
  model : e.entryAt? l.environmentModel = d.entryAt? l.environmentModel
  env : e.entryAt? l.envFile = d.entryAt? l.envFile
  keys : e.entryAt? (l.projectModel project) = d.entryAt? (l.projectModel project)

theorem SameInputs.builtProject_eq {e : Disk} (h : SameInputs l project d e) :
    builtProject l project target e = builtProject l project target d := by
  simp only [builtProject, readModel, readDotEnv, projectKeys, Disk.openDocument_congr h.model,
    Disk.openOrEmpty_congr h.env, Disk.openDocument_congr h.keys]

end

/-! ## What is written -/

/-- The directory of the files of a project. -/
def projectFilesDir (l : Layout) (project : Path) : Path :=
  (l.projectDir project).join "src/environment"

/-- The name of the model file of a project. -/
def modelFileName : Text := "environment.model.ts"

/-- The name of the generated file of a project. -/
def generatedFileName : Text := "environment.ts"

theorem isFileName_modelFileName : Disk.IsFileName modelFileName :=
  ⟨⟨by decide, by decide⟩, by decide, by decide, by decide⟩

theorem isFileName_generatedFileName : Disk.IsFileName generatedFileName :=
  ⟨⟨by decide, by decide⟩, by decide, by decide, by decide⟩

section

variable {l : Layout} (hconfig : l.config = {}) (project : Path)
include hconfig

theorem projectModel_eq :
    l.projectModel project = (projectFilesDir l project).join ⟨modelFileName⟩ := by
  have hpath : l.config.projectModel = ⟨"src/environment".toList ++ '/' :: modelFileName⟩ := by
    rw [hconfig]
    rfl
  rw [Layout.projectModel, hpath]
  exact (Path.join_join _ (by decide) ⟨'t', by decide, by decide⟩ (by decide)).symm

theorem projectFile_eq :
    l.projectFile project = (projectFilesDir l project).join ⟨generatedFileName⟩ := by
  have hpath : l.config.projectFile = ⟨"src/environment".toList ++ '/' :: generatedFileName⟩ := by
    rw [hconfig]
    rfl
  rw [Layout.projectFile, hpath]
  exact (Path.join_join _ (by decide) ⟨'t', by decide, by decide⟩ (by decide)).symm

/-- Where keys are selected, the generated file has a place. -/
theorem exists_locate?_projectFile {d : Disk} {keys : List Text}
    (hkeys : projectKeys l project d = .ok keys) :
    ∃ dir, d.locate? (l.projectFile project) = some (dir ++ [generatedFileName]) := by
  obtain ⟨document, hopen, -⟩ := bind_eq_ok.1 hkeys
  obtain ⟨t, htext, -⟩ := Disk.exists_of_openDocument hopen
  obtain ⟨m, hm, -⟩ := Option.bind_eq_some_iff.1 (Disk.entryAt?_of_text? htext)
  rw [projectModel_eq hconfig] at hm
  obtain ⟨dir, hdir⟩ := Disk.exists_locate?_join isFileName_modelFileName hm
  rw [projectFile_eq hconfig]
  exact ⟨dir, hdir _ isFileName_generatedFileName⟩

omit hconfig in
/-- A file of another name stands elsewhere. -/
theorem locate?_ne_of_endsIn {d : Disk} {dir : Location} {p : Path} {name : Text}
    (hends : p.EndsIn name) (hn : Disk.IsFileName name) (hname : name ≠ generatedFileName) :
    d.locate? p ≠ some (dir ++ [generatedFileName]) := by
  intro hlocate
  obtain ⟨other, hother⟩ := Disk.eq_concat_of_locate? hends hn hlocate
  exact hname (List.cons.inj (List.append_inj' hother rfl).2).1.symm

/-- Writing the generated file changes nothing that a build reads. -/
theorem sameInputs_of_writes {d e : Disk} {dir : Location} {content : FileContent}
    (hfree : d.get? (dir ++ [generatedFileName]) ≠ some .directory)
    (hwrites : d.Writes (dir ++ [generatedFileName]) content e) : SameInputs l project d e where
  model := by
    refine hwrites.entryAt?_of_ne hfree ?_
    have hpath : l.environmentModel = _ := EnvFile.path_eq hconfig .model
    rw [hpath]
    exact locate?_ne_of_endsIn (.join (.inl rfl) (by decide) _) (EnvFile.isFileName .model)
      (by decide)
  env := by
    refine hwrites.entryAt?_of_ne hfree ?_
    have hpath : l.envFile = _ := EnvFile.path_eq hconfig .env
    rw [hpath]
    exact locate?_ne_of_endsIn (.join (.inl rfl) (by decide) _) (EnvFile.isFileName .env)
      (by decide)
  keys := by
    refine hwrites.entryAt?_of_ne hfree ?_
    rw [projectModel_eq hconfig]
    exact locate?_ne_of_endsIn (.join (.inl rfl) (by decide) _) isFileName_modelFileName
      (by decide)

end

/-! ## Builds -/

/-- The parts of a build that succeeds. -/
theorem exists_of_build {l : Layout} {project : Path} {target : Target} {change : Change}
    {d d' : Disk} (h : (build l project target).outcome d = (.ok change, d')) :
    ∃ content status, builtProject l project target d = .ok (l.projectFile project, content) ∧
      (Edit.writeIfChanged (l.projectFile project) content).outcome d = (.ok status, d') := by
  obtain ⟨path, content, status, hfile, hwrite, -⟩ := writeComputed_eq_ok.1 h
  obtain ⟨hpath, -⟩ := exists_of_builtProject hfile
  obtain rfl : path = l.projectFile project := hpath
  exact ⟨content, status, hfile, hwrite⟩

/-- A build that computes what its file holds changes nothing. -/
theorem build_of_text? {l : Layout} {project : Path} {target : Target} {d : Disk} {content : Text}
    (hfile : builtProject l project target d = .ok (l.projectFile project, content))
    (htext : d.text? (l.projectFile project) = some content) :
    (build l project target).outcome d = (.ok (l.projectFile project, .unchanged), d) :=
  writeComputed_eq_ok.2 ⟨_, content, .unchanged, hfile, Edit.writeIfChanged_of_text? htext, rfl⟩

/-- A build that computes nothing changes nothing. -/
theorem build_of_error {l : Layout} {project : Path} {target : Target} {d : Disk} {fault : Fault}
    (h : builtProject l project target d = .error fault) :
    (build l project target).outcome d = (.error fault, d) := by
  have hlook : (Edit.look (builtProject l project target)).outcome d = (.error fault, d) := by
    rw [Edit.outcome_look, h]
  exact Edit.outcome_bind_of_error d hlook _

/-- In the default configuration, whatever the files hold: a build that succeeds leaves a file that
is read as one entry for each selected key, in order, with the value of the variable for the target,
and a second build changes nothing.  A build fails, and leaves everything as it was, when a selected
key is not declared or has no value. -/
theorem build_generates {l : Layout} (hconfig : l.config = {}) (project : Path) (target : Target)
    (d : Disk) :
    (∀ change d', (build l project target).outcome d = (.ok change, d') →
      ∃ keys document region entries, projectKeys l project d = .ok keys ∧
        d'.openDocument (l.projectFile project) = .ok document ∧
        Region.ofDocument document environmentMarker = .ok region ∧
        Literal.read l.vocabulary region.content = .object entries ∧
        List.Forall₂ (IsEntryOf l target d) keys entries ∧
        (build l project target).outcome d' = (.ok (l.projectFile project, .unchanged), d')) ∧
    (∀ keys key, projectKeys l project d = .ok keys → key ∈ keys →
      (∃ model, readModel l d = .ok model ∧ model.contains key = false) ∨
        (∃ fault, getVariable l key target d = .error fault) →
      ∃ fault, (build l project target).outcome d = (.error fault, d)) := by
  have hvoc : l.vocabulary = {} := by
    rw [Layout.vocabulary, hconfig]
    rfl
  constructor
  · intro change d' h
    obtain ⟨content, status, hfile, hwrite⟩ := exists_of_build h
    obtain ⟨-, keys, values, hkeys, hvalues, hrender⟩ := exists_of_builtProject hfile
    have htext := Edit.text?_of_writeIfChanged hwrite
    rw [hvoc] at hrender ⊢
    obtain ⟨region, entries, hregion, hread, hequal⟩ :=
      exists_of_renderEnvironmentFile (exists_literalOf hvalues) hrender (l.projectFile project)
    obtain ⟨dir, hdir⟩ := exists_locate?_projectFile hconfig project hkeys
    obtain ⟨hfree, hwrites⟩ := Edit.writes_of_writeIfChanged hdir hwrite
    have hagain : builtProject l project target d' = .ok (l.projectFile project, content) := by
      rw [(sameInputs_of_writes hconfig project hfree hwrites).builtProject_eq, hfile]
    exact ⟨keys, _, region, entries, hkeys, Disk.openDocument_of_text? htext, hregion, hread,
      isEntryOf_of_beqEntries hvalues hequal, build_of_text? hagain htext⟩
  · intro keys key hkeys hkey hcause
    obtain ⟨fault, hfault⟩ : ∃ fault, getVariable l key target d = .error fault := by
      rcases hcause with ⟨model, hmodel, hnot⟩ | hfault
      · exact getVariable_of_not_contains hmodel hnot
      · exact hfault
    obtain ⟨fault', hfile⟩ := builtProject_of_error hkeys hkey hfault
    exact ⟨fault', build_of_error hfile⟩

/-! ## A sample -/

/-- The sample workspace with an environment file and the model file of a project. -/
def sampleBuildDisk (selection : Text) : Disk where
  home := []
  entries :=
    (sampleKeysFile, .file (.text selection)) :: (["ws", ".env"], .file (.text "a=x\n")) ::
      sampleProjectDisk.entries

theorem projectKeys_sampleBuildDisk (keys : List Text) :
    ∃ selection,
      projectKeys Scaffold.sampleLayout sampleProject (sampleBuildDisk selection) = .ok keys := by
  obtain ⟨selection, -, hselects⟩ :=
    exists_renderProjectModel (Scaffold.sampleLayout.projectModel sampleProject)
      contains_importOf_sample keys
  have hprojectSelects :
      ProjectSelects Scaffold.sampleLayout sampleProject (sampleBuildDisk selection) keys :=
    ⟨selection, rfl, hselects⟩
  exact ⟨selection, hprojectSelects.projectKeys_eq rfl⟩

theorem readDotEnv_sampleBuildDisk (selection : Text) :
    readDotEnv Scaffold.sampleLayout (sampleBuildDisk selection) = .ok [("a", "x")] := rfl

theorem getVariable_sampleBuildDisk (selection key : Text) :
    getVariable Scaffold.sampleLayout key .prod (sampleBuildDisk selection) =
      resolve sampleModel [("a", "x")] key .prod := by
  rw [getVariable, bind_of_ok (readModel_sample rfl),
    bind_of_ok (readDotEnv_sampleBuildDisk selection)]

/-- The first variable of the sample has a value and the second one has none. -/
theorem entries_sampleBuildDisk {selection : Text} {entries : List (Text × Literal)}
    (h : List.Forall₂ (IsEntryOf Scaffold.sampleLayout .prod (sampleBuildDisk selection))
      ["a", "b"] entries) :
    entries = [("a".toList, .string "x"), ("b".toList, .undefined)] := by
  have ha : resolve sampleModel [("a", "x")] "a" .prod = .ok (some (.string "x")) := rfl
  have hb : resolve sampleModel [("a", "x")] "b" .prod = .ok none := rfl
  obtain ⟨⟨k, v⟩, rest, ⟨rfl, r, hr, hv⟩, hrest, rfl⟩ := List.forall₂_cons_left_iff.1 h
  obtain ⟨⟨l, w⟩, last, ⟨rfl, q, hq, hw⟩, hlast, rfl⟩ := List.forall₂_cons_left_iff.1 hrest
  obtain rfl := List.forall₂_nil_left_iff.1 hlast
  rw [getVariable_sampleBuildDisk] at hr hq
  obtain rfl := Except.ok.inj (ha.symm.trans hr)
  obtain rfl := Except.ok.inj (hb.symm.trans hq)
  cases hv
  cases hw
  rfl

/-- The build of the sample succeeds. -/
theorem build_sampleBuildDisk {selection : Text}
    (hkeys : projectKeys Scaffold.sampleLayout sampleProject (sampleBuildDisk selection) =
      .ok ["a", "b"]) :
    ∃ change d,
      (build Scaffold.sampleLayout sampleProject .prod).outcome (sampleBuildDisk selection) =
        (.ok change, d) := by
  have hmodel : readModel Scaffold.sampleLayout (sampleBuildDisk selection) = .ok sampleModel :=
    readModel_sample rfl
  have henv := readDotEnv_sampleBuildDisk selection
  have hvalues : ["a".toList, "b".toList].mapM (fun key => do
      return (key, literalOf (← resolve sampleModel [("a", "x")] key .prod))) =
      Except.ok [("a".toList, .string "x"), ("b".toList, .undefined)] := rfl
  obtain ⟨content, hcontent⟩ : ∃ content, renderEnvironmentFile .prod
      [("a".toList, .string "x"), ("b".toList, .undefined)] {} = .ok content := ⟨_, rfl⟩
  have hbuilt : builtProject Scaffold.sampleLayout sampleProject .prod (sampleBuildDisk selection) =
      .ok (Scaffold.sampleLayout.projectFile sampleProject, content) := by
    rw [builtProject, bind_of_ok hmodel, bind_of_ok henv, bind_of_ok hkeys, bind_of_ok hvalues]
    exact bind_of_ok hcontent _
  have hlocate :
      (sampleBuildDisk selection).locate? (Scaffold.sampleLayout.projectFile sampleProject) =
        some [("ws" : Text), ("app" : Text), ("src" : Text), ("environment" : Text),
        generatedFileName] := rfl
  obtain ⟨status, d, hwrite, -⟩ :=
    Edit.outcome_writeIfChanged hlocate (by exact nofun) (by exact nofun) content
  exact ⟨_, d, writeComputed_eq_ok.2 ⟨_, content, status, hbuilt, hwrite, rfl⟩⟩

theorem build_generates_sample :
    (∃ d change d', projectKeys Scaffold.sampleLayout sampleProject d = .ok ["a", "b"] ∧
      (build Scaffold.sampleLayout sampleProject .prod).outcome d = (.ok change, d') ∧
      ∃ document region entries,
        d'.openDocument (Scaffold.sampleLayout.projectFile sampleProject) = .ok document ∧
        Region.ofDocument document environmentMarker = .ok region ∧
        Literal.read {} region.content = .object entries ∧
        List.Forall₂ (IsEntryOf Scaffold.sampleLayout .prod d) ["a", "b"] entries ∧
        entries = [("a".toList, .string "x"), ("b".toList, .undefined)] ∧
        (build Scaffold.sampleLayout sampleProject .prod).outcome d' =
          (.ok (Scaffold.sampleLayout.projectFile sampleProject, .unchanged), d')) ∧
    ∃ d fault, projectKeys Scaffold.sampleLayout sampleProject d = .ok ["a", "c"] ∧
      (build Scaffold.sampleLayout sampleProject .prod).outcome d = (.error fault, d) := by
  constructor
  · obtain ⟨selection, hkeys⟩ := projectKeys_sampleBuildDisk ["a", "b"]
    obtain ⟨change, d', hbuild⟩ := build_sampleBuildDisk hkeys
    obtain ⟨keys, document, region, entries, hkeys', hopen, hregion, hread, hentries, hagain⟩ :=
      (build_generates rfl sampleProject .prod (sampleBuildDisk selection)).1 change d' hbuild
    obtain rfl := Except.ok.inj (hkeys.symm.trans hkeys')
    exact ⟨_, change, d', hkeys, hbuild, document, region, entries, hopen, hregion, hread, hentries,
      entries_sampleBuildDisk hentries, hagain⟩
  · obtain ⟨selection, hkeys⟩ := projectKeys_sampleBuildDisk ["a", "c"]
    obtain ⟨fault, hfault⟩ :=
      (build_generates rfl sampleProject .prod (sampleBuildDisk selection)).2 _ "c" hkeys (by simp)
        (.inl ⟨sampleModel, readModel_sample rfl, by decide⟩)
    exact ⟨_, fault, hkeys, hfault⟩

end Scaffold.Env
