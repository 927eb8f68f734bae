import Scaffold.Proofs.Env.Evaluation
import Scaffold.Proofs.Env.Refinement

/-!
# Calculated variables of a workspace that is edited by hand

Between the calls anyone may rewrite or remove the environment file.  The model stays in step with
what has been accepted (`Invariant.event`), so every accepted calculation keeps having a value for
every target, the one of its expression and of the declared type (`session_evaluates`).  Only an
environment file whose bytes are no text keeps all values from being read.
-/

namespace Scaffold.Env

/-! ## Sessions -/

/-- What happens to a workspace: a call, or a change of its environment file by hand. -/
inductive Event where
  | call (c : Call)
  | write (content : FileContent)
  | remove

/-- What has been accepted and the disk, after one more event. -/
def Event.step (l : Layout) (s : Accepted × Disk) : Event → Accepted × Disk
  | .call c => c.step l s
  | .write content => (s.1, (s.2.write? l.envFile content).getD s.2)
  | .remove => (s.1, s.2.remove l.envFile)

/-- An event whose calculation, if any, can be put together. -/
def Event.Buildable : Event → Prop
  | .call c => c.Buildable
  | _ => True

/-- What a session has accepted and the disk that it leaves. -/
def session (l : Layout) (d : Disk) (events : List Event) : Accepted × Disk :=
  events.foldl (Event.step l) ({}, d)

/-- A calculated variable has a value for a target: the one of its expression on what is visible of
the accepted static variables now, and of the declared type. -/
def Evaluates (l : Layout) (a : Accepted) (v : CalculatedVariable) (target : Target) (d : Disk) :
    Prop :=
  ∃ env e r r', readModel l d = .ok a.model ∧ readDotEnv l d = .ok env ∧
    v.value.exprFor? target = some e ∧ e.evaluate (.ofModel a.model env) = .ok r ∧
    getVariable l v.key target d = .ok r' ∧ (r' == r) = true ∧ ∀ x, r' = some x → x.type = v.type

/-! ## Looking up an accepted calculation -/

namespace Accepted

variable {a : Accepted} (hnodup : a.keys.Nodup) {v : CalculatedVariable} (hv : v ∈ a.calculated)
include hnodup hv

/-- An accepted calculated variable is declared as one. -/
theorem declaration?_calculated : ∃ d, a.model.declaration? v.key = some (.calculated, d) := by
  obtain ⟨-, -, hdisjoint⟩ := List.nodup_append.1 hnodup
  have hkey : v.key ∈ a.calculated.map fun v => v.key := List.mem_map_of_mem hv
  have hstatic : a.model.static? v.key = none := by
    rw [Model.static?, List.find?_eq_none]
    intro d hd hdkey
    exact hdisjoint d.key (List.mem_map_of_mem hd) v.key hkey (by simpa using hdkey)
  have hfound : (a.model.calculated.find? fun d => d.key == v.key).isSome = true := by
    rw [List.find?_isSome]
    exact ⟨v.toDeclaration, List.mem_map_of_mem hv, beq_self_eq_true v.key⟩
  obtain ⟨d, hd⟩ := Option.isSome_iff_exists.1 hfound
  refine ⟨d, ?_⟩
  rw [Model.declaration?, hstatic]
  simp only [hd, Option.map_some]

/-- The calculation of an accepted variable is read back. -/
theorem calculation_eq (hreadable : v.value.Readable) :
    ∃ c, a.model.calculation v.key = .ok c ∧ (c == v.value) = true := by
  obtain ⟨c, hc, heq⟩ := Calculation.read_render hreadable Script.indentStep
  have hkeys : (a.model.calculations.map Prod.fst).Nodup := by
    rw [Accepted.model, List.map_map]
    exact (List.nodup_append.1 hnodup).2.1
  have hlookup : a.model.calculations.lookup v.key = some (v.value.render Script.indentStep) :=
    Table.lookup_of_mem hkeys (List.mem_map_of_mem hv)
  refine ⟨c, ?_, heq⟩
  rw [Model.calculation, hlookup]
  simp only [hc]
  rfl

end Accepted

/-! ## The invariant of a session -/

namespace Invariant

variable {l : Layout} {root : Location} {a : Accepted} {files : Contents} {d : Disk}
  (h : Invariant l root a files d)
include h

/-- Rewriting the environment file keeps the invariant, whatever it holds then. -/
theorem write (content : FileContent) :
    Invariant l root ((Event.write content).step l (a, d)).1
      (Function.update files .env (some content)) ((Event.write content).step l (a, d)).2 := by
  have hwrite : d.write? l.envFile content =
      some (d.put (root ++ [EnvFile.name .env]) (.file content)) := by
    have hpath : l.envFile = l.root.join ⟨EnvFile.name .env⟩ := EnvFile.path_eq h.holds.config .env
    rw [hpath]
    exact Disk.write?_of_locate? (h.holds.leads.locate?_join (EnvFile.isFileName .env))
      (h.holds.get?_ne_directory .env) content
  have hholds := h.holds.of_writes (f := .env) (Disk.Writes.put d (by simp) content)
  refine h.of_holds ?_ (Function.update_of_ne (by decide) ..)
  show Holds l root _ ((d.write? l.envFile content).getD d)
  rw [hwrite]
  exact hholds

/-- Every event keeps the model file in step with what has been accepted. -/
theorem event {event : Event} (hevent : event.Buildable) :
    ∃ files', Invariant l root (event.step l (a, d)).1 files' (event.step l (a, d)).2 := by
  cases event with
  | call c => exact h.step hevent
  | write content => exact ⟨_, h.write content⟩
  | remove => exact ⟨_, h.of_holds (h.holds.remove .env) (Function.update_of_ne (by decide) ..)⟩

/-- A session keeps the model file in step with what has been accepted. -/
theorem foldl_event (events : List Event) (hevents : ∀ e ∈ events, e.Buildable) :
    ∃ files', Invariant l root (events.foldl (Event.step l) (a, d)).1 files'
      (events.foldl (Event.step l) (a, d)).2 := by
  induction events generalizing a files d with
  | nil => exact ⟨files, h⟩
  | cons event events ih =>
    obtain ⟨hevent, hrest⟩ := List.forall_mem_cons.1 hevents
    obtain ⟨files', h'⟩ := h.event hevent
    exact ih h' hrest

/-- The model exists once something has been accepted. -/
theorem readModel_of_mem {v : CalculatedVariable} (hv : v ∈ a.calculated) :
    readModel l d = .ok a.model := by
  refine h.readModel_eq ?_
  have hcontains : d.contains l.environmentModel = _ := h.holds.contains_eq .model
  rw [hcontains]
  rcases h.model with ⟨-, -, hnone⟩ | hsome
  · rw [hnone] at hv
    cases hv
  · rw [hsome]
    rfl

/-- The entries of the environment file, when it holds text or is missing. -/
theorem readDotEnv_eq {t : Text} (ht : files.text? .env = some t) :
    readDotEnv l d = .ok (DotEnv.ofText t) := by
  have hopen : d.openOrEmpty l.envFile = _ := h.holds.openOrEmpty_eq .env
  rw [ht] at hopen
  rw [readDotEnv, bind_of_ok hopen, DotEnv.ofDocument, Document.content_ofContent]
  rfl

/-- An accepted calculation has a value for every target. -/
theorem evaluates {v : CalculatedVariable} (hv : v ∈ a.calculated) (target : Target)
    (htext : (files.text? .env).isSome = true) : Evaluates l a v target d := by
  obtain ⟨t, ht⟩ := Option.isSome_iff_exists.1 htext
  have hmodel := h.readModel_of_mem hv
  have henv := h.readDotEnv_eq ht
  have hfits := h.fits v hv
  have hstatics : (a.model.statics.map Declaration.key).Nodup := (List.nodup_append.1 h.nodup).1
  obtain ⟨e, he, hmem⟩ := Calculation.exists_exprFor? hfits.complete target
  have hdeclared : ∀ r ∈ e.references,
      ((Snapshot.ofModel a.model (.ofText t)).lookup r).isSome = true := by
    intro r hr
    rw [Snapshot.lookup_ofModel hstatics, Option.isSome_map]
    exact hfits.resolved r (List.mem_flatMap.2 ⟨e, hmem, hr⟩)
  obtain ⟨r, hr⟩ := Expr.exists_evaluate hdeclared
  -- the calculation that is evaluated is the one read back from the model
  obtain ⟨c, hc, hcv⟩ := a.calculation_eq h.nodup hv (h.wellFormed.calculated v hv).2
  obtain ⟨e', he', hee⟩ := Calculation.exprFor?_of_beq hcv he
  obtain ⟨r', hr', hrr⟩ := Expr.evaluate_of_beq hstatics (.ofText t) hee hr
  obtain ⟨declaration, hdeclaration⟩ := a.declaration?_calculated h.nodup hv
  refine ⟨.ofText t, e, r, r', hmodel, henv, he, hr, ?_, hrr, ?_⟩
  · rw [getVariable, bind_of_ok hmodel, bind_of_ok henv, resolve, hdeclaration]
    simp only
    rw [bind_of_ok hc, he']
    simp only [hr']
    rfl
  · rintro x rfl
    cases r with
    | none => cases hrr
    | some y =>
      have hxy : (x == y) = true := hrr
      rw [Setting.type_eq_of_beq hxy]
      exact Expr.type_of_evaluate hstatics (.ofText t) (hfits.typed e hmem) hr

/-- Nothing is read while the environment file holds bytes that are no text. -/
theorem getVariable_of_binary {v : CalculatedVariable} (hv : v ∈ a.calculated) (target : Target)
    (htext : files.text? .env = none) :
    getVariable l v.key target d = .error (.fileAccess l.envFile .readingFile) := by
  have hopen : d.openOrEmpty l.envFile = _ := h.holds.openOrEmpty_eq .env
  rw [htext] at hopen
  rw [getVariable, bind_of_ok (h.readModel_of_mem hv), readDotEnv, hopen]
  rfl

end Invariant

/-! ## A sample session -/

/-- A sample run of calls after which the environment file is rewritten by hand. -/
def sampleEvents (content : FileContent) : List Event :=
  sampleCalls.map .call ++ [.write content]

theorem buildable_sampleEvents (content : FileContent) :
    ∀ e ∈ sampleEvents content, e.Buildable := by
  intro e he
  rcases List.mem_append.1 he with he | he
  · obtain ⟨c, hc, rfl⟩ := List.mem_map.1 he
    exact buildable_sample c hc
  · obtain rfl := List.mem_singleton.1 he
    trivial

/-- What the sample session leaves: the accepted variables and the file as it has been rewritten. -/
theorem session_sample (content : FileContent) : ∃ root files,
    (session sampleLayout sampleDisk (sampleEvents content)).1.calculated = [sampleUrl] ∧
      Invariant sampleLayout root (session sampleLayout sampleDisk (sampleEvents content)).1
        (Function.update files .env (some content))
        (session sampleLayout sampleDisk (sampleEvents content)).2 := by
  obtain ⟨root, files, haccepted, hinv⟩ := run_sample
  have hsession : session sampleLayout sampleDisk (sampleEvents content) =
      (Event.write content).step sampleLayout (run sampleLayout sampleDisk sampleCalls) := by
    rw [session, sampleEvents, List.foldl_append, List.foldl_map]
    rfl
  rw [hsession]
  generalize run sampleLayout sampleDisk sampleCalls = s at haccepted hinv ⊢
  obtain ⟨a, d⟩ := s
  have hcalculated : ((Event.write content).step sampleLayout (a, d)).1.calculated = [sampleUrl] :=
    congrArg Accepted.calculated haccepted
  exact ⟨root, files, hcalculated, hinv.write content⟩

/-! ## All sessions -/

/-- Whatever has happened in a session, every accepted calculation has a value for every target, that
of its expression and of the declared type, unless the environment file cannot be read. -/
theorem session_evaluates {l : Layout} {d : Disk} (h : EmptyWorkspace l d) {events : List Event}
    (hevents : ∀ e ∈ events, e.Buildable) {v : CalculatedVariable}
    (hv : v ∈ (session l d events).1.calculated) (target : Target) :
    ((∀ bytes, (session l d events).2.entryAt? l.envFile ≠ some (.file (.binary bytes))) →
      Evaluates l (session l d events).1 v target (session l d events).2) ∧
    ((∃ bytes, (session l d events).2.entryAt? l.envFile = some (.file (.binary bytes))) →
      getVariable l v.key target (session l d events).2 =
        .error (.fileAccess l.envFile .readingFile)) := by
  obtain ⟨root, hroot⟩ := h.refines
  obtain ⟨files, hfiles⟩ := hroot.toInvariant.foldl_event events hevents
  change Invariant l root (session l d events).1 files (session l d events).2 at hfiles
  have hentry : (session l d events).2.entryAt? l.envFile = _ := hfiles.holds.entryAt?_eq .env
  rw [hentry]
  refine ⟨fun htext => hfiles.evaluates hv target ?_, ?_⟩
  · rw [Contents.text?]
    rcases hf : files .env with _ | t | bytes
    · rfl
    · rfl
    · exact absurd (congrArg (Option.map DiskEntry.file) hf) (htext bytes)
  · rintro ⟨bytes, hbytes⟩
    refine hfiles.getVariable_of_binary hv target ?_
    obtain ⟨content, hcontent, heq⟩ := Option.map_eq_some_iff.1 hbytes
    rw [DiskEntry.file.injEq] at heq
    rw [Contents.text?, hcontent, heq]

theorem session_evaluates_sample :
    Evaluates sampleLayout (session sampleLayout sampleDisk (sampleEvents (.text "host=a"))).1
      sampleUrl .prod (session sampleLayout sampleDisk (sampleEvents (.text "host=a"))).2 := by
  obtain ⟨root, files, haccepted, hinv⟩ := session_sample (.text "host=a")
  have hmem : sampleUrl ∈
      (session sampleLayout sampleDisk (sampleEvents (.text "host=a"))).1.calculated := by
    rw [haccepted]
    exact List.mem_singleton_self sampleUrl
  refine (session_evaluates emptyWorkspace_sample (buildable_sampleEvents _) hmem .prod).1
    fun bytes hbytes => ?_
  have hentry : Disk.entryAt? _ sampleLayout.envFile = _ := hinv.holds.entryAt?_eq .env
  rw [hentry, Function.update_self] at hbytes
  cases hbytes

/-- The bytes of an environment file may be no text, and then an accepted calculation has no
value. -/
theorem not_session_evaluates_always :
    ¬ ∀ (l : Layout) (d : Disk) (events : List Event), EmptyWorkspace l d →
      (∀ e ∈ events, e.Buildable) → ∀ v ∈ (session l d events).1.calculated, ∀ target,
        Evaluates l (session l d events).1 v target (session l d events).2 := by
  intro h
  obtain ⟨root, files, haccepted, hinv⟩ := session_sample (.binary [0xff])
  have hmem : sampleUrl ∈
      (session sampleLayout sampleDisk (sampleEvents (.binary [0xff]))).1.calculated := by
    rw [haccepted]
    exact List.mem_singleton_self sampleUrl
  obtain ⟨env, e, r, r', -, -, -, -, hget, -⟩ := h sampleLayout sampleDisk
    (sampleEvents (.binary [0xff])) emptyWorkspace_sample (buildable_sampleEvents _) sampleUrl hmem
    .prod
  rw [hinv.getVariable_of_binary hmem .prod (by rw [Contents.text?, Function.update_self])] at hget
  cases hget

end Scaffold.Env
