import Scaffold.Compose.Store
import Scaffold.Env.Store
import Scaffold.Proofs.Disk

/-!
# Refused operations

An operation on a workspace reads and computes all that it writes before it writes anything.  So
what it finds wrong it finds on a disk that it has not touched (`Operation.unchanged_of_refused`);
once it writes, only the operating system can stop it (`Edit.OnlySystem`).
-/

namespace Scaffold

/-- The operating system refused to read or to write. -/
def Fault.isSystem : Fault → Bool
  | .fileAccess .. => true
  | _ => false

namespace Edit

variable {α β : Type}

/-! ## Edits that only the system can stop -/

/-- An edit that fails only if the operating system refuses. -/
def OnlySystem (e : Edit α) : Prop :=
  ∀ d x, (e.outcome d).1 = .error x → x.isSystem = true

namespace OnlySystem

theorem pure (a : α) : (Pure.pure a : Edit α).OnlySystem := by
  intro d x hx
  cases hx

theorem throw {x : Fault} (h : x.isSystem = true) : (MonadExcept.throw x : Edit α).OnlySystem := by
  intro d y hy
  obtain rfl : x = y := Except.error.inj hy
  exact h

theorem bind {e : Edit α} (he : e.OnlySystem) {f : α → Edit β} (hf : ∀ a, (f a).OnlySystem) :
    (e >>= f).OnlySystem := by
  intro d x hx
  rw [outcome_bind] at hx
  split at hx
  · next a _ => exact hf a _ x hx
  · next y hy =>
    obtain rfl : y = x := Except.error.inj hx
    exact he d y hy

/-- Looking at the disk, or replacing it, never fails. -/
theorem get_bind {f : Disk → Edit β} (hf : ∀ d, (f d).OnlySystem) : (get >>= f).OnlySystem := by
  intro d x hx
  exact hf d d x hx

theorem set_bind (d : Disk) {f : PUnit → Edit β} (hf : ∀ u, (f u).OnlySystem) :
    (set d >>= f).OnlySystem := by
  intro _ x hx
  exact hf ⟨⟩ d x hx

theorem look_read (action : FileAction) (p : Path) : (look (Disk.read action p)).OnlySystem := by
  intro d x hx
  rw [outcome_look] at hx
  simp only [Disk.read] at hx
  split at hx
  · cases hx
  · rw [← Except.error.inj hx]
    rfl

/-! ### Writing -/

theorem makeParents (p : Path) : (Edit.makeParents p).OnlySystem := by
  intro d x hx
  cases hp : p.parent? with
  | none =>
    rw [Edit.makeParents, hp] at hx
    cases hx
  | some parent =>
    by_cases hempty : parent.text.isEmpty = true
    · rw [Edit.makeParents, hp] at hx
      simp only [hempty] at hx
      cases hx
    · rw [outcome_makeParents_of_parent hp (Bool.eq_false_iff.2 hempty)] at hx
      split at hx
      · cases hx
      · rw [← Except.error.inj hx]
        rfl

theorem overwrite (p : Path) (t : Text) : (Edit.overwrite p t).OnlySystem := by
  refine (makeParents p).bind fun _ => get_bind fun d => ?_
  split
  · exact set_bind _ fun _ => pure _
  · exact throw rfl

theorem writeIfChanged (p : Path) (t : Text) : (Edit.writeIfChanged p t).OnlySystem := by
  refine get_bind fun d => ?_
  split
  · refine (look_read .readingFile p).bind fun u => ?_
    split
    · exact pure Status.unchanged
    · exact (overwrite p t).bind fun _ => pure Status.updated
  · exact (overwrite p t).bind fun _ => pure Status.created

/-- Files that are written one after the other. -/
theorem mapM {f : α → Edit β} (hf : ∀ a, (f a).OnlySystem) (as : List α) :
    (as.mapM f).OnlySystem := by
  induction as with
  | nil => exact pure []
  | cons a as ih =>
    rw [List.mapM_cons]
    exact (hf a).bind fun b => ih.bind fun bs => pure (b :: bs)

theorem writeAll (files : List (Path × Text)) : (Edit.writeAll files).OnlySystem := by
  refine mapM (fun (p, t) => ?_) files
  exact (writeIfChanged p t).bind fun status => pure (p, status)

theorem saveAll (documents : List Document) : (Env.saveAll documents).OnlySystem := by
  induction documents with
  | nil => exact pure ()
  | cons document documents ih =>
    exact ((writeIfChanged document.path document.content).bind fun _ => pure ()).bind fun _ => ih

end OnlySystem

/-! ## Edits that refuse before they write -/

/-- An edit that fails on a disk that it has not touched, unless the operating system refused. -/
def RefusesFirst (e : Edit α) : Prop :=
  ∀ d x, (e.outcome d).1 = .error x → x.isSystem = false → (e.outcome d).2 = d

theorem OnlySystem.refusesFirst {e : Edit α} (h : e.OnlySystem) : e.RefusesFirst := by
  intro d x hx hsystem
  rw [h d x hx] at hsystem
  cases hsystem

namespace RefusesFirst

/-- All that is read and computed before an edit may be refused too. -/
theorem look_bind (read : Disk → Except Fault α) {f : α → Edit β} (hf : ∀ a, (f a).RefusesFirst) :
    (look read >>= f).RefusesFirst := by
  intro d x hx hsystem
  have hlook := outcome_look d read
  cases hread : read d with
  | error y =>
    rw [hread] at hlook
    rw [outcome_bind_of_error d hlook]
  | ok a =>
    rw [hread] at hlook
    rw [outcome_bind_of_ok d hlook] at hx ⊢
    exact hf a d x hx hsystem

/-- What an edit answers does not matter. -/
theorem discard {e : Edit α} (he : e.RefusesFirst) :
    (do let _ ← e : Edit Unit).RefusesFirst := by
  intro d x hx hsystem
  rw [outcome_bind] at hx ⊢
  cases he' : (e.outcome d).1 with
  | ok a =>
    rw [he'] at hx
    cases hx
  | error y =>
    rw [he'] at hx
    obtain rfl : y = x := Except.error.inj hx
    exact he d y he' hsystem

end RefusesFirst

end Edit

/-! ## Operations -/

/-- An operation that changes variables, projects or compose files of a workspace. -/
inductive Operation where
  | addStatic (v : Env.StaticVariable) (isPublic : Bool)
  | addCalculated (v : Env.CalculatedVariable)
  | setupProject (project : Path) (keys : List Text)
  | build (project : Path) (target : Target)
  | addService (s : Compose.Service) (e : Compose.Exposure) (only : Option Target)
  | addVolume (name : Text) (only : Option Target)
  | addNetwork (name : Text) (only : Option Target)

namespace Operation

/-- The edit that an operation makes. -/
def edit (l : Layout) : Operation → Edit Unit
  | .addStatic v isPublic => Env.addStatic l v isPublic
  | .addCalculated v => Env.addCalculated l v
  | .setupProject project keys => do let _ ← Env.setupProject l project keys
  | .build project target => do let _ ← Env.build l project target
  | .addService s e only => do let _ ← Compose.addService l s e only
  | .addVolume name only => do let _ ← Compose.addVolume l name only
  | .addNetwork name only => do let _ ← Compose.addNetwork l name only

theorem refusesFirst_writeComputed (file : Disk → Except Fault (Path × Text)) :
    (Env.writeComputed file).RefusesFirst := by
  refine Edit.RefusesFirst.look_bind file fun (path, content) => ?_
  exact ((Edit.OnlySystem.writeIfChanged path content).bind fun status =>
    .pure (path, status)).refusesFirst

theorem refusesFirst_compose (l : Layout) (only : Option Target)
    (change : Target → Compose.Definition → Except Fault Compose.Definition) :
    (Compose.edit l only change).RefusesFirst :=
  .look_bind _ fun files => (Edit.OnlySystem.writeAll files).refusesFirst

theorem refusesFirst_edit (l : Layout) (o : Operation) : (o.edit l).RefusesFirst := by
  cases o with
  | addStatic v isPublic =>
    exact .look_bind _ fun documents => (Edit.OnlySystem.saveAll documents).refusesFirst
  | addCalculated v =>
    exact .look_bind _ fun document => (Edit.OnlySystem.saveAll [document]).refusesFirst
  | setupProject project keys => exact (refusesFirst_writeComputed _).discard
  | build project target => exact (refusesFirst_writeComputed _).discard
  | addService s e only =>
    have hcompose := refusesFirst_compose l only (Compose.Definition.addService l s e)
    exact (Edit.RefusesFirst.look_bind _ fun _ => hcompose).discard
  | addVolume name only => exact (refusesFirst_compose l only _).discard
  | addNetwork name only => exact (refusesFirst_compose l only _).discard

/-- An operation that is refused leaves the disk as it was: every file, and no new one. -/
theorem unchanged_of_refused {l : Layout} {o : Operation} {d d' : Disk} {x : Fault}
    (h : (o.edit l).outcome d = (.error x, d')) (hx : x.isSystem = false) : d' = d := by
  have hrefused := refusesFirst_edit l o d x
  rw [h] at hrefused
  exact hrefused rfl hx

/-! ### A sample -/

/-- A public service without a port: the first compose file can hold it, the second cannot. -/
def samplePublic : Operation := .addService { name := "web" } { isPublic := true } none

theorem unchanged_of_refused_sample :
    ((samplePublic.edit sampleLayout).outcome sampleDisk).1 =
        .error (.invalidService "web" .publicWithoutPort) ∧
      Fault.isSystem (.invalidService "web" .publicWithoutPort) = false ∧
      ((samplePublic.edit sampleLayout).outcome sampleDisk).2 = sampleDisk := by
  have hrefused : ((samplePublic.edit sampleLayout).outcome sampleDisk).1 =
      .error (.invalidService "web" .publicWithoutPort) := rfl
  exact ⟨hrefused, rfl, unchanged_of_refused (Prod.ext hrefused rfl) rfl⟩

end Operation

end Scaffold
