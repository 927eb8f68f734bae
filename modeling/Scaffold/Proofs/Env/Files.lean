import Mathlib.Logic.Function.Basic
import Scaffold.Env.Store
import Scaffold.Proofs.Disk
import Scaffold.Proofs.Script.Region

/-!
# The files of a workspace

A workspace keeps its environment in three files below its root.  What they hold (`Holds`) decides
what is read from them (`Holds.openOrEmpty_eq`), and saving one changes the others in nothing
(`Holds.saveAll`, `Holds.createIfMissing`).
-/

namespace Scaffold.Env

/-- The files that hold the environment of a workspace. -/
inductive EnvFile where
  | model
  | env
  | shared
  deriving DecidableEq, Repr

namespace EnvFile

/-- The name of a file in the default configuration. -/
def name : EnvFile → Text
  | .model => "environment.global-model.ts"
  | .env => ".env"
  | .shared => ".env.public"

theorem isFileName (f : EnvFile) : Disk.IsFileName f.name where
  notFiller := by cases f <;> decide
  noSlash := by cases f <;> decide
  notUp := by cases f <;> decide
  noZero := by cases f <;> decide
  short := by cases f <;> decide

theorem name_injective {f g : EnvFile} (h : f.name = g.name) : f = g := by
  revert h
  cases f <;> cases g <;> decide

/-- Different files stand at different places of a directory. -/
theorem location_ne {f g : EnvFile} (h : g ≠ f) (root : Location) :
    root ++ [g.name] ≠ root ++ [f.name] := by
  simpa using fun hname => h (name_injective hname)

/-- Where a file stands. -/
def path (l : Layout) : EnvFile → Path
  | .model => l.environmentModel
  | .env => l.envFile
  | .shared => l.publicEnvFile

theorem path_eq {l : Layout} (h : l.config = {}) (f : EnvFile) :
    f.path l = l.root.join ⟨f.name⟩ := by
  cases f <;> simp only [path, Layout.environmentModel, Layout.envFile, Layout.publicEnvFile, h] <;>
    rfl

end EnvFile

/-- What the files hold; nothing for one that is missing. -/
abbrev Contents := EnvFile → Option FileContent

namespace Contents

/-- The text of a file, empty for one that is missing; none for bytes that are no text. -/
def text? (files : Contents) (f : EnvFile) : Option Text :=
  match files f with
  | none => some []
  | some (.text t) => some t
  | some (.binary _) => none

/-- The files with a text in one of them. -/
def set (files : Contents) (f : EnvFile) (t : Text) : Contents :=
  Function.update files f (some (.text t))

@[simp] theorem set_self (files : Contents) (f : EnvFile) (t : Text) :
    files.set f t f = some (.text t) := Function.update_self ..

@[simp] theorem set_of_ne (files : Contents) {f g : EnvFile} (h : g ≠ f) (t : Text) :
    files.set f t g = files g := Function.update_of_ne h ..

@[simp] theorem text?_set_self (files : Contents) (f : EnvFile) (t : Text) :
    (files.set f t).text? f = some t := by simp [text?]

theorem text?_set_of_ne (files : Contents) {f g : EnvFile} (h : g ≠ f) (t : Text) :
    (files.set f t).text? g = files.text? g := by simp [text?, h]

theorem text?_isSome_set {files : Contents} {g : EnvFile} (h : (files.text? g).isSome = true)
    (f : EnvFile) (t : Text) : ((files.set f t).text? g).isSome = true := by
  by_cases hgf : g = f
  · subst hgf
    rw [text?_set_self]
    rfl
  · rwa [text?_set_of_ne files hgf]

/-- The files after one of them that was missing has been made. -/
def ensure (files : Contents) (f : EnvFile) (t : Text) : Contents :=
  if (files f).isSome then files else files.set f t

theorem ensure_self (files : Contents) (f : EnvFile) (t : Text) :
    files.ensure f t f = some ((files f).getD (.text t)) := by
  rw [ensure]
  cases hf : files f with
  | none => simp
  | some content => simp [hf]

theorem ensure_of_ne (files : Contents) {f g : EnvFile} (h : g ≠ f) (t : Text) :
    files.ensure f t g = files g := by
  rw [ensure]
  split
  · rfl
  · exact set_of_ne files h t

theorem text?_ensure_of_ne (files : Contents) {f g : EnvFile} (h : g ≠ f) (t : Text) :
    (files.ensure f t).text? g = files.text? g := by
  rw [text?, ensure_of_ne files h, text?]

end Contents

/-- A workspace in the default configuration whose root leads to a location, with the given
files there. -/
structure Holds (l : Layout) (root : Location) (files : Contents) (d : Disk) : Prop where
  config : l.config = {}
  leads : d.LeadsTo l.root root
  /-- No directory stands below the root. -/
  flat : ∀ m, root <+: m → m ≠ root → d.get? m ≠ some .directory
  get?_eq : ∀ f : EnvFile, d.get? (root ++ [f.name]) = (files f).map DiskEntry.file

namespace Holds

variable {l : Layout} {root : Location} {files : Contents} {d : Disk} (h : Holds l root files d)
include h

theorem entryAt?_eq (f : EnvFile) : d.entryAt? (f.path l) = (files f).map .file := by
  rw [Disk.entryAt?, EnvFile.path_eq h.config, h.leads.locate?_join f.isFileName]
  exact h.get?_eq f

theorem contains_eq (f : EnvFile) : d.contains (f.path l) = (files f).isSome := by
  rw [Disk.contains, h.entryAt?_eq, Option.isSome_map]

theorem vocabulary_eq : l.vocabulary = {} := by
  rw [Layout.vocabulary, h.config]
  rfl

/-- The document of a file, provided that it holds text. -/
theorem openOrEmpty_eq (f : EnvFile) :
    d.openOrEmpty (f.path l) =
      match files.text? f with
      | some t => .ok (.ofContent (f.path l) t)
      | none => .error (.fileAccess (f.path l) .readingFile) := by
  simp only [Disk.openOrEmpty, Disk.openDocument, Disk.read, Disk.text?, h.contains_eq,
    h.entryAt?_eq, Contents.text?]
  cases files f with
  | none => rfl
  | some content => cases content <;> rfl

theorem openDocument_eq {f : EnvFile} {t : Text} (hf : files f = some (.text t)) :
    d.openDocument (f.path l) = .ok (.ofContent (f.path l) t) := by
  simp only [Disk.openDocument, Disk.read, Disk.text?, h.contains_eq, h.entryAt?_eq, hf]
  rfl

/-! ## Saving -/

theorem get?_ne_directory (f : EnvFile) : d.get? (root ++ [f.name]) ≠ some .directory :=
  h.flat _ (List.prefix_append _ _) (by simp)

/-- The files of a workspace after one of them has been changed and no directory has. -/
theorem of_sameDirectories {f : EnvFile} {content : Option FileContent} {e : Disk}
    (hdirs : Disk.SameDirectories d e) (hf : e.get? (root ++ [f.name]) = content.map .file)
    (hother : ∀ g : EnvFile, g ≠ f → e.get? (root ++ [g.name]) = d.get? (root ++ [g.name])) :
    Holds l root (Function.update files f content) e where
  config := h.config
  leads := h.leads.of_sameDirectories hdirs
  flat m hm hne hdir := h.flat m hm hne ((hdirs.directory m).1 hdir)
  get?_eq g := by
    by_cases hgf : g = f
    · subst hgf
      rw [Function.update_self, hf]
    · rw [Function.update_of_ne hgf, hother g hgf, h.get?_eq]

/-- The files of a workspace after one of them has been written. -/
theorem of_writes {f : EnvFile} {content : FileContent} {e : Disk}
    (hw : d.Writes (root ++ [f.name]) content e) :
    Holds l root (Function.update files f (some content)) e := by
  refine h.of_sameDirectories (hw.sameDirectories (h.get?_ne_directory f)) ?_ fun g hgf => ?_
  · rw [hw.get?_eq, if_pos rfl]
    rfl
  · rw [hw.get?_eq, if_neg (EnvFile.location_ne hgf root)]

/-- The files of a workspace after one of them has been removed. -/
theorem remove (f : EnvFile) : Holds l root (Function.update files f none) (d.remove (f.path l)) := by
  have hlocate : d.locate? (f.path l) = some (root ++ [f.name]) := by
    rw [EnvFile.path_eq h.config]
    exact h.leads.locate?_join f.isFileName
  have hget := Disk.get?_remove hlocate (by simp)
  refine h.of_sameDirectories ⟨by rw [Disk.remove, hlocate], fun m => ?_⟩ ?_ fun g hgf => ?_
  · rw [hget]
    split
    · next hpre =>
      -- nothing below a file is a directory
      refine iff_of_false (fun hnone => by cases hnone)
        (h.flat m ((List.prefix_append _ _).trans hpre) ?_)
      rintro rfl
      have hlength := hpre.length_le
      rw [List.length_append, List.length_singleton] at hlength
      exact Nat.not_succ_le_self _ hlength
    · rfl
  · rw [hget, if_pos (List.prefix_refl _)]
    rfl
  · rw [hget, if_neg]
    intro hpre
    exact EnvFile.location_ne hgf root (hpre.eq_of_length (by simp)).symm

/-- A file that holds text, or none that is there yet, can be written. -/
theorem writeIfChanged {f : EnvFile} (hf : (files.text? f).isSome = true) (t : Text) :
    ∃ status e, (Edit.writeIfChanged (f.path l) t).outcome d = (.ok status, e) ∧
      Holds l root (files.set f t) e := by
  have hbinary : ∀ b, d.get? (root ++ [f.name]) ≠ some (.file (.binary b)) := by
    intro b hb
    rw [h.get?_eq] at hb
    obtain ⟨c, hc, heq⟩ := Option.map_eq_some_iff.1 hb
    rw [DiskEntry.file.injEq] at heq
    subst heq
    rw [Contents.text?, hc] at hf
    cases hf
  obtain ⟨status, e, houtcome, hw⟩ :=
    Edit.outcome_writeIfChanged (h.leads.locate?_join f.isFileName) (h.get?_ne_directory f)
      hbinary t
  rw [EnvFile.path_eq h.config]
  exact ⟨status, e, houtcome, h.of_writes hw⟩

/-- A file that exists is left alone, one that is missing is made. -/
theorem createIfMissing (f : EnvFile) (t : Text) :
    ∃ status e, (Edit.createIfMissing (f.path l) t).outcome d = (.ok status, e) ∧
      Holds l root (files.ensure f t) e := by
  rw [Edit.createIfMissing, Edit.outcome_get_bind, h.contains_eq, Contents.ensure]
  by_cases hf : (files f).isSome = true
  · rw [if_pos hf, if_pos hf]
    exact ⟨.unchanged, d, rfl, h⟩
  · rw [if_neg hf, if_neg hf]
    exact h.writeIfChanged (by rw [Contents.text?, Option.not_isSome_iff_eq_none.1 hf]; rfl) t

end Holds

/-- Documents of readable files are saved one after the other. -/
theorem Holds.saveAll {l : Layout} {root : Location} (writes : List (EnvFile × Text))
    {files : Contents} {d : Disk} (h : Holds l root files d)
    (hreadable : ∀ w ∈ writes, (files.text? w.1).isSome = true) :
    ∃ e, (Env.saveAll (writes.map fun w => .ofContent (w.1.path l) w.2)).outcome d = (.ok (), e) ∧
      Holds l root (writes.foldl (fun files w => files.set w.1 w.2) files) e := by
  induction writes generalizing files d with
  | nil => exact ⟨d, rfl, h⟩
  | cons w writes ih =>
    obtain ⟨hw, hrest⟩ := List.forall_mem_cons.1 hreadable
    obtain ⟨status, e, hsave, he⟩ := h.writeIfChanged hw w.2
    obtain ⟨e', hsaveAll, he'⟩ := ih he fun v hv => Contents.text?_isSome_set (hrest v hv) w.1 w.2
    refine ⟨e', ?_, he'⟩
    have hfirst : (Edit.save (.ofContent (w.1.path l) w.2)).outcome d = (.ok status, e) := by
      rw [Edit.save, Document.path_ofContent, Document.content_ofContent]
      exact hsave
    have hunit : (do let _ ← Edit.save (.ofContent (w.1.path l) w.2) : Edit Unit).outcome d =
        (.ok (), e) := by
      rw [Edit.outcome_bind_of_ok d hfirst]
      rfl
    show ((do let _ ← Edit.save (.ofContent (w.1.path l) w.2)) >>= fun _ => Env.saveAll
      (writes.map fun w => .ofContent (w.1.path l) w.2) : Edit Unit).outcome d = _
    rw [Edit.outcome_bind_of_ok d hunit, hsaveAll]

end Scaffold.Env
