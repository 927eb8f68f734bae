import Mathlib.Tactic.Choose
import Scaffold.Compose.Store
import Scaffold.Proofs.Disk

/-!
# The compose files of a workspace

The compose files stand in one directory (`StandIn`), each at a place of its own.  What stands there
decides what is read (`StandIn.definition_eq`).  An edit of some targets finds out whether the
definition of each can be changed before it writes any; then it writes the files of these targets
and nothing else (`StandIn.outcome_edit`).
-/

namespace Scaffold

/-! ## Places -/

theorem Target.isFileName (t : Target) : Disk.IsFileName t.composeFileName where
  notFiller := by cases t <;> decide
  noSlash := by cases t <;> decide
  notUp := by cases t <;> decide
  noZero := by cases t <;> decide
  short := by cases t <;> decide

theorem Target.composeFileName_injective : Function.Injective Target.composeFileName := by
  intro t u
  cases t <;> cases u <;> decide

theorem Disk.SameDirectories.trans {d e f : Disk} (h : d.SameDirectories e)
    (h' : e.SameDirectories f) : d.SameDirectories f where
  home := h'.home.trans h.home
  directory m := (h'.directory m).trans (h.directory m)

namespace Compose

/-- Where the compose file of a target stands in a directory. -/
def fileIn (dir : Location) (t : Target) : Location := dir ++ [t.composeFileName]

theorem fileIn_injective (dir : Location) : Function.Injective (fileIn dir) := by
  intro t u h
  apply Target.composeFileName_injective
  simpa [fileIn] using h

/-- The paths of the compose files lead into a directory. -/
def StandIn (l : Layout) (dir : Location) (d : Disk) : Prop :=
  ∀ t, d.locate? (l.composeFile t) = some (fileIn dir t)

/-- If one compose file has a place, all have, in the same directory. -/
theorem exists_standIn {l : Layout} {d : Disk} {t : Target} {m : Location}
    (h : d.locate? (l.composeFile t) = some m) : ∃ dir, StandIn l dir d := by
  obtain ⟨dir, hdir⟩ := Disk.exists_locate?_join t.isFileName h
  exact ⟨dir, fun u => hdir _ u.isFileName⟩

/-- In the default configuration the compose files stand in the root of the workspace. -/
theorem standIn_root {l : Layout} {d : Disk} {root : Location} (hconfig : l.config = {})
    (hroot : d.LeadsTo l.root root) : StandIn l root d := by
  intro t
  have hfile : l.composeFile t = (l.root.join ⟨['.']⟩).join ⟨t.composeFileName⟩ := by
    rw [Layout.composeFile, hconfig]
    rfl
  rw [hfile]
  exact hroot.join_here.locate?_join t.isFileName

/-- What is read of a compose file, from what stands in its place. -/
def definitionFrom (path : Path) : Option DiskEntry → Except Fault Definition
  | none => .ok {}
  | some (.file (.text u)) => Definition.read path u
  | _ => .error (.fileAccess path .readingFile)

/-- A text stands at a location, or nothing. -/
def HasText (d : Disk) (m : Location) : Prop :=
  d.get? m ≠ some .directory ∧ ∀ b, d.get? m ≠ some (.file (.binary b))

/-- The disk with texts in the compose files of some targets, all else as it was. -/
structure Saved (dir : Location) (ts : List Target) (text : Target → Text) (d e : Disk) : Prop where
  directories : d.SameDirectories e
  written : ∀ t ∈ ts, e.get? (fileIn dir t) = some (.file (.text (text t)))
  kept : ∀ m, (∀ t ∈ ts, m ≠ fileIn dir t) → e.get? m = d.get? m

/-- The files of the other targets are as they were. -/
theorem Saved.get?_of_notMem {dir : Location} {ts : List Target} {text : Target → Text} {d e : Disk}
    (h : Saved dir ts text d e) {t : Target} (ht : t ∉ ts) :
    e.get? (fileIn dir t) = d.get? (fileIn dir t) := by
  apply h.kept
  intro u hu heq
  exact ht (fileIn_injective dir heq ▸ hu)

/-- The changed compose file of one target. -/
def changedFile (l : Layout) (change : Target → Definition → Except Fault Definition) (d : Disk)
    (t : Target) : Except Fault (Path × Text) := do
  return (l.composeFile t, (← definition l t d >>= change t).render)

theorem changed_eq (l : Layout) (only : Option Target)
    (change : Target → Definition → Except Fault Definition) (d : Disk) :
    changed l only change d = (targetsOf only).mapM (changedFile l change d) := by
  rw [changed]
  congr 1
  funext t
  rw [changedFile, bind_assoc]

namespace StandIn

variable {l : Layout} {dir : Location} {d : Disk} (h : StandIn l dir d)
include h

theorem of_sameDirectories {e : Disk} (he : d.SameDirectories e) : StandIn l dir e := by
  intro t
  rw [he.locate?_eq]
  exact h t

/-! ## Reading -/

theorem entryAt?_eq (t : Target) : d.entryAt? (l.composeFile t) = d.get? (fileIn dir t) := by
  rw [Disk.entryAt?, h t]
  rfl

/-- The definition of a target is what its file says. -/
theorem definition_eq (t : Target) :
    definition l t d = definitionFrom (l.composeFile t) (d.get? (fileIn dir t)) := by
  simp only [definition, definitionAt, Disk.openDocument, Disk.read, Disk.text?, Disk.contains,
    h.entryAt?_eq]
  rcases d.get? (fileIn dir t) with - | - | u | b
  · rfl
  · rfl
  · show Definition.read (l.composeFile t) (Document.ofContent (l.composeFile t) u).content = _
    rw [Document.content_ofContent]
    rfl
  · rfl

theorem definition_of_none {t : Target} (ht : d.get? (fileIn dir t) = none) :
    definition l t d = .ok {} := by
  rw [h.definition_eq, ht]
  rfl

theorem definition_of_text {t : Target} {u : Text}
    (ht : d.get? (fileIn dir t) = some (.file (.text u))) :
    definition l t d = Definition.read (l.composeFile t) u := by
  rw [h.definition_eq, ht]
  rfl

/-- What can be read is a text, if it is there. -/
theorem hasText_of_definition {t : Target} {D : Definition} (hD : definition l t d = .ok D) :
    HasText d (fileIn dir t) := by
  rw [h.definition_eq] at hD
  constructor
  · intro hdir
    rw [hdir] at hD
    cases hD
  · intro b hb
    rw [hb] at hD
    cases hD

/-! ## Writing -/

/-- The files of some targets are written one after the other. -/
theorem outcome_writeAll {ts : List Target} (hts : ∀ t ∈ ts, HasText d (fileIn dir t))
    (text : Target → Text) :
    ∃ cs e, (Edit.writeAll (ts.map fun t => (l.composeFile t, text t))).outcome d = (.ok cs, e) ∧
      Saved dir ts text d e := by
  induction ts generalizing d with
  | nil =>
    refine ⟨[], d, rfl, ⟨rfl, fun m => Iff.rfl⟩, ?_, fun m _ => rfl⟩
    intro t ht
    cases ht
  | cons t ts ih =>
    obtain ⟨⟨hfree, hbinary⟩, hrest⟩ := List.forall_mem_cons.1 hts
    obtain ⟨status, e, he, hw⟩ := Edit.outcome_writeIfChanged (h t) hfree hbinary (text t)
    have hdirs : d.SameDirectories e := hw.sameDirectories hfree
    have htexts : ∀ u ∈ ts, HasText e (fileIn dir u) := by
      intro u hu
      rw [HasText, hw.get?_eq]
      by_cases hut : fileIn dir u = fileIn dir t
      · rw [if_pos hut]
        exact ⟨by simp, by simp⟩
      · rw [if_neg hut]
        exact hrest u hu
    obtain ⟨cs, f, hf, hsaved⟩ := ih (h.of_sameDirectories hdirs) htexts
    refine ⟨(l.composeFile t, status) :: cs, f, ?_, hdirs.trans hsaved.directories, ?_, ?_⟩
    · have hfirst : (do return (l.composeFile t, ← Edit.writeIfChanged (l.composeFile t) (text t)) :
          Edit Change).outcome d = (.ok (l.composeFile t, status), e) :=
        Edit.outcome_bind_of_ok d he _
      rw [Edit.writeAll, List.map_cons, List.mapM_cons, Edit.outcome_bind_of_ok d hfirst]
      exact Edit.outcome_bind_of_ok e hf _
    · intro u hu
      by_cases hmem : u ∈ ts
      · exact hsaved.written u hmem
      · obtain rfl : u = t := (List.mem_cons.1 hu).resolve_right hmem
        rw [hsaved.get?_of_notMem hmem, hw.get?_eq, if_pos rfl]
    · intro m hm
      obtain ⟨hmt, hmts⟩ := List.forall_mem_cons.1 hm
      rw [hsaved.kept m hmts, hw.get?_eq, if_neg hmt]

/-- An edit fails on a disk that it has not touched when one of its targets has a file that cannot
be read or changed, and otherwise writes the changed definitions. -/
theorem outcome_edit (only : Option Target)
    (change : Target → Definition → Except Fault Definition) :
    (∃ t ∈ targetsOf only, ∃ x, definition l t d >>= change t = .error x) ∧
        (∃ y, (edit l only change).outcome d = (.error y, d)) ∨
      ∃ new : Target → Definition,
        (∀ t ∈ targetsOf only, definition l t d >>= change t = .ok (new t)) ∧
        ∃ cs e, (edit l only change).outcome d = (.ok cs, e) ∧
          Saved dir (targetsOf only) (fun t => (new t).render) d e := by
  have hlook := Edit.outcome_look d (changed l only change)
  rw [changed_eq] at hlook
  by_cases hfails : ∃ t ∈ targetsOf only, ∃ x, definition l t d >>= change t = .error x
  · refine .inl ⟨hfails, ?_⟩
    obtain ⟨t, ht, x, hx⟩ := hfails
    have hfile : changedFile l change d t = .error x := by
      rw [changedFile, hx]
      rfl
    obtain ⟨y, hy⟩ := mapM_of_error ht hfile
    rw [hy] at hlook
    exact ⟨y, Edit.outcome_bind_of_error d hlook _⟩
  · have hreads : ∀ t ∈ targetsOf only, ∃ D, definition l t d >>= change t = .ok D := by
      intro t ht
      cases hD : definition l t d >>= change t with
      | error x => exact absurd ⟨t, ht, x, hD⟩ hfails
      | ok D => exact ⟨D, rfl⟩
    have : Inhabited Definition := ⟨{}⟩
    choose! new hnew using hreads
    have htexts : ∀ t ∈ targetsOf only, HasText d (fileIn dir t) := by
      intro t ht
      obtain ⟨D, hD, -⟩ := bind_eq_ok.1 (hnew t ht)
      exact h.hasText_of_definition hD
    obtain ⟨cs, e, he, hsaved⟩ := h.outcome_writeAll htexts fun t => (new t).render
    have hfiles : ∀ t ∈ targetsOf only,
        changedFile l change d t = .ok (l.composeFile t, (new t).render) :=
      fun t ht => bind_of_ok (hnew t ht) _
    rw [mapM_of_ok hfiles] at hlook
    exact .inr ⟨new, hnew, cs, e, (Edit.outcome_bind_of_ok d hlook _).trans he, hsaved⟩

end StandIn

end Compose

end Scaffold
