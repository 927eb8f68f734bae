import Scaffold.Proofs.Disk
import Scaffold.Proofs.Document.Lines

/-!
# Files that are opened again

Lines are added to a file by opening it, adding them to the document and saving it
(`Edit.revise`).  Doing so again finds the lines and changes nothing, provided that the file is
read as the document that was saved (`Edit.outcome_revise_again`).  This is always so for lines at
the start (`prependLines_again`); for lines at the end it is so unless they leave an empty last line
without a newline (`appendLines_again`).
-/

namespace Scaffold

namespace Edit

/-- Opens a file, revises the document and saves it.  The answer is whether the document was changed
and what happened to the file. -/
def revise (f : Document → Bool × Document) (p : Path) : Edit (Bool × Status) := do
  let document ← look (Disk.openDocument p)
  let status ← save (f document).2
  return ((f document).1, status)

variable {f : Document → Bool × Document} {p : Path} {t : Text} {d : Disk}

/-- A file that is revised is opened and saved. -/
theorem outcome_revise (f : Document → Bool × Document) (ht : d.text? p = some t) :
    (revise f p).outcome d =
      (save (f (.ofContent p t)).2 >>= fun status =>
        pure ((f (.ofContent p t)).1, status)).outcome d := by
  have hopen : (look (Disk.openDocument p)).outcome d = (.ok (.ofContent p t), d) := by
    rw [outcome_look, Disk.openDocument_of_text? ht]
  rw [revise, outcome_bind_of_ok d hopen]

/-- A revision that has the text of the file leaves it alone. -/
theorem outcome_revise_of_content (ht : d.text? p = some t)
    (hpath : (f (.ofContent p t)).2.path = p) (hcontent : (f (.ofContent p t)).2.content = t) :
    (revise f p).outcome d = (.ok ((f (.ofContent p t)).1, .unchanged), d) := by
  rw [outcome_revise f ht, save, hpath, hcontent,
    outcome_bind_of_ok d (writeIfChanged_of_text? ht)]
  rfl

/-- A revision with another text is written. -/
theorem outcome_revise_of_ne (ht : d.text? p = some t) (hpath : (f (.ofContent p t)).2.path = p)
    (hcontent : (f (.ofContent p t)).2.content ≠ t) :
    ∃ e, (revise f p).outcome d = (.ok ((f (.ofContent p t)).1, .updated), e) ∧
      e.text? p = some (f (.ofContent p t)).2.content := by
  obtain ⟨e, hsave, htext⟩ := outcome_writeIfChanged_of_ne ht (Ne.symm hcontent)
  refine ⟨e, ?_, htext⟩
  rw [outcome_revise f ht, save, hpath, outcome_bind_of_ok d hsave]
  rfl

/-- A file that is there can be revised. -/
theorem exists_outcome_revise (ht : d.text? p = some t)
    (hpath : (f (.ofContent p t)).2.path = p) :
    ∃ status e, (revise f p).outcome d = (.ok ((f (.ofContent p t)).1, status), e) ∧
      e.text? p = some (f (.ofContent p t)).2.content := by
  by_cases hcontent : (f (.ofContent p t)).2.content = t
  · exact ⟨.unchanged, d, outcome_revise_of_content ht hpath hcontent, by rw [ht, hcontent]⟩
  · obtain ⟨e, houtcome, htext⟩ := outcome_revise_of_ne ht hpath hcontent
    exact ⟨.updated, e, houtcome, htext⟩

/-- A revision that has nothing to do in its own result changes nothing when the file is read as
that result. -/
theorem outcome_revise_again (hpath : (f (.ofContent p t)).2.path = p)
    (hsettled : (f (.ofContent p t)).2.IsSettled)
    (hagain : f (f (.ofContent p t)).2 = (false, (f (.ofContent p t)).2))
    (ht : d.text? p = some (f (.ofContent p t)).2.content) :
    (revise f p).outcome d = (.ok (false, .unchanged), d) := by
  rw [Document.IsSettled, hpath] at hsettled
  have hopened : f (.ofContent p (f (.ofContent p t)).2.content) =
      (false, (f (.ofContent p t)).2) := by
    rw [hsettled, hagain]
  have houtcome := outcome_revise_of_content (f := f) ht (by rw [hopened, hpath]) (by rw [hopened])
  rwa [hopened] at houtcome

end Edit

open Document

section

variable {d : Disk} {p : Path} {t : Text} (ht : d.text? p = some t) {new : List Text}
  (hnew : ∀ line ∈ new, '\n' ∉ line)
include ht hnew

/-- Lines at the end are found again unless they leave an empty last line without a newline; then
they are added once more. -/
theorem appendLines_again :
    ∃ status e, (Edit.revise (appendLines · new) p).outcome d =
        (.ok (((ofContent p t).appendLines new).1, status), e) ∧
      e.text? p = some ((ofContent p t).appendLines new).2.content ∧
      (¬ LeavesBlank t new →
        (Edit.revise (appendLines · new) p).outcome e = (.ok (false, .unchanged), e)) ∧
      (LeavesBlank t new →
        ∃ e', (Edit.revise (appendLines · new) p).outcome e = (.ok (true, .updated), e')) := by
  have hpath : ((ofContent p t).appendLines new).2.path = p := by
    rw [path_appendLines, path_ofContent]
  obtain ⟨status, e, houtcome, htext⟩ :=
    Edit.exists_outcome_revise (f := (appendLines · new)) ht hpath
  refine ⟨status, e, houtcome, htext, fun hblank => ?_, fun hblank => ?_⟩
  · exact Edit.outcome_revise_again (f := (appendLines · new)) hpath
      (isSettled_appendLines hnew p hblank)
      (appendLines_of_isSuffix (suffix_appendLines _ new)) htext
  · obtain ⟨ls, hread, hls, hnot⟩ := ofContent_appendLines_of_leavesBlank hnew p hblank
    have hmore : ((ofContent p ((ofContent p t).appendLines new).2.content).appendLines
        new).2.content ≠ ((ofContent p t).appendLines new).2.content := by
      have hcontent : ((ofContent p t).appendLines new).2.content = content ⟨p, ls, true⟩ := by
        rw [← hread, content_ofContent]
      rw [hread, appendLines_of_not_isSuffix hnot, hcontent]
      exact content_append_ne hls hnew p fun hnil => hnot (hnil ▸ List.nil_suffix)
    obtain ⟨e', hagain, -⟩ := Edit.outcome_revise_of_ne (f := (appendLines · new)) htext
      (by rw [path_appendLines, path_ofContent]) hmore
    rw [hread, appendLines_of_not_isSuffix hnot] at hagain
    exact ⟨e', hagain⟩

/-- Lines at the start are found again. -/
theorem prependLines_again :
    ∃ status e, (Edit.revise (prependLines · new) p).outcome d =
        (.ok (((ofContent p t).prependLines new).1, status), e) ∧
      e.text? p = some ((ofContent p t).prependLines new).2.content ∧
      (Edit.revise (prependLines · new) p).outcome e = (.ok (false, .unchanged), e) := by
  have hpath : ((ofContent p t).prependLines new).2.path = p := by
    rw [path_prependLines, path_ofContent]
  obtain ⟨status, e, houtcome, htext⟩ :=
    Edit.exists_outcome_revise (f := (prependLines · new)) ht hpath
  refine ⟨status, e, houtcome, htext, ?_⟩
  exact Edit.outcome_revise_again (f := (prependLines · new)) hpath (isSettled_prependLines hnew p)
    (prependLines_of_isPrefix (prefix_prependLines _ new)) htext

/-- Lines that are added to a file and saved are found when the same is done again, which changes
nothing.  Only lines at the end that leave an empty last line without a newline are added once
more. -/
theorem addLines_again :
    (∃ status e, (Edit.revise (appendLines · new) p).outcome d =
        (.ok (((ofContent p t).appendLines new).1, status), e) ∧
      e.text? p = some ((ofContent p t).appendLines new).2.content ∧
      (¬ LeavesBlank t new →
        (Edit.revise (appendLines · new) p).outcome e = (.ok (false, .unchanged), e)) ∧
      (LeavesBlank t new →
        ∃ e', (Edit.revise (appendLines · new) p).outcome e = (.ok (true, .updated), e'))) ∧
    ∃ status e, (Edit.revise (prependLines · new) p).outcome d =
        (.ok (((ofContent p t).prependLines new).1, status), e) ∧
      e.text? p = some ((ofContent p t).prependLines new).2.content ∧
      (Edit.revise (prependLines · new) p).outcome e = (.ok (false, .unchanged), e) :=
  ⟨appendLines_again ht hnew, prependLines_again ht hnew⟩

end

/-- A file without a newline at its end. -/
def sampleOpenEnd : Disk := ⟨[], [([("a.txt" : Text)], .file (.text "a"))]⟩

/-- Two lines that are added, the first one of them empty, and a single empty one that is added
twice. -/
theorem addLines_again_sample :
    sampleOpenEnd.text? ⟨"a.txt"⟩ = some "a" ∧
      (∃ e : Disk, e.text? ⟨"a.txt"⟩ = some "a\n\nb" ∧
        (Edit.revise (appendLines · ["", "b"]) ⟨"a.txt"⟩).outcome e = (.ok (false, .unchanged), e)) ∧
      ∃ e e' : Disk, e.text? ⟨"a.txt"⟩ = some "a\n" ∧
        (Edit.revise (appendLines · [""]) ⟨"a.txt"⟩).outcome e = (.ok (true, .updated), e') := by
  have ht : sampleOpenEnd.text? ⟨"a.txt"⟩ = some "a" := rfl
  obtain ⟨-, e, -, htext, hfound, -⟩ :=
    (addLines_again ht (show ∀ line ∈ (["", "b"] : List Text), '\n' ∉ line by decide)).1
  obtain ⟨-, e₁, -, htext₁, -, hblank⟩ :=
    (addLines_again ht (show ∀ line ∈ ([""] : List Text), '\n' ∉ line by decide)).1
  obtain ⟨e₂, hagain⟩ := hblank (by decide)
  exact ⟨ht, ⟨e, htext, hfound (by decide)⟩, e₁, e₂, htext₁, hagain⟩

/-- An empty line behind a last line that no newline ends is written as that newline: the line is
not found again. -/
theorem not_addLines_again_always :
    ¬ ∀ (d : Disk) (p : Path) (t : Text) (new : List Text), d.text? p = some t →
      (∀ line ∈ new, '\n' ∉ line) → ∀ answer e,
      (Edit.revise (appendLines · new) p).outcome d = (.ok answer, e) →
      (Edit.revise (appendLines · new) p).outcome e = (.ok (false, .unchanged), e) := by
  intro hagain
  have hfirst : (Edit.revise (appendLines · [[]]) ⟨"a.txt"⟩).outcome sampleOpenEnd =
      (.ok (true, .updated), ⟨[], [([("a.txt" : Text)], .file (.text "a\n"))]⟩) := rfl
  have hsecond : (Edit.revise (appendLines · [[]]) ⟨"a.txt"⟩).outcome
      ⟨[], [([("a.txt" : Text)], .file (.text "a\n"))]⟩ =
      (.ok (true, .updated), ⟨[], [([("a.txt" : Text)], .file (.text "a\n\n"))]⟩) := rfl
  cases hsecond.symm.trans (hagain _ _ _ _ rfl (by decide) _ _ hfirst)

end Scaffold
