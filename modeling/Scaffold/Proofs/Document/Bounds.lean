import Scaffold.Proofs.Document.Mutation
import Scaffold.Proofs.Script.Import

/-!
# Lines in bounds

The reader of import statements counts lines by the newlines of the joined text and looks the
numbers up in the list of lines.  The two agree while no line holds a newline (`AreLines`).  An edit
of the text of a document brings this about, and one of its lines keeps it when none of the lines
that it puts in holds a newline (`areLines_apply`), so that it holds after any such edits
(`areLines_after`).

`addImport_inBounds` is what this is for: the lines of every statement are there, so a call has an
answer unless a brace is not closed, which it reports.
-/

namespace Scaffold.Document

open Script ImportStatement

/-! ## Lines after edits -/

/-- The lines that an edit puts in as such. -/
def Mutation.lines : Mutation → List Text
  | appendLines new => new
  | prependLines new => new
  | insertLines _ new => new
  | replaceLines _ _ new => new
  | setContent _ => []
  | replaceOnce _ _ => []
  | spliceText _ _ _ => []

/-- Lines that are put in the place of others. -/
theorem mem_of_mem_put {ls new : List Text} {i j : Nat} {line : Text}
    (h : line ∈ ls.take i ++ new ++ ls.drop j) : line ∈ ls ∨ line ∈ new := by
  simp only [List.mem_append] at h
  rcases h with (h | h) | h
  · exact .inl (List.mem_of_mem_take h)
  · exact .inr h
  · exact .inl (List.mem_of_mem_drop h)

/-- An edit takes a text apart anew, or puts its lines among the old ones. -/
theorem run_cases {d e : Document} {m : Mutation} (h : m.run d = .ok e) :
    (∃ t, e = ofContent d.path t) ∨
      e.path = d.path ∧ ∀ line ∈ e.lines, line ∈ d.lines ∨ line ∈ m.lines := by
  cases m with
  | setContent content => exact .inl ⟨content, (Except.ok.inj h).symm⟩
  | appendLines new =>
    obtain rfl := Except.ok.inj h
    rw [appendLines]
    split
    · exact .inr ⟨rfl, fun line => .inl⟩
    · exact .inr ⟨rfl, fun line => List.mem_append.1⟩
  | prependLines new =>
    obtain rfl := Except.ok.inj h
    rw [prependLines]
    split
    · exact .inr ⟨rfl, fun line => .inl⟩
    · exact .inr ⟨rfl, fun line hline => (List.mem_append.1 hline).symm⟩
  | insertLines index new =>
    rw [Mutation.run, insertLines] at h
    split at h
    · cases h
    · obtain rfl := Except.ok.inj h
      exact .inr ⟨rfl, fun line => mem_of_mem_put⟩
  | replaceLines start stop new =>
    rw [Mutation.run, replaceLines] at h
    split at h
    · cases h
    · obtain rfl := Except.ok.inj h
      exact .inr ⟨rfl, fun line => mem_of_mem_put⟩
  | replaceOnce exact replacement =>
    rcases replaceOnce_eq d exact replacement with ⟨before, after, -, -, -, heq⟩ | ⟨n, -, -, -, heq⟩
    · exact .inl ⟨_, Except.ok.inj (h.symm.trans heq)⟩
    · cases h.symm.trans heq
  | spliceText offset length replacement =>
    rw [Mutation.run, spliceText] at h
    split at h
    · cases h
    · split at h
      · cases h
      · exact .inl ⟨_, (Except.ok.inj h).symm⟩

theorem areLines_apply {d : Document} {m : Mutation} (hd : AreLines d.lines)
    (hm : AreLines m.lines) : AreLines (m.apply d).lines := by
  rw [Mutation.apply]
  split
  · next e h =>
    rcases run_cases h with ⟨t, rfl⟩ | ⟨-, hlines⟩
    · exact areLines_ofContent d.path t
    · exact fun line hline => (hlines line hline).elim (hd line) (hm line)
  · exact hd

theorem path_apply (d : Document) (m : Mutation) : (m.apply d).path = d.path := by
  rw [Mutation.apply]
  split
  · next e h =>
    rcases run_cases h with ⟨t, rfl⟩ | ⟨hpath, -⟩
    · exact path_ofContent d.path t
    · exact hpath
  · rfl

theorem areLines_after {d : Document} {ms : List Mutation} (hd : AreLines d.lines)
    (hms : ∀ m ∈ ms, AreLines m.lines) : AreLines (d.after ms).lines := by
  induction ms generalizing d with
  | nil => exact hd
  | cons m ms ih =>
    obtain ⟨hm, hrest⟩ := List.forall_mem_cons.1 hms
    exact ih (areLines_apply hd hm) hrest

theorem path_after (d : Document) (ms : List Mutation) : (d.after ms).path = d.path := by
  induction ms generalizing d with
  | nil => rfl
  | cons m ms ih => exact (ih (m.apply d)).trans (path_apply d m)

/-! ## Adding an import -/

/-- The lines of a statement and of its braces are lines of the file. -/
theorem inBounds_of_ofDocument {d : Document} (hd : AreLines d.lines) {ss : List ImportStatement}
    (h : ofDocument d = .ok ss) {s : ImportStatement} (hs : s ∈ ss) :
    s.endLine < d.lines.length ∧
      ∀ r ∈ s.names, r.startLine ≤ r.endLine ∧ r.endLine ≤ s.endLine := by
  obtain ⟨early, late, rfl⟩ := List.append_of_mem hs
  obtain ⟨front, core, next, after, names, hlines, rfl, hstatement, -, -⟩ :=
    ((ofDocument_eq_ok_iff hd).1 h).exists_statement
  rw [List.nil_append] at hstatement ⊢
  have hend := endLine_between front hstatement.isCore.ne_nil next names
  have hlength := congrArg List.length hlines
  simp only [List.length_append] at hend hlength
  refine ⟨by omega, fun r hr => ?_⟩
  have hnames : names = some r := hr
  subst hnames
  have hfront : AreLines front := fun line hline => hd line (hlines ▸ List.mem_append_left _ hline)
  cases hstatement.isCore with
  | @braces head inner rest c hhead hrest hc hbal =>
    obtain ⟨hstart, hstop⟩ := @at_lines front hfront head inner hhead.2 c
    have hcore := @length_core head inner rest c hhead.2 hrest hc
    omega

/-- The text of the braces stands in the text of the file where they begin. -/
theorem Importing.exists_content {d : Document} (hd : AreLines d.lines) {modulePath : Text}
    {r : Region} {before after : List Text} (h : Importing d modulePath r before after) :
    ∃ lead tail, d.content = lead ++ r.content ++ tail ∧ r.startOffset = lead.byteLength := by
  obtain ⟨head, inner, c, rest, next, -, -, -, -, rfl, hlines, -, -⟩ := h.exists_braces hd
  obtain ⟨hbefore, hrest⟩ := List.forall_mem_append.1 (hlines ▸ hd)
  obtain ⟨-, hback⟩ := List.forall_mem_append.1 hrest
  obtain ⟨ending, hcontent⟩ : ∃ ending, d.content = Text.joinLines d.lines ++ ending := by
    rw [content]
    split
    · exact ⟨_, rfl⟩
    · exact ⟨[], by simp⟩
  refine ⟨textOfLines before ++ head, rest ++ (next ++ after).flatMap ('\n' :: ·) ++ ending, ?_, rfl⟩
  rw [hcontent, hlines, ← lines_braces hbefore hback]
  -- the lines are those of one text, with the braces at the place of the region
  have hjoin (t : Text) : Text.joinLines (Text.lines t) = t := List.intercalate_splitOn '\n'
  rw [hjoin, List.append_assoc]
  rfl

/-- Names are always merged into the braces that were found. -/
theorem Importing.exists_mergeNames {d : Document} (hd : AreLines d.lines) {modulePath : Text}
    {r : Region} {before after : List Text} (h : Importing d modulePath r before after)
    (existing missing : List Text) : ∃ e, d.mergeNames r existing missing = .ok e := by
  obtain ⟨lead, tail, hcontent, hoffset⟩ := h.exists_content hd
  rw [mergeNames, extend, hoffset]
  split
  · exact ⟨_, spliceText_of_content hcontent _⟩
  · exact ⟨_, spliceText_of_content hcontent _⟩

/-- A call has an answer when the statements can be read. -/
theorem exists_addImport {d : Document} (hd : AreLines d.lines) {ss : List ImportStatement}
    (h : ofDocument d = .ok ss) (names : List Text) (modulePath : Text) :
    ∃ changed e, d.addImport names modulePath = .ok (changed, e) := by
  cases hfind : ss.findSome? (namesFrom? modulePath) with
  | none =>
    obtain ⟨before, blank, after, -, -, hinsert, -⟩ :=
      exists_insertImport hd h (importLine names modulePath)
    rw [addImport_of_notImporting names h (List.findSome?_eq_none_iff.1 hfind)]
    exact ⟨true, _, bind_of_ok hinsert _⟩
  | some r =>
    obtain ⟨early, s, late, rfl, hs, hfirst⟩ := List.findSome?_eq_some_iff.1 hfind
    have hold : Importing d modulePath r _ _ := ⟨early, s, late, h, hfirst, hs, rfl, rfl⟩
    rw [addImport_of_importing names hold]
    split
    · exact ⟨false, d, rfl⟩
    · obtain ⟨e, he⟩ := hold.exists_mergeNames hd (entriesOf r.inner) (missingNames r names)
      exact ⟨true, e, bind_of_ok he _⟩

theorem addImport_of_error {d : Document} {fault : Fault} (h : ofDocument d = .error fault)
    (names : List Text) (modulePath : Text) : d.addImport names modulePath = .error fault := by
  rw [addImport, h]
  rfl

/-- After edits whose lines hold no newlines, no line of the document holds one, and then a call uses
only lines that are there.  When the statements can be read, the last line of each is one of the
file's, at or behind the lines of its braces, so that a new statement goes behind a line that
exists, and the call has an answer.  Otherwise it reports the line of a brace that is not closed. -/
theorem addImport_inBounds (path : Path) (content : Text) (ms : List Mutation) {d : Document}
    (hd : (ofContent path content).after ms = d) (names : List Text) (modulePath : Text) :
    ((∀ m ∈ ms, AreLines m.lines) → AreLines d.lines) ∧
    (AreLines d.lines →
      (∀ ss, ofDocument d = .ok ss →
        (∀ s ∈ ss, s.endLine < d.lines.length ∧
          ∀ r ∈ s.names, r.startLine ≤ r.endLine ∧ r.endLine ≤ s.endLine) ∧
        ∃ changed e, d.addImport names modulePath = .ok (changed, e)) ∧
      ∀ fault, ofDocument d = .error fault →
        (∃ line, line < d.lines.length ∧ fault = .unbalanced ['\x7b'] line (some path)) ∧
        d.addImport names modulePath = .error fault) := by
  have hpath : d.path = path := by rw [← hd, path_after, path_ofContent]
  refine ⟨fun hms => ?_, fun hlines => ⟨fun ss hss => ⟨fun s hs => ?_, ?_⟩, fun fault hfault => ?_⟩⟩
  · rw [← hd]
    exact areLines_after (areLines_ofContent path content) hms
  · exact inBounds_of_ofDocument hlines hss hs
  · exact exists_addImport hlines hss names modulePath
  · refine ⟨?_, addImport_of_error hfault names modulePath⟩
    rcases ofDocument_cases hlines with ⟨ss, hss⟩ | ⟨line, hline, herror⟩
    · cases hfault.symm.trans hss
    · exact ⟨line, hline, hpath ▸ Except.error.inj (hfault.symm.trans herror)⟩

/-- Edits that write a file with two statements. -/
def sampleMutations : List Mutation :=
  [.appendLines ["import \x7b", "    a", "\x7d from './m';", "f(a);"],
    .replaceOnce "a\n" "a, b\n", .prependLines ["import x from 'y';"], .replaceLines 9 9 []]

/-- The file that they write. -/
def sampleWritten : Document := (ofContent ⟨"app.ts"⟩ []).after sampleMutations

theorem addImport_inBounds_sample :
    (∀ m ∈ sampleMutations, AreLines m.lines) ∧
      sampleWritten.content =
        "import x from 'y';\nimport \x7b\n    a, b\n\x7d from './m';\nf(a);\n" ∧
      (∃ s t, ofDocument sampleWritten = .ok [s, t] ∧ s.endLine < 5 ∧ t.endLine < 5) ∧
      ∃ changed e, sampleWritten.addImport ["c"] "./m" = .ok (changed, e) := by
  have hms : ∀ m ∈ sampleMutations, AreLines m.lines := by decide
  obtain ⟨hkept, hcall⟩ := addImport_inBounds ⟨"app.ts"⟩ [] sampleMutations rfl ["c"] "./m"
  have hread : ∃ s t, ofDocument sampleWritten = .ok [s, t] := ⟨_, _, rfl⟩
  obtain ⟨s, t, hread⟩ := hread
  obtain ⟨hlines, hok⟩ := (hcall (hkept hms)).1 _ hread
  exact ⟨hms, rfl, ⟨s, t, hread, (hlines s (by simp)).1, (hlines t (by simp)).1⟩, hok⟩

/-- A statement that is put in as one line with newlines in it: its brace is closed on line 2 of the
text, and there is one line. -/
theorem not_addImport_inBounds_always :
    ¬ ∀ (path : Path) (content : Text) (ms : List Mutation) (names : List Text) (modulePath : Text)
      (index count : Nat), ((ofContent path content).after ms).addImport names modulePath ≠
        .error (.lineMissing index count) := by
  intro hnever
  exact hnever ⟨"app.ts"⟩ [] [.appendLines ["import \x7b\n\n\x7d"]] ["b"] "m" 2 1 rfl

end Scaffold.Document
