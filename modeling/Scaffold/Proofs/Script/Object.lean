import Scaffold.Proofs.Script.Array

/-!
# Adding to an object of a file

An entry is added to the object behind a marker, in a file of any text.  A region that opens with a
brace is always read as an object (`exists_objectAt`), so what a call answers depends on the entries
alone: on whether the key is there, and on the first value it has (`addObjectEntry_of_objectAt`).
What is added is read as one further entry, nothing outside the object changes, and the key is taken
from then on (`addObjectEntry_extends`).
-/

namespace Scaffold.Document

open Script Literal

/-- The object of a region, and the texts around it. -/
structure ObjectAt (d : Document) (marker before after : Text) (r : Region)
    (entries : List (Text × Literal)) : Prop where
  located : Region.ofDocument d marker = .ok r
  offset : r.startOffset = before.byteLength
  content : d.content = before ++ r.content ++ after
  opened : r.isObject = true
  read : Literal.read {} r.content = .object entries

/-! ## Objects of a file -/

/-- A region that opens with a brace holds an object, and so does every region that takes its place
with balanced text between the same brackets. -/
theorem exists_objectAt {path : Path} {text marker : Text} {r : Region}
    (hmarker : Text.trimEnd marker = marker)
    (hr : Region.ofDocument (ofContent path text) marker = .ok r) (hopen : r.isObject = true) :
    ∃ before inner c after, Balanced inner ∧ r = .at before ('\x7b' :: inner ++ [c]) ∧
      text = before ++ ('\x7b' :: inner ++ [c]) ++ after ∧
      ∀ inner', Balanced inner' →
        ObjectAt (ofContent path (before ++ ('\x7b' :: inner' ++ [c]) ++ after)) marker before after
          (.at before ('\x7b' :: inner' ++ [c])) ((pieces ',' inner').map (readEntry {})) := by
  obtain ⟨lead, o, inner, c, tail, -, hc, hbal, rfl, rfl, hagain⟩ := exists_ofDocument_eq hmarker hr
  obtain rfl : o = '\x7b' := by simpa [Region.isObject, Region.at] using hopen
  exact ⟨lead, inner, c, tail, hbal, rfl, rfl, fun inner' hbal' =>
    ⟨hagain inner' hbal', rfl, content_ofContent _ _, rfl, read_object hc hbal' rfl⟩⟩

/-! ## Answers -/

section

variable {d : Document} {marker before after key : Text} {r : Region}
  {entries : List (Text × Literal)} (h : ObjectAt d marker before after r entries)
include h

/-- The answer of a call from the entries of the object. -/
theorem addObjectEntry_of_objectAt (value : Literal) :
    d.addObjectEntry {} marker key value =
      match entries.lookup key with
      | some current =>
        if current == value then .ok (false, d) else .error (.duplicateEntry marker key)
      | none => do
        let source ← value.print {} (r.indent d + indentStep)
        return (true, ← d.extend r .comma [keyText key ++ ": " ++ source]) := by
  rw [addObjectEntry, bind_of_ok h.located]
  simp only [h.opened, h.read, get?]
  rfl

/-- A key that is there is not added again: an equal value changes nothing, another is refused. -/
theorem addObjectEntry_of_some {current : Literal} (hlookup : entries.lookup key = some current)
    (value : Literal) :
    d.addObjectEntry {} marker key value =
      if current == value then .ok (false, d) else .error (.duplicateEntry marker key) := by
  rw [addObjectEntry_of_objectAt h]
  simp only [hlookup]

end

/-- The parts of a call that answers: the key is there with an equal value, or it is added. -/
theorem exists_of_addObjectEntry {path : Path} {text marker key : Text} {e : Document}
    {value : Literal} {changed : Bool} (hmarker : Text.trimEnd marker = marker)
    (h : (ofContent path text).addObjectEntry {} marker key value = .ok (changed, e)) :
    ∃ before inner c after, Balanced inner ∧ text = before ++ ('\x7b' :: inner ++ [c]) ++ after ∧
      (∀ inner', Balanced inner' →
        ObjectAt (ofContent path (before ++ ('\x7b' :: inner' ++ [c]) ++ after)) marker before after
          (.at before ('\x7b' :: inner' ++ [c])) ((pieces ',' inner').map (readEntry {}))) ∧
      ((∃ current, ((pieces ',' inner).map (readEntry {})).lookup key = some current ∧
          (current == value) = true ∧ changed = false ∧ e = ofContent path text) ∨
        ((pieces ',' inner).map (readEntry {})).lookup key = none ∧ changed = true ∧
          ∃ n source, value.print {} n = .ok source ∧
            (ofContent path text).extend (.at before ('\x7b' :: inner ++ [c])) .comma
              [keyText key ++ ": " ++ source] = .ok e) := by
  obtain ⟨r, hr, hopen⟩ : ∃ r, Region.ofDocument (ofContent path text) marker = .ok r ∧
      r.isObject = true := by
    rw [addObjectEntry] at h
    obtain ⟨r, hr, h⟩ := bind_eq_ok.1 h
    refine ⟨r, hr, ?_⟩
    cases hopen : r.isObject with
    | true => rfl
    | false =>
      rw [hopen] at h
      cases h
  obtain ⟨before, inner, c, after, hbal, rfl, rfl, hobject⟩ := exists_objectAt hmarker hr hopen
  refine ⟨before, inner, c, after, hbal, rfl, hobject, ?_⟩
  rw [addObjectEntry_of_objectAt (hobject inner hbal)] at h
  cases hlookup : ((pieces ',' inner).map (readEntry {})).lookup key with
  | some current =>
    simp only [hlookup] at h
    split at h
    · next hequal =>
      obtain ⟨rfl, rfl⟩ := Prod.mk.inj (Except.ok.inj h)
      exact .inl ⟨current, rfl, hequal, rfl, rfl⟩
    · cases h
  | none =>
    simp only [hlookup] at h
    obtain ⟨source, hprint, h⟩ := bind_eq_ok.1 h
    obtain ⟨f, hextend, h⟩ := bind_eq_ok.1 h
    obtain ⟨rfl, rfl⟩ := Prod.mk.inj (Except.ok.inj h)
    exact .inr ⟨rfl, rfl, _, source, hprint, hextend⟩

/-- A key that is not there is added with its value as the last entry. -/
theorem exists_of_new {path : Path} {before inner after marker source : Text} {c : Char}
    {value : Literal} (key : Text) (hbal : Balanced inner) (hsource : ReadsAs {} source value)
    (hobject : ∀ inner', Balanced inner' →
      ObjectAt (ofContent path (before ++ ('\x7b' :: inner' ++ [c]) ++ after)) marker before after
        (.at before ('\x7b' :: inner' ++ [c])) ((pieces ',' inner').map (readEntry {}))) :
    ∃ e r', (ofContent path (before ++ ('\x7b' :: inner ++ [c]) ++ after)).extend
        (.at before ('\x7b' :: inner ++ [c])) .comma [keyText key ++ ": " ++ source] = .ok e ∧
      ObjectAt e marker before after r'
        ((pieces ',' inner).map (readEntry {}) ++ [(key, Literal.read {} source)]) := by
  obtain ⟨n, m, hextend⟩ := extend_at path before after inner '\x7b' c .comma
    [keyText key ++ ": " ++ source]
  have hentry : EntryReadsAs {} (keyText key ++ ": ".toList ++ source) (key, value) :=
    ⟨source, rfl, hsource⟩
  obtain ⟨hbal', hpieces⟩ := balanced_and_pieces_addedEntries hbal (n := n) (m := m)
    (List.cons_ne_nil _ _) (List.forall_mem_singleton.2 (isPiece_entry hentry))
  have hat := hobject _ hbal'
  rw [hpieces, List.map_append, List.map_singleton, readEntry_keyText key hsource.piece] at hat
  exact ⟨_, _, hextend, hat⟩

/-! ## Calls -/

theorem lookup_concat {entries : List (Text × Literal)} {key : Text}
    (h : entries.lookup key = none) (value : Literal) :
    (entries ++ [(key, value)]).lookup key = some value := by
  rw [List.lookup_append, h, Option.none_or, List.lookup_cons_self]

/-- An entry that is added to the object behind a marker is read as one more entry of it, the last
one, and no earlier entry had its key.  The object starts where it was, nothing outside its brackets
changes, a second call changes nothing, and a call with another value for the key is refused.  A
call answers that the entry is there exactly when the first entry of the key has an equal value, and
only a call that adds the entry changes the file. -/
theorem addObjectEntry_extends (path : Path) (text : Text) {marker : Text} (key : Text)
    {value : Literal} (hmarker : Text.trimEnd marker = marker)
    (hexpr : ∀ s, .expression s ∈ value.leaves → IsSource s) :
    (∀ e, (ofContent path text).addObjectEntry {} marker key value = .ok (true, e) →
      ∃ before after r r' entries added,
        ObjectAt (ofContent path text) marker before after r entries ∧
        (∀ entry ∈ entries, entry.1 ≠ key) ∧
        ObjectAt e marker before after r' (entries ++ [(key, added)]) ∧ (added == value) = true ∧
        e.addObjectEntry {} marker key value = .ok (false, e) ∧
        ∀ other, (value == other) = false →
          e.addObjectEntry {} marker key other = .error (.duplicateEntry marker key)) ∧
    ((∃ e, (ofContent path text).addObjectEntry {} marker key value = .ok (false, e)) ↔
      ∃ before after r entries current,
        ObjectAt (ofContent path text) marker before after r entries ∧
        entries.lookup key = some current ∧ (current == value) = true) ∧
    ((∀ e, (ofContent path text).addObjectEntry {} marker key value ≠ .ok (true, e)) →
      (ofContent path text).afterCall ((ofContent path text).addObjectEntry {} marker key value) =
        ofContent path text) := by
  refine ⟨fun e h => ?_, ⟨fun ⟨e, h⟩ => ?_, ?_⟩,
    fun h => afterCall_eq_self fun changed e hcall => ?_⟩
  · obtain ⟨before, inner, c, after, hbal, rfl, hobject, ⟨_, _, _, hfalse, _⟩ |
      ⟨hlookup, -, n, source, hprint, hextend⟩⟩ := exists_of_addObjectEntry hmarker h
    · cases hfalse
    have hsource := readsAs_of_print hexpr hprint
    obtain ⟨f, r', hextend', hnew⟩ := exists_of_new key hbal hsource hobject
    obtain rfl := Except.ok.inj (hextend.symm.trans hextend')
    have hadded := lookup_concat hlookup (Literal.read {} source)
    refine ⟨before, after, _, r', _, _, hobject inner hbal, fun entry hentry => ?_, hnew,
      hsource.equal, ?_, fun other hother => ?_⟩
    · have := List.lookup_eq_none_iff.1 hlookup entry hentry
      exact fun heq => by simp [heq] at this
    · rw [addObjectEntry_of_some hnew hadded, if_pos hsource.equal]
    · rw [addObjectEntry_of_some hnew hadded, if_neg]
      intro heq
      rw [beq_trans (beq_symm hsource.equal) heq] at hother
      cases hother
  · obtain ⟨before, inner, c, after, hbal, rfl, hobject, ⟨current, hlookup, hequal, -, -⟩ |
      ⟨-, htrue, -⟩⟩ := exists_of_addObjectEntry hmarker h
    · exact ⟨_, _, _, _, current, hobject inner hbal, hlookup, hequal⟩
    · cases htrue
  · rintro ⟨before, after, r, entries, current, hold, hlookup, hequal⟩
    exact ⟨_, by rw [addObjectEntry_of_some hold hlookup, if_pos hequal]⟩
  · obtain ⟨-, -, -, -, -, -, -, ⟨-, -, -, -, heq⟩ | ⟨-, rfl, -⟩⟩ :=
      exists_of_addObjectEntry hmarker hcall
    · exact heq
    · exact absurd hcall (h e)

/-- A file with an object that has a quoted key, a key without a value and comments. -/
def sampleObject : Document :=
  ofContent ⟨"app.config.ts"⟩ "const o = \x7b\n    'log-level': 'low', // why\n    retries // , \x7d\n\x7d;"

/-- The region of the object. -/
def sampleObjectRegion : Region :=
  ⟨"\x7b\n    'log-level': 'low', // why\n    retries // , \x7d\n\x7d", 0, 3, 10⟩

/-- A nested value with an expression. -/
def sampleValue : Literal := .object [("next", .array [.null, .expression "settings.level"])]

/-- The source of the value in the object. -/
def sampleSource : Text :=
  "\x7b\n        next: [\n            null,\n            settings.level\n        ]\n    \x7d"

/-- The object with one more entry. -/
def sampleObjectContent : Text :=
  "\x7b\n    'log-level': 'low', // why\n    retries, // , \x7d\n    'log-next': " ++ sampleSource ++
    "\n\x7d"

/-- The file with one more entry. -/
def sampleObjectExtended : Document :=
  ofContent ⟨"app.config.ts"⟩ ("const o = " ++ sampleObjectContent ++ ";")

theorem addObjectEntry_extends_sample :
    sampleObject.addObjectEntry {} "o = \x7b" "log-next" sampleValue =
        .ok (true, sampleObjectExtended) ∧
      ∃ before after r r' entries added,
        ObjectAt sampleObject "o = \x7b" before after r entries ∧
        (∀ entry ∈ entries, entry.1 ≠ "log-next".toList) ∧
        ObjectAt sampleObjectExtended "o = \x7b" before after r'
          (entries ++ [("log-next".toList, added)]) ∧ (added == sampleValue) = true ∧
        sampleObjectExtended.addObjectEntry {} "o = \x7b" "log-next" sampleValue =
          .ok (false, sampleObjectExtended) ∧
        ∀ other, (sampleValue == other) = false →
          sampleObjectExtended.addObjectEntry {} "o = \x7b" "log-next" other =
            .error (.duplicateEntry "o = \x7b" "log-next") := by
  have hlevel : IsSource "settings.level".toList :=
    .of_plain (by decide) (by decide) (by decide) rfl
  have hexpr : ∀ s, .expression s ∈ sampleValue.leaves → IsSource s := by
    intro s hs
    obtain rfl : s = "settings.level".toList := by
      simpa [sampleValue, leaves, leavesOfItems, leavesOfEntries] using hs
    exact hlevel
  have hlocated : Region.ofDocument sampleObject "o = \x7b" = .ok sampleObjectRegion := rfl
  have hcall : sampleObject.addObjectEntry {} "o = \x7b" "log-next" sampleValue =
      .ok (true, sampleObjectExtended) := by
    have hlow : Literal.read {} " 'low'" = .string "low" := by
      rw [read_eq]
      rfl
    have hread : Literal.read {} sampleObjectRegion.content =
        .object [("log-level", .string "low"), ("retries", .expression "retries")] := by
      rw [read_eq]
      exact congrArg (fun v => object [("log-level".toList, v), ("retries".toList,
        expression "retries")]) hlow
    have hprint : sampleValue.print {} (sampleObjectRegion.indent sampleObject + indentStep) =
        .ok sampleSource := rfl
    have htext : sampleObject =
        ofContent ⟨"app.config.ts"⟩ ("const o = ".toList ++ sampleObjectRegion.content ++ ";".toList) := rfl
    have hindent : sampleObjectRegion.indent sampleObject = 0 := rfl
    have hextended : sampleObjectRegion.extended 0 .comma ["'log-next': ".toList ++ sampleSource] =
        sampleObjectContent := by decide +kernel
    have hextend : sampleObject.extend sampleObjectRegion .comma ["'log-next': ".toList ++ sampleSource] =
        .ok sampleObjectExtended := by
      rw [extend, hindent, hextended, htext]
      exact spliceText_append _ _ _ _ _
    rw [addObjectEntry, bind_of_ok hlocated]
    simp only [hread]
    show (do
      let source ← sampleValue.print {} (sampleObjectRegion.indent sampleObject + indentStep)
      return (true, ← sampleObject.extend sampleObjectRegion .comma ["'log-next': ".toList ++ source])) = _
    rw [bind_of_ok hprint]
    exact bind_of_ok hextend _
  exact ⟨hcall, (addObjectEntry_extends _ _ "log-next" rfl hexpr).1 _ hcall⟩

end Scaffold.Document
