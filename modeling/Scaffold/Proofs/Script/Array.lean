import Scaffold.Proofs.Outcome
import Scaffold.Proofs.Script.Extension
import Scaffold.Proofs.Script.Literal.Equality
import Scaffold.Proofs.Script.Literal.RoundTrip
import Scaffold.Proofs.Script.Locate

/-!
# Adding to an array of a file

Items are added to the array behind a marker, in a file of any text.  The items that are added are
those that the array has not and that are not earlier in the list (`newItems_eq`); they are read as
further items of the array, nothing outside it changes, and adding the same items again changes
nothing (`addArrayItems_extends`).
-/

namespace Scaffold.Script

namespace Literal

theorem word?_ne_array (t : Text) (items : List Literal) : word? {} t ≠ some (.array items) := by
  unfold word?
  repeat' split
  all_goals simp
  next v hv =>
    obtain ⟨m, n, rfl⟩ := lazyImport?_eq_some hv
    exact Literal.noConfusion

/-- A bracketed text that is read as an array starts with a square bracket, and the array holds
what its pieces are. -/
theorem eq_of_read_array {o c : Char} {inner : Text} {items : List Literal}
    (ho : isOpening o = true) (hc : isClosing c = true) (h : Balanced inner)
    (hread : read {} (o :: inner ++ [c]) = .array items) :
    o = '[' ∧ items = (pieces ',' inner).map (read {}) := by
  have hopen : o = '[' := by
    by_contra hne
    have hcomma (d : Char) (hd : isOpening d = true ∨ isClosing d = true) : d ≠ ',' := by
      rintro rfl
      rcases hd with hd | hd <;> cases hd
    have hpiece : IsPiece ',' (o :: inner ++ [c]) :=
      .brackets ho hc h (hcomma o (.inl ho)) (hcomma c (.inr hc))
    rw [read_eq, hpiece.trimmed, List.cons_append, enclosed?_cons_of_ne hne] at hread
    split at hread
    · next v hv => exact word?_ne_array _ _ (hread ▸ hv)
    · cases hbrace : enclosed? '\x7b' (o :: (inner ++ [c])) <;>
        cases hquote : unquote? (o :: (inner ++ [c])) <;> simp [hbrace, hquote] at hread
  subst hopen
  rw [read_array hc h rfl] at hread
  exact ⟨rfl, (array.inj hread).symm⟩

end Literal

end Scaffold.Script

namespace Scaffold.Document

open Script Literal

/-! ## New items -/

/-- The items that equal none of `seen` and no earlier item, in order. -/
def firstItems (seen items : List Literal) : List Literal :=
  (items.zipIdx.filter fun (item, i) => !(seen ++ items.take i).contains item).map Prod.fst

theorem firstItems_cons (seen : List Literal) (item : Literal) (items : List Literal) :
    firstItems seen (item :: items) =
      (if seen.contains item then [] else [item]) ++ firstItems (seen ++ [item]) items := by
  have hrest : ((items.zipIdx 1).filter fun (x, i) =>
      !(seen ++ (item :: items).take i).contains x).map Prod.fst =
        firstItems (seen ++ [item]) items := by
    rw [List.zipIdx_succ, List.filter_map, List.map_map, firstItems]
    congr 1
    refine List.filter_congr fun x _ => ?_
    simp
  rw [firstItems, List.zipIdx_cons]
  cases hitem : seen.contains item with
  | true =>
    rw [List.filter_cons_of_neg (by simpa using hitem), hrest]
    rfl
  | false =>
    rw [List.filter_cons_of_pos (by simpa using hitem), List.map_cons, hrest]
    rfl

theorem contains_iff {seen : List Literal} {v : Literal} :
    seen.contains v = true ↔ ∃ w ∈ seen, (v == w) = true := by
  rw [List.contains_eq_any_beq, List.any_eq_true]

/-- An item that is there already does not count when later items are looked for. -/
theorem newItems_congr {seen seen' : List Literal}
    (h : ∀ v, seen.contains v = seen'.contains v) (items : List Literal) :
    newItems seen items = newItems seen' items := by
  induction items generalizing seen seen' with
  | nil => rfl
  | cons item items ih =>
    rw [newItems, newItems, h item, ih h]
    congr 2
    refine ih fun v => ?_
    rw [List.contains_append, List.contains_append, h v]

theorem contains_concat_of_contains {seen : List Literal} {item : Literal}
    (h : seen.contains item = true) (v : Literal) :
    (seen ++ [item]).contains v = seen.contains v := by
  obtain ⟨w, hw, hequal⟩ := contains_iff.1 h
  rw [List.contains_append, Bool.eq_iff_iff, Bool.or_eq_true]
  refine ⟨fun hv => hv.elim id fun hv => ?_, .inl⟩
  obtain ⟨x, hx, hvx⟩ := contains_iff.1 hv
  obtain rfl := List.mem_singleton.1 hx
  exact contains_iff.2 ⟨w, hw, beq_trans hvx hequal⟩

/-- What is added are the items that are neither there nor earlier in the list. -/
theorem newItems_eq (seen items : List Literal) : newItems seen items = firstItems seen items := by
  induction items generalizing seen with
  | nil => rfl
  | cons item items ih =>
    rw [newItems, firstItems_cons, ← ih]
    split
    · next h => rw [newItems_congr (contains_concat_of_contains h), List.nil_append]
    · rfl

/-- Every item is there already, or equals one that is added. -/
theorem contains_of_mem {seen items : List Literal} {item : Literal} (h : item ∈ items) :
    seen.contains item = true ∨ ∃ v ∈ newItems seen items, item = v ∨ (item == v) = true := by
  induction items generalizing seen with
  | nil => cases h
  | cons x items ih =>
    rw [newItems]
    rcases List.mem_cons.1 h with rfl | hmem
    · cases hx : seen.contains item with
      | true => exact .inl rfl
      | false => exact .inr ⟨item, by simp, .inl rfl⟩
    · cases hx : seen.contains x with
      | true => simpa [hx] using ih hmem
      | false =>
        have hrest : (seen ++ [x]).contains item = true ∨
            ∃ v ∈ newItems (seen ++ [x]) items, item = v ∨ (item == v) = true := ih hmem
        rcases hrest with hseen | ⟨v, hv, hequal⟩
        · rw [List.contains_append, Bool.or_eq_true] at hseen
          rcases hseen with hseen | hseen
          · exact .inl hseen
          · obtain ⟨y, hy, hxy⟩ := contains_iff.1 hseen
            obtain rfl := List.mem_singleton.1 hy
            exact .inr ⟨y, by simp, .inr hxy⟩
        · exact .inr ⟨v, by simp [hv], hequal⟩

theorem newItems_eq_nil {seen items : List Literal}
    (h : ∀ item ∈ items, seen.contains item = true) : newItems seen items = [] := by
  induction items with
  | nil => rfl
  | cons item items ih =>
    obtain ⟨hitem, hrest⟩ := List.forall_mem_cons.1 h
    rw [newItems, if_pos hitem, ih hrest]

theorem exists_beq_of_mem {vs ws : List Literal} (h : beqItems vs ws = true) {w : Literal}
    (hw : w ∈ ws) : ∃ v ∈ vs, (v == w) = true := by
  induction ws generalizing vs with
  | nil => cases hw
  | cons x ws ih =>
    cases vs with
    | nil => cases h
    | cons v vs =>
      obtain ⟨hv, hrest⟩ := Bool.and_eq_true_iff.1 h
      rcases List.mem_cons.1 hw with rfl | hmem
      · exact ⟨v, List.mem_cons_self, hv⟩
      · obtain ⟨y, hy, hequal⟩ := ih hrest hmem
        exact ⟨y, List.mem_cons_of_mem _ hy, hequal⟩

/-- Once the items are added, none of them is new. -/
theorem newItems_append_eq_nil {seen items added : List Literal}
    (h : beqItems added (newItems seen items) = true) : newItems (seen ++ added) items = [] := by
  refine newItems_eq_nil fun item hitem => ?_
  rw [List.contains_append, Bool.or_eq_true]
  refine (contains_of_mem hitem).imp_right fun ⟨v, hv, hequal⟩ => ?_
  obtain ⟨w, hw, hwv⟩ := exists_beq_of_mem h hv
  refine contains_iff.2 ⟨w, hw, ?_⟩
  rcases hequal with rfl | hequal
  · exact beq_symm hwv
  · exact beq_trans hequal (beq_symm hwv)

/-! ## The array -/

theorem extended_at (lead inner : Text) (o c : Char) (n : Nat) (delimiter : Delimiter)
    (entries : List Text) :
    (Region.at lead (o :: inner ++ [c])).extended n delimiter entries =
      o :: addedEntries delimiter inner (n + indentStep) n entries ++ [c] := by
  have hinner : (Region.at lead (o :: inner ++ [c])).inner = inner := by
    simp [Region.inner, Region.at]
  have hclose : (o :: inner ++ [c]).drop ((o :: inner ++ [c]).length - 1) = [c] := by simp
  have hcontent : (Region.at lead (o :: inner ++ [c])).content = o :: inner ++ [c] := rfl
  rw [Region.extended, hinner, hcontent, hclose, addedEntries]
  simp

/-- Entries are added at the end of a literal in a document. -/
theorem extend_at (path : Path) (lead tail inner : Text) (o c : Char) (delimiter : Delimiter)
    (entries : List Text) :
    ∃ n m, (ofContent path (lead ++ (o :: inner ++ [c]) ++ tail)).extend
        (.at lead (o :: inner ++ [c])) delimiter entries =
      .ok (ofContent path (lead ++ (o :: addedEntries delimiter inner n m entries ++ [c]) ++ tail)) := by
  obtain ⟨n, hn⟩ : ∃ n, n = (Region.at lead (o :: inner ++ [c])).indent
    (ofContent path (lead ++ (o :: inner ++ [c]) ++ tail)) := ⟨_, rfl⟩
  refine ⟨n + indentStep, n, ?_⟩
  rw [extend, extended_at, ← hn]
  exact spliceText_append path _ _ _ _

/-- The array of a region, and the texts around it. -/
structure ArrayAt (d : Document) (marker before after : Text) (r : Region)
    (items : List Literal) : Prop where
  located : Region.ofDocument d marker = .ok r
  offset : r.startOffset = before.byteLength
  content : d.content = before ++ r.content ++ after
  read : Literal.read {} r.content = .array items

/-- A region that is read as an array opens with a bracket, and every region that takes its place
with balanced text between the same brackets holds the items of its pieces. -/
theorem exists_arrayAt {path : Path} {text marker : Text} {r : Region} {existing : List Literal}
    (hmarker : Text.trimEnd marker = marker)
    (hr : Region.ofDocument (ofContent path text) marker = .ok r)
    (hread : Literal.read {} r.content = .array existing) :
    ∃ before inner c after, Balanced inner ∧ r = .at before ('[' :: inner ++ [c]) ∧
      text = before ++ ('[' :: inner ++ [c]) ++ after ∧
      existing = (pieces ',' inner).map (Literal.read {}) ∧
      ∀ inner', Balanced inner' →
        ArrayAt (ofContent path (before ++ ('[' :: inner' ++ [c]) ++ after)) marker before after
          (.at before ('[' :: inner' ++ [c])) ((pieces ',' inner').map (Literal.read {})) := by
  obtain ⟨lead, o, inner, c, tail, ho, hc, hbal, rfl, rfl, hagain⟩ := exists_ofDocument_eq hmarker hr
  obtain ⟨rfl, hexisting⟩ := eq_of_read_array ho hc hbal hread
  exact ⟨lead, inner, c, tail, hbal, rfl, rfl, hexisting, fun inner' hbal' =>
    ⟨hagain inner' hbal', rfl, content_ofContent _ _, read_array hc hbal' rfl⟩⟩

/-- The texts of some items are added as the last items. -/
theorem exists_of_sources {path : Path} {before inner after marker : Text} {c : Char}
    {sources : List Text} {added : List Literal} (hbal : Balanced inner) (hne : sources ≠ [])
    (hreads : List.Forall₂ (ReadsAs {}) sources added)
    (harray : ∀ inner', Balanced inner' →
      ArrayAt (ofContent path (before ++ ('[' :: inner' ++ [c]) ++ after)) marker before after
        (.at before ('[' :: inner' ++ [c])) ((pieces ',' inner').map (Literal.read {}))) :
    ∃ e r', (ofContent path (before ++ ('[' :: inner ++ [c]) ++ after)).extend
        (.at before ('[' :: inner ++ [c])) .comma sources = .ok e ∧
      ArrayAt e marker before after r'
        ((pieces ',' inner).map (Literal.read {}) ++ sources.map (Literal.read {})) := by
  obtain ⟨n, m, hextend⟩ := extend_at path before after inner '[' c .comma sources
  obtain ⟨hbal', hpieces⟩ := balanced_and_pieces_addedEntries hbal (n := n) (m := m) hne
    (isPiece_of_readsAs hreads)
  have hat := harray _ hbal'
  rw [hpieces, List.map_append] at hat
  exact ⟨_, _, hextend, hat⟩

theorem mem_of_mem_newItems {seen items : List Literal} {v : Literal} (h : v ∈ newItems seen items) :
    v ∈ items := by
  induction items generalizing seen with
  | nil => cases h
  | cons item items ih =>
    rw [newItems] at h
    split at h
    · exact List.mem_cons_of_mem _ (ih h)
    · exact (List.mem_cons.1 h).elim (fun h => h ▸ List.mem_cons_self)
        fun h => List.mem_cons_of_mem _ (ih h)

/-- The texts of items are read as the items. -/
theorem readsAs_of_mapM {items : List Literal} {n : Nat} {sources : List Text}
    (hexpr : ∀ item ∈ items, ∀ s, .expression s ∈ item.leaves → IsSource s)
    (h : items.mapM (print {} n) = .ok sources) : List.Forall₂ (ReadsAs {}) sources items := by
  induction items generalizing sources with
  | nil =>
    obtain rfl : [] = sources := Except.ok.inj h
    exact .nil
  | cons item items ih =>
    rw [List.mapM_cons] at h
    obtain ⟨t, ht, h⟩ := bind_eq_ok.1 h
    obtain ⟨ts, hts, rfl⟩ := bind_pure_eq_ok.1 h
    obtain ⟨hitem, hrest⟩ := List.forall_mem_cons.1 hexpr
    exact .cons (readsAs_of_print hitem ht) (ih hrest hts)

/-- The parts of a call that answers. -/
theorem exists_of_addArrayItems {d e : Document} {marker : Text} {items : List Literal}
    {changed : Bool} (h : d.addArrayItems {} marker items = .ok (changed, e)) :
    ∃ r existing sources, Region.ofDocument d marker = .ok r ∧
      Literal.read {} r.content = .array existing ∧
      (newItems existing items).mapM (print {} (r.indent d + indentStep)) = .ok sources ∧
      (sources = [] ∧ changed = false ∧ e = d ∨
        sources ≠ [] ∧ changed = true ∧ d.extend r .comma sources = .ok e) := by
  rw [addArrayItems] at h
  obtain ⟨r, hr, h⟩ := bind_eq_ok.1 h
  cases hread : Literal.read {} r.content with
  | array existing =>
    rw [hread] at h
    obtain ⟨sources, hsources, h⟩ := bind_eq_ok.1 h
    refine ⟨r, existing, sources, hr, hread, hsources, ?_⟩
    cases sources with
    | nil =>
      obtain ⟨rfl, rfl⟩ := Prod.mk.inj (Except.ok.inj h)
      exact .inl ⟨rfl, rfl, rfl⟩
    | cons source sources =>
      obtain ⟨f, hf, h⟩ := bind_eq_ok.1 h
      obtain ⟨rfl, rfl⟩ := Prod.mk.inj (Except.ok.inj h)
      exact .inr ⟨by simp, rfl, hf⟩
  | _ =>
    rw [hread] at h
    cases h

/-- When no item is new, nothing changes. -/
theorem addArrayItems_of_none {d : Document} {marker before after : Text} {r : Region}
    {existing items : List Literal} (h : ArrayAt d marker before after r existing)
    (hnone : newItems existing items = []) :
    d.addArrayItems {} marker items = .ok (false, d) := by
  rw [addArrayItems, bind_of_ok h.located]
  simp only [h.read, hnone]
  rfl

/-- The document that a call leaves: a call that fails has no other one. -/
def afterCall (d : Document) : Except Fault (Bool × Document) → Document
  | .ok (_, e) => e
  | .error _ => d

/-- Nothing changes when every answer comes with the document itself. -/
theorem afterCall_eq_self {d : Document} {answer : Except Fault (Bool × Document)}
    (h : ∀ changed e, answer = .ok (changed, e) → e = d) : d.afterCall answer = d := by
  cases answer with
  | error fault => rfl
  | ok result => exact h result.1 result.2 rfl

/-- Items that are added to the array behind a marker are read as further items of it: those that
the array had not and that are not earlier in the list, in order.  The array starts where it was,
nothing outside its brackets changes, and a second call changes nothing.  A call that does not add
changes nothing either. -/
theorem addArrayItems_extends (path : Path) (text : Text) {marker : Text} {items : List Literal}
    (hmarker : Text.trimEnd marker = marker)
    (hexpr : ∀ item ∈ items, ∀ s, .expression s ∈ item.leaves → IsSource s) :
    (∀ e, (ofContent path text).addArrayItems {} marker items = .ok (true, e) →
      ∃ before after r r' existing added,
        ArrayAt (ofContent path text) marker before after r existing ∧
        ArrayAt e marker before after r' (existing ++ added) ∧
        beqItems added (firstItems existing items) = true ∧
        e.addArrayItems {} marker items = .ok (false, e)) ∧
    ((∀ e, (ofContent path text).addArrayItems {} marker items ≠ .ok (true, e)) →
      (ofContent path text).afterCall ((ofContent path text).addArrayItems {} marker items) =
        ofContent path text) := by
  refine ⟨fun e h => ?_, fun h => afterCall_eq_self fun changed e hcall => ?_⟩
  · obtain ⟨r, existing, sources, hr, hread, hsources, ⟨-, hfalse, -⟩ | ⟨hne, -, hextend⟩⟩ :=
      exists_of_addArrayItems h
    · cases hfalse
    obtain ⟨before, inner, c, after, hbal, rfl, rfl, rfl, harray⟩ := exists_arrayAt hmarker hr hread
    have hreads := readsAs_of_mapM (fun item hitem => hexpr item (mem_of_mem_newItems hitem)) hsources
    obtain ⟨f, r', hextend', hnew⟩ := exists_of_sources hbal hne hreads harray
    obtain rfl := Except.ok.inj (hextend.symm.trans hextend')
    have hequal := beqItems_of_readsAs hreads
    exact ⟨before, after, _, r', _, _, harray inner hbal, hnew, newItems_eq _ items ▸ hequal,
      addArrayItems_of_none hnew (newItems_append_eq_nil hequal)⟩
  · obtain ⟨r, existing, sources, -, -, -, ⟨-, -, heq⟩ | ⟨-, rfl, -⟩⟩ := exists_of_addArrayItems hcall
    · exact heq
    · exact absurd hcall (h e)

/-- A file with an array whose last item has a comma and a comment behind it. -/
def sampleArray : Document := ofContent ⟨"app.config.ts"⟩ "const a = [\n    'x', // first\n];"

/-- The region of the array. -/
def sampleRegion : Region := ⟨"[\n    'x', // first\n]", 0, 2, 10⟩

/-- A string that is there already, one that is not, twice, and an expression. -/
def sampleItems : List Literal :=
  [.string "x", .string "y", .expression "settings.level", .string "y"]

/-- The file with the items. -/
def sampleExtended : Document :=
  ofContent ⟨"app.config.ts"⟩ "const a = [\n    'x', // first\n    'y',\n    settings.level\n];"

theorem addArrayItems_extends_sample :
    sampleArray.addArrayItems {} "a = [" sampleItems = .ok (true, sampleExtended) ∧
      ∃ before after r r' existing added, ArrayAt sampleArray "a = [" before after r existing ∧
        ArrayAt sampleExtended "a = [" before after r' (existing ++ added) ∧
        beqItems added (firstItems existing sampleItems) = true ∧
        sampleExtended.addArrayItems {} "a = [" sampleItems = .ok (false, sampleExtended) := by
  have hlevel : IsSource "settings.level".toList :=
    .of_plain (by decide) (by decide) (by decide) rfl
  have hexpr : ∀ item ∈ sampleItems, ∀ s, .expression s ∈ item.leaves → IsSource s := by
    intro item hitem s hs
    have hleaves : .expression s ∈ sampleItems := by
      simp only [sampleItems, List.mem_cons, List.not_mem_nil, or_false] at hitem
      rcases hitem with rfl | rfl | rfl | rfl <;> simp [leaves] at hs
      simp [hs, sampleItems]
    obtain rfl : s = "settings.level".toList := by simpa [sampleItems] using hleaves
    exact hlevel
  have hlocated : Region.ofDocument sampleArray "a = [" = .ok sampleRegion := rfl
  have hitem : Literal.read {} "'x'" = .string "x" := by
    rw [read_eq]
    rfl
  have hread : Literal.read {} sampleRegion.content = .array [.string "x"] := by
    rw [read_eq]
    exact congrArg (fun v => Literal.array [v]) hitem
  have hprint : (newItems [.string "x"] sampleItems).mapM
      (print {} (sampleRegion.indent sampleArray + indentStep)) =
        .ok ["'y'".toList, "settings.level".toList] := rfl
  have hextend : sampleArray.extend sampleRegion .comma ["'y'".toList, "settings.level".toList] =
      .ok sampleExtended :=
    spliceText_append ⟨"app.config.ts"⟩ "const a = " "[\n    'x', // first\n]" ";"
      "[\n    'x', // first\n    'y',\n    settings.level\n]"
  have hcall : sampleArray.addArrayItems {} "a = [" sampleItems = .ok (true, sampleExtended) := by
    rw [addArrayItems, bind_of_ok hlocated]
    simp only [hread]
    rw [bind_of_ok hprint]
    exact bind_of_ok hextend _
  exact ⟨hcall, (addArrayItems_extends _ _ rfl hexpr).1 _ hcall⟩

end Scaffold.Document
