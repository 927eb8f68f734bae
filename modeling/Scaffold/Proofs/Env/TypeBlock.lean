import Scaffold.Proofs.Env.Declaration
import Scaffold.Proofs.Script.Array

/-!
# Adding a member to a type block

A declaration is added to a type block that anyone may have edited: its members stand between
semicolons and commas, there may be comments around them, and behind the last one there may be a
separator or none.

`membersOf_append` is what carries the proof: a separator of either kind divides the members of a
balanced text, although a block is divided at its semicolons first.  So the members of the old text
remain, the comments behind them do not count, and the new line is one more member
(`balanced_and_membersOf_addedEntries`, `appendToLiteral_declares`).
-/

namespace Scaffold.Env

open Script

/-! ## Members -/

/-- The members are the pieces between commas of the parts between semicolons. -/
theorem membersOf_eq (t : Text) : membersOf t = (splitTopLevel ';' t).flatMap (pieces ',') := by
  rw [membersOf]
  induction splitTopLevel ';' t with
  | nil => rfl
  | cons p ps ih => rw [List.flatMap_cons, List.flatMap_cons, List.map_append, List.filter_append, ih, pieces]

theorem membersOf_semicolon {t : Text} (ht : Balanced t) (u : Text) :
    membersOf (t ++ ';' :: u) = membersOf t ++ membersOf u := by
  rw [membersOf_eq, membersOf_eq, membersOf_eq, splitTopLevel, scan_separator (by decide) ht,
    List.splitOnP_append_cons _ _ (by simp [Visit.isTopLevel]), List.map_append, List.flatMap_append]
  rfl

/-- Text without semicolons stands in the first part of what follows it. -/
theorem membersOf_freeOf_append {a u : Text} (hf : FreeOf ';' a) (ha : Balanced a) (hm : Apart a u) :
    ∃ p ps, splitTopLevel ';' u = p :: ps ∧
      membersOf (a ++ u) = pieces ',' (a ++ p) ++ ps.flatMap (pieces ',') := by
  obtain ⟨p, ps, hps⟩ := List.exists_cons_of_ne_nil (splitTopLevel_ne_nil ';' u)
  refine ⟨p, ps, hps, ?_⟩
  rw [membersOf_eq, splitTopLevel_freeOf_append hf ha hm, hps, List.modifyHead_cons,
    List.flatMap_cons]

theorem membersOf_of_freeOf {t : Text} (h : FreeOf ';' t) : membersOf t = pieces ',' t := by
  rw [membersOf_eq, splitTopLevel_last h, List.flatMap_singleton]

theorem membersOf_comma {t : Text} (ht : Balanced t) (u : Text) :
    membersOf (t ++ ',' :: u) = membersOf t ++ membersOf u := by
  refine Balanced.separatorInduction (show IsSeparator ';' by decide) rfl
    (P := fun t => membersOf (t ++ ',' :: u) = membersOf t ++ membersOf u) ?last ?cons ht
  case last =>
    intro t ht hfree
    have hcomma : Balanced [','] := .of_plain (by decide)
    have hbal : Balanced (t ++ [',']) := ht.append hcomma (apart_separator (by decide) _ _)
    have hsemi : FreeOf ';' (t ++ [',']) :=
      hfree.append ht (.of_notMem (by decide)) (apart_separator (by decide) _ _)
    obtain ⟨p, ps, hps, hmembers⟩ :=
      membersOf_freeOf_append hsemi hbal (apart_concat t u (by decide) (by decide))
    rw [List.append_cons, hmembers, List.append_assoc, List.singleton_append,
      pieces_append_separator (by decide) ht, membersOf_of_freeOf hfree, membersOf_eq u, hps,
      List.flatMap_cons, List.append_assoc]
  case cons =>
    intro p q hp hq _ ih
    rw [List.append_assoc, List.cons_append, membersOf_semicolon hp, ih, membersOf_semicolon hp,
      List.append_assoc]

/-- A separator divides the members, whether it is a semicolon or a comma. -/
theorem membersOf_append {sep : Char} (hsep : Delimiter.semicolon.Separates sep) {t : Text}
    (ht : Balanced t) (u : Text) : membersOf (t ++ sep :: u) = membersOf t ++ membersOf u := by
  rcases hsep with rfl | ⟨-, rfl⟩
  · exact membersOf_semicolon ht u
  · exact membersOf_comma ht u

/-- Comments and blanks in front of the first member do not count. -/
theorem membersOf_filler_append {a : Text} (ha : IsFiller a) (hm : ∀ u, Apart a u) (u : Text) :
    membersOf (a ++ u) = membersOf u := by
  obtain ⟨p, ps, hps, hmembers⟩ := membersOf_freeOf_append (ha.freeOf rfl) ha.balanced (hm u)
  rw [hmembers, pieces_filler_append rfl ha hm, membersOf_eq, hps, List.flatMap_cons]

/-- Comments and blanks behind the last member do not count. -/
theorem membersOf_append_skipped {t u : Text} (ht : Balanced t) {vs : List Visit}
    (hscan : scan (t ++ u) = scan t ++ vs) (hskipped : ∀ v ∈ vs, v.isSkipped = true) :
    membersOf (t ++ u) = membersOf t := by
  revert hscan
  refine Balanced.separatorInduction (show IsSeparator ';' by decide) rfl
    (P := fun t => scan (t ++ u) = scan t ++ vs → membersOf (t ++ u) = membersOf t) ?last ?cons ht
  case last =>
    intro t ht hfree hscan
    rw [membersOf_of_freeOf (hfree.of_append_skipped rfl hscan hskipped), membersOf_of_freeOf hfree,
      pieces_append_skipped (by decide) rfl ht hscan hskipped]
  case cons =>
    intro p q hp hq _ ih hscan
    rw [List.append_assoc, List.cons_append, membersOf_semicolon hp, membersOf_semicolon hp,
      ih (scan_of_separator (by decide) hp hscan)]

theorem membersOf_of_filler {t : Text} (h : IsFiller t) : membersOf t = [] :=
  membersOf_append_skipped (t := []) .nil rfl h.skipped

/-! ## Added members -/

section

variable {ts : List Text} (hts : ∀ t ∈ ts, IsPiece ';' t ∧ IsPiece ',' t)
include hts

/-- Lines behind comments: what is added is balanced, and its members are the lines. -/
theorem balanced_and_membersOf_lines {a : Text} (ha : IsFiller (a ++ ['\n'])) (n m : Nat) :
    Balanced (a ++ (newEntries .semicolon n ts ++ '\n' :: Text.spaces m)) ∧
      membersOf (a ++ (newEntries .semicolon n ts ++ '\n' :: Text.spaces m)) = ts := by
  have hblank (k : Nat) : IsBlank ('\n' :: Text.spaces k) := .newline (.spaces k)
  have hlines : newEntries .semicolon n ts = endedLines ';' ('\n' :: Text.spaces n) [] ts := by
    simp [newEntries, endedLines]
  have hbal : Balanced (newEntries .semicolon n ts ++ '\n' :: Text.spaces m) := by
    rw [hlines]
    exact (balanced_endedLines (by decide) (fun t ht => (hts t ht).1) (hblank n) .nil).append
      (hblank m).balanced ((hblank m).apart_right _)
  have hmembers : membersOf (newEntries .semicolon n ts ++ '\n' :: Text.spaces m) = ts := by
    rw [hlines]
    exact membersOf_endedLines (hblank n) (hblank m) hts
  obtain ⟨u, hu⟩ : ∃ u, newEntries .semicolon n ts ++ '\n' :: Text.spaces m = '\n' :: u := by
    cases ts with
    | nil => exact ⟨_, rfl⟩
    | cons t ts => exact ⟨_, by simp [newEntries]; rfl⟩
  rw [hu] at hbal hmembers ⊢
  have hnewline : IsBlank ['\n'] := .newline .nil
  refine ⟨ha.newline_append hbal, ?_⟩
  rw [List.append_cons, membersOf_filler_append ha fun u => apart_concat _ _ (by decide) (by decide),
    ← hmembers]
  exact (membersOf_filler_append (a := ['\n']) hnewline.filler hnewline.apart_left u).symm

/-- Members that are added behind balanced text are read as further members, whatever separators
and comments stood there. -/
theorem balanced_and_membersOf_addedEntries {inner : Text} (h : Balanced inner) (n m : Nat) :
    Balanced (addedEntries .semicolon inner n m ts) ∧
      membersOf (addedEntries .semicolon inner n m ts) = membersOf inner ++ ts := by
  obtain ⟨a, ha, ⟨hfiller, hadded⟩ | ⟨code, tail, front, sep, rfl, hcode, htail, hscan, hsep, hfront,
    heq, hadded⟩⟩ := addedEntries_eq .semicolon h n m ts
  · rw [hadded, membersOf_of_filler hfiller]
    exact balanced_and_membersOf_lines hts ha n m
  · have hmembers : membersOf front = membersOf code := by
      rcases heq with rfl | rfl
      · rfl
      · rw [membersOf_append hsep hfront, membersOf_of_filler IsBlank.nil.filler, List.append_nil]
    obtain ⟨hlines, hnew⟩ := balanced_and_membersOf_lines hts ha n m
    rw [hadded, membersOf_append_skipped hcode hscan htail.skipped]
    refine ⟨hfront.append_separator hsep.isSeparator hlines, ?_⟩
    rw [membersOf_append hsep hfront, hmembers, hnew]

end

/-! ## The block -/

/-- The type block of a kind of variable, and the texts around it. -/
structure BlockAt (d : Document) (kind : VariableKind) (before after : Text) (r : Region)
    (ds : List Declaration) : Prop where
  located : Region.ofDocument d kind.marker = .ok r
  offset : r.startOffset = before.byteLength
  content : d.content = before ++ r.content ++ after
  read : readBlock kind r.inner = .ok ds

/-- A declaration that is added to a type block is read as one more declaration of it, the last one,
however the block is written.  The block starts where it was, and nothing outside it changes. -/
theorem appendToLiteral_declares (kind : VariableKind) (path : Path) (text : Text) {r : Region}
    {ds : List Declaration} {d : Declaration}
    (hr : Region.ofDocument (.ofContent path text) kind.marker = .ok r)
    (hds : readBlock kind r.inner = .ok ds) (hd : isValidKey d.key = true) :
    ∃ before after e r',
      BlockAt (.ofContent path text) kind before after r ds ∧
      (Document.ofContent path text).appendToLiteral kind.marker .semicolon [d.render] = .ok e ∧
      BlockAt e kind before after r' (ds ++ [d]) := by
  have hmarker : Text.trimEnd kind.marker = kind.marker := by
    cases kind <;> rfl
  obtain ⟨lead, o, inner, c, tail, -, -, hbal, rfl, rfl, hagain⟩ := exists_ofDocument_eq hmarker hr
  have hinner (inner : Text) : (Region.at lead (o :: inner ++ [c])).inner = inner := by
    simp [Region.inner, Region.at]
  have hpiece : ∀ t ∈ [d.render], IsPiece ';' t ∧ IsPiece ',' t :=
    List.forall_mem_singleton.2 ⟨isPiece_declaration rfl hd, isPiece_declaration rfl hd⟩
  obtain ⟨n, m, hextend⟩ := Document.extend_at path lead tail inner o c .semicolon [d.render]
  obtain ⟨hbal', hmembers⟩ := balanced_and_membersOf_addedEntries hpiece hbal n m
  rw [hinner] at hds
  refine ⟨lead, tail, _, _, ⟨hr, rfl, Document.content_ofContent _ _, by rwa [hinner]⟩, ?_,
    ⟨hagain _ hbal', rfl, Document.content_ofContent _ _, ?_⟩⟩
  · rw [Document.appendToLiteral, List.isEmpty_cons, if_neg Bool.false_ne_true]
    exact (bind_of_ok hr _).trans hextend
  · have hnew : [d.render].mapM (readDeclaration kind) = .ok [d] :=
      mapM_map_of_ok (List.forall_mem_singleton.2 (readDeclaration_render hd kind))
    rw [hinner, readBlock, hmembers, List.mapM_append, ← readBlock, bind_of_ok hds, bind_of_ok hnew]
    rfl

/-- A model whose block is edited by hand: commas and semicolons between the members, comments, and
no separator behind the last member. -/
def sampleTypeBlock : Text :=
  "export type StaticGlobalEnvironment = \x7b host: string, // a; b\n  port ?: number; log:boolean // last\n\x7d;"

/-- The region of the block. -/
def sampleTypeRegion : Region :=
  ⟨"\x7b host: string, // a; b\n  port ?: number; log:boolean // last\n\x7d", 0, 2, 38⟩

/-- The variables of the block. -/
def sampleDeclarations : List Declaration :=
  [⟨"host", true, .string⟩, ⟨"port", false, .number⟩, ⟨"log", true, .boolean⟩]

theorem appendToLiteral_declares_sample :
    Region.ofDocument (.ofContent ⟨"model.ts"⟩ sampleTypeBlock) VariableKind.static.marker =
        .ok sampleTypeRegion ∧
      readBlock .static sampleTypeRegion.inner = .ok sampleDeclarations ∧
      isValidKey "url" = true ∧
      ∃ before after e r',
        BlockAt (.ofContent ⟨"model.ts"⟩ sampleTypeBlock) .static before after sampleTypeRegion
          sampleDeclarations ∧
        (Document.ofContent ⟨"model.ts"⟩ sampleTypeBlock).appendToLiteral VariableKind.static.marker
          .semicolon [Declaration.render ⟨"url", false, .string⟩] = .ok e ∧
        BlockAt e .static before after r' (sampleDeclarations ++ [⟨"url", false, .string⟩]) :=
  have hlocated : Region.ofDocument (.ofContent ⟨"model.ts"⟩ sampleTypeBlock)
      VariableKind.static.marker = .ok sampleTypeRegion := rfl
  have hread : readBlock .static sampleTypeRegion.inner = .ok sampleDeclarations := rfl
  ⟨hlocated, hread, by decide, appendToLiteral_declares .static _ _ hlocated hread (by decide)⟩

end Scaffold.Env
