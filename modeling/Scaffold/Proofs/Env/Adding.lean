import Scaffold.Env.Store
import Scaffold.Proofs.Env.ModelText

/-!
# Adding variables to a model

A further variable is put at the end of its blocks, so that the text of the model is the one of the
longer list of variables (`WellFormed.appendStatic`, `WellFormed.appendCalculated`).
-/

namespace Scaffold.Env

open Script

/-! ## Longer blocks -/

theorem solidEnd_members {ds : List Declaration} (h : ∀ d ∈ ds, isValidKey d.key = true)
    (hne : ds ≠ []) : SolidEnd (members ds) ∧ (members ds).getLast? = some ';' := by
  obtain ⟨init, d, rfl⟩ := (List.eq_nil_or_concat ds).resolve_left hne
  rw [List.concat_eq_append] at h ⊢
  obtain ⟨hinit, hd⟩ := List.forall_mem_append.1 h
  have hsplit : members (init ++ [d]) = (members init ++ (memberIndent ++ d.render)) ++ [';'] := by
    simp [members, endedLines]
  have hline : Balanced (memberIndent ++ d.render) :=
    isBlank_memberIndent.balanced.append
      (isPiece_declaration (rfl : isDeclarationChar ';' = false) (hd d List.mem_cons_self)).balanced
      (isBlank_memberIndent.apart_left _)
  have hbal : Balanced (members init ++ (memberIndent ++ d.render)) :=
    (balanced_members hinit).append hline (apart_cons _ _ (by decide) (by decide))
  have hend : SolidEnd [';'] := (solid_plain (by decide) (by decide) (by decide) (by decide)).2
  rw [hsplit]
  exact ⟨hend.append hbal (apart_separator (by decide) _ _), List.getLast?_concat⟩

/-- The type block with a further declaration at its end. -/
theorem extended_typeBody {ds : List Declaration} (h : ∀ d ∈ ds, isValidKey d.key = true)
    (d : Declaration) :
    closeEntries .semicolon (Text.trimEnd (typeBody ds)) ++
        newEntries .semicolon indentStep [d.render] ++ ['\n'] = typeBody (ds ++ [d]) := by
  have hclose : closeEntries .semicolon (Text.trimEnd (typeBody ds)) = members ds := by
    by_cases hne : ds = []
    · subst hne
      rfl
    · obtain ⟨hsolid, hlast⟩ := solidEnd_members h hne
      rw [typeBody, trimEnd_append hsolid (.newline .nil), closeEntries_of_semicolon hsolid hlast]
  rw [hclose, typeBody, members_concat]

theorem solidEnd_schemaEntries {vs : List CalculatedVariable} (h : ∀ v ∈ vs, v.Readable)
    (hne : vs ≠ []) : SolidEnd (schemaEntries vs) ∧ (schemaEntries vs).getLast? = some '\x7d' := by
  obtain ⟨init, v, rfl⟩ := (List.eq_nil_or_concat vs).resolve_left hne
  rw [List.concat_eq_append] at h ⊢
  obtain ⟨hinit, hv⟩ := List.forall_mem_append.1 h
  have hv : v.Readable := hv v List.mem_cons_self
  obtain ⟨before, hbefore, hsplit⟩ : ∃ before, Balanced before ∧
      schemaEntries (init ++ [v]) = before ++ ('\n' :: Text.spaces indentStep ++ schemaEntry v) := by
    by_cases hinit' : init = []
    · subst hinit'
      exact ⟨[], .nil, commaLines_singleton _ _⟩
    · have hbal : Balanced (schemaEntries init ++ [',']) :=
        (balanced_commaLines (isPiece_of_mem_schema hinit)).append (.of_plain (by decide))
          (apart_separator (by decide) _ _)
      refine ⟨schemaEntries init ++ [','], hbal, ?_⟩
      rw [schemaEntries, List.map_append, List.map_singleton,
        commaLines_concat _ (by simpa using hinit'), commaLines_singleton]
      simp [schemaEntries]
  have hline : IsBlank ('\n' :: Text.spaces indentStep) := .newline (.spaces _)
  have hlast : (v.value.render indentStep).getLast? = some '\x7d' := by
    rw [Calculation.render_eq, ← List.append_assoc, List.getLast?_concat]
  rw [hsplit]
  constructor
  · exact ((isPiece_schemaEntry hv).solid.2.append hline.balanced (hline.apart_left _)).append
      hbefore (apart_cons _ _ (by decide) (by decide))
  · rw [List.getLast?_append, List.getLast?_append, schemaEntry, List.getLast?_append, hlast]
    rfl

/-- The object of the calculations with a further one at its end. -/
theorem extended_schemaBody {vs : List CalculatedVariable} (h : ∀ v ∈ vs, v.Readable)
    (v : CalculatedVariable) :
    closeEntries .comma (Text.trimEnd (schemaBody vs)) ++
        newEntries .comma indentStep [schemaEntry v] ++ ['\n'] = schemaBody (vs ++ [v]) := by
  by_cases hne : vs = []
  · subst hne
    rfl
  · obtain ⟨hsolid, hlast⟩ := solidEnd_schemaEntries h hne
    have hopen : schemaEntries vs ≠ [] := by
      intro hnil
      rw [hnil] at hlast
      cases hlast
    have hnew : newEntries .comma indentStep [schemaEntry v] = commaLines indentStep [schemaEntry v] :=
      rfl
    rw [schemaBody, trimEnd_append hsolid (.newline .nil),
      closeEntries_of_comma hsolid (by simp [hlast]) hopen, hnew, schemaBody, schemaEntries,
      schemaEntries, List.map_append, List.map_singleton,
      commaLines_concat _ (by simpa using hne)]
    simp

/-! ## Longer models -/

/-- A model without variables is the skeleton. -/
theorem modelDocument_nil (path : Path) : modelDocument path [] [] = .ofContent path skeleton := by
  rw [skeleton_eq]
  rfl

namespace WellFormed

variable {ds : List Declaration} {vs : List CalculatedVariable} (h : WellFormed ds vs)
include h

/-- A static variable is declared at the end of its block. -/
theorem appendStatic (path : Path) (d : Declaration) :
    (modelDocument path ds vs).appendToLiteral VariableKind.static.marker .semicolon [d.render] =
      .ok (modelDocument path (ds ++ [d]) vs) := by
  rw [modelDocument, modelDocument, modelOf, modelOf, modelText_statics, modelText_statics, marker_eq,
    Document.appendToLiteral_block heading_static (balanced_typeBody h.statics) path _ .semicolon
      (List.cons_ne_nil _ _),
    extended_typeBody h.statics]

/-- A calculated variable is declared at the end of its block, and then its calculation is put at the
end of the calculations. -/
theorem appendCalculated (path : Path) {v : CalculatedVariable} (hv : isValidKey v.key = true) :
    ∃ declared : Document,
      (modelDocument path ds vs).appendToLiteral VariableKind.calculated.marker .semicolon
        [v.toDeclaration.render] = .ok declared ∧
      schemaIndent declared = 0 ∧
      declared.appendToLiteral schemaMarker .comma [schemaEntry v] =
        .ok (modelDocument path ds (vs ++ [v])) := by
  have hkeys : ∀ d ∈ vs.map CalculatedVariable.toDeclaration ++ [v.toDeclaration],
      isValidKey d.key = true :=
    List.forall_mem_append.2 ⟨h.declarations, by simpa using hv⟩
  have hbody : IsTypeBody (typeBody (vs.map CalculatedVariable.toDeclaration ++ [v.toDeclaration])) :=
    fun _ hc => mem_typeBody hkeys hc
  have hheading := Env.heading_schema h.isTypeBody_statics hbody
  refine ⟨.ofContent path (modelText (typeBody ds)
    (typeBody (vs.map CalculatedVariable.toDeclaration ++ [v.toDeclaration])) (schemaBody vs) ++
      ['\n']), ?_, ?_, ?_⟩
  · rw [modelDocument, modelOf, modelText_calculated, modelText_calculated, marker_eq,
      Document.appendToLiteral_block (heading_calculated h.isTypeBody_statics)
        (balanced_typeBody h.declarations) path _ .semicolon (List.cons_ne_nil _ _),
      extended_typeBody h.declarations]
  · obtain ⟨l, hline⟩ := hheading.find?_eq (schemaBody vs ++ '\x7d' :: ending)
    rw [schemaIndent, Document.lines_ofContent, modelText, blockText, schemaMarker_eq]
    show ((List.find? (Text.contains (schemaHeading ++ ['\x7b'])) _).map indentOf).getD 0 = 0
    rw [hline]
    exact hheading.indentOf_eq _
  · rw [modelText, schemaMarker_eq,
      Document.appendToLiteral_block hheading (balanced_schemaBody h.calculated) path _ .comma
        (List.cons_ne_nil _ _),
      extended_schemaBody h.calculated, modelDocument, modelOf, modelText, List.map_append,
      List.map_singleton]

end WellFormed

end Scaffold.Env
