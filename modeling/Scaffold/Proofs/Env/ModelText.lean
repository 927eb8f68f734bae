import Scaffold.Proofs.Env.Calculation
import Scaffold.Proofs.Env.Skeleton

/-!
# The text of a model

A model with the given variables (`modelDocument`) is read as their declarations and the source
texts of their calculations (`WellFormed.read_modelDocument`).
-/

namespace Scaffold.Env

open Script

/-! ## Calculations -/

/-- What a model holds about calculated variables can be read back. -/
def CalculatedVariable.Readable (v : CalculatedVariable) : Prop :=
  isValidKey v.key = true ∧ v.value.Readable

/-- The entry of a calculation. -/
def schemaEntry (v : CalculatedVariable) : Text := v.key ++ ": " ++ v.value.render indentStep

/-- The entries of the calculations. -/
def schemaEntries (vs : List CalculatedVariable) : Text :=
  commaLines indentStep (vs.map schemaEntry)

/-- The inside of the object of the calculations. -/
def schemaBody (vs : List CalculatedVariable) : Text := schemaEntries vs ++ ['\n']

/-- A key that may be declared needs no quotes. -/
theorem keyText_of_isValidKey {key : Text} (h : isValidKey key = true) : keyText key = key := by
  obtain ⟨c, t, rfl, hc, ht⟩ := isValidKey_iff.1 h
  have hrest : t.all isNameChar = true := by
    refine List.all_eq_true.2 fun d hd => ?_
    obtain halphanum | rfl := isAlphanum_of_isKeyChar (ht d hd)
    · simp [isNameChar, halphanum]
    · rfl
  have hname : isIdentifier (c :: t) = true := by
    simp [isIdentifier, isNameStart, isAlpha_of_isLower hc, hrest]
  rw [keyText, if_pos hname]

theorem schemaEntry_eq {v : CalculatedVariable} (h : v.Readable) :
    schemaEntry v = keyText v.key ++ ": ".toList ++ v.value.render indentStep := by
  rw [keyText_of_isValidKey h.1]
  rfl

theorem isPiece_schemaEntry {v : CalculatedVariable} (h : v.Readable) :
    IsPiece ',' (schemaEntry v) := by
  rw [schemaEntry_eq h]
  exact (Literal.isPiece_keyText rfl _).join (Calculation.isPiece_render h.2 _) (by decide) (by decide)

/-- A written calculation is an expression to the reader of literals. -/
theorem read_render_calculation {c : Calculation} (h : c.Readable) (indent : Nat) :
    Literal.read {} (c.render indent) = .expression (c.render indent) := by
  have htrim := (Calculation.isPiece_render h indent).trimmed
  obtain ⟨t, ht⟩ : ∃ t, c.render indent = '(' :: 'e' :: t :=
    ⟨_, Calculation.render_eq c indent⟩
  rw [ht] at htrim ⊢
  have himport : lazyImport? ('(' :: 'e' :: t) = none := by
    have hprefix : lazyImportHead.isPrefixOf? ('(' :: 'e' :: t) = none := rfl
    rw [lazyImport?, hprefix]
    rfl
  have hword : word? {} ('(' :: 'e' :: t) = none := by
    rw [word?_cons rfl, himport, number?_cons_of_not rfl]
    rfl
  rw [Literal.read_eq, htrim, hword, enclosed?_cons_of_ne (by decide),
    enclosed?_cons_of_ne (by decide)]
  rfl

theorem readEntry_schemaEntry {v : CalculatedVariable} (h : v.Readable) :
    Literal.readEntry {} (schemaEntry v) = (v.key, .expression (v.value.render indentStep)) := by
  rw [schemaEntry_eq h, Literal.readEntry_keyText _ (Calculation.isPiece_render h.2 _),
    read_render_calculation h.2]

section

variable {vs : List CalculatedVariable} (h : ∀ v ∈ vs, v.Readable)
include h

theorem isPiece_of_mem_schema : ∀ t ∈ vs.map schemaEntry, IsPiece ',' t := by
  intro t ht
  obtain ⟨v, hv, rfl⟩ := List.mem_map.1 ht
  exact isPiece_schemaEntry (h v hv)

theorem balanced_schemaBody : Balanced (schemaBody vs) := by
  have hnewline : IsBlank ['\n'] := .newline .nil
  exact (balanced_commaLines (isPiece_of_mem_schema h)).append hnewline.balanced
    (hnewline.apart_right _)

/-- The object of the written calculations is read as their source texts. -/
theorem readSchema_schemaBody :
    readSchema {} ('\x7b' :: schemaBody vs ++ ['\x7d']) =
      .ok (vs.map fun v => (v.key, v.value.render indentStep)) := by
  have hpieces : pieces ',' (schemaBody vs) = vs.map schemaEntry :=
    pieces_commaLines (isPiece_of_mem_schema h) (.newline .nil)
  have hread : (vs.map schemaEntry).map (Literal.readEntry {}) =
      vs.map fun v => (v.key, .expression (v.value.render indentStep)) := by
    rw [List.map_map]
    exact List.map_congr_left fun v hv => readEntry_schemaEntry (h v hv)
  have hsources : (vs.map fun v => (v.key, Literal.expression (v.value.render indentStep))).mapM
      (fun entry => do return (entry.1, ← calculationSource {} entry.2)) =
      Except.ok (vs.map fun v => (v.key, v.value.render indentStep)) :=
    List.mapM_map.trans (mapM_of_ok fun _ _ => rfl)
  rw [readSchema, Literal.read_object rfl (balanced_schemaBody h) rfl, hpieces, hread]
  exact hsources

end

/-! ## Reading a model -/

/-- The insides of the blocks of a model with the given variables. -/
def modelOf (ds : List Declaration) (vs : List CalculatedVariable) : Text :=
  modelText (typeBody ds) (typeBody (vs.map CalculatedVariable.toDeclaration)) (schemaBody vs)

/-- All keys of a model may be declared and all its calculations be read back. -/
structure WellFormed (ds : List Declaration) (vs : List CalculatedVariable) : Prop where
  statics : ∀ d ∈ ds, isValidKey d.key = true
  calculated : ∀ v ∈ vs, v.Readable

/-- The document of a model with the given variables. -/
def modelDocument (path : Path) (ds : List Declaration) (vs : List CalculatedVariable) : Document :=
  .ofContent path (modelOf ds vs ++ ['\n'])

namespace WellFormed

variable {ds : List Declaration} {vs : List CalculatedVariable} (h : WellFormed ds vs)
include h

theorem declarations : ∀ d ∈ vs.map CalculatedVariable.toDeclaration, isValidKey d.key = true := by
  intro d hd
  obtain ⟨v, hv, rfl⟩ := List.mem_map.1 hd
  exact (h.calculated v hv).1

theorem isTypeBody_statics : IsTypeBody (typeBody ds) := fun _ hc => mem_typeBody h.statics hc

theorem isTypeBody_calculated : IsTypeBody (typeBody (vs.map CalculatedVariable.toDeclaration)) :=
  fun _ hc => mem_typeBody h.declarations hc

theorem locate_statics :
    Region.locate (Text.lines (modelOf ds vs)) VariableKind.static.marker =
      .ok (blockRegion preamble typeMargin VariableKind.static.heading (typeBody ds)) := by
  rw [modelOf, modelText_statics, marker_eq]
  exact locate_block heading_static (balanced_typeBody h.statics) _

theorem locate_calculated :
    Region.locate (Text.lines (modelOf ds vs)) VariableKind.calculated.marker =
      .ok (blockRegion (calculatedBefore (typeBody ds)) typeMargin VariableKind.calculated.heading
        (typeBody (vs.map CalculatedVariable.toDeclaration))) := by
  rw [modelOf, modelText_calculated, marker_eq]
  exact locate_block (heading_calculated h.isTypeBody_statics) (balanced_typeBody h.declarations) _

theorem heading_schema :
    Heading (schemaBefore (typeBody ds) (typeBody (vs.map CalculatedVariable.toDeclaration)))
      schemaMargin schemaHeading :=
  Env.heading_schema h.isTypeBody_statics h.isTypeBody_calculated

theorem locate_schema :
    Region.locate (Text.lines (modelOf ds vs)) schemaMarker =
      .ok (blockRegion (schemaBefore (typeBody ds)
          (typeBody (vs.map CalculatedVariable.toDeclaration))) schemaMargin schemaHeading
        (schemaBody vs)) := by
  rw [modelOf, modelText, schemaMarker_eq]
  exact locate_block h.heading_schema (balanced_schemaBody h.calculated) _

/-- A written model is read as its declarations and the source texts of its calculations. -/
theorem read_modelDocument (path : Path) :
    Model.read (modelDocument path ds vs) {} = .ok {
      statics := ds
      calculated := vs.map CalculatedVariable.toDeclaration
      calculations := vs.map fun v => (v.key, v.value.render indentStep) } := by
  have hinner (before margin heading body : Text) :
      (blockRegion before margin heading body).inner = body := by
    simp [Region.inner, blockRegion]
  have hregion {marker : Text} {r : Region}
      (hr : Region.locate (Text.lines (modelOf ds vs)) marker = .ok r) :
      Region.ofDocument (modelDocument path ds vs) marker = .ok r := by
    rw [Region.ofDocument, modelDocument, Document.lines_ofContent, hr]
    rfl
  have hschema : readSchema {} (blockRegion (schemaBefore (typeBody ds)
      (typeBody (vs.map CalculatedVariable.toDeclaration))) schemaMargin schemaHeading
      (schemaBody vs)).content = .ok (vs.map fun v => (v.key, v.value.render indentStep)) :=
    readSchema_schemaBody h.calculated
  simp only [Model.read, hregion h.locate_statics, hregion h.locate_calculated,
    hregion h.locate_schema, bind, Except.bind, hinner, readBlock_typeBody _ h.statics,
    readBlock_typeBody _ h.declarations, hschema]
  rfl

end WellFormed

end Scaffold.Env
