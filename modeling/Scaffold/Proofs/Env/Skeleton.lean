import Scaffold.Proofs.Env.Declaration
import Scaffold.Proofs.Script.Region

/-!
# The skeleton of a model

A model file that only the library has written is the skeleton with entries in its three blocks
(`modelText`).  The three headings start with capital letters that stand nowhere in front of them
(`heading_static`, `heading_calculated`, `heading_schema`): the blocks above hold declarations only,
and what the calculations hold stands below all headings.
-/

namespace Scaffold.Env

open Script

/-! ## The blocks of a model -/

/-- The given lines of a model without variables. -/
def skeletonPart (first count : Nat) : Text :=
  ((skeletonLines.drop first).take count).flatMap fun line => line.toList ++ ['\n']

/-- What stands in front of the name of a type. -/
def typeMargin : Text := "export type "

/-- What stands in front of the name of the calculations. -/
def schemaMargin : Text := "export const "

/-- The marker of a block without its brace. -/
def VariableKind.heading (kind : VariableKind) : Text := kind.marker.dropLast

/-- The marker of the calculations without its brace. -/
def schemaHeading : Text := schemaMarker.dropLast

/-- The lines in front of the static variables. -/
def preamble : Text := skeletonPart 0 2

/-- What stands between the static and the calculated variables. -/
def blockEnd : Text := [';', '\n']

/-- What stands between the calculated variables and the calculations. -/
def middle : Text := blockEnd ++ skeletonPart 8 11

/-- What stands behind the calculations. -/
def ending : Text := (blockEnd ++ skeletonPart 22 4).dropLast

/-- The lines in front of the calculated variables. -/
def calculatedBefore (statics : Text) : Text :=
  blockText preamble typeMargin VariableKind.static.heading statics blockEnd

/-- The lines in front of the calculations. -/
def schemaBefore (statics calculated : Text) : Text :=
  blockText (calculatedBefore statics) typeMargin VariableKind.calculated.heading calculated middle

/-- The text of a model with the insides of its three blocks, up to the newline that ends it. -/
def modelText (statics calculated schema : Text) : Text :=
  blockText (schemaBefore statics calculated) schemaMargin schemaHeading schema ending

/-- Lines with three blocks, put together. -/
private theorem flatMap_blocks (a b d : List String) {e x y z k : String} {X Y Z K : Text}
    (he : e.toList = []) (hx : x.toList = X) (hy : y.toList = Y) (hz : z.toList = Z)
    (hk : k.toList = K) :
    (a ++ e :: x :: k :: e :: y :: k :: (b ++ e :: z :: k :: d)).flatMap
        (fun line => line.toList ++ ['\n']) =
      a.flatMap (fun line => line.toList ++ ['\n']) ++ '\n' :: (X ++ '\n' :: (K ++ '\n' :: '\n' ::
        (Y ++ '\n' :: (K ++ '\n' :: (b.flatMap (fun line => line.toList ++ ['\n']) ++ '\n' ::
          (Z ++ '\n' :: (K ++ '\n' :: d.flatMap fun line => line.toList ++ ['\n']))))))) := by
  simp [← hx, ← hy, ← hz, ← hk, he]

/-- The skeleton is the model whose blocks are empty. -/
theorem skeleton_eq : skeleton = modelText ['\n'] ['\n'] ['\n'] ++ ['\n'] := by
  have hlines : skeletonLines =
      (skeletonLines.drop 0).take 2 ++ "" :: "export type StaticGlobalEnvironment = \x7b" ::
        "\x7d;" :: "" :: "export type CalculatedGlobalEnvironment = \x7b" :: "\x7d;" ::
        ((skeletonLines.drop 8).take 11 ++
          "" :: "export const calculationSchemaFor: CalculationSchema = \x7b" :: "\x7d;" ::
          (skeletonLines.drop 22).take 4) := rfl
  have hending : ending ++ ['\n'] = blockEnd ++ skeletonPart 22 4 := by decide
  have hstatic : "export type StaticGlobalEnvironment = \x7b".toList =
      typeMargin ++ (VariableKind.static.heading ++ ['\x7b']) := by decide
  have hcalculated : "export type CalculatedGlobalEnvironment = \x7b".toList =
      typeMargin ++ (VariableKind.calculated.heading ++ ['\x7b']) := by decide
  have hschema : "export const calculationSchemaFor: CalculationSchema = \x7b".toList =
      schemaMargin ++ (schemaHeading ++ ['\x7b']) := by decide
  have hclose : "\x7d;".toList = '\x7d' :: [';'] := by decide
  have hblocks := flatMap_blocks ((skeletonLines.drop 0).take 2) ((skeletonLines.drop 8).take 11)
    ((skeletonLines.drop 22).take 4) (e := "") rfl hstatic hcalculated hschema hclose
  refine (congrArg (List.flatMap _) hlines).trans (hblocks.trans ?_)
  simp only [modelText, schemaBefore, calculatedBefore, blockText, middle, preamble,
    List.append_assoc, List.cons_append, hending]
  rfl

theorem marker_eq (kind : VariableKind) : kind.marker = kind.heading ++ ['\x7b'] := by
  cases kind <;> decide

theorem schemaMarker_eq : schemaMarker = schemaHeading ++ ['\x7b'] := by decide

/-- The model around its static variables. -/
theorem modelText_statics (s c f : Text) :
    modelText s c f = blockText preamble typeMargin VariableKind.static.heading s
      (blockEnd ++ '\n' :: (typeMargin ++ (VariableKind.calculated.heading ++ '\x7b' ::
        (c ++ '\x7d' :: (middle ++ '\n' :: (schemaMargin ++ (schemaHeading ++ '\x7b' ::
          (f ++ '\x7d' :: ending)))))))) := by
  simp only [modelText, schemaBefore, calculatedBefore, blockText, List.append_assoc,
    List.cons_append]

/-- The model around its calculated variables. -/
theorem modelText_calculated (s c f : Text) :
    modelText s c f = blockText (calculatedBefore s) typeMargin VariableKind.calculated.heading c
      (middle ++ '\n' :: (schemaMargin ++ (schemaHeading ++ '\x7b' :: (f ++ '\x7d' :: ending)))) := by
  simp only [modelText, schemaBefore, blockText, List.append_assoc, List.cons_append]

/-! ## The headings -/

/-- A text of declarations, semicolons and newlines. -/
def IsTypeBody (t : Text) : Prop := ∀ c ∈ t, isDeclarationChar c = true ∨ c = ';' ∨ c = '\n'

theorem IsTypeBody.notMem {t : Text} (h : IsTypeBody t) {c : Char} (hc : c = 'C' ∨ c = 'F') :
    c ∉ t := by
  intro hmem
  rcases hc with rfl | rfl
  · rcases h _ hmem with h | h | h <;> cases h
  · rcases h _ hmem with h | h | h <;> cases h

theorem heading_static : Heading preamble typeMargin VariableKind.static.heading where
  first := ⟨'S', [], VariableKind.static.heading.drop 1, by decide, by decide, by decide, by decide⟩
  oneLine := by decide
  flush := ⟨'e', typeMargin.drop 1, by decide, by decide⟩

theorem heading_calculated {s : Text} (hs : IsTypeBody s) :
    Heading (calculatedBefore s) typeMargin VariableKind.calculated.heading where
  first := by
    have hbefore : 'C' ∉ calculatedBefore s :=
      notMem_blockText (by decide) (by decide) (hs.notMem (.inl rfl)) (by decide)
    exact ⟨'C', [], VariableKind.calculated.heading.drop 1, by decide, by decide, hbefore, by decide⟩
  oneLine := by decide
  flush := ⟨'e', typeMargin.drop 1, by decide, by decide⟩

theorem heading_schema {s c : Text} (hs : IsTypeBody s) (hc : IsTypeBody c) :
    Heading (schemaBefore s c) schemaMargin schemaHeading where
  first := by
    have hstatics : 'F' ∉ calculatedBefore s :=
      notMem_blockText (by decide) (by decide) (hs.notMem (.inr rfl)) (by decide)
    have hmiddle : 'F' ∉ middle := by decide +kernel
    have hbefore : 'F' ∉ schemaBefore s c :=
      notMem_blockText (by decide) ⟨hstatics, by decide, by decide⟩ (hc.notMem (.inr rfl)) hmiddle
    exact ⟨'F', "calculationSchema".toList, schemaHeading.drop 18, by decide, by decide, hbefore,
      by decide⟩
  oneLine := by decide
  flush := ⟨'e', schemaMargin.drop 1, by decide, by decide⟩

end Scaffold.Env
