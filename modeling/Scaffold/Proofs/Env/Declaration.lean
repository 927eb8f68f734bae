import Scaffold.Env.Model
import Scaffold.Proofs.Outcome
import Scaffold.Proofs.Script.Pieces

/-!
# Declarations read back what they write

`readBlock_typeBody`: the members of a written type block are read as the declarations, when their
keys may be declared.  Written declarations hold no capital letters, so that no heading of the model
stands inside a block.
-/

namespace Scaffold.Env

open Script

/-! ## Keys -/

/-- A character of a key that may be declared. -/
def isKeyChar (c : Char) : Bool := c.isLower || c.isDigit || c == '_'

/-- A key that may be declared starts with a small letter. -/
theorem isValidKey_iff {key : Text} :
    isValidKey key = true ↔ ∃ c t, key = c :: t ∧ c.isLower = true ∧ ∀ d ∈ t, isKeyChar d = true := by
  cases key with
  | nil => simp [isValidKey]
  | cons c t =>
    simp only [isValidKey, Bool.and_eq_true, List.all_eq_true, List.cons.injEq]
    constructor
    · rintro ⟨hc, ht⟩
      exact ⟨c, t, ⟨rfl, rfl⟩, hc, ht⟩
    · rintro ⟨c, t, ⟨rfl, rfl⟩, hc, ht⟩
      exact ⟨hc, ht⟩

theorem isKeyChar_of_mem {key : Text} (h : isValidKey key = true) {c : Char} (hc : c ∈ key) :
    isKeyChar c = true := by
  obtain ⟨d, t, rfl, hd, ht⟩ := isValidKey_iff.1 h
  rcases List.mem_cons.1 hc with rfl | hc
  · simp [isKeyChar, hd]
  · exact ht c hc

theorem isAlpha_of_isLower {c : Char} (h : c.isLower = true) : c.isAlpha = true :=
  Bool.or_eq_true_iff.2 (.inr h)

/-- Keys are made of letters, digits and underscores. -/
theorem isAlphanum_of_isKeyChar {c : Char} (h : isKeyChar c = true) :
    c.isAlphanum = true ∨ c = '_' := by
  simp only [isKeyChar, Bool.or_eq_true, beq_iff_eq] at h
  rcases h with (hlower | hdigit) | rfl
  · exact .inl (by simp [Char.isAlphanum, isAlpha_of_isLower hlower])
  · exact .inl (by simp [Char.isAlphanum, hdigit])
  · exact .inr rfl

theorem isBlank_of_isKeyChar {c : Char} (h : isKeyChar c = true) : isBlank c = false := by
  obtain halphanum | rfl := isAlphanum_of_isKeyChar h
  · exact isBlank_of_isAlphanum halphanum
  · rfl

/-! ## Texts -/

/-- A character of a written declaration. -/
def isDeclarationChar (c : Char) : Bool := isKeyChar c || c == '?' || c == ':' || c == ' '

theorem isDeclarationChar_of_mem {d : Declaration} (h : isValidKey d.key = true) {c : Char}
    (hc : c ∈ d.render) : isDeclarationChar c = true := by
  have htype : ∀ c ∈ d.type.name, isKeyChar c = true := by
    cases d.type <;> decide
  simp only [Declaration.render, List.mem_append] at hc
  rcases hc with ((hc | hc) | hc) | hc
  · simp [isDeclarationChar, isKeyChar_of_mem h hc]
  · split at hc
    · cases hc
    · rw [List.mem_singleton.1 hc]
      decide
  · exact (by decide : ∀ c ∈ ": ".toList, isDeclarationChar c = true) c hc
  · simp [isDeclarationChar, htype c hc]

/-- A written declaration may stand between commas and semicolons. -/
theorem isPiece_declaration {sep : Char} (hsep : isDeclarationChar sep = false) {d : Declaration}
    (h : isValidKey d.key = true) : IsPiece sep d.render := by
  obtain ⟨c, t, hkey, hc, -⟩ := isValidKey_iff.1 h
  refine .of_plain ?_ (fun c hc => isPlain_of_class (by decide) (isDeclarationChar_of_mem h hc)) ?_ ?_ ?_
  · simp [Declaration.render, hkey]
  · intro e he
    obtain rfl : c = e := by simpa [Declaration.render, hkey] using he
    exact isBlank_of_isKeyChar (by simp [isKeyChar, hc])
  · intro e he
    obtain ⟨x, hx, hblank⟩ : ∃ x, d.type.name.getLast? = some x ∧ isBlank x = false := by
      cases d.type <;> exact ⟨_, rfl, rfl⟩
    rw [Declaration.render, List.getLast?_append, hx] at he
    obtain rfl : x = e := Option.some.inj he
    exact hblank
  · intro hmem
    rw [isDeclarationChar_of_mem h hmem] at hsep
    cases hsep

/-! ## Reading -/

theorem ofText?_name (type : ValueType) : ValueType.ofText? (' ' :: type.name) = some type := by
  cases type <;> decide

/-- The key with its mark, when it is optional. -/
def markedKey (d : Declaration) : Text := d.key ++ if d.required then [] else ['?']

theorem render_eq (d : Declaration) : d.render = markedKey d ++ ':' :: ' ' :: d.type.name := by
  have hcolon : (": " : Text) = [':', ' '] := by decide
  rw [Declaration.render, hcolon, markedKey]
  simp

section

variable {d : Declaration} (h : isValidKey d.key = true)
include h

theorem mem_markedKey {c : Char} (hc : c ∈ markedKey d) : isKeyChar c = true ∨ c = '?' := by
  simp only [markedKey, List.mem_append] at hc
  rcases hc with hc | hc
  · exact .inl (isKeyChar_of_mem h hc)
  · split at hc
    · cases hc
    · exact .inr (List.mem_singleton.1 hc)

/-- The colon behind the key is the first one that divides a written declaration. -/
theorem splitKeyValue?_render :
    splitKeyValue? d.render = some (markedKey d, ' ' :: d.type.name) := by
  have hplain : ∀ c ∈ markedKey d, isPlain c = true := by
    intro c hc
    rcases mem_markedKey h hc with hc | rfl
    · exact isPlain_of_class (by decide) hc
    · rfl
  have hcolon : ':' ∉ markedKey d := by
    intro hc
    rcases mem_markedKey h hc with hc | hc <;> cases hc
  rw [render_eq]
  exact splitKeyValue?_of_balanced (.of_plain hplain) (.of_notMem hcolon) _

theorem trim_markedKey : Text.trim (markedKey d) = markedKey d := by
  refine Text.trim_of_notBlank fun c hc => ?_
  rcases mem_markedKey h hc with hc | rfl
  · exact isBlank_of_isKeyChar hc
  · rfl

/-- The mark stands behind the keys of optional variables only. -/
theorem getLast?_markedKey :
    ((markedKey d).getLast? == some '?') = !d.required := by
  cases hrequired : d.required with
  | true =>
    rw [Bool.not_true, beq_eq_false_iff_ne]
    intro hlast
    have hmem := List.mem_of_getLast? hlast
    simp only [markedKey, hrequired, if_true, List.append_nil] at hmem
    cases isKeyChar_of_mem h hmem
  | false => simp [markedKey, hrequired]

/-- A written declaration is read back. -/
theorem readDeclaration_render (kind : VariableKind) : readDeclaration kind d.render = .ok d := by
  rw [readDeclaration, splitKeyValue?_render h]
  simp only [Option.bind_eq_bind, Option.bind_some, ofText?_name, trim_markedKey h,
    getLast?_markedKey h]
  obtain ⟨key, required, type⟩ := d
  cases required with
  | true => simp [markedKey]
  | false =>
    have hend : Text.trimEnd key = key :=
      Text.trimEnd_of_notBlank fun c hc => isBlank_of_isKeyChar (isKeyChar_of_mem h hc)
    simp [markedKey, hend]

end

/-! ## Blocks -/

/-- What stands in front of a declaration: a new line and four blanks. -/
def memberIndent : Text := '\n' :: Text.spaces indentStep

theorem isBlank_memberIndent : IsBlank memberIndent := .newline (.spaces _)

/-- The members of a type block, with the semicolon behind each. -/
def members (ds : List Declaration) : Text :=
  endedLines ';' memberIndent [] (ds.map Declaration.render)

/-- The inside of a type block. -/
def typeBody (ds : List Declaration) : Text := members ds ++ ['\n']

section

variable {ds : List Declaration} (h : ∀ d ∈ ds, isValidKey d.key = true)
include h

theorem isPiece_of_mem_map {sep : Char} (hsep : isDeclarationChar sep = false) :
    ∀ t ∈ ds.map Declaration.render, IsPiece sep t := by
  intro t ht
  obtain ⟨d, hd, rfl⟩ := List.mem_map.1 ht
  exact isPiece_declaration hsep (h d hd)

theorem balanced_members : Balanced (members ds) :=
  balanced_endedLines (by decide) (isPiece_of_mem_map h rfl) isBlank_memberIndent .nil

theorem balanced_typeBody : Balanced (typeBody ds) := by
  have hnewline : IsBlank ['\n'] := .newline .nil
  exact (balanced_members h).append hnewline.balanced (hnewline.apart_right _)

/-- A type block holds no character but those of declarations, semicolons and newlines. -/
theorem mem_typeBody {c : Char} (hc : c ∈ typeBody ds) :
    isDeclarationChar c = true ∨ c = ';' ∨ c = '\n' := by
  simp only [typeBody, members, endedLines, List.mem_append, List.mem_flatMap, List.mem_map,
    List.mem_singleton] at hc
  rcases hc with ⟨t, ⟨d, hd, rfl⟩, (hc | hc) | hc⟩ | rfl
  · rcases List.mem_cons.1 hc with rfl | hc
    · exact .inr (.inr rfl)
    · rw [List.eq_of_mem_replicate hc]
      exact .inl rfl
  · exact .inl (isDeclarationChar_of_mem (h d hd) hc)
  · exact .inr (.inl hc)
  · exact .inr (.inr rfl)

end

/-- The members between separators are what has no separator. -/
theorem membersOf_endedLines {a y : Text} (ha : IsBlank a) (hy : IsBlank y) {ts : List Text}
    (hts : ∀ t ∈ ts, IsPiece ';' t ∧ IsPiece ',' t) :
    membersOf (endedLines ';' a [] ts ++ y) = ts := by
  induction ts with
  | nil =>
    have hfree (sep : Char) (hs : isBlank sep = false) : FreeOf sep y := .of_notMem fun hmem => by
      rw [hy sep hmem] at hs
      cases hs
    show membersOf y = []
    rw [membersOf, splitTopLevel_last (hfree ';' rfl), List.flatMap_singleton,
      splitTopLevel_last (hfree ',' rfl), List.map_singleton, trimCode_blank hy]
    rfl
  | cons t ts ih =>
    obtain ⟨⟨hsemi, hcomma⟩, hrest⟩ := List.forall_mem_cons.1 hts
    have hsplit : endedLines ';' a [] (t :: ts) ++ y =
        (a ++ t) ++ ';' :: (endedLines ';' a [] ts ++ y) := by
      simp [endedLines]
    have hbal : Balanced (a ++ t) := ha.balanced.append hsemi.balanced (ha.apart_left t)
    have hfree {sep : Char} (ht : IsPiece sep t) (hs : isBlank sep = false) : FreeOf sep (a ++ t) := by
      have := ht.freeOf_padded ha IsBlank.nil hs
      rwa [List.append_nil] at this
    have htrim : trimCode (a ++ t) = t := by
      have := trimCode_between_blanks ha hsemi.balanced IsBlank.nil
      rwa [List.append_nil, hsemi.trimmed] at this
    rw [hsplit, membersOf, splitTopLevel_separator (by decide) hbal (hfree hsemi rfl),
      List.flatMap_cons, splitTopLevel_last (hfree hcomma rfl), List.singleton_append, List.map_cons,
      htrim, List.filter_cons, if_pos (by simpa using hsemi.ne_nil)]
    exact congrArg (t :: ·) (ih hrest)

/-- The members of a written type block are read as the declarations. -/
theorem readBlock_typeBody (kind : VariableKind) {ds : List Declaration}
    (h : ∀ d ∈ ds, isValidKey d.key = true) : readBlock kind (typeBody ds) = .ok ds := by
  have hpieces : ∀ t ∈ ds.map Declaration.render, IsPiece ';' t ∧ IsPiece ',' t :=
    fun t ht => ⟨isPiece_of_mem_map h rfl t ht, isPiece_of_mem_map h rfl t ht⟩
  have hread : (ds.map Declaration.render).mapM (readDeclaration kind) = .ok ds :=
    mapM_map_of_ok fun d hd => readDeclaration_render (h d hd) kind
  rw [readBlock, typeBody, members,
    membersOf_endedLines isBlank_memberIndent (.newline .nil) hpieces, hread]

/-- A further member stands at the end of its block. -/
theorem members_concat (ds : List Declaration) (d : Declaration) :
    members (ds ++ [d]) = members ds ++ newEntries .semicolon indentStep [d.render] := by
  simp [members, endedLines, newEntries, memberIndent]

end Scaffold.Env
