import Scaffold.Proofs.Yaml.Block
import Scaffold.Proofs.Yaml.Meaning

/-!
# From tokens to values

The tokens of a written value are read as a node that `Denotes` the value, and such a node has the
value as its meaning (`Value.ofNode_of_denotes`).  Every reader of nodes may take three steps for
each token, which bounds all of them alike.
-/

namespace Scaffold.Yaml

open Node

/-! ## Nodes of a value -/

mutual

/-- A node without anchors and tags that writes a value. -/
inductive Denotes {α : Type} : Value → Node α → Prop
  | scalar {v : Value} {plain : Bool} {t : Text} (h : Value.ofScalar? none plain t = some v) :
    Denotes v (.scalar none none plain t)
  | sequence {items : List Value} {nodes : List (Node α)} (h : DenoteItems items nodes) :
    Denotes (.sequence items) (.sequence none none nodes)
  | mapping {entries : List (Value × Value)} {nodes : List (Node α × Node α)}
    (h : DenoteEntries entries nodes) : Denotes (.mapping entries) (.mapping none none nodes)

/-- Nodes that write items. -/
inductive DenoteItems {α : Type} : List Value → List (Node α) → Prop
  | nil : DenoteItems [] []
  | cons {item : Value} {items : List Value} {node : Node α} {nodes : List (Node α)}
    (h : Denotes item node) (hs : DenoteItems items nodes) :
    DenoteItems (item :: items) (node :: nodes)

/-- Nodes that write entries. -/
inductive DenoteEntries {α : Type} : List (Value × Value) → List (Node α × Node α) → Prop
  | nil : DenoteEntries [] []
  | cons {key value : Value} {entries : List (Value × Value)} {k v : Node α}
    {nodes : List (Node α × Node α)} (hkey : Denotes key k) (hvalue : Denotes value v)
    (hs : DenoteEntries entries nodes) : DenoteEntries ((key, value) :: entries) ((k, v) :: nodes)

end

/-! ## Reading one token -/

/-- A token that starts the node of a basic value. -/
def Token.startsNode : Token → Bool
  | .scalar .. | .openList | .openMap | .blockSequence | .blockMapping => true
  | _ => false

/-- The tokens start with a node. -/
def startsNode (ts : List Token) : Bool := ts.head?.any Token.startsNode

section

variable (handles : Handles) (fuel : Nat) (place : Place) (ts : List Token)

theorem read?_scalar (plain : Bool) (t : Text) :
    Node.read? handles (fuel + 1) place (.scalar plain t :: ts) =
      some (.scalar none none plain t, ts) := rfl

theorem read?_openList : Node.read? handles (fuel + 1) place (.openList :: ts) =
    (readList? handles fuel true ts).bind fun r => some (.sequence none none r.1, r.2) := rfl

theorem read?_openMap : Node.read? handles (fuel + 1) place (.openMap :: ts) =
    (readMap? handles fuel true ts).bind fun r => some (.mapping none none r.1, r.2) := rfl

theorem read?_blockSequence (h : place.block = true) :
    Node.read? handles (fuel + 1) place (.blockSequence :: ts) =
      (readSequence? handles fuel ts).bind fun r => some (.sequence none none r.1, r.2) := by
  obtain ⟨block, unindented⟩ := place
  obtain rfl : block = true := h
  cases unindented <;> rfl

theorem read?_blockMapping (h : place.block = true) :
    Node.read? handles (fuel + 1) place (.blockMapping :: ts) =
      (readMapping? handles fuel ts).bind fun r => some (.mapping none none r.1, r.2) := by
  obtain ⟨block, unindented⟩ := place
  obtain rfl : block = true := h
  cases unindented <;> rfl

theorem readList?_comma : readList? handles (fuel + 1) false (.comma :: ts) =
    readList? handles (fuel + 1) true ts := by
  cases ts with
  | nil => rfl
  | cons t ts => cases t <;> rfl

theorem readMap?_comma : readMap? handles (fuel + 1) false (.comma :: ts) =
    readMap? handles (fuel + 1) true ts := by
  cases ts with
  | nil => rfl
  | cons t ts => cases t <;> rfl

/-- An entry of a flow mapping: its value stands between the colon and the next comma. -/
theorem readMap?_key (plain : Bool) (t : Text) :
    readMap? handles (fuel + 3) true (.key :: .scalar plain t :: .value :: ts) =
      (readUnless? handles (fuel + 1) [.comma, .closeMap] .flow ts).bind fun r =>
        (readMap? handles (fuel + 2) false r.2).bind fun rs =>
          some ((.scalar none none plain t, r.1) :: rs.1, rs.2) := rfl

/-- An entry of a block mapping: its value stands between the colon and the next key. -/
theorem readMapping?_key (plain : Bool) (t : Text) :
    readMapping? handles (fuel + 3) (.key :: .scalar plain t :: .value :: ts) =
      (readUnless? handles (fuel + 1) [.key, .value, .blockEnd] .member ts).bind fun r =>
        (readMapping? handles (fuel + 2) r.2).bind fun rs =>
          some ((.scalar none none plain t, r.1) :: rs.1, rs.2) := rfl

/-- An item of a block sequence stands between its dash and the next one. -/
theorem readSequence?_dash : readSequence? handles (fuel + 1) (.dash :: ts) =
    (readUnless? handles fuel [.dash, .blockEnd] .item ts).bind fun r =>
      (readSequence? handles fuel r.2).bind fun rs => some (r.1 :: rs.1, rs.2) := rfl

variable {ts}

theorem readList?_item (h : startsNode ts = true) : readList? handles (fuel + 1) true ts =
    (Node.read? handles fuel .flow ts).bind fun r =>
      (readList? handles fuel false r.2).bind fun rs => some (r.1 :: rs.1, rs.2) := by
  cases ts with
  | nil => cases h
  | cons t ts => cases t <;> first | rfl | cases h

theorem readUnless?_eq {ends : List Token} (h : startsNode ts = true)
    (hends : ∀ t ∈ ends, t.startsNode = false) :
    readUnless? handles (fuel + 1) ends place ts = Node.read? handles fuel place ts := by
  have hat : atAny ends ts = false := by
    cases ts with
    | nil => rfl
    | cons t ts =>
      refine Bool.eq_false_iff.2 fun hat => ?_
      have hfalse := hends t (by simpa [atAny] using hat)
      exact absurd (h.symm.trans hfalse) (by decide)
  rw [readUnless?, hat, if_neg Bool.false_ne_true]

end

theorem startsNode_inline (v : Value) (ts : List Token) :
    startsNode (v.inlineTokens ++ ts) = true := by
  cases v <;> rfl

theorem startsNode_dashed (v : Value) (ts : List Token) :
    startsNode (v.dashedTokens ++ ts) = true := by
  unfold Value.dashedTokens
  split
  · rfl
  · exact startsNode_inline _ ts

/-- Behind a value of a block mapping the next key or the end of the mapping stands. -/
theorem atAny_entries (entries : List (Value × Value)) (ts : List Token) :
    atAny [.key, .value, .blockEnd] (Value.nestedEntryTokens entries ++ .blockEnd :: ts) =
      true := by
  cases entries <;> rfl

/-- A key is read as a scalar. -/
theorem denotes_key {key : Value} (h : key.isKey = true) :
    ∃ plain t, key.inlineTokens = [.scalar plain t] ∧
      Denotes key (Node.scalar none none plain t : Node Text) := by
  obtain ⟨plain, t, -, -, htokens, -⟩ := Value.spells_key h
  exact ⟨plain, t, htokens, .scalar (Value.ofScalar?_inline (Value.isBasic_of_isKey h) htokens)⟩

/-! ## Values on one line -/

section

variable (handles : Handles)

mutual

/-- The tokens of a value on one line are read as a node for it. -/
theorem read?_inline (v : Value) (hv : v.isBasic = true) :
    ∃ node, Denotes v node ∧ ∀ ⦃fuel place rest⦄, 3 * v.inlineTokens.length ≤ fuel →
      Node.read? handles fuel place (v.inlineTokens ++ rest) = some (node, rest) := by
  match v with
  | .sequence items =>
    obtain ⟨nodes, hnodes, hread⟩ := readList?_items items hv
    refine ⟨_, .sequence hnodes, fun fuel place rest hfuel => ?_⟩
    simp only [Value.inlineTokens, List.length_append, List.length_cons, List.length_nil] at hfuel
    obtain ⟨fuel, rfl⟩ : ∃ n, fuel = n + 1 := ⟨fuel - 1, by omega⟩
    rw [Value.inlineTokens, List.append_assoc, List.cons_append, read?_openList,
      List.singleton_append, hread (by omega)]
    rfl
  | .mapping entries =>
    simp only [Value.isBasic, Bool.and_eq_true] at hv
    obtain ⟨nodes, hnodes, hread⟩ := readMap?_entries entries hv.2
    refine ⟨_, .mapping hnodes, fun fuel place rest hfuel => ?_⟩
    simp only [Value.inlineTokens, List.length_append, List.length_cons, List.length_nil] at hfuel
    obtain ⟨fuel, rfl⟩ : ∃ n, fuel = n + 1 := ⟨fuel - 1, by omega⟩
    rw [Value.inlineTokens, List.append_assoc, List.cons_append, read?_openMap,
      List.singleton_append, hread (by omega)]
    rfl
  | .null | .boolean _ | .whole _ | .text _ =>
    obtain ⟨plain, t, -, htokens⟩ := (Value.spells_inline hv).resolve_right (by simp)
    refine ⟨_, .scalar (Value.ofScalar?_inline hv htokens), fun fuel place rest hfuel => ?_⟩
    rw [htokens, List.length_singleton] at hfuel
    obtain ⟨fuel, rfl⟩ : ∃ n, fuel = n + 1 := ⟨fuel - 1, by omega⟩
    rw [htokens]
    exact read?_scalar handles fuel place rest plain t

/-- The tokens of items between brackets are read as nodes for them. -/
theorem readList?_items (items : List Value) (hitems : Value.areBasic items = true) :
    ∃ nodes, DenoteItems items nodes ∧
      ∀ ⦃fuel rest⦄, 3 * (Value.itemTokens items).length + 2 ≤ fuel →
        readList? handles fuel true (Value.itemTokens items ++ .closeList :: rest) =
          some (nodes, rest) := by
  match items with
  | [] =>
    refine ⟨_, .nil, fun fuel rest hfuel => ?_⟩
    obtain ⟨fuel, rfl⟩ : ∃ n, fuel = n + 1 := ⟨fuel - 1, by omega⟩
    rfl
  | [item] =>
    have hitem : item.isBasic = true := by simpa [Value.areBasic] using hitems
    obtain ⟨node, hnode, hread⟩ := read?_inline item hitem
    refine ⟨_, .cons hnode .nil, fun fuel rest hfuel => ?_⟩
    simp only [Value.itemTokens] at hfuel ⊢
    obtain ⟨fuel, rfl⟩ : ∃ n, fuel = n + 2 := ⟨fuel - 2, by omega⟩
    rw [readList?_item _ _ (startsNode_inline item _), hread (by omega)]
    rfl
  | item :: next :: items =>
    rw [Value.areBasic, Bool.and_eq_true] at hitems
    obtain ⟨node, hnode, hread⟩ := read?_inline item hitems.1
    obtain ⟨nodes, hnodes, hreads⟩ := readList?_items (next :: items) hitems.2
    have htokens : Value.itemTokens (item :: next :: items) =
        item.inlineTokens ++ .comma :: Value.itemTokens (next :: items) := rfl
    refine ⟨_, .cons hnode hnodes, fun fuel rest hfuel => ?_⟩
    rw [htokens, List.length_append, List.length_cons] at hfuel
    obtain ⟨fuel, rfl⟩ : ∃ n, fuel = n + 2 := ⟨fuel - 2, by omega⟩
    rw [htokens, List.append_assoc, readList?_item _ _ (startsNode_inline item _),
      hread (by omega), Option.bind_some, List.cons_append, readList?_comma, hreads (by omega)]
    rfl

/-- The tokens of entries between braces are read as nodes for them. -/
theorem readMap?_entries (entries : List (Value × Value))
    (hentries : Value.haveBasic entries = true) :
    ∃ nodes, DenoteEntries entries nodes ∧
      ∀ ⦃fuel rest⦄, 3 * (Value.entryTokens entries).length + 2 ≤ fuel →
        readMap? handles fuel true (Value.entryTokens entries ++ .closeMap :: rest) =
          some (nodes, rest) := by
  match entries with
  | [] =>
    refine ⟨_, .nil, fun fuel rest hfuel => ?_⟩
    obtain ⟨fuel, rfl⟩ : ∃ n, fuel = n + 1 := ⟨fuel - 1, by omega⟩
    rfl
  | [(key, value)] =>
    simp only [Value.haveBasic, Bool.and_eq_true] at hentries
    obtain ⟨⟨hkey, hvalue⟩, -⟩ := hentries
    obtain ⟨node, hnode, hread⟩ := read?_inline value hvalue
    obtain ⟨plain, t, htext, hkeyNode⟩ := denotes_key hkey
    have htokens : Value.entryTokens [(key, value)] =
        .key :: .scalar plain t :: .value :: value.inlineTokens := by
      simp [Value.entryTokens, htext]
    refine ⟨_, .cons hkeyNode hnode .nil, fun fuel rest hfuel => ?_⟩
    simp only [htokens, List.length_cons] at hfuel
    obtain ⟨fuel, rfl⟩ : ∃ n, fuel = n + 3 := ⟨fuel - 3, by omega⟩
    rw [htokens, List.cons_append, List.cons_append, List.cons_append, readMap?_key,
      readUnless?_eq _ _ _ (startsNode_inline value _) (by decide), hread (by omega)]
    rfl
  | (key, value) :: next :: entries =>
    rw [Value.haveBasic, Bool.and_eq_true, Bool.and_eq_true] at hentries
    obtain ⟨⟨hkey, hvalue⟩, hrest⟩ := hentries
    obtain ⟨node, hnode, hread⟩ := read?_inline value hvalue
    obtain ⟨nodes, hnodes, hreads⟩ := readMap?_entries (next :: entries) hrest
    obtain ⟨plain, t, htext, hkeyNode⟩ := denotes_key hkey
    have htokens : Value.entryTokens ((key, value) :: next :: entries) =
        .key :: .scalar plain t :: .value ::
          (value.inlineTokens ++ .comma :: Value.entryTokens (next :: entries)) := by
      simp [Value.entryTokens, htext]
    refine ⟨_, .cons hkeyNode hnode hnodes, fun fuel rest hfuel => ?_⟩
    simp only [htokens, List.length_cons, List.length_append] at hfuel
    obtain ⟨fuel, rfl⟩ : ∃ n, fuel = n + 3 := ⟨fuel - 3, by omega⟩
    rw [htokens, List.cons_append, List.cons_append, List.cons_append, List.append_assoc,
      readMap?_key, readUnless?_eq _ _ _ (startsNode_inline value _) (by decide),
      hread (by omega), Option.bind_some, List.cons_append, readMap?_comma, hreads (by omega)]
    rfl

end

/-! ## Values over several lines -/

mutual

/-- The tokens behind a key are read as a node for its value, up to the next key. -/
theorem readUnless?_nested (v : Value) (hv : v.isBasic = true) :
    ∃ node, Denotes v node ∧ ∀ ⦃fuel rest⦄, 3 * v.nestedTokens.length + 1 ≤ fuel →
      atAny [.key, .value, .blockEnd] rest = true →
        readUnless? handles fuel [.key, .value, .blockEnd] .member (v.nestedTokens ++ rest) =
          some (node, rest) := by
  match v with
  | .null =>
    have hnull : Value.ofScalar? none true [] = some .null := rfl
    refine ⟨_, .scalar hnull, fun fuel rest hfuel hrest => ?_⟩
    obtain ⟨fuel, rfl⟩ : ∃ n, fuel = n + 1 := ⟨fuel - 1, by omega⟩
    rw [Value.nestedTokens, List.nil_append, readUnless?, hrest, if_pos rfl]
    rfl
  | .sequence (item :: items) =>
    obtain ⟨nodes, hnodes, hread⟩ := readSequence?_items (item :: items) hv
    refine ⟨_, .sequence hnodes, fun fuel rest hfuel _ => ?_⟩
    simp only [Value.nestedTokens, List.length_append, List.length_cons, List.length_nil] at hfuel
    obtain ⟨fuel, rfl⟩ : ∃ n, fuel = n + 2 := ⟨fuel - 2, by omega⟩
    rw [Value.nestedTokens, List.append_assoc, List.cons_append,
      readUnless?_eq _ _ _ rfl (by decide), read?_blockSequence _ _ _ _ rfl,
      List.singleton_append, hread (by omega)]
    rfl
  | .mapping (entry :: entries) =>
    simp only [Value.isBasic, Bool.and_eq_true] at hv
    obtain ⟨nodes, hnodes, hread⟩ := readMapping?_entries (entry :: entries) hv.2
    refine ⟨_, .mapping hnodes, fun fuel rest hfuel _ => ?_⟩
    simp only [Value.nestedTokens, List.length_append, List.length_cons, List.length_nil] at hfuel
    obtain ⟨fuel, rfl⟩ : ∃ n, fuel = n + 2 := ⟨fuel - 2, by omega⟩
    rw [Value.nestedTokens, List.append_assoc, List.cons_append,
      readUnless?_eq _ _ _ rfl (by decide), read?_blockMapping _ _ _ _ rfl,
      List.singleton_append, hread (by omega)]
    rfl
  | .sequence [] | .mapping [] | .boolean _ | .whole _ | .text _ =>
    obtain ⟨node, hnode, hread⟩ := read?_inline handles _ hv
    refine ⟨node, hnode, fun fuel rest hfuel _ => ?_⟩
    obtain ⟨fuel, rfl⟩ : ∃ n, fuel = n + 1 := ⟨fuel - 1, by omega⟩
    exact (readUnless?_eq _ _ _ (startsNode_inline _ rest) (by decide)).trans
      (hread (Nat.le_of_succ_le_succ hfuel))

/-- The tokens of items behind dashes are read as nodes for them. -/
theorem readSequence?_items (items : List Value) (hitems : Value.areBasic items = true) :
    ∃ nodes, DenoteItems items nodes ∧
      ∀ ⦃fuel rest⦄, 3 * (Value.nestedItemTokens items).length + 1 ≤ fuel →
        readSequence? handles fuel (Value.nestedItemTokens items ++ .blockEnd :: rest) =
          some (nodes, rest) := by
  match items with
  | [] =>
    refine ⟨_, .nil, fun fuel rest hfuel => ?_⟩
    obtain ⟨fuel, rfl⟩ : ∃ n, fuel = n + 1 := ⟨fuel - 1, by omega⟩
    rfl
  | item :: items =>
    rw [Value.areBasic, Bool.and_eq_true] at hitems
    obtain ⟨node, hnode, hread⟩ := read?_dashed item hitems.1
    obtain ⟨nodes, hnodes, hreads⟩ := readSequence?_items items hitems.2
    refine ⟨_, .cons hnode hnodes, fun fuel rest hfuel => ?_⟩
    simp only [Value.nestedItemTokens, List.length_append, List.length_cons] at hfuel
    obtain ⟨fuel, rfl⟩ : ∃ n, fuel = n + 2 := ⟨fuel - 2, by omega⟩
    rw [Value.nestedItemTokens, List.append_assoc, List.cons_append, readSequence?_dash,
      readUnless?_eq _ _ _ (startsNode_dashed item _) (by decide), hread (by omega),
      Option.bind_some, hreads (by omega)]
    rfl

/-- The tokens of an item behind its dash are read as a node for it. -/
theorem read?_dashed (v : Value) (hv : v.isBasic = true) :
    ∃ node, Denotes v node ∧ ∀ ⦃fuel rest⦄, 3 * v.dashedTokens.length ≤ fuel →
      Node.read? handles fuel .item (v.dashedTokens ++ rest) = some (node, rest) := by
  match v with
  | .mapping (entry :: entries) =>
    simp only [Value.isBasic, Bool.and_eq_true] at hv
    obtain ⟨nodes, hnodes, hread⟩ := readMapping?_entries (entry :: entries) hv.2
    refine ⟨_, .mapping hnodes, fun fuel rest hfuel => ?_⟩
    simp only [Value.dashedTokens, List.length_append, List.length_cons, List.length_nil] at hfuel
    obtain ⟨fuel, rfl⟩ : ∃ n, fuel = n + 1 := ⟨fuel - 1, by omega⟩
    rw [Value.dashedTokens, List.append_assoc, List.cons_append, read?_blockMapping _ _ _ _ rfl,
      List.singleton_append, hread (by omega)]
    rfl
  | .mapping [] | .null | .sequence _ | .boolean _ | .whole _ | .text _ =>
    obtain ⟨node, hnode, hread⟩ := read?_inline handles _ hv
    exact ⟨node, hnode, fun fuel rest hfuel => hread hfuel⟩

/-- The tokens of entries on lines of their own are read as nodes for them. -/
theorem readMapping?_entries (entries : List (Value × Value))
    (hentries : Value.haveBasic entries = true) :
    ∃ nodes, DenoteEntries entries nodes ∧
      ∀ ⦃fuel rest⦄, 3 * (Value.nestedEntryTokens entries).length + 1 ≤ fuel →
        readMapping? handles fuel (Value.nestedEntryTokens entries ++ .blockEnd :: rest) =
          some (nodes, rest) := by
  match entries with
  | [] =>
    refine ⟨_, .nil, fun fuel rest hfuel => ?_⟩
    obtain ⟨fuel, rfl⟩ : ∃ n, fuel = n + 1 := ⟨fuel - 1, by omega⟩
    rfl
  | (key, value) :: entries =>
    simp only [Value.haveBasic, Bool.and_eq_true] at hentries
    obtain ⟨⟨hkey, hvalue⟩, hrest⟩ := hentries
    obtain ⟨node, hnode, hread⟩ := readUnless?_nested value hvalue
    obtain ⟨nodes, hnodes, hreads⟩ := readMapping?_entries entries hrest
    obtain ⟨plain, t, htext, hkeyNode⟩ := denotes_key hkey
    have htokens : Value.nestedEntryTokens ((key, value) :: entries) =
        .key :: .scalar plain t :: .value ::
          (value.nestedTokens ++ Value.nestedEntryTokens entries) := by
      simp [Value.nestedEntryTokens, htext]
    refine ⟨_, .cons hkeyNode hnode hnodes, fun fuel rest hfuel => ?_⟩
    simp only [htokens, List.length_cons, List.length_append] at hfuel
    obtain ⟨fuel, rfl⟩ : ∃ n, fuel = n + 3 := ⟨fuel - 3, by omega⟩
    rw [htokens, List.cons_append, List.cons_append, List.cons_append, List.append_assoc,
      readMapping?_key, hread (by omega) (atAny_entries entries rest), Option.bind_some,
      hreads (by omega)]
    rfl

end

end

/-- The tokens of a document of entries are read as a node for the mapping. -/
theorem ofTokens?_entries {entries : List (Value × Value)} (h : Value.haveBasic entries = true) :
    ∃ node, Denotes (.mapping entries) node ∧
      ofTokens? (.blockMapping :: Value.nestedEntryTokens entries ++ [.blockEnd]) = some node := by
  obtain ⟨nodes, hnodes, hread⟩ := readMapping?_entries Handles.usual entries h
  refine ⟨_, .mapping hnodes, ?_⟩
  have hnode {fuel : Nat} (hfuel : 3 * (Value.nestedEntryTokens entries).length + 2 ≤ fuel) :
      Node.read? Handles.usual fuel .item
        (.blockMapping :: (Value.nestedEntryTokens entries ++ [.blockEnd])) =
          some (.mapping none none nodes, []) := by
    obtain ⟨fuel, rfl⟩ : ∃ n, fuel = n + 1 := ⟨fuel - 1, by omega⟩
    rw [read?_blockMapping _ _ _ _ rfl, hread (by omega)]
    rfl
  rw [ofTokens?.eq_def]
  simp only [List.cons_append]
  rw [hnode (by simp; omega)]
  rfl

/-! ## Names of anchors -/

mutual

/-- Without anchors a node keeps what it denotes. -/
theorem number?_of_denotes {v : Value} {node : Node Text} (h : Denotes v node) (names : Names) :
    ∃ node' : Node Nat, number? names node = some (node', names) ∧ Denotes v node' := by
  match h with
  | .scalar h => exact ⟨_, rfl, .scalar h⟩
  | .sequence hs =>
    obtain ⟨nodes, hnumber, hdenote⟩ := numberItems?_of_denote hs names
    exact ⟨.sequence none none nodes, by simp [number?, numberAnchor, hnumber], .sequence hdenote⟩
  | .mapping hs =>
    obtain ⟨nodes, hnumber, hdenote⟩ := numberEntries?_of_denote hs names
    exact ⟨.mapping none none nodes, by simp [number?, numberAnchor, hnumber], .mapping hdenote⟩

theorem numberItems?_of_denote {items : List Value} {nodes : List (Node Text)}
    (h : DenoteItems items nodes) (names : Names) :
    ∃ nodes' : List (Node Nat), numberItems? names nodes = some (nodes', names) ∧
      DenoteItems items nodes' := by
  match h with
  | .nil => exact ⟨[], rfl, .nil⟩
  | .cons h hs =>
    obtain ⟨node, hnumber, hdenote⟩ := number?_of_denotes h names
    obtain ⟨nodes, hnumbers, hdenotes⟩ := numberItems?_of_denote hs names
    exact ⟨node :: nodes, by simp [numberItems?, hnumber, hnumbers], .cons hdenote hdenotes⟩

theorem numberEntries?_of_denote {entries : List (Value × Value)}
    {nodes : List (Node Text × Node Text)} (h : DenoteEntries entries nodes) (names : Names) :
    ∃ nodes' : List (Node Nat × Node Nat), numberEntries? names nodes = some (nodes', names) ∧
      DenoteEntries entries nodes' := by
  match h with
  | .nil => exact ⟨[], rfl, .nil⟩
  | .cons hkey hvalue hs =>
    obtain ⟨k, hk, hdenote⟩ := number?_of_denotes hkey names
    obtain ⟨v, hv, hdenote'⟩ := number?_of_denotes hvalue names
    obtain ⟨nodes, hnumbers, hdenotes⟩ := numberEntries?_of_denote hs names
    exact ⟨(k, v) :: nodes, by simp [numberEntries?, hk, hv, hnumbers],
      .cons hdenote hdenote' hdenotes⟩

end

/-! ## Meaning -/

namespace Value

mutual

/-- How many collections stand inside one another. -/
def depth : Value → Nat
  | .sequence items => depthItems items + 1
  | .mapping entries => depthEntries entries + 1
  | .tagged _ value => depth value
  | _ => 0

/-- The greatest depth of an item. -/
def depthItems : List Value → Nat
  | [] => 0
  | item :: items => max (depth item) (depthItems items)

/-- The greatest depth of a key or value. -/
def depthEntries : List (Value × Value) → Nat
  | [] => 0
  | (key, value) :: entries => max (max (depth key) (depth value)) (depthEntries entries)

end

theorem depthItems_le {items : List Value} {n : Nat} (h : ∀ item ∈ items, item.depth ≤ n) :
    depthItems items ≤ n := by
  induction items with
  | nil => exact Nat.zero_le n
  | cons item items ih =>
    obtain ⟨hitem, hitems⟩ := List.forall_mem_cons.1 h
    exact max_le hitem (ih hitems)

theorem depthEntries_le {entries : List (Value × Value)} {n : Nat}
    (h : ∀ e ∈ entries, e.1.depth ≤ n ∧ e.2.depth ≤ n) : depthEntries entries ≤ n := by
  induction entries with
  | nil => exact Nat.zero_le n
  | cons e entries ih =>
    obtain ⟨he, hentries⟩ := List.forall_mem_cons.1 h
    exact max_le (max_le he.1 he.2) (ih hentries)

/-- Two keys are the same if their texts are. -/
theorem beq_of_isKey {a b : Value} (ha : a.isKey = true) (hb : b.isKey = true) :
    (a == b) = (a.text? == b.text?) := by
  cases a with
  | text t =>
    cases b with
    | text u => rfl
    | _ => cases hb
  | _ => cases ha

variable {anchored : Anchored}

mutual

/-- A node has the value as its meaning that it denotes. -/
theorem ofNode_of_denotes {v : Value} {node : Node Nat} (h : Denotes v node) (hv : v.isBasic = true)
    {n : Nat} (hn : v.depth ≤ n) : ofNode anchored n node = pure v := by
  match h with
  | @Denotes.scalar _ v plain t h =>
    have hlift : (StateT.lift (ofScalar? none plain t) : Resolver Value) = pure v := by
      rw [h]
      rfl
    cases n <;> exact hlift
  | @Denotes.sequence _ items nodes hs =>
    obtain ⟨n, rfl⟩ : ∃ m, n = m + 1 := ⟨n - 1, by rw [depth] at hn; omega⟩
    show (nodes.mapM (ofNode anchored n) >>= fun vs => pure (.sequence vs) : Resolver Value) = _
    rw [mapM_of_denote hs hv (Nat.le_of_succ_le_succ hn)]
    rfl
  | @Denotes.mapping _ entries nodes hs =>
    simp only [isBasic, Bool.and_eq_true, decide_eq_true_eq] at hv
    obtain ⟨n, rfl⟩ : ∃ m, n = m + 1 := ⟨n - 1, by rw [depth] at hn; omega⟩
    show (ofEntries (ofNode anchored n) nodes >>= fun vs => pure (.mapping vs) :
      Resolver Value) = _
    have hentries := foldlM_of_denote hs hv.2 (Nat.le_of_succ_le_succ hn) [] (by simpa using hv.1)
      (by simp)
    rw [ofEntries, hentries]
    rfl

/-- Nodes have items as their meaning. -/
theorem mapM_of_denote {items : List Value} {nodes : List (Node Nat)}
    (h : DenoteItems items nodes) (hitems : areBasic items = true) {n : Nat}
    (hn : depthItems items ≤ n) : nodes.mapM (ofNode anchored n) = pure items := by
  match h with
  | .nil => rfl
  | .cons h hs =>
    rw [areBasic, Bool.and_eq_true] at hitems
    rw [depthItems] at hn
    rw [List.mapM_cons, ofNode_of_denotes h hitems.1 (by omega),
      mapM_of_denote hs hitems.2 (by omega)]
    rfl

/-- Nodes have entries as their meaning, behind entries with other keys. -/
theorem foldlM_of_denote {entries : List (Value × Value)} {nodes : List (Node Nat × Node Nat)}
    (h : DenoteEntries entries nodes) (hentries : haveBasic entries = true) {n : Nat}
    (hn : depthEntries entries ≤ n) (read : List (Value × Value))
    (hnodup : ((read ++ entries).map (·.1.text?)).Nodup) (hread : ∀ e ∈ read, e.1.isKey = true) :
    nodes.foldlM (fun read (k, v) => do
      let k ← ofNode anchored n k
      if read.any (·.1 == k) then failure
      else return read ++ [(k, ← ofNode anchored n v)]) read =
        (pure (read ++ entries) : Resolver (List (Value × Value))) := by
  match h with
  | .nil =>
    rw [List.append_nil]
    rfl
  | @DenoteEntries.cons _ key value entries k v nodes hkey hvalue hs =>
    rw [haveBasic, Bool.and_eq_true, Bool.and_eq_true] at hentries
    obtain ⟨⟨hiskey, hbasic⟩, hrest⟩ := hentries
    rw [depthEntries] at hn
    have hfresh : read.any (·.1 == key) = false := by
      refine List.any_eq_false.2 fun e he heq => ?_
      rw [beq_of_isKey (hread e he) hiskey] at heq
      rw [List.map_append, List.nodup_append] at hnodup
      exact hnodup.2.2 _ (List.mem_map_of_mem he) _ List.mem_cons_self (eq_of_beq heq)
    have hread' : ∀ e ∈ read ++ [(key, value)], e.1.isKey = true :=
      List.forall_mem_append.2 ⟨hread, by simpa using hiskey⟩
    have hrest' := foldlM_of_denote hs hrest (n := n) (by omega) (read ++ [(key, value)])
      (by simpa using hnodup) hread'
    rw [List.foldlM_cons]
    simp only [ofNode_of_denotes hkey (isBasic_of_isKey hiskey) (n := n) (by omega), pure_bind,
      hfresh, ofNode_of_denotes hvalue hbasic (n := n) (by omega)]
    simpa using hrest'

end

end Value

end Scaffold.Yaml
