import Scaffold.Proofs.Yaml.Flow

/-!
# Scanning values over several lines

A value that is written below a key or behind a dash is scanned as the tokens
`Value.nestedTokens`, with the indentation of its lines as brackets (`reads_nestedEntries`).  What
follows has to start in a column that is not behind the one of the collection, so that it ends the
collections inside.
-/

namespace Scaffold.Yaml

/-! ## Tokens -/

namespace Value

mutual

/-- The tokens of what follows a key and its colon. -/
def nestedTokens : Value → List Token
  | .null => []
  | .sequence (item :: items) => .blockSequence :: nestedItemTokens (item :: items) ++ [.blockEnd]
  | .mapping (entry :: entries) =>
    .blockMapping :: nestedEntryTokens (entry :: entries) ++ [.blockEnd]
  | value => value.inlineTokens

/-- The tokens of items behind dashes. -/
def nestedItemTokens : List Value → List Token
  | [] => []
  | item :: items => .dash :: dashedTokens item ++ nestedItemTokens items

/-- The tokens of an item behind its dash. -/
def dashedTokens : Value → List Token
  | .mapping (entry :: entries) =>
    .blockMapping :: nestedEntryTokens (entry :: entries) ++ [.blockEnd]
  | value => value.inlineTokens

/-- The tokens of entries on lines of their own. -/
def nestedEntryTokens : List (Value × Value) → List Token
  | [] => []
  | (key, value) :: entries =>
    .key :: key.inlineTokens ++ .value :: nestedTokens value ++ nestedEntryTokens entries

end

end Value

/-! ## Lines -/

/-- A text goes on with a token in column `i` at most, or with nothing. -/
def StartsBy (i : Nat) (t : Text) : Prop :=
  ∀ line, ∃ q u, Leads ⟨line, 0⟩ t q u ∧ q.column ≤ i

namespace StartsBy

variable {i j : Nat} {t : Text}

theorem nil (i : Nat) : StartsBy i [] := fun _ => ⟨_, _, .nil _, Nat.zero_le i⟩

theorem spaces (h : Starts t) (i : Nat) : StartsBy i (Text.spaces i ++ t) := fun line =>
  ⟨⟨line, i⟩, t, .spaces (by rw [Nat.zero_add]; exact .of_starts h _), Nat.le_refl i⟩

theorem newline (h : StartsBy i t) : StartsBy i ('\n' :: t) := fun line =>
  let ⟨q, u, hleads, hcolumn⟩ := h (line + 1)
  ⟨q, u, .newline hleads, hcolumn⟩

theorem mono (h : StartsBy i t) (hij : i ≤ j) : StartsBy j t := fun line =>
  let ⟨q, u, hleads, hcolumn⟩ := h line
  ⟨q, u, hleads, hcolumn.trans hij⟩

end StartsBy

namespace Scanner

/-- A token in column `i` starts a block collection, or belongs to the one that is open. -/
inductive Enters (start : Token) (i : Nat) : List Nat → List Nat → List Token → Prop
  | inside (columns : List Nat) : Enters start i (i :: columns) (i :: columns) []
  | opens {columns : List Nat} (h : ∀ column ∈ columns.head?, column < i) :
    Enters start i columns (i :: columns) [start]

/-- From column `j` on, a text in front of one that goes on in column `i` at most is scanned as
tokens, up to the next line. -/
def ReadsLines (a : Bool) (j : Nat) (columns : List Nat) (t : Text) (ts : List Token)
    (columns' : List Nat) (i : Nat) : Prop :=
  ∀ (line : Nat) (tokens : List Token) ⦃rest : Text⦄, StartsBy i rest →
    ∃ line', Reaches (block a ⟨line, j⟩ (t ++ rest) columns tokens)
      (block true ⟨line', 0⟩ rest columns' (ts.reverse ++ tokens))

namespace ReadsLines

variable {a : Bool} {i j k m n : Nat} {columns columns' columns'' : List Nat} {t t' : Text}
  {ts ts' : List Token}

theorem nil (columns : List Nat) (i : Nat) : ReadsLines true 0 columns [] [] columns i :=
  fun line _ _ _ => ⟨line, .refl _⟩

/-- Lines behind other lines. -/
theorem append (h : ReadsLines a j columns t ts columns' k)
    (h' : ReadsLines true 0 columns' t' ts' columns'' i)
    (hstarts : ∀ rest, StartsBy i rest → StartsBy k (t' ++ rest)) :
    ReadsLines a j columns (t ++ t') (ts ++ ts') columns'' i := by
  intro line tokens rest hrest
  obtain ⟨line₁, h₁⟩ := h line tokens (hstarts rest hrest)
  obtain ⟨line₂, h₂⟩ := h' line₁ (ts.reverse ++ tokens) hrest
  refine ⟨line₂, ?_⟩
  simpa [List.append_assoc] using h₁.trans h₂

theorem mono (h : ReadsLines a j columns t ts columns' k) (hik : i ≤ k) :
    ReadsLines a j columns t ts columns' i :=
  fun line tokens _ hrest => h line tokens (hrest.mono hik)

/-- Spaces in front of a token. -/
theorem spaces (h : ReadsLines true m columns t ts columns' i) (hm : m = j + n) (ht : Starts t) :
    ReadsLines true j columns (Text.spaces n ++ t) ts columns' i := by
  subst hm
  intro line tokens rest hrest
  obtain ⟨line', h'⟩ := h line tokens hrest
  have hleads : Leads ⟨line, j + n⟩ (t ++ rest) ⟨line, j + n⟩ (t ++ rest) :=
    .of_starts (ht.append rest) _
  refine ⟨line', Reaches.trans (.of_next?_eq ?_ ?_) h'⟩
  · rw [List.append_assoc, next?_block hleads.spaces, next?_block hleads]
  · simp [block]

/-- The rest of a line is empty. -/
theorem newline (h : ReadsLines true 0 columns t ts columns' i)
    (hcolumn : ∃ column ∈ columns.head?, column < j)
    (hstarts : ∀ rest, StartsBy i rest → StartsBy k (t ++ rest)) :
    ReadsLines a j columns ('\n' :: t) ts columns' i := by
  intro line tokens rest hrest
  obtain ⟨line', h'⟩ := h (line + 1) tokens hrest
  obtain ⟨q, u, hleads, -⟩ := hstarts rest hrest (line + 1)
  exact ⟨line', ((block_stands a _ hcolumn _).newline hleads).trans h'⟩

/-- An empty line in front of other lines. -/
theorem emptyLine (h : ReadsLines true 0 columns t ts columns' i)
    (hstarts : ∀ rest, StartsBy i rest → StartsBy k (t ++ rest)) :
    ReadsLines true 0 columns ('\n' :: t) ts columns' i := by
  intro line tokens rest hrest
  obtain ⟨line', h'⟩ := h (line + 1) tokens hrest
  obtain ⟨q, u, hleads, -⟩ := hstarts rest hrest (line + 1)
  refine ⟨line', Reaches.trans (.of_next?_eq ?_ ?_) h'⟩
  · rw [List.cons_append, next?_block (.newline hleads), next?_block hleads]
  · simp [block]

/-- What follows ends a collection that lies deeper. -/
theorem close (h : ReadsLines a j columns t ts (m :: columns') i) (hm : i < m) :
    ReadsLines a j columns t (ts ++ [.blockEnd]) columns' i := by
  intro line tokens rest hrest
  obtain ⟨line', h'⟩ := h line tokens hrest
  obtain ⟨q, u, hleads, hcolumn⟩ := hrest line'
  refine ⟨line', h'.trans (.of_next?_eq ?_ (Nat.le_refl _))⟩
  rw [next?_block hleads, next?_block hleads, closeTo_cons (by omega)]
  simp

end ReadsLines

/-! ## Keys and dashes -/

theorem Enters.head_le {start : Token} {i : Nat} {columns columns' : List Nat} {ts : List Token}
    (h : Enters start i columns columns' ts) : ∀ column ∈ columns.head?, column < i + 1 := by
  cases h with
  | inside columns =>
    rintro column hcolumn
    obtain rfl := Option.some.inj hcolumn
    exact Nat.lt_succ_self i
  | opens h => exact fun column hcolumn => Nat.lt_succ_of_lt (h column hcolumn)

theorem Enters.exists_columns {start : Token} {i : Nat} {columns columns' : List Nat}
    {ts : List Token} (h : Enters start i columns columns' ts) :
    ∃ columns'', columns' = i :: columns'' := by
  cases h <;> exact ⟨_, rfl⟩

/-- A collection that lies deeper than the open one starts. -/
theorem Enters.deeper (start : Token) {i j : Nat} (h : i < j) (columns : List Nat) :
    Enters start j (i :: columns) (j :: i :: columns) [start] :=
  .opens fun column hcolumn => by
    obtain rfl := Option.some.inj hcolumn
    exact h

theorem Enters.reverse_eq {start : Token} {i : Nat} {columns columns' : List Nat} {ts : List Token}
    (h : Enters start i columns columns' ts) : ts.reverse = ts := by
  cases h <;> rfl

theorem Enters.opensAt_cases {start : Token} {i : Nat} {columns columns' : List Nat}
    {ts : List Token} (h : Enters start i columns columns' ts) {s : Scanner}
    (hcolumns : s.columns = columns) (houter : s.outer = []) :
    (s.opensAt i = false ∧ columns' = columns ∧ ts = []) ∨
      (s.opensAt i = true ∧ columns' = i :: columns ∧ ts = [start]) := by
  cases h with
  | inside columns => exact .inl ⟨by simp [opensAt, floor, hcolumns], rfl, rfl⟩
  | @opens columns h =>
    have hfloor : s.floor ≤ i := by
      rw [floor, hcolumns]
      cases columns with
      | nil => exact Nat.zero_le i
      | cons column columns => exact h column rfl
    exact .inr ⟨by simp [opensAt, inFlow, houter, hfloor], rfl, rfl⟩

/-- A scanner in block collections whose candidate is fresh stays where a token starts. -/
theorem next?_self {s : Scanner} {p : Position} {t : Text} (hs : s.cursor = ⟨p, t⟩) (ht : Starts t)
    (hcolumns : ∀ column ∈ s.columns.head?, column < p.column + 1) (houter : s.outer = [])
    (hfresh : ∀ k ∈ s.candidate, k.isStale p = false) : s.next? = some s := by
  have hfresh' : freshCandidate? p s.candidate = some s.candidate := by
    cases hcandidate : s.candidate with
    | none => rfl
    | some k => simp [freshCandidate?, hfresh k hcandidate]
  have hdrop : s.toToken.dropStale? = some s := by
    rw [toToken_eq hs (.of_starts ht p), dropStale?]
    have houter' : s.outer.mapM (freshCandidate? p) = some s.outer := by
      rw [houter]
      rfl
    simp only [hfresh', houter', Option.bind_eq_bind, Option.bind_some]
    simp [← hs]
  rw [next?, hdrop, Option.map_some, closeTo_eq_self]
  rwa [hs]

section

variable {i j line : Nat} {columns columns' : List Nat} {tokens ts : List Token} {u : Text}
  (henters : Enters .blockMapping i columns columns' ts) (hu : endsWord u = true)
include henters hu

/-- The colon behind a candidate makes it a key, and opens a mapping if none is open in its
column. -/
theorem reaches_colon {s : Scanner} {token : Token} {required : Bool}
    (hs : s.cursor = ⟨⟨line, j⟩, ':' :: u⟩) (hcolumns : s.columns = columns)
    (houter : s.outer = []) (htokens : s.tokens = token :: tokens)
    (hcandidate : s.candidate = some ⟨required, tokens.length, ⟨line, i⟩⟩)
    (hi : i ≤ j) (hj : j ≤ i + maxKeyLength) :
    Reaches s
      (block false ⟨line, j + 1⟩ u columns' (.value :: token :: .key :: (ts ++ tokens))) := by
  have hfresh : ∀ k ∈ s.candidate, k.isStale ⟨line, j⟩ = false := by
    rw [hcandidate]
    rintro k hk
    obtain rfl := Option.some.inj hk
    simp [Candidate.isStale, hj]
  have hnext := next?_self hs ⟨':', u, rfl, rfl⟩ (by
    rw [hcolumns]
    exact fun column hcolumn => (henters.head_le column hcolumn).trans_le (by simpa using hi))
    houter hfresh
  have htoken : s.token? ':' u = some (block false ⟨line, j + 1⟩ u columns'
      (.value :: token :: .key :: (ts ++ tokens))) := by
    rw [token?, if_neg (by simp), if_neg (by simp [isMarker])]
    simp only [hu, Bool.or_true, if_true, value?, hcandidate]
    rcases henters.opensAt_cases hcolumns houter with ⟨hopens, rfl, rfl⟩ | ⟨hopens, rfl, rfl⟩ <;>
      simp [takeKey, hopens, take, emit, block, hs, htokens, houter, hcolumns, Cursor.skip,
        Position.after, isBreak]
  exact Reaches.step hnext (by rw [hs]) htoken rfl (by simp [hs, block])

/-- A key is read up to its colon. -/
theorem reaches_key {plain : Bool} {w t : Text} (hw : Spells w plain t)
    (hlength : w.length ≤ maxKeyLength) (hmark : isMarker ⟨line, i⟩ (w ++ ':' :: u) = false)
    (tokens : List Token) :
    Reaches (block true ⟨line, i⟩ (w ++ ':' :: u) columns tokens)
      (block false ⟨line, i + w.length + 1⟩ u columns'
        (.value :: .scalar plain t :: .key :: (ts ++ tokens))) := by
  have hfloor : (block true ⟨line, i⟩ (w ++ ':' :: u) columns tokens).floor ≤ i + 1 := by
    cases columns with
    | nil => exact Nat.zero_le _
    | cons column columns => exact henters.head_le column rfl
  have hstarts := hw.starts.append (':' :: u)
  obtain ⟨c, v, hcv, hc⟩ := id hstarts
  have htoken := token?_spelled (s := block true ⟨line, i⟩ (w ++ ':' :: u) columns tokens) rfl
    nofun hw hmark hfloor (fun _ => .colon hu) hcv
  have hnext := next?_self (s := block true ⟨line, i⟩ (w ++ ':' :: u) columns tokens) rfl hstarts
    henters.head_le rfl nofun
  have hlt : (':' :: u).length < (w ++ ':' :: u).length := by
    obtain ⟨_, _, rfl, -⟩ := hw.starts
    simp only [List.length_append, List.length_cons]
    omega
  have hword := Reaches.step hnext hcv htoken rfl hlt
  exact hword.trans (reaches_colon henters hu rfl rfl rfl rfl rfl (Nat.le_add_right _ _)
    (Nat.add_le_add_left hlength i))

end

/-- A dash opens a sequence if none is open in its column. -/
theorem reaches_dash {i line : Nat} {columns columns' : List Nat} {tokens ts : List Token}
    (henters : Enters .blockSequence i columns columns' ts) (u : Text) :
    Reaches (block true ⟨line, i⟩ ('-' :: ' ' :: u) columns tokens)
      (block true ⟨line, i + 1⟩ (' ' :: u) columns' (.dash :: (ts ++ tokens))) := by
  have hnext := next?_self (s := block true ⟨line, i⟩ ('-' :: ' ' :: u) columns tokens) rfl
    ⟨'-', _, rfl, rfl⟩ henters.head_le rfl nofun
  have htoken : (block true ⟨line, i⟩ ('-' :: ' ' :: u) columns tokens).token? '-' (' ' :: u) =
      some (block true ⟨line, i + 1⟩ (' ' :: u) columns' (.dash :: (ts ++ tokens))) := by
    have hmark : isMarker ⟨line, i⟩ ('-' :: ' ' :: u) = false := by simp [isMarker]
    rw [token?, if_neg (by simp), if_neg (by simp [block, hmark])]
    simp only [endsWord, isGap]
    have hcases := henters.opensAt_cases
      (s := block true ⟨line, i⟩ ('-' :: ' ' :: u) columns tokens) rfl rfl
    rcases hcases with ⟨hopens, rfl, rfl⟩ | ⟨hopens, rfl, rfl⟩ <;>
      rw [block] at hopens <;>
      simp [dash?, openBlock, block, hopens, dropCandidate?, take, emit, Cursor.skip,
        Position.after, isBreak]
  exact Reaches.step hnext rfl htoken rfl (Nat.lt_succ_self _)

/-! ## Values -/

namespace ReadsLines

variable {i j : Nat} {columns columns' : List Nat} {t : Text} {ts ts' : List Token}

/-- A value on the line of its key or dash. -/
theorem inlineValue (a : Bool) {v : Value} (hv : v.isBasic = true) (hj : i < j)
    (columns : List Nat) :
    ReadsLines a j (i :: columns) (' ' :: v.inline ++ ['\n']) v.inlineTokens (i :: columns) i := by
  intro line tokens rest hrest
  obtain ⟨q, u, hleads, hcolumn⟩ := hrest (line + 1)
  have hcolumns : ∃ column ∈ (i :: columns).head?, column < j := ⟨i, rfl, hj⟩
  have hstands := block_stands a (p := ⟨line, j⟩) (' ' :: (v.inline ++ '\n' :: rest)) hcolumns
    tokens
  obtain ⟨s₁, hreaches, h₁, -⟩ := hstands.space ((Value.starts_inline hv).append _)
  refine ⟨line + 1, ?_⟩
  rw [List.append_assoc]
  refine Reaches.trans hreaches ?_
  by_cases hplain : ∃ w, v.inlineTokens = [.scalar true w]
  · obtain ⟨w, hw⟩ := hplain
    obtain ⟨hword, rfl⟩ := Value.isWord_inline hv hw
    rw [hw]
    exact h₁.word_newline hword hleads ⟨i, rfl, hcolumn⟩
  · obtain ⟨s₂, hreaches₂, h₂, -⟩ := reads_inline 0 false v hv ('\n' :: rest)
      (fun t ht => absurd ⟨t, ht⟩ hplain) h₁ nofun
    exact hreaches₂.trans (h₂.newline hleads)

/-- An entry whose value is read below its key or behind it. -/
theorem entry {key : Value} (henters : Enters .blockMapping i columns columns' ts)
    (hkey : key.isKey = true)
    (hmark : ∀ line u, isMarker ⟨line, i⟩ (key.inline ++ ':' :: u) = false)
    (ht : ∀ rest, endsWord (t ++ rest) = true)
    (h : ∀ j, i < j → ReadsLines false j columns' t ts' columns' i) :
    ReadsLines true i columns (key.inline ++ ':' :: t)
      (ts ++ (.key :: key.inlineTokens ++ .value :: ts')) columns' i := by
  obtain ⟨plain, w, rfl, hspells, htokens, hlength⟩ := Value.spells_key hkey
  intro line tokens rest hrest
  have hreaches := reaches_key henters (ht rest) hspells hlength (hmark line _) tokens
  have hj : i < i + (Value.text w).inline.length + 1 := by omega
  obtain ⟨line', h'⟩ := h _ hj line (.value :: .scalar plain w :: .key :: (ts ++ tokens)) hrest
  have htext : (Value.text w).inline ++ ':' :: t ++ rest =
      (Value.text w).inline ++ ':' :: (t ++ rest) := by simp
  refine ⟨line', ?_⟩
  rw [htext]
  refine (hreaches.trans h').trans ?_
  simp [htokens, henters.reverse_eq, Reaches.refl]

/-- An item that is read behind its dash. -/
theorem item (henters : Enters .blockSequence i columns columns' ts)
    (h : ReadsLines true (i + 1) columns' (' ' :: t) ts' columns' i) :
    ReadsLines true i columns ('-' :: ' ' :: t) (ts ++ .dash :: ts') columns' i := by
  intro line tokens rest hrest
  obtain ⟨line', h'⟩ := h line (.dash :: (ts ++ tokens)) hrest
  refine ⟨line', ((reaches_dash henters _).trans h').trans ?_⟩
  simp [henters.reverse_eq, Reaches.refl]

end ReadsLines

theorem startsBy_nestedItems {items : List Value} {i : Nat} {rest : Text} (h : StartsBy i rest) :
    StartsBy i (Value.nestedItems i items ++ rest) := by
  cases items with
  | nil => exact h
  | cons item items =>
    rw [Value.nestedItems, List.append_assoc, List.append_assoc, List.append_assoc]
    exact .spaces ⟨'-', _, rfl, rfl⟩ i

theorem startsBy_nestedEntries {entries : List (Value × Value)} {i : Nat} {rest : Text}
    (hentries : Value.haveBasic entries = true) (h : StartsBy i rest) :
    StartsBy i (Value.nestedEntries i entries ++ rest) := by
  match entries with
  | [] => exact h
  | (key, value) :: entries =>
    simp only [Value.haveBasic, Bool.and_eq_true] at hentries
    obtain ⟨_, _, -, hspells, -⟩ := Value.spells_key hentries.1.1
    rw [Value.nestedEntries, List.append_assoc, List.append_assoc, List.append_assoc]
    exact .spaces (hspells.starts.append _) i

theorem endsWord_nested (i : Nat) (v : Value) (rest : Text) :
    endsWord (v.nested i ++ rest) = true := by
  unfold Value.nested
  split <;> rfl

/-- No document marker stands in front of a key behind the first column. -/
theorem isMarker_of_pos {i : Nat} (hi : 0 < i) (t : Text) (line : Nat) (u : Text) :
    isMarker ⟨line, i⟩ (t ++ ':' :: u) = false :=
  isMarker_of_column (Nat.ne_of_gt hi) _

mutual

/-- What follows a key is scanned as its tokens. -/
theorem reads_nested (v : Value) (hv : v.isBasic = true) {i j : Nat} (hj : i < j)
    (columns : List Nat) :
    ReadsLines false j (i :: columns) (v.nested i) v.nestedTokens (i :: columns) i := by
  match v with
  | .null => exact (ReadsLines.nil _ i).newline ⟨i, rfl, hj⟩ fun _ hrest => hrest
  | .sequence (item :: items) =>
    have hi : i < i + Value.indentStep := Nat.lt_add_of_pos_right (by decide)
    have hitems := reads_nestedItems (item :: items) hv (.deeper _ hi columns) nofun
    exact ((hitems.mono hi.le).close hi).newline ⟨i, rfl, hj⟩ fun _ hrest =>
      startsBy_nestedItems (hrest.mono hi.le)
  | .mapping (entry :: entries) =>
    have hi : i < i + Value.indentStep := Nat.lt_add_of_pos_right (by decide)
    simp only [Value.isBasic, Bool.and_eq_true] at hv
    have hentries := reads_nestedEntries (entry :: entries) hv.2 (.deeper _ hi columns) nofun
      fun entry _ => isMarker_of_pos (Nat.zero_lt_of_lt hi) _
    exact ((hentries.mono hi.le).close hi).newline ⟨i, rfl, hj⟩ fun _ hrest =>
      startsBy_nestedEntries hv.2 (hrest.mono hi.le)
  | .sequence [] | .mapping [] | .boolean _ | .whole _ | .text _ | .fraction _ | .tagged .. =>
    exact .inlineValue false hv hj columns

/-- Items are scanned as their tokens. -/
theorem reads_nestedItems (items : List Value) (hitems : Value.areBasic items = true) {i : Nat}
    {columns columns' : List Nat} {ts : List Token}
    (henters : Enters .blockSequence i columns columns' ts)
    (hempty : items = [] → columns = columns' ∧ ts = []) :
    ReadsLines true 0 columns (Value.nestedItems i items) (ts ++ Value.nestedItemTokens items)
      columns' i := by
  match items with
  | [] =>
    obtain ⟨rfl, rfl⟩ := hempty rfl
    exact .nil columns i
  | item :: items =>
    rw [Value.areBasic, Bool.and_eq_true] at hitems
    obtain ⟨columns', rfl⟩ := henters.exists_columns
    have hitem := (ReadsLines.item henters (reads_nestedItem item hitems.1 i columns')).spaces
      (Nat.zero_add i).symm ⟨'-', _, rfl, rfl⟩
    have hrest := reads_nestedItems items hitems.2 (i := i) (.inside columns') fun _ => ⟨rfl, rfl⟩
    have hall := hitem.append hrest fun rest => startsBy_nestedItems
    simpa [Value.nestedItems, Value.nestedItemTokens] using hall

/-- An item is scanned as its tokens. -/
theorem reads_nestedItem (item : Value) (hitem : item.isBasic = true) (i : Nat)
    (columns : List Nat) :
    ReadsLines true (i + 1) (i :: columns) (' ' :: item.nestedItem i) item.dashedTokens
      (i :: columns) i := by
  match item with
  | .mapping ((key, value) :: entries) =>
    have hi : i < i + 2 := Nat.lt_add_of_pos_right (by decide)
    simp only [Value.isBasic, Value.haveBasic, Bool.and_eq_true] at hitem
    obtain ⟨-, ⟨hkey, hvalue⟩, hentries⟩ := hitem
    have hfirst := ReadsLines.entry (.deeper _ hi columns) hkey
      (isMarker_of_pos (Nat.zero_lt_of_lt hi) _) (endsWord_nested (i + 2) value)
      fun j hj => reads_nested value hvalue hj (i :: columns)
    have hrest := reads_nestedEntries entries hentries (.inside (i :: columns))
      (fun _ => ⟨rfl, rfl⟩) fun entry _ => isMarker_of_pos (Nat.zero_lt_of_lt hi) _
    have hall := hfirst.append hrest fun rest => startsBy_nestedEntries hentries
    obtain ⟨_, _, -, hspells, -⟩ := Value.spells_key hkey
    have hstarts := (hspells.starts.append (':' :: value.nested (i + 2))).append
      (Value.nestedEntries (i + 2) entries)
    have hline := ((hall.mono hi.le).close hi).spaces (n := 1) (j := i + 1) rfl hstarts
    simpa [Text.spaces, Value.nestedItem, Value.dashedTokens, Value.nestedEntryTokens] using hline
  | .mapping [] | .null | .sequence _ | .boolean _ | .whole _ | .text _ | .fraction _
  | .tagged .. => exact .inlineValue true hitem (Nat.lt_succ_self i) columns

/-- Entries are scanned as their tokens. -/
theorem reads_nestedEntries (entries : List (Value × Value))
    (hentries : Value.haveBasic entries = true) {i : Nat} {columns columns' : List Nat}
    {ts : List Token} (henters : Enters .blockMapping i columns columns' ts)
    (hempty : entries = [] → columns = columns' ∧ ts = [])
    (hmark : ∀ entry ∈ entries, ∀ line u,
      isMarker ⟨line, i⟩ (entry.1.inline ++ ':' :: u) = false) :
    ReadsLines true 0 columns (Value.nestedEntries i entries)
      (ts ++ Value.nestedEntryTokens entries) columns' i := by
  match entries with
  | [] =>
    obtain ⟨rfl, rfl⟩ := hempty rfl
    exact .nil columns i
  | (key, value) :: entries =>
    simp only [Value.haveBasic, Bool.and_eq_true] at hentries
    obtain ⟨⟨hkey, hvalue⟩, hentries⟩ := hentries
    obtain ⟨columns', rfl⟩ := henters.exists_columns
    have hfirst := ReadsLines.entry henters hkey (hmark _ List.mem_cons_self)
      (endsWord_nested i value) fun j hj => reads_nested value hvalue hj columns'
    have hrest := reads_nestedEntries entries hentries (.inside columns') (fun _ => ⟨rfl, rfl⟩)
      fun entry hmem => hmark entry (List.mem_cons_of_mem _ hmem)
    obtain ⟨_, _, -, hspells, -⟩ := Value.spells_key hkey
    have hline := hfirst.spaces (Nat.zero_add i).symm (hspells.starts.append _)
    have hall := hline.append hrest fun rest => startsBy_nestedEntries hentries
    simpa [Value.nestedEntries, Value.nestedEntryTokens] using hall

end

end Scanner

end Scaffold.Yaml
