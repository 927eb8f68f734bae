import Scaffold.Proofs.Decimal.RoundTrip
import Scaffold.Proofs.Yaml.Scalar

/-!
# Scanning values on one line

A value that is written on one line is scanned as the tokens `Value.inlineTokens`, inside any number
of flow collections (`Scanner.reads_inline`).  The values are those without fractions and tags whose
mappings have texts for keys, the `Value.isBasic`.
-/

namespace Scaffold.Yaml

/-! ## Values -/

namespace Value

/-- A text for a key: it is short enough to be found again between quotes. -/
def isKey : Value → Bool
  | .text t => t.all isWritable && t.length < 400
  | _ => false

mutual

/-- Null, booleans, whole numbers and texts of writable characters, and the sequences and mappings
of such values in which no key stands twice. -/
def isBasic : Value → Bool
  | .null | .boolean _ => true
  | .whole n => fitsWord n
  | .text t => t.all isWritable
  | .sequence items => areBasic items
  | .mapping entries => (entries.map (·.1.text?)).Nodup && haveBasic entries
  | .fraction _ | .tagged .. => false

/-- Every item is basic. -/
def areBasic : List Value → Bool
  | [] => true
  | item :: items => isBasic item && areBasic items

/-- Every entry has a text for its key and a basic value. -/
def haveBasic : List (Value × Value) → Bool
  | [] => true
  | (key, value) :: entries => isKey key && isBasic value && haveBasic entries

end

theorem areBasic_iff {items : List Value} :
    areBasic items = true ↔ ∀ item ∈ items, item.isBasic = true := by
  induction items with
  | nil => simp [areBasic]
  | cons item items ih => rw [areBasic, Bool.and_eq_true, ih, List.forall_mem_cons]

theorem haveBasic_iff {entries : List (Value × Value)} :
    haveBasic entries = true ↔ ∀ e ∈ entries, e.1.isKey = true ∧ e.2.isBasic = true := by
  induction entries with
  | nil => simp [haveBasic]
  | cons e entries ih =>
    rw [haveBasic, Bool.and_eq_true, Bool.and_eq_true, ih, List.forall_mem_cons]

mutual

/-- The tokens of a value that is written on one line. -/
def inlineTokens : Value → List Token
  | .text t => [.scalar (isPlainText t) t]
  | .sequence items => .openList :: itemTokens items ++ [.closeList]
  | .mapping entries => .openMap :: entryTokens entries ++ [.closeMap]
  | value => [.scalar true value.inline]

/-- The tokens of items with commas between them. -/
def itemTokens : List Value → List Token
  | [] => []
  | [item] => inlineTokens item
  | item :: items => inlineTokens item ++ .comma :: itemTokens items

/-- The tokens of entries with commas between them. -/
def entryTokens : List (Value × Value) → List Token
  | [] => []
  | [(key, value)] => .key :: inlineTokens key ++ .value :: inlineTokens value
  | (key, value) :: entries =>
    .key :: inlineTokens key ++ .value :: inlineTokens value ++ .comma :: entryTokens entries

end

end Value

/-! ## Spellings -/

/-- Letters and digits are no structure. -/
theorem isSafe_of_isAlphanum {c : Char} (h : c.isAlphanum = true) :
    isSafe c = true ∧ c ≠ ' ' ∧ c ≠ '-' ∧ Scanner.isIndicator c = false := by
  have hne (d : Char) (hd : d.isAlphanum = false) : c ≠ d := by
    rintro rfl
    exact absurd (h.symm.trans hd) (by decide)
  have hprint : isPrintable c = true := by
    have hcode := toNat_of_isAlphanum h
    simp only [isPrintable, Bool.and_eq_true, decide_eq_true_eq]
    omega
  refine ⟨?_, hne ' ' rfl, hne '-' rfl, ?_⟩
  · simp only [isSafe, isFlowIndicator, hprint, Bool.true_and, Bool.and_eq_true, bne_iff_ne,
      Bool.not_eq_true', Bool.or_eq_false_iff, beq_eq_false_iff_ne]
    and_intros <;> exact hne _ rfl
  · simp [Scanner.isIndicator]
    and_intros <;> exact hne _ rfl

theorem isWord_of_isAlphanum {t : Text} (hne : t ≠ []) (h : ∀ c ∈ t, c.isAlphanum = true) :
    IsWord t := by
  obtain ⟨c, t, rfl⟩ := List.exists_cons_of_ne_nil hne
  have hc := isSafe_of_isAlphanum (h c List.mem_cons_self)
  refine isWord_cons (fun d hd => ?_) hc.2.2.2 (absurd · hc.2.2.1)
  have hd' := isSafe_of_isAlphanum (h d hd)
  exact ⟨hd'.1, hd'.2.1⟩

theorem isWord_ofBool (b : Bool) : IsWord (Text.ofBool b) := by
  cases b <;> exact isWord_of_isAlphanum (by decide) (by decide)

theorem isWord_ofInt (n : Int) : IsWord (Text.ofInt n) := by
  have hdigits : ∀ c ∈ Text.ofNat n.natAbs, c.isAlphanum = true := fun c hc => by
    simp [Char.isAlphanum, Decimal.isDigit_of_mem_ofNat hc]
  have hne := Decimal.ofNat_ne_nil n.natAbs
  rw [Text.ofInt]
  split
  · refine isWord_cons (fun d hd => ?_) (by simp [Scanner.isIndicator]) fun _ => hne
    rcases List.mem_cons.1 hd with rfl | hd
    · decide
    · have hd' := isSafe_of_isAlphanum (hdigits d hd)
      exact ⟨hd'.1, hd'.2.1⟩
  · exact isWord_of_isAlphanum hne hdigits

/-- A text is written with quotes or as a word. -/
theorem spells_writeText {t : Text} (h : IsWritable t) :
    Spells (writeText t) (isPlainText t) t := by
  cases hplain : isPlainText t with
  | true =>
    rw [writeText, if_pos hplain]
    exact .word (isWord_of_isPlainText h hplain)
  | false =>
    rw [writeText, if_neg (by simp [hplain])]
    exact .quoted h

/-- A basic value that is no collection is written as a scalar. -/
theorem Value.spells_inline {v : Value} (h : v.isBasic = true) :
    (∃ plain t, Spells v.inline plain t ∧ v.inlineTokens = [.scalar plain t]) ∨
      (∃ items, v = .sequence items) ∨ ∃ entries, v = .mapping entries := by
  cases v with
  | null => exact .inl ⟨true, _, .word (isWord_of_isAlphanum (by decide) (by decide)), rfl⟩
  | boolean b => exact .inl ⟨true, _, .word (isWord_ofBool b), rfl⟩
  | whole n => exact .inl ⟨true, _, .word (isWord_ofInt n), rfl⟩
  | text t => exact .inl ⟨_, t, spells_writeText (List.all_eq_true.1 h), rfl⟩
  | sequence items => exact .inr (.inl ⟨items, rfl⟩)
  | mapping entries => exact .inr (.inr ⟨entries, rfl⟩)
  | fraction | tagged => cases h

/-- Between quotes a text is at most twice as long. -/
theorem length_writeText_le (t : Text) : (writeText t).length ≤ 2 * t.length + 2 := by
  have hescape (c : Char) : (escapeChar c).length ≤ 2 := by
    unfold escapeChar
    split <;> simp
  have hflat : (t.flatMap escapeChar).length ≤ 2 * t.length := by
    induction t with
    | nil => exact Nat.le_refl _
    | cons c t ih =>
      have := hescape c
      rw [List.flatMap_cons, List.length_append, List.length_cons]
      omega
  rw [writeText]
  split
  · omega
  · simpa [quote] using hflat

theorem Value.isWord_inline {v : Value} (h : v.isBasic = true) {t : Text}
    (ht : v.inlineTokens = [.scalar true t]) : IsWord v.inline ∧ t = v.inline := by
  rcases spells_inline h with ⟨plain, u, hv, htokens⟩ | ⟨items, rfl⟩ | ⟨entries, rfl⟩
  · obtain ⟨rfl, rfl⟩ : true = plain ∧ t = u := by simpa [ht] using htokens
    exact hv.of_plain
  · cases ht
  · cases ht

theorem Value.starts_inline {v : Value} (h : v.isBasic = true) : Starts v.inline := by
  rcases spells_inline h with ⟨plain, t, hv, -⟩ | ⟨items, rfl⟩ | ⟨entries, rfl⟩
  · exact hv.starts
  · exact ⟨'[', _, rfl, rfl⟩
  · exact ⟨'\x7b', _, rfl, rfl⟩

theorem Value.isBasic_of_isKey {key : Value} (h : key.isKey = true) : key.isBasic = true := by
  cases key with
  | text t =>
    simp only [isKey, Bool.and_eq_true] at h
    exact h.1
  | _ => cases h

/-- A key is a scalar that ends soon enough. -/
theorem Value.spells_key {key : Value} (h : key.isKey = true) :
    ∃ plain t, key = .text t ∧ Spells key.inline plain t ∧
      key.inlineTokens = [.scalar plain t] ∧ key.inline.length ≤ maxKeyLength := by
  cases key with
  | text t =>
    simp only [isKey, Bool.and_eq_true, decide_eq_true_eq] at h
    have hlength := length_writeText_le t
    refine ⟨_, t, rfl, spells_writeText (List.all_eq_true.1 h.1), rfl, ?_⟩
    rw [inline, maxKeyLength]
    omega
  | _ => cases h

theorem Value.starts_inlineItems {item : Value} {items : List Value}
    (h : areBasic (item :: items) = true) : Starts (inlineItems (item :: items)) := by
  rw [areBasic, Bool.and_eq_true] at h
  cases items with
  | nil => exact starts_inline h.1
  | cons => exact ((starts_inline h.1).append _).append _

theorem Value.starts_inlineEntries {entry : Value × Value} {entries : List (Value × Value)}
    (h : haveBasic (entry :: entries) = true) : Starts (inlineEntries (entry :: entries)) := by
  obtain ⟨key, value⟩ := entry
  simp only [haveBasic, Bool.and_eq_true] at h
  obtain ⟨_, _, -, hspells, -⟩ := spells_key h.1.1
  cases entries with
  | nil => exact (hspells.starts.append _).append _
  | cons => exact (((hspells.starts.append _).append _).append _).append _

/-! ## Brackets, commas and colons -/

namespace Scanner

namespace Stands

variable {s : Scanner} {depth : Nat} {p : Position} {t u w : Text} {columns : List Nat}
  {tokens : List Token}

/-- Behind a token of one character the scanner stands on the same line. -/
theorem take {c : Char} (h : Stands s depth p (c :: u) columns tokens)
    (hc : isPrintable c = true) (token : Token) {candidate : Option Candidate}
    {outer : List (Option Candidate)} (hcandidate : IsLoose p candidate)
    (houter : ∀ candidate ∈ outer, IsLoose p candidate) (a : Bool) :
    Stands { s.take 1 token with candidate, outer, keyAllowed := a } outer.length (p.right 1) u
      columns (token :: tokens) where
  cursor := by simp [Scanner.take, h.cursor, Cursor.skip, Position.after_of_isPrintable hc]
  columns := h.columns
  tokens := by simp [Scanner.take, emit, h.tokens]
  depth := rfl
  column := h.column.imp fun _ hcolumn => hcolumn.imp_right Nat.lt_succ_of_lt
  loose := ⟨hcandidate, houter⟩

/-- One token of one character is read. -/
theorem reaches_take {c : Char} {s₁ s₂ : Scanner} (h : Stands s depth p (c :: u) columns tokens)
    (h₁ : Stands s₁ depth p (c :: u) columns tokens) (hnext : s.next? = some s₁)
    (htoken : s₁.token? c u = some s₂) (hs : s₂.cursor = s₁.cursor.skip 1) : Reaches s s₂ := by
  refine Reaches.step hnext (by rw [h₁.cursor]) htoken rfl ?_
  rw [hs, h₁.cursor, h.cursor]
  exact Nat.lt_succ_self _

end Stands

/-- Where a token stands on a line: inside how many flow collections, and whether it may start a
key. -/
structure Spot where
  depth : Nat
  key : Bool

/-- From one spot on, a text in front of another one is scanned as tokens, up to another spot. -/
def Reads (x : Spot) (t : Text) (ts : List Token) (y : Spot) (u : Text) : Prop :=
  ∀ ⦃s : Scanner⦄ ⦃p : Position⦄ ⦃columns : List Nat⦄ ⦃tokens : List Token⦄,
    Stands s x.depth p (t ++ u) columns tokens → (x.key = true → s.keyAllowed = true) →
      ∃ s', Reaches s s' ∧ Stands s' y.depth (p.right t.length) u columns (ts.reverse ++ tokens) ∧
        (y.key = true → s'.keyAllowed = true)

namespace Reads

variable {x y z : Spot} {depth : Nat} {a : Bool} {t t' u : Text} {ts ts' : List Token}

theorem nil (depth : Nat) (a : Bool) (u : Text) : Reads ⟨depth, a⟩ [] [] ⟨depth, false⟩ u :=
  fun s _ _ _ h _ => ⟨s, .refl s, h, (absurd · Bool.false_ne_true)⟩

/-- One text behind another. -/
theorem append (h : Reads x t ts y (t' ++ u)) (h' : Reads y t' ts' z u) :
    Reads x (t ++ t') (ts ++ ts') z u := by
  intro s p columns tokens hs hkey
  rw [List.append_assoc] at hs
  obtain ⟨s₁, hreaches, h₁, hkey₁⟩ := h hs hkey
  obtain ⟨s₂, hreaches', h₂, hkey₂⟩ := h' h₁ hkey₁
  refine ⟨s₂, hreaches.trans hreaches', ?_, hkey₂⟩
  simpa [List.append_assoc] using h₂

/-- A bracket opens a flow collection, in which a key may start. -/
theorem openFlow {c : Char} {token : Token} (hc : isSolid c = true ∧ isPrintable c = true)
    (hopen : ∀ s : Scanner, s.token? c u = s.openFlow? token) :
    Reads ⟨depth, a⟩ [c] [token] ⟨depth + 1, true⟩ u := by
  intro s p columns tokens h _
  obtain ⟨s₁, hnext, h₁, -, -⟩ := h.exists_next? hc.1 rfl
  have htoken : s₁.token? c u = some { s₁.take 1 token with
      candidate := none, outer := s₁.saved.candidate :: s₁.outer, keyAllowed := true } := by
    rw [hopen, openFlow?, saveCandidate?_eq fun k hk => (h₁.loose.1 k hk).1]
    simp [take, emit]
  have h₂ := h₁.take hc.2 token (isLoose_none p)
    (List.forall_mem_cons.2 ⟨h₁.saved_loose 0, h₁.loose.2⟩) true
  rw [List.length_cons, h₁.depth] at h₂
  exact ⟨_, h.reaches_take h₁ hnext htoken rfl, h₂, fun _ => rfl⟩

/-- A bracket closes the innermost flow collection. -/
theorem closeFlow {c : Char} {token : Token} (hc : isSolid c = true ∧ isPrintable c = true)
    (hclose : ∀ s : Scanner, s.token? c u = s.closeFlow? token) :
    Reads ⟨depth + 1, a⟩ [c] [token] ⟨depth, false⟩ u := by
  intro s p columns tokens h _
  obtain ⟨s₁, hnext, h₁, -, -⟩ := h.exists_next? hc.1 rfl
  obtain ⟨candidate, outer, houter⟩ := List.exists_cons_of_length_eq_add_one h₁.depth
  have htoken : s₁.token? c u = some { s₁.take 1 token with
      candidate := candidate, outer := outer, keyAllowed := false } := by
    rw [hclose, closeFlow?, dropCandidate?_eq fun k hk => (h₁.loose.1 k hk).1]
    simp [take, emit, houter]
  have hloose := h₁.loose.2
  rw [houter, List.forall_mem_cons] at hloose
  have h₂ := h₁.take hc.2 token hloose.1 hloose.2 false
  have hdepth : outer.length = depth := by simpa [houter] using h₁.depth
  rw [hdepth] at h₂
  exact ⟨_, h.reaches_take h₁ hnext htoken rfl, h₂, (absurd · Bool.false_ne_true)⟩

/-- Behind a comma a key may start. -/
theorem comma (hu : Starts u) : Reads ⟨depth + 1, a⟩ [',', ' '] [.comma] ⟨depth + 1, true⟩ u := by
  intro s p columns tokens h _
  obtain ⟨s₁, hnext, h₁, -, -⟩ := h.exists_next? (c := ',') rfl rfl
  have htoken : s₁.token? ',' (' ' :: u) = some { s₁.take 1 .comma with
      candidate := none, outer := s₁.outer, keyAllowed := true } := by
    rw [token?, if_neg (by simp), if_neg (by simp [isMarker])]
    simp only
    rw [comma?, dropCandidate?_eq fun k hk => (h₁.loose.1 k hk).1]
    rfl
  have h₂ := h₁.take rfl .comma (isLoose_none p) h₁.loose.2 true
  rw [h₁.depth] at h₂
  obtain ⟨s', hreaches, h', hkey⟩ := h₂.space hu
  exact ⟨s', (h.reaches_take h₁ hnext htoken rfl).trans hreaches, h', fun _ => hkey⟩

/-- A key of a flow collection, up to its value. -/
theorem key {w : Text} {plain : Bool} (hw : Spells w plain t) (hlength : w.length ≤ maxKeyLength)
    (hu : Starts u) :
    Reads ⟨depth + 1, true⟩ (w ++ [':', ' ']) [.key, .scalar plain t, .value] ⟨depth + 1, false⟩
      u := by
  intro s p columns tokens h hkey
  rw [List.append_assoc] at h
  obtain ⟨s₁, hreaches, h₁, hcandidate⟩ := h.scalar hw fun _ => .colon rfl
  obtain ⟨s₂, hnext, h₂, -, hkept⟩ := h₁.exists_next? (c := ':') rfl rfl
  have hfresh : Candidate.isStale ⟨false, tokens.length, p⟩ (p.right w.length) = false := by
    simp [Candidate.isStale, Position.right, hlength]
  have hcandidate₂ := hkept _ (hcandidate (hkey rfl)) hfresh
  have htoken : s₂.token? ':' (' ' :: u) = some
      { { s₂ with tokens := .scalar plain t :: .key :: tokens }.take 1 .value with
        candidate := none, outer := s₂.outer, keyAllowed := false } := by
    rw [token?, if_neg (by simp), if_neg (by simp [isMarker])]
    simp only [h₂.inFlow, value?, hcandidate₂, takeKey, opensAt, h₂.tokens]
    simp [take, emit]
  have h₃ : Stands { s₂ with tokens := .scalar plain t :: .key :: tokens } (depth + 1)
      (p.right w.length) (':' :: ' ' :: u) columns (.scalar plain t :: .key :: tokens) :=
    ⟨h₂.cursor, h₂.columns, rfl, h₂.depth, h₂.column, h₂.loose⟩
  have h₄ := h₃.take rfl .value (isLoose_none _) h₂.loose.2 false
  rw [h₂.depth] at h₄
  obtain ⟨s', hreaches', h', -⟩ := h₄.space hu
  have hkey := hreaches.trans (h₁.reaches_take h₂ hnext htoken rfl)
  refine ⟨s', hkey.trans hreaches', ?_, (absurd · Bool.false_ne_true)⟩
  simpa using h'

theorem scalar {w : Text} {plain : Bool} (hw : Spells w plain t)
    (hstops : plain = true → Stops (decide (0 < depth)) u) :
    Reads ⟨depth, a⟩ w [.scalar plain t] ⟨depth, false⟩ u := by
  intro s p columns tokens h _
  obtain ⟨s', hreaches, h', -⟩ := h.scalar hw hstops
  exact ⟨s', hreaches, h', (absurd · Bool.false_ne_true)⟩

/-- An entry of a flow mapping whose value is read. -/
theorem entry {key value : Value} (hkey : key.isKey = true) (hvalue : value.isBasic = true)
    (h : Reads ⟨depth + 1, false⟩ value.inline value.inlineTokens y u) :
    Reads ⟨depth + 1, true⟩ (key.inline ++ [':', ' '] ++ value.inline)
      (.key :: key.inlineTokens ++ .value :: value.inlineTokens) y u := by
  obtain ⟨plain, t, rfl, hspells, htokens, hlength⟩ := Value.spells_key hkey
  rw [htokens]
  exact (Reads.key hspells hlength ((Value.starts_inline hvalue).append u)).append h

end Reads

/-! ## Values -/

mutual

/-- A value on one line is scanned as its tokens. -/
theorem reads_inline (depth : Nat) (a : Bool) (v : Value) (hv : v.isBasic = true) (u : Text)
    (hstops : ∀ t, v.inlineTokens = [.scalar true t] → Stops (decide (0 < depth)) u) :
    Reads ⟨depth, a⟩ v.inline v.inlineTokens ⟨depth, false⟩ u := by
  match v with
  | .sequence items =>
    have hopen : Reads ⟨depth, a⟩ ['['] [.openList] ⟨depth + 1, true⟩
        (Value.inlineItems items ++ ([']'] ++ u)) := .openFlow ⟨rfl, rfl⟩ fun s => by
      rw [token?, if_neg (by simp), if_neg (by simp [isMarker])]
    have hclose : Reads ⟨depth + 1, false⟩ [']'] [.closeList] ⟨depth, false⟩ u :=
      .closeFlow ⟨rfl, rfl⟩ fun s => by
        rw [token?, if_neg (by simp), if_neg (by simp [isMarker])]
    exact (hopen.append (reads_inlineItems depth true items hv u)).append hclose
  | .mapping entries =>
    have hentries : Value.haveBasic entries = true := by
      simp only [Value.isBasic, Bool.and_eq_true] at hv
      exact hv.2
    have hopen : Reads ⟨depth, a⟩ ['\x7b'] [.openMap] ⟨depth + 1, true⟩
        (Value.inlineEntries entries ++ (['\x7d'] ++ u)) := .openFlow ⟨rfl, rfl⟩ fun s => by
      rw [token?, if_neg (by simp), if_neg (by simp [isMarker])]
    have hclose : Reads ⟨depth + 1, false⟩ ['\x7d'] [.closeMap] ⟨depth, false⟩ u :=
      .closeFlow ⟨rfl, rfl⟩ fun s => by
        rw [token?, if_neg (by simp), if_neg (by simp [isMarker])]
    exact (hopen.append (reads_inlineEntries depth entries hentries u)).append hclose
  | .null | .boolean _ | .whole _ | .text _ =>
    obtain ⟨plain, t, hspells, htokens⟩ := (Value.spells_inline hv).resolve_right (by simp)
    rw [htokens]
    exact .scalar hspells fun hplain => hstops t (by rw [htokens, hplain])

/-- The items between the brackets of a sequence. -/
theorem reads_inlineItems (depth : Nat) (a : Bool) (items : List Value)
    (hitems : Value.areBasic items = true) (u : Text) :
    Reads ⟨depth + 1, a⟩ (Value.inlineItems items) (Value.itemTokens items) ⟨depth + 1, false⟩
      (']' :: u) := by
  match items with
  | [] => exact .nil _ _ _
  | [item] =>
    have hitem : item.isBasic = true := by simpa [Value.areBasic] using hitems
    exact reads_inline _ a item hitem _ fun _ _ => .indicator rfl rfl u
  | item :: next :: items =>
    rw [Value.areBasic, Bool.and_eq_true] at hitems
    have hnext := (Value.starts_inlineItems hitems.2).append (']' :: u)
    have hfirst := reads_inline (depth + 1) a item hitems.1 ([',', ' '] ++
      (Value.inlineItems (next :: items) ++ ']' :: u)) fun _ _ => .indicator rfl rfl _
    have hrest := reads_inlineItems depth true (next :: items) hitems.2 u
    have hall := (hfirst.append (.comma hnext)).append hrest
    simpa [Value.inlineItems, Value.itemTokens] using hall

/-- The entries between the braces of a mapping. -/
theorem reads_inlineEntries (depth : Nat) (entries : List (Value × Value))
    (hentries : Value.haveBasic entries = true) (u : Text) :
    Reads ⟨depth + 1, true⟩ (Value.inlineEntries entries) (Value.entryTokens entries)
      ⟨depth + 1, false⟩ ('\x7d' :: u) := by
  match entries with
  | [] => exact .nil _ _ _
  | [(key, value)] =>
    simp only [Value.haveBasic, Bool.and_eq_true] at hentries
    obtain ⟨⟨hkey, hvalue⟩, -⟩ := hentries
    exact .entry hkey hvalue (reads_inline _ _ value hvalue _ fun _ _ => .indicator rfl rfl u)
  | (key, value) :: next :: entries =>
    rw [Value.haveBasic, Bool.and_eq_true, Bool.and_eq_true] at hentries
    obtain ⟨⟨hkey, hvalue⟩, hrest⟩ := hentries
    have hnext := (Value.starts_inlineEntries hrest).append ('\x7d' :: u)
    have hfirst := Reads.entry hkey hvalue (reads_inline (depth + 1) false value hvalue
      ([',', ' '] ++ (Value.inlineEntries (next :: entries) ++ '\x7d' :: u))
      fun _ _ => .indicator rfl rfl _)
    have hlast := reads_inlineEntries depth (next :: entries) hrest u
    have hall := (hfirst.append (.comma hnext)).append hlast
    simpa [Value.inlineEntries, Value.entryTokens] using hall

end

end Scanner

end Scaffold.Yaml
