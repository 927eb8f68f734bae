import Scaffold.Yaml.Token

/-!
# The scanner between two tokens

Blanks and line breaks in front of a token leave no trace but its place: `Scanner.next?` is the
scanner at its next token, and what follows depends on nothing else.  `Scanner.Reaches` says that a
scanner comes to read on as another one does, and that it has taken no more steps than characters,
so the bound on their number is never met.
-/

namespace Scaffold.Yaml

/-! ## Blanks -/

/-- A character that a token may start with. -/
def isSolid (c : Char) : Bool := !isGap c && !isBreak c && c != '#' && c != '\ufeff'

/-- A text starts with a token. -/
def Starts (t : Text) : Prop := ∃ c u, t = c :: u ∧ isSolid c = true

theorem Starts.append {t : Text} (h : Starts t) (u : Text) : Starts (t ++ u) := by
  obtain ⟨c, v, rfl, hc⟩ := h
  exact ⟨c, v ++ u, rfl, hc⟩

theorem ne_of_isSolid {c d : Char} (hc : isSolid c = true) (hd : isSolid d = false) : c ≠ d := by
  rintro rfl
  rw [hc] at hd
  cases hd

namespace Scanner

theorem skip_zero (c : Cursor) : c.skip 0 = c := by
  obtain ⟨p, t⟩ := c
  cases t <;> rfl

theorem skipWhile_of_not {q : Char → Bool} {c : Char} (h : q c = false) (p : Position) (t : Text) :
    Cursor.skipWhile q ⟨p, c :: t⟩ = ⟨p, c :: t⟩ := by
  rw [Cursor.skipWhile, List.takeWhile_cons_of_neg (by simp [h])]
  rfl

theorem skipWhile_cons {q : Char → Bool} {c : Char} (h : q c = true) (p : Position) (t : Text) :
    Cursor.skipWhile q ⟨p, c :: t⟩ = Cursor.skipWhile q ⟨p.after c, t⟩ := by
  rw [Cursor.skipWhile, List.takeWhile_cons_of_pos h]
  rfl

theorem skipMark_of_ne {c : Char} (h : c ≠ '\ufeff') (p : Position) (t : Text) :
    Cursor.skipMark ⟨p, c :: t⟩ = ⟨p, c :: t⟩ := by
  rw [Cursor.skipMark, if_neg (by simp [h])]

theorem skipMark_of_column {p : Position} (h : p.column ≠ 0) (t : Text) :
    Cursor.skipMark ⟨p, t⟩ = ⟨p, t⟩ := by
  rw [Cursor.skipMark, if_neg (by simp [h])]

/-- In front of a token nothing is skipped. -/
theorem skipBlanks_solid {c : Char} (hc : isSolid c = true) (flow : Bool) (fuel : Nat) (a : Bool)
    (p : Position) (t : Text) :
    skipBlanks flow (fuel + 1) a ⟨p, c :: t⟩ = (a, ⟨p, c :: t⟩) := by
  have hmark : c ≠ '\ufeff' := ne_of_isSolid hc rfl
  have hspace : c ≠ ' ' := ne_of_isSolid hc rfl
  have htab : c ≠ '\t' := ne_of_isSolid hc rfl
  have hhash : c ≠ '#' := ne_of_isSolid hc rfl
  have hbreak : isBreak c = false := by
    simp only [isSolid, Bool.and_eq_true, Bool.not_eq_true'] at hc
    exact hc.1.1.2
  rw [skipBlanks, skipMark_of_ne hmark]
  rw [skipWhile_of_not (by simp [hspace, htab])]
  simp [hhash, hbreak]

theorem skipBlanks_nil (flow : Bool) (fuel : Nat) (a : Bool) (p : Position) :
    skipBlanks flow (fuel + 1) a ⟨p, []⟩ = (a, ⟨p, []⟩) := by
  simp [skipBlanks, Cursor.skipMark, Cursor.skipWhile, skip_zero]

theorem skipBlanks_space (flow : Bool) (fuel : Nat) (a : Bool) (p : Position) (t : Text) :
    skipBlanks flow (fuel + 1) a ⟨p, ' ' :: t⟩ =
      skipBlanks flow (fuel + 1) a ⟨⟨p.line, p.column + 1⟩, t⟩ := by
  have hcolumn : (⟨p.line, p.column + 1⟩ : Position).column ≠ 0 := Nat.succ_ne_zero _
  rw [skipBlanks, skipBlanks, skipMark_of_ne (by decide), skipMark_of_column hcolumn]
  rw [skipWhile_cons (by simp)]
  rfl

theorem skipBlanks_newline (flow : Bool) (fuel : Nat) (a : Bool) (p : Position) (t : Text) :
    skipBlanks flow (fuel + 1) a ⟨p, '\n' :: t⟩ =
      skipBlanks flow fuel (a || !flow) ⟨⟨p.line + 1, 0⟩, t⟩ := by
  rw [skipBlanks, skipMark_of_ne (by decide)]
  rw [skipWhile_of_not (by simp)]
  simp [isBreak, Cursor.skip, Position.after]

end Scanner

/-- The place `n` characters further on a line. -/
def Position.right (p : Position) (n : Nat) : Position := ⟨p.line, p.column + n⟩

@[simp] theorem Position.right_right (p : Position) (m n : Nat) :
    (p.right m).right n = p.right (m + n) := by
  simp [Position.right, Nat.add_assoc]

/-- Blanks and line breaks lead from a place in a text to the next token, or to the end. -/
inductive Leads : Position → Text → Position → Text → Prop
  | nil (p : Position) : Leads p [] p []
  | solid (p : Position) {c : Char} (hc : isSolid c = true) (t : Text) :
    Leads p (c :: t) p (c :: t)
  | space {p q : Position} {t u : Text} (h : Leads ⟨p.line, p.column + 1⟩ t q u) :
    Leads p (' ' :: t) q u
  | newline {p q : Position} {t u : Text} (h : Leads ⟨p.line + 1, 0⟩ t q u) :
    Leads p ('\n' :: t) q u

namespace Leads

variable {p q : Position} {t u : Text}

theorem line_le (h : Leads p t q u) : p.line ≤ q.line := by
  induction h with
  | nil | solid => exact Nat.le_refl _
  | space _ ih => exact ih
  | newline _ ih => exact Nat.le_of_succ_le ih

/-- What blanks lead to is a token or the end. -/
theorem target (h : Leads p t q u) : u = [] ∨ Starts u := by
  induction h with
  | nil => exact .inl rfl
  | solid p hc t => exact .inr ⟨_, t, rfl, hc⟩
  | space _ ih | newline _ ih => exact ih

theorem of_starts (h : Starts t) (p : Position) : Leads p t p t := by
  obtain ⟨c, u, rfl, hc⟩ := h
  exact .solid p hc u

theorem self (h : Leads p t q u) : Leads q u q u := by
  rcases h.target with rfl | hu
  · exact .nil q
  · exact .of_starts hu q

theorem spaces {k i : Nat} (h : Leads ⟨k, j + i⟩ t q u) :
    Leads ⟨k, j⟩ (Text.spaces i ++ t) q u := by
  induction i generalizing j with
  | zero => exact h
  | succ i ih =>
    have hnext : Leads ⟨k, j + 1⟩ (Text.spaces i ++ t) q u := by
      refine ih ?_
      rwa [Nat.add_assoc, Nat.add_comm 1]
    exact .space hnext

theorem skipBlanks_eq (h : Leads p t q u) (flow : Bool) {fuel : Nat} (hfuel : t.length < fuel)
    (a : Bool) : Scanner.skipBlanks flow fuel a ⟨p, t⟩ =
      (a || (!flow && decide (p.line < q.line)), ⟨q, u⟩) := by
  obtain ⟨fuel, rfl⟩ := Nat.exists_eq_succ_of_ne_zero (Nat.ne_zero_of_lt hfuel)
  induction h generalizing fuel a with
  | nil p => simp [Scanner.skipBlanks_nil]
  | solid p hc t => simp [Scanner.skipBlanks_solid hc]
  | space _ ih =>
    rw [Scanner.skipBlanks_space]
    exact ih a fuel (Nat.lt_of_succ_lt hfuel)
  | @newline p q t u hrest ih =>
    obtain ⟨fuel, rfl⟩ := Nat.exists_eq_succ_of_ne_zero
      (Nat.ne_zero_of_lt (Nat.lt_of_succ_lt_succ hfuel))
    have hline : p.line < q.line := hrest.line_le
    rw [Scanner.skipBlanks_newline, ih _ fuel (Nat.lt_of_succ_lt_succ hfuel)]
    cases flow <;> simp [hline]

end Leads

namespace Scanner

theorem toToken_eq {s : Scanner} {p q : Position} {t u : Text} (hs : s.cursor = ⟨p, t⟩)
    (h : Leads p t q u) :
    s.toToken = { s with
      cursor := ⟨q, u⟩
      keyAllowed := s.keyAllowed || (!s.inFlow && decide (p.line < q.line)) } := by
  rw [toToken, hs, h.skipBlanks_eq s.inFlow (Nat.lt_succ_self _)]

/-! ## The next token -/

/-- The scanner at its next token, with the block collections ended that lie deeper. -/
def next? (s : Scanner) : Option Scanner :=
  s.toToken.dropStale?.map fun s => s.closeTo (s.cursor.position.column + 1)

theorem tokens?_succ (fuel : Nat) (s : Scanner) :
    tokens? (fuel + 1) s = s.next?.bind fun s =>
      match s.cursor.rest with
      | [] => s.end?.map fun s => s.tokens.reverse
      | c :: t => (s.token? c t).bind (tokens? fuel) := by
  rw [tokens?, next?]
  cases s.toToken.dropStale? with
  | none => rfl
  | some s =>
    simp only [Option.bind_eq_bind, Option.bind_some, Option.map_some]
    cases (s.closeTo (s.cursor.position.column + 1)).cursor.rest with
    | nil =>
      simp only
      cases (s.closeTo (s.cursor.position.column + 1)).end? <;> rfl
    | cons c t => rfl

/-- One scanner comes to read on as another one does, in no more steps than characters. -/
def Reaches (s s' : Scanner) : Prop :=
  ∃ n, n + s'.cursor.rest.length ≤ s.cursor.rest.length ∧
    ∀ fuel, tokens? (n + fuel + 1) s = tokens? (fuel + 1) s'

namespace Reaches

variable {s s₁ s₂ s' : Scanner}

theorem of_next?_eq (h : s.next? = s'.next?)
    (hlength : s'.cursor.rest.length ≤ s.cursor.rest.length) : Reaches s s' := by
  refine ⟨0, by omega, fun fuel => ?_⟩
  rw [Nat.zero_add, tokens?_succ, tokens?_succ, h]

theorem refl (s : Scanner) : Reaches s s := of_next?_eq rfl (Nat.le_refl _)

theorem trans (h : Reaches s s₁) (h' : Reaches s₁ s') : Reaches s s' := by
  obtain ⟨n, hn, hs⟩ := h
  obtain ⟨m, hm, hs'⟩ := h'
  refine ⟨n + m, by omega, fun fuel => ?_⟩
  rw [Nat.add_assoc n m fuel, hs, hs']

/-- One token, behind which the scanner reads on as another one does. -/
theorem step {c : Char} {t : Text} (hnext : s.next? = some s₁) (hrest : s₁.cursor.rest = c :: t)
    (htoken : s₁.token? c t = some s₂) (hsame : s₂.next? = s'.next?)
    (hlength : s'.cursor.rest.length < s.cursor.rest.length) : Reaches s s' := by
  refine ⟨1, by omega, fun fuel => ?_⟩
  rw [Nat.add_comm 1 fuel, tokens?_succ, hnext, Option.bind_some]
  simp only [hrest, htoken, Option.bind_some]
  rw [tokens?_succ, tokens?_succ, hsame]

end Reaches

/-! ## Ending block collections -/

theorem closeTo_eq_self {s : Scanner} {n : Nat} (h : ∀ column ∈ s.columns.head?, column < n) :
    s.closeTo n = s := by
  have hnone : s.columns.takeWhile (n ≤ ·) = [] := by
    cases hcolumns : s.columns with
    | nil => rfl
    | cons column columns =>
      have := h column (by rw [hcolumns]; rfl)
      exact List.takeWhile_cons_of_neg (by simpa using this)
  rw [closeTo, hnone]
  split <;> rfl

/-- A scanner in block collections only, with no candidate for a key. -/
def block (keyAllowed : Bool) (p : Position) (t : Text) (columns : List Nat)
    (tokens : List Token) : Scanner :=
  { cursor := ⟨p, t⟩, columns, keyAllowed, tokens }

/-- A block collection that lies deeper than the next token is ended in front of it. -/
theorem closeTo_cons {column n : Nat} (h : n ≤ column) (a : Bool) (p : Position) (t : Text)
    (columns : List Nat) (tokens : List Token) :
    (block a p t (column :: columns) tokens).closeTo n =
      (block a p t columns (.blockEnd :: tokens)).closeTo n := by
  simp only [closeTo, block, inFlow, List.isEmpty_nil, Bool.not_true, Bool.false_eq_true, if_false]
  rw [List.takeWhile_cons_of_pos (by simpa using h), List.length_cons, List.drop_succ_cons,
    List.replicate_succ', List.append_assoc, List.singleton_append]

/-! ## Candidates -/

/-- A candidate that may be left behind, and is at the end of the line. -/
def IsLoose (p : Position) (candidate : Option Candidate) : Prop :=
  ∀ k ∈ candidate, k.required = false ∧ k.position.line ≤ p.line

theorem isLoose_none (p : Position) : IsLoose p none := nofun

theorem IsLoose.freshCandidate? {p q : Position} {candidate : Option Candidate}
    (h : IsLoose p candidate) :
    ∃ fresh, freshCandidate? q candidate = some fresh ∧ IsLoose p fresh ∧
      ∀ k ∈ candidate, k.isStale q = false → fresh = some k := by
  cases candidate with
  | none => exact ⟨_, rfl, h, nofun⟩
  | some k =>
    have hk := (h k rfl).1
    by_cases hstale : k.isStale q = true
    · refine ⟨none, by simp [Scanner.freshCandidate?, hstale, hk], isLoose_none p, ?_⟩
      intro k' hk' hfresh
      obtain rfl := Option.some.inj hk'
      exact absurd hstale (by simp [hfresh])
    · exact ⟨some k, by simp [Scanner.freshCandidate?, hstale], h, fun _ hk' _ => hk'⟩

/-- On a new line a loose candidate is left behind. -/
theorem IsLoose.freshCandidate?_line {p q : Position} {candidate : Option Candidate}
    (h : IsLoose p candidate) (hline : p.line < q.line) :
    Scanner.freshCandidate? q candidate = some none := by
  cases candidate with
  | none => rfl
  | some k =>
    obtain ⟨hk, hkline⟩ := h k rfl
    have hstale : k.isStale q = true := by
      simp only [Candidate.isStale, Bool.or_eq_true, decide_eq_true_eq]
      omega
    simp [Scanner.freshCandidate?, hstale, hk]

theorem mapM_freshCandidate? {p : Position} {outer : List (Option Candidate)}
    (h : ∀ candidate ∈ outer, IsLoose p candidate) (q : Position) :
    ∃ fresh, outer.mapM (freshCandidate? q) = some fresh ∧ fresh.length = outer.length ∧
      ∀ candidate ∈ fresh, IsLoose p candidate := by
  induction outer with
  | nil => exact ⟨[], rfl, rfl, by simp⟩
  | cons candidate outer ih =>
    obtain ⟨hfirst, hrest⟩ := List.forall_mem_cons.1 h
    obtain ⟨first, hfirst', hloose, -⟩ := hfirst.freshCandidate? (q := q)
    obtain ⟨rest, hrest', hlength, hall⟩ := ih hrest
    refine ⟨first :: rest, ?_, by simp [hlength], List.forall_mem_cons.2 ⟨hloose, hall⟩⟩
    rw [List.mapM_cons, hfirst', hrest']
    rfl

/-! ## On a line -/

/-- The scanner stands on a line, inside `depth` flow collections and behind the column of the block
collection around them, and nothing on the line has to become a key. -/
structure Stands (s : Scanner) (depth : Nat) (p : Position) (t : Text) (columns : List Nat)
    (tokens : List Token) : Prop where
  cursor : s.cursor = ⟨p, t⟩
  columns : s.columns = columns
  tokens : s.tokens = tokens
  depth : s.outer.length = depth
  column : ∃ column ∈ s.columns.head?, column < p.column
  loose : IsLoose p s.candidate ∧ ∀ candidate ∈ s.outer, IsLoose p candidate

namespace Stands

variable {s : Scanner} {depth : Nat} {p : Position} {t : Text} {columns : List Nat}
  {tokens : List Token} (h : Stands s depth p t columns tokens)
include h

theorem inFlow : s.inFlow = decide (0 < depth) := by
  rw [Scanner.inFlow, ← h.depth]
  cases s.outer <;> simp

/-- In front of a token only stale candidates are left behind. -/
theorem exists_next? {c : Char} {u : Text} (hc : isSolid c = true) (ht : t = c :: u) :
    ∃ s', s.next? = some s' ∧ Stands s' depth p t columns tokens ∧
      s'.keyAllowed = s.keyAllowed ∧
      ∀ k ∈ s.candidate, k.isStale p = false → s'.candidate = some k := by
  subst ht
  obtain ⟨hcandidate, houter⟩ := h.loose
  obtain ⟨candidate, hfresh, hloose, hkept⟩ := hcandidate.freshCandidate? (q := p)
  obtain ⟨outer, hfresh', hlength, hloose'⟩ := mapM_freshCandidate? houter p
  have hdrop : s.toToken.dropStale? = some { s with candidate, outer } := by
    rw [toToken_eq h.cursor (.solid p hc u), dropStale?]
    simp only [hfresh, hfresh', Option.bind_eq_bind, Option.bind_some]
    simp [h.cursor]
  refine ⟨{ s with candidate, outer }, ?_, ⟨h.cursor, h.columns, h.tokens,
    hlength.trans h.depth, h.column, hloose, hloose'⟩, rfl, hkept⟩
  obtain ⟨column, hcolumn, hlt⟩ := h.column
  rw [next?, hdrop, Option.map_some, closeTo_eq_self]
  intro column' hcolumn'
  obtain rfl : column = column' := Option.some.inj (hcolumn.symm.trans hcolumn')
  rw [h.cursor]
  exact Nat.lt_succ_of_lt hlt

end Stands

/-- On a new line of block collections everything on the line in front of it is settled. -/
theorem next?_line {s : Scanner} {p p' q : Position} {t u : Text} (hs : s.cursor = ⟨p', t⟩)
    (hleads : Leads p' t q u) (houter : s.outer = []) (hloose : IsLoose p s.candidate)
    (hline : p.line < q.line) (hallowed : s.keyAllowed = true ∨ p'.line < q.line) :
    s.next? = some ((block true q u s.columns s.tokens).closeTo (q.column + 1)) := by
  have hflow : s.inFlow = false := by simp [Scanner.inFlow, houter]
  have hkey : (s.keyAllowed || !s.inFlow && decide (p'.line < q.line)) = true := by
    rcases hallowed with hallowed | hlt <;> simp [*]
  have hdrop : s.toToken.dropStale? = some (block true q u s.columns s.tokens) := by
    rw [toToken_eq hs hleads, hkey, dropStale?]
    simp only [hloose.freshCandidate?_line hline, houter]
    rfl
  rw [next?, hdrop]
  rfl

theorem next?_block {p q : Position} {t u : Text} (h : Leads p t q u) (columns : List Nat)
    (tokens : List Token) : (block true p t columns tokens).next? =
      some ((block true q u columns tokens).closeTo (q.column + 1)) := by
  rw [next?, toToken_eq (s := block true p t columns tokens) rfl h, dropStale?]
  rfl

/-- The scanner reads on behind a space. -/
theorem Stands.space {s : Scanner} {depth : Nat} {p : Position} {t : Text} {columns : List Nat}
    {tokens : List Token} (h : Stands s depth p (' ' :: t) columns tokens) (ht : Starts t) :
    ∃ s', Reaches s s' ∧ Stands s' depth (p.right 1) t columns tokens ∧
      s'.keyAllowed = s.keyAllowed := by
  have hleads : Leads (p.right 1) t (p.right 1) t := .of_starts ht _
  refine ⟨{ s with cursor := ⟨p.right 1, t⟩ }, Reaches.of_next?_eq ?_ ?_,
    ⟨rfl, h.columns, h.tokens, h.depth, ?_, h.loose⟩, rfl⟩
  · rw [next?, next?, toToken_eq h.cursor (.space hleads), toToken_eq rfl hleads]
    simp [Position.right]
  · simp [h.cursor]
  · exact h.column.imp fun _ hcolumn => hcolumn.imp_right Nat.lt_succ_of_lt

/-- The scanner reads on in the next line. -/
theorem Stands.newline {s : Scanner} {p q : Position} {t u : Text} {columns : List Nat}
    {tokens : List Token} (h : Stands s 0 p ('\n' :: t) columns tokens)
    (hleads : Leads ⟨p.line + 1, 0⟩ t q u) :
    Reaches s (block true ⟨p.line + 1, 0⟩ t columns tokens) := by
  refine Reaches.of_next?_eq ?_ (by simp [h.cursor, block])
  have hline : p.line < q.line := hleads.line_le
  rw [next?_line h.cursor (.newline hleads) (List.length_eq_zero_iff.1 h.depth) h.loose.1 hline
    (.inr hline), next?_block hleads, h.columns, h.tokens]

theorem block_stands (a : Bool) {p : Position} (t : Text) {columns : List Nat}
    (h : ∃ column ∈ columns.head?, column < p.column) (tokens : List Token) :
    Stands (block a p t columns tokens) 0 p t columns tokens :=
  ⟨rfl, rfl, rfl, rfl, h, isLoose_none p, by simp [block]⟩

end Scanner

end Scaffold.Yaml
