import Scaffold.Proofs.Yaml.Scalar

/-!
# Documents of one scalar

A text of printable characters is scanned as it stands (`Token.ofText?_eq`).  A word is a document
of one scalar (`Token.ofText?_word`), unless it starts with the marker for the end of a document: then
no token comes in front of the one for the end, and a document that starts with its end has no value
(`read?_of_isMarker`).
-/

namespace Scaffold.Yaml

/-! ## Characters -/

theorem isAllowed_of_isPrintable {c : Char} (h : isPrintable c = true) : isAllowed c = true := by
  simp only [isPrintable, Bool.and_eq_true, decide_eq_true_eq] at h
  simp [isAllowed, h]

/-- Without carriage returns only the next line is unified. -/
theorem unifyBreaks_eq_map {t : Text} (h : '\r' ∉ t) : unifyBreaks t = t.map unifyBreak := by
  fun_induction unifyBreaks t with
  | case1 => rfl
  | case2 | case3 => exact absurd List.mem_cons_self h
  | case4 t ih =>
    rw [ih fun hmem => h (List.mem_cons_of_mem _ hmem)]
    rfl
  | case5 c t _ _ hnext ih =>
    have hunify : unifyBreak c = c := if_neg fun heq => hnext (eq_of_beq heq)
    rw [ih fun hmem => h (List.mem_cons_of_mem _ hmem), List.map_cons, hunify]

/-- A text without carriage returns and next lines has newlines only. -/
theorem unifyBreaks_eq_self {t : Text} (h : ∀ c ∈ t, c ≠ '\r' ∧ c ≠ '\x85') :
    unifyBreaks t = t := by
  have hunify : ∀ c ∈ t, unifyBreak c = id c := fun c hc => if_neg (by simp [(h c hc).2])
  rw [unifyBreaks_eq_map fun hreturn => (h _ hreturn).1 rfl, List.map_congr_left hunify,
    List.map_id]

theorem IsWord.isPrintable {t : Text} (h : IsWord t) {c : Char} (hc : c ∈ t) :
    isPrintable c = true := by
  have := h.safe c hc
  simp only [isSafe, Bool.and_eq_true] at this
  exact this.1.1.1

/-- The tokens of a text of printable characters and line feeds. -/
theorem Token.ofText?_eq {t : Text} (h : ∀ c ∈ t, isPrintable c = true ∨ c = '\n') :
    ofText? t = Scanner.tokens? (t.length + 1) (Scanner.block true {} t [] []) := by
  have hallowed : t.all isAllowed = true := by
    refine List.all_eq_true.2 fun c hc => ?_
    rcases h c hc with hc | rfl
    · exact isAllowed_of_isPrintable hc
    · rfl
  have hunify : unifyBreaks t = t := by
    refine unifyBreaks_eq_self fun c hc => ?_
    rcases h c hc with hc | rfl
    · constructor <;> rintro rfl <;> cases hc
    · decide
  rw [ofText?, if_pos hallowed, hunify]
  rfl

/-- At the end of a text no token is left. -/
theorem Scanner.tokens?_end {s : Scanner} {p : Position} (hs : s.cursor = ⟨p, []⟩)
    (hcolumns : s.columns = []) (houter : s.outer = []) (hloose : IsLoose p s.candidate)
    {fuel : Nat} : tokens? (fuel + 1) s = some s.tokens.reverse := by
  obtain ⟨candidate, hfresh, hloose', -⟩ := hloose.freshCandidate? (q := p)
  have hflow : s.inFlow = false := by simp [inFlow, houter]
  have hnext : s.next? = some { s with candidate } := by
    have hdrop : s.toToken.dropStale? = some { s with candidate } := by
      rw [toToken_eq hs (.nil p), dropStale?]
      simp only [hfresh, houter]
      simp [← hs]
    rw [next?, hdrop, Option.map_some, closeTo_eq_self (by simp [hcolumns])]
  have hend : end? { s with candidate } = some { s with candidate := none } := by
    rw [end?, closeTo_eq_self (by simp [hcolumns]), dropCandidate?_eq fun k hk => (hloose' k hk).1]
  have hrest : s.cursor.rest = [] := by rw [hs]
  rw [tokens?_succ, hnext]
  simp only [Option.bind_some, hrest, hend]
  rfl

/-- A word is scanned as one scalar. -/
theorem Token.ofText?_word {t : Text} (h : IsWord t) (hmark : isMarker {} t = false) :
    ofText? t = some [.scalar true t] := by
  obtain ⟨c, u, hcu, -⟩ := (Spells.word h).starts
  have hstarts := (Spells.word h).starts
  have hnext : (Scanner.block true {} t [] []).next? = some (Scanner.block true {} t [] []) := by
    rw [Scanner.next?_block (.of_starts hstarts {})]
    rfl
  have htoken := Scanner.token?_spelled (s := Scanner.block true {} t [] []) (u := [])
    (by rw [List.append_nil]; rfl) nofun (.word h) (by rwa [List.append_nil]) (Nat.zero_le _)
    (fun _ => .nil) ((List.append_nil t).trans hcu)
  rw [ofText?_eq fun c hc => .inl (h.isPrintable hc), Scanner.tokens?_succ, hnext]
  have hrest : (Scanner.block true {} t [] []).cursor.rest = c :: u := hcu
  simp only [Option.bind_some, hrest, htoken]
  have hlength : t.length = u.length + 1 := by rw [hcu, List.length_cons]
  rw [hlength]
  refine Scanner.tokens?_end rfl rfl rfl fun k hk => ?_
  obtain rfl := Option.some.inj hk
  exact ⟨rfl, Nat.le_refl _⟩

/-! ## Behind the end of a document -/

namespace Scanner

theorem mem_of_freshCandidate? {p : Position} {candidate fresh : Option Candidate} {k : Candidate}
    (h : freshCandidate? p candidate = some fresh) (hk : k ∈ fresh) : k ∈ candidate := by
  cases candidate with
  | none =>
    obtain rfl := Option.some.inj h
    exact hk
  | some k' =>
    rw [freshCandidate?] at h
    split at h
    · split at h
      · cases h
      · obtain rfl := Option.some.inj h
        cases hk
    · obtain rfl := Option.some.inj h
      exact hk

theorem forall_mem_of_mapM {p : Position} {outer fresh : List (Option Candidate)}
    (h : outer.mapM (freshCandidate? p) = some fresh) {P : Candidate → Prop}
    (hall : ∀ candidate ∈ outer, ∀ k ∈ candidate, P k) :
    ∀ candidate ∈ fresh, ∀ k ∈ candidate, P k := by
  induction outer generalizing fresh with
  | nil =>
    obtain rfl := Option.some.inj h
    exact hall
  | cons c cs ih =>
    rw [List.mapM_cons] at h
    obtain ⟨c', hc, h⟩ := Option.bind_eq_some_iff.1 h
    obtain ⟨cs', hcs, h⟩ := Option.bind_eq_some_iff.1 h
    obtain rfl := Option.some.inj h
    rw [List.forall_mem_cons] at hall ⊢
    exact ⟨fun k hk => hall.1 k (mem_of_freshCandidate? hc hk), ih hcs hall.2⟩

/-- All tokens stand behind a token that ends a document. -/
structure Ended (s : Scanner) : Prop where
  tokens : s.tokens.getLast? = some .documentEnd
  candidate : ∀ k ∈ s.candidate, 0 < k.before
  outer : ∀ candidate ∈ s.outer, ∀ k ∈ candidate, 0 < k.before

namespace Ended

variable {s s' : Scanner} (h : Ended s)
include h

theorem length_pos : 0 < s.tokens.length := by
  refine List.length_pos_iff.2 fun hnil => ?_
  have := h.tokens
  rw [hnil] at this
  cases this

theorem push (ts : List Token) : (ts ++ s.tokens).getLast? = some .documentEnd := by
  rw [List.getLast?_append, h.tokens]
  rfl

theorem closeTo (n : Nat) : Ended (s.closeTo n) := by
  rw [Scanner.closeTo]
  split
  · exact h
  · exact ⟨h.push _, h.candidate, h.outer⟩

theorem openBlock (token : Token) : Ended (s.openBlock token) := by
  simp only [Scanner.openBlock]
  split
  · exact ⟨h.push [token], h.candidate, h.outer⟩
  · exact h

theorem takeKey {k : Candidate} (hk : 0 < k.before) : Ended (s.takeKey k) := by
  have hkey (ts : List Token) : (s.tokens.take (s.tokens.length - k.before) ++
      (ts ++ s.tokens.drop (s.tokens.length - k.before))).getLast? = some .documentEnd := by
    have hlt : ¬s.tokens.length ≤ s.tokens.length - k.before := by
      have := h.length_pos
      omega
    simp [List.getLast?_append, List.getLast?_drop, hlt, h.tokens]
  simp only [Scanner.takeKey]
  split
  · exact ⟨hkey [.key, .blockMapping], h.candidate, h.outer⟩
  · exact ⟨hkey [.key], h.candidate, h.outer⟩

theorem dropCandidate? (hs : s.dropCandidate? = some s') : Ended s' := by
  rw [Scanner.dropCandidate?] at hs
  split at hs
  · cases hs
  · obtain rfl := Option.some.inj hs
    exact ⟨h.tokens, fun k hk => absurd hk (Option.not_mem_none k), h.outer⟩

theorem saveCandidate? (hs : s.saveCandidate? = some s') : Ended s' := by
  rw [Scanner.saveCandidate?] at hs
  split at hs
  · obtain ⟨s₁, hdrop, hs⟩ := Option.bind_eq_some_iff.1 hs
    obtain rfl := Option.some.inj hs
    have h₁ := h.dropCandidate? hdrop
    refine ⟨h₁.tokens, fun k hk => ?_, h₁.outer⟩
    obtain rfl := Option.some.inj hk
    exact h₁.length_pos
  · obtain rfl := Option.some.inj hs
    exact h

theorem takeTo {c : Cursor} (token : Token) (a : Bool) :
    Ended { s.takeTo c token with keyAllowed := a } :=
  ⟨h.push [token], h.candidate, h.outer⟩

theorem take (n : Nat) (token : Token) (a : Bool) :
    Ended { s.take n token with keyAllowed := a } :=
  ⟨h.push [token], h.candidate, h.outer⟩

theorem marker? {token : Token} (hs : s.marker? token = some s') : Ended s' := by
  obtain ⟨s₁, hdrop, hs⟩ := Option.bind_eq_some_iff.1 hs
  obtain rfl := Option.some.inj hs
  exact ((h.closeTo 0).dropCandidate? hdrop).take 3 token false

theorem directive? (hs : s.directive? = some s') : Ended s' := by
  obtain ⟨s₁, hdrop, hs⟩ := Option.bind_eq_some_iff.1 hs
  obtain ⟨⟨d, rest⟩, -, hs⟩ := Option.bind_eq_some_iff.1 hs
  simp only [Option.ite_none_right_eq_some] at hs
  obtain ⟨-, hs⟩ := hs
  obtain rfl := Option.some.inj hs
  exact ((h.closeTo 0).dropCandidate? hdrop).takeTo _ false

theorem openFlow? {token : Token} (hs : s.openFlow? token = some s') : Ended s' := by
  obtain ⟨s₁, hsave, hs⟩ := Option.bind_eq_some_iff.1 hs
  obtain rfl := Option.some.inj hs
  have h₁ := h.saveCandidate? hsave
  exact ⟨h₁.push [token], nofun, List.forall_mem_cons.2 ⟨h₁.candidate, h₁.outer⟩⟩

theorem closeFlow? {token : Token} (hs : s.closeFlow? token = some s') : Ended s' := by
  obtain ⟨s₁, hdrop, hs⟩ := Option.bind_eq_some_iff.1 hs
  obtain rfl := Option.some.inj hs
  have h₁ := h.dropCandidate? hdrop
  refine ⟨h₁.push [token], fun k hk => ?_, fun c hc => h₁.outer c (List.mem_of_mem_tail hc)⟩
  obtain ⟨candidate, hhead, hk⟩ : ∃ candidate ∈ s₁.outer.head?, k ∈ candidate := by
    cases houter : s₁.outer.head? with
    | none => simp [houter] at hk
    | some candidate => exact ⟨candidate, rfl, by simpa [houter] using hk⟩
  exact h₁.outer candidate (List.mem_of_mem_head? hhead) k hk

theorem comma? (hs : s.comma? = some s') : Ended s' := by
  obtain ⟨s₁, hdrop, hs⟩ := Option.bind_eq_some_iff.1 hs
  obtain rfl := Option.some.inj hs
  exact (h.dropCandidate? hdrop).take 1 .comma true

theorem dash? (hs : s.dash? = some s') : Ended s' := by
  rw [Scanner.dash?] at hs
  split at hs
  · cases hs
  · obtain ⟨s₁, hdrop, hs⟩ := Option.bind_eq_some_iff.1 hs
    obtain rfl := Option.some.inj hs
    exact ((h.openBlock _).dropCandidate? hdrop).take 1 .dash true

theorem key? (hs : s.key? = some s') : Ended s' := by
  rw [Scanner.key?] at hs
  split at hs
  · cases hs
  · obtain ⟨s₁, hdrop, hs⟩ := Option.bind_eq_some_iff.1 hs
    obtain rfl := Option.some.inj hs
    exact ((h.openBlock _).dropCandidate? hdrop).take 1 .key _

theorem value? (hs : s.value? = some s') : Ended s' := by
  rw [Scanner.value?] at hs
  split at hs
  · next k hk =>
    obtain rfl := Option.some.inj hs
    have h₁ := h.takeKey (h.candidate k hk)
    exact ⟨h₁.push [.value], nofun, h₁.outer⟩
  · split at hs
    · cases hs
    · obtain rfl := Option.some.inj hs
      exact (h.openBlock _).take 1 .value _

theorem name? {token : Text → Token} (hs : s.name? token = some s') : Ended s' := by
  obtain ⟨s₁, hsave, hs⟩ := Option.bind_eq_some_iff.1 hs
  simp only at hs
  split at hs
  · cases hs
  · obtain rfl := Option.some.inj hs
    exact (h.saveCandidate? hsave).takeTo _ false

theorem tag? (hs : s.tag? = some s') : Ended s' := by
  obtain ⟨s₁, hsave, hs⟩ := Option.bind_eq_some_iff.1 hs
  obtain ⟨⟨tag, rest⟩, -, hs⟩ := Option.bind_eq_some_iff.1 hs
  simp only at hs
  split at hs
  · obtain rfl := Option.some.inj hs
    exact (h.saveCandidate? hsave).takeTo _ false
  · cases hs

theorem block? {folded : Bool} (hs : s.block? folded = some s') : Ended s' := by
  obtain ⟨s₁, hdrop, hs⟩ := Option.bind_eq_some_iff.1 hs
  obtain ⟨⟨t, c⟩, -, hs⟩ := Option.bind_eq_some_iff.1 hs
  obtain rfl := Option.some.inj hs
  exact (h.dropCandidate? hdrop).takeTo _ true

theorem quoted? {read? : Position → Text → Option (Text × Cursor)}
    (hs : s.quoted? read? = some s') : Ended s' := by
  obtain ⟨s₁, hsave, hs⟩ := Option.bind_eq_some_iff.1 hs
  obtain ⟨⟨t, c⟩, -, hs⟩ := Option.bind_eq_some_iff.1 hs
  obtain rfl := Option.some.inj hs
  exact (h.saveCandidate? hsave).takeTo _ false

theorem plain? (hs : s.plain? = some s') : Ended s' := by
  obtain ⟨s₁, hsave, hs⟩ := Option.bind_eq_some_iff.1 hs
  obtain ⟨scalar, -, hs⟩ := Option.bind_eq_some_iff.1 hs
  obtain rfl := Option.some.inj hs
  exact (h.saveCandidate? hsave).takeTo _ _

/-- Whatever token is read, it stands behind the others. -/
theorem token? {c : Char} {t : Text} (hs : s.token? c t = some s') : Ended s' := by
  revert hs
  fun_cases Scanner.token? c t s <;> intro hs
  case case1 => exact h.directive? hs
  case case2 => exact h.marker? hs
  case case3 | case4 => exact h.openFlow? hs
  case case5 | case6 => exact h.closeFlow? hs
  case case7 => exact h.comma? hs
  case case8 | case9 => exact h.name? hs
  case case10 => exact h.tag? hs
  case case11 | case12 => exact h.quoted? hs
  case case13 => exact h.dash? hs
  case case15 => exact h.key? hs
  case case17 => exact h.value? hs
  case case20 | case22 => exact h.block? hs
  case case14 | case16 | case18 | case24 => exact h.plain? hs
  case case19 | case21 | case23 => cases hs

theorem dropStale? (hs : s.dropStale? = some s') : Ended s' := by
  obtain ⟨candidate, hcandidate, hs⟩ := Option.bind_eq_some_iff.1 hs
  obtain ⟨outer, houter, hs⟩ := Option.bind_eq_some_iff.1 hs
  obtain rfl := Option.some.inj hs
  refine ⟨h.tokens, fun k hk => h.candidate k (mem_of_freshCandidate? hcandidate hk), ?_⟩
  exact forall_mem_of_mapM houter h.outer

theorem next? (hs : s.next? = some s') : Ended s' := by
  obtain ⟨s₁, hdrop, rfl⟩ := Option.map_eq_some_iff.1 hs
  have htoken : Ended s.toToken := ⟨h.tokens, h.candidate, h.outer⟩
  exact (htoken.dropStale? hdrop).closeTo _

/-- The first of all tokens stays the first. -/
theorem head?_tokens? {fuel : Nat} {ts : List Token} (hs : tokens? fuel s = some ts) :
    ts.head? = some .documentEnd := by
  induction fuel generalizing s with
  | zero => cases hs
  | succ fuel ih =>
    rw [tokens?_succ] at hs
    obtain ⟨s₁, hnext, hs⟩ := Option.bind_eq_some_iff.1 hs
    have h₁ := h.next? hnext
    cases hrest : s₁.cursor.rest with
    | nil =>
      rw [hrest] at hs
      obtain ⟨s₂, hend, rfl⟩ := Option.map_eq_some_iff.1 hs
      rw [List.head?_reverse]
      exact ((h₁.closeTo 0).dropCandidate? hend).tokens
    | cons c t =>
      rw [hrest] at hs
      obtain ⟨s₂, htoken, hs⟩ := Option.bind_eq_some_iff.1 hs
      exact ih (h₁.token? htoken) hs

end Ended

end Scanner

/-- A document that starts with its end has no value. -/
theorem Node.ofTokens?_documentEnd (ts : List Token) : ofTokens? (.documentEnd :: ts) = none := by
  have hread (fuel : Nat) : Node.read? Handles.usual fuel .item (.documentEnd :: ts) = none := by
    cases fuel with
    | zero => rfl
    | succ fuel => simp [read?, readProperties, Properties.tagName?, atAny, Place.item]
  rw [ofTokens?.eq_def]
  simp only [hread]
  rfl

/-- A text that starts with the end of a document has no value. -/
theorem read?_of_isMarker {t : Text} (ht : ∀ c ∈ t, isPrintable c = true)
    (hstart : t.head? = some '.') (hmark : isMarker {} t = true) : read? t = none := by
  obtain ⟨u, rfl⟩ := List.head?_eq_some_iff.1 hstart
  have hnext : (Scanner.block true {} ('.' :: u) [] []).next? =
      some (Scanner.block true {} ('.' :: u) [] []) := by
    rw [Scanner.next?_block (.of_starts ⟨'.', u, rfl, rfl⟩ {})]
    rfl
  have htoken : (Scanner.block true {} ('.' :: u) [] []).token? '.' u =
      (Scanner.block true {} ('.' :: u) [] []).marker? .documentEnd := by
    rw [Scanner.token?.eq_def, if_neg (by simp), if_pos (by exact hmark)]
    rfl
  have hhead {ts : List Token} (hts : Token.ofText? ('.' :: u) = some ts) :
      ts.head? = some .documentEnd := by
    rw [Token.ofText?_eq fun c hc => .inl (ht c hc), Scanner.tokens?_succ, hnext,
      Option.bind_some] at hts
    obtain ⟨s, hmarker, hts⟩ := Option.bind_eq_some_iff.1 hts
    have hs := htoken.symm.trans hmarker
    obtain rfl := Option.some.inj hs
    have hcandidate : ∀ k ∈ (none : Option Candidate), 0 < k.before :=
      fun k hk => absurd hk (Option.not_mem_none k)
    have houter : ∀ candidate ∈ ([] : List (Option Candidate)), ∀ k ∈ candidate, 0 < k.before :=
      List.forall_mem_nil _
    exact Scanner.Ended.head?_tokens? ⟨rfl, hcandidate, houter⟩ hts
  cases hts : Token.ofText? ('.' :: u) with
  | none => simp [read?, hts]
  | some ts =>
    obtain ⟨ts, rfl⟩ := List.head?_eq_some_iff.1 (hhead hts)
    simp [read?, hts, Node.ofTokens?_documentEnd]

end Scaffold.Yaml
