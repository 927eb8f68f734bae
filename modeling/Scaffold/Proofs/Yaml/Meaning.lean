import Scaffold.Proofs.Yaml.Flow
import Scaffold.Proofs.Yaml.Marker

/-!
# What written scalars mean

A basic value that is written as a scalar is what the scalar means (`Value.ofScalar?_inline`).  For
a text without quotes this is what the writer has tried out, by reading the text as a document of
its own: the document is a single token, unless it starts with a document marker, and then it has no
value (`Value.ofPlain?_of_isPlainText`).
-/

namespace Scaffold.Yaml

/-! ## Numbers -/

theorem foldlM_digits {t : Text} (ht : ∀ c ∈ t, c.isDigit = true) (n : Nat) :
    t.foldlM (fun n c => do
      let d ← Text.hexValue? c
      if d < 10 then some (10 * n + d) else none) n = some (Nat.ofDigitChars 10 t n) := by
  induction t generalizing n with
  | nil => rfl
  | cons c t ih =>
    obtain ⟨hc, ht⟩ := List.forall_mem_cons.1 ht
    have hlt : c.toNat - '0'.toNat < 10 := by
      simp [Char.isDigit, UInt32.le_iff_toNat_le] at hc ⊢
      omega
    rw [List.foldlM_cons, Text.hexValue?, if_pos hc]
    simp only [Option.bind_eq_bind, Option.bind_some, hlt, if_true]
    exact ih ht _

theorem digits?_ofNat (n : Nat) : digits? 10 (Text.ofNat n) = some n := by
  have hne : (Text.ofNat n).isEmpty = false := by simpa using Decimal.ofNat_ne_nil n
  rw [digits?, hne, if_neg Bool.false_ne_true,
    foldlM_digits fun c hc => Decimal.isDigit_of_mem_ofNat hc]
  exact congrArg some (Decimal.digitsValue_ofNat n)

/-- Only zero is written with a zero in front. -/
theorem eq_nil_of_ofNat {n : Nat} {t : Text} (h : Text.ofNat n = '0' :: t) : t = [] := by
  induction n using Nat.strongRecOn generalizing t with
  | ind n ih =>
    rw [Text.ofNat] at h
    rcases Nat.lt_or_ge n 10 with hn | hn
    · rw [Nat.toDigits_of_lt_base hn] at h
      exact (List.cons.inj h).2.symm
    · rw [Nat.toDigits_of_base_le (by decide) hn] at h
      obtain ⟨c, u, hu⟩ := List.exists_cons_of_ne_nil (Decimal.ofNat_ne_nil (n / 10))
      rw [Text.ofNat] at hu
      rw [hu] at h
      obtain rfl : c = '0' := (List.cons.inj h).1
      have hnil : u = [] := ih (n / 10) (by omega) hu
      have hzero := Decimal.digitsValue_ofNat (n / 10)
      rw [Text.ofNat, hu, hnil] at hzero
      have : 0 = n / 10 := hzero
      omega

theorem natural?_ofNat (n : Nat) : natural? (Text.ofNat n) = some n := by
  have hspare : hasSpareZero (Text.ofNat n) = false := by
    unfold hasSpareZero
    split
    · next h => simp [eq_nil_of_ofNat h]
    · rfl
  unfold natural?
  split
  case h_4 => rw [hspare, if_neg Bool.false_ne_true, digits?_ofNat]
  all_goals next h => exact absurd (eq_nil_of_ofNat h) (List.cons_ne_nil _ _)

theorem readSign_ofInt (n : Int) :
    Decimal.readSign (Text.ofInt n) = (decide (n < 0), Text.ofNat n.natAbs) := by
  rw [Text.ofInt]
  split
  · next h => simp [Decimal.readSign, h]
  · next h =>
    have hne {c : Char} (hc : c.isDigit = false) {t : Text} : Text.ofNat n.natAbs ≠ c :: t := by
      intro heq
      have hdigit := Decimal.isDigit_of_mem_ofNat (n := n.natAbs) (heq ▸ List.mem_cons_self)
      exact absurd (hc.symm.trans hdigit) Bool.false_ne_true
    rw [Decimal.readSign.eq_def]
    split
    · next heq => exact absurd heq (hne rfl)
    · next heq => exact absurd heq (hne rfl)
    · simp [h]

theorem whole?_ofInt {n : Int} (h : fitsWord n = true) : whole? (Text.ofInt n) = some n := by
  simp only [fitsWord, Bool.and_eq_true, decide_eq_true_eq] at h
  rw [whole?, readSign_ofInt]
  simp only [natural?_ofNat, Option.bind_eq_bind, Option.bind_some, decide_eq_true_eq]
  rw [if_pos]
  · refine congrArg some ?_
    split <;> omega
  · split <;> norm_num at h ⊢ <;> omega

/-- A whole number is read as it was written. -/
theorem Value.ofPlain?_ofInt {n : Int} (h : fitsWord n = true) :
    ofPlain? (Text.ofInt n) = some (.whole n) := by
  have hne {d : Char} (hd : d.isDigit = false) (hminus : d ≠ '-') (t : Text) :
      (Text.ofInt n == d :: t) = false := by
    rw [beq_eq_false_iff_ne, Text.ofInt]
    split
    · exact fun heq => hminus (List.cons.inj heq).1.symm
    · intro heq
      have hdigit := Decimal.isDigit_of_mem_ofNat (n := n.natAbs) (heq ▸ List.mem_cons_self)
      exact absurd (hd.symm.trans hdigit) Bool.false_ne_true
  have hempty : (Text.ofInt n).isEmpty = false := by
    obtain ⟨c, t, hct, -⟩ := (isWord_ofInt n).start
    rw [hct]
    rfl
  have hnull : isNullWord (Text.ofInt n) = false := by
    simp only [isNullWord, Bool.or_eq_false_iff]
    and_intros <;> exact hne rfl (by decide) _
  have hboolean : booleanWord? (Text.ofInt n) = none := by
    rw [booleanWord?, if_neg, if_neg] <;> simp only [Bool.or_eq_true, not_or, Bool.not_eq_true] <;>
      and_intros <;> exact hne rfl (by decide) _
  rw [ofPlain?, hempty, hnull, hboolean]
  simp [whole?_ofInt h, h]

/-! ## Texts -/

/-- A text of one scalar means what the scalar does. -/
theorem read?_of_single {plain : Bool} {t u : Text} (h : Token.ofText? t = some [.scalar plain u]) :
    read? t = Value.ofScalar? none plain u := by
  rw [read?, h]
  have hnode : Node.ofTokens? [.scalar plain u] = some (.scalar none none plain u) := by
    cases plain <;> rfl
  simp only [Option.bind_eq_bind, Option.bind_some, hnode]
  have hvalue (anchored : Node.Anchored) (depth n : Nat) :
      (Value.ofNode anchored (depth + 1) (.scalar none none plain u)).run' n =
        Value.ofScalar? none plain u := by
    show (StateT.lift (Value.ofScalar? none plain u) : Resolver Value).run' n = _
    cases Value.ofScalar? none plain u <;> rfl
  exact hvalue _ _ _

/-- A word alone is read as the plain scalar that it is. -/
theorem read?_word {t : Text} (h : IsWord t) (hmark : isMarker {} t = false) :
    read? t = Value.ofPlain? t := read?_of_single (Token.ofText?_word h hmark)

/-- A text without quotes is read as the same text, and starts with no document marker. -/
theorem Value.ofPlain?_of_isPlainText {t : Text} (ht : IsWritable t) (h : isPlainText t = true) :
    ofPlain? t = some (.text t) ∧ isMarker {} t = false := by
  have hword := isWord_of_isPlainText ht h
  obtain ⟨c, u, rfl, hsolid⟩ := (Spells.word hword).starts
  simp only [isPlainText, Bool.and_eq_true, Bool.not_eq_true'] at h
  obtain ⟨⟨⟨⟨⟨-, hlead⟩, -⟩, -⟩, -⟩, hreads⟩ := h
  have hmark : isMarker {} (c :: u) = false := by
    refine Bool.eq_false_iff.2 fun hmark => ?_
    have hstart : c = '.' := by
      simp only [isMarker, Bool.and_eq_true] at hmark
      split at hmark
      · next heq =>
        obtain rfl := (List.cons.inj heq).1
        simp [isLeadIndicator] at hlead
      · next heq => exact (List.cons.inj heq).1
      · exact absurd hmark.2 Bool.false_ne_true
    have hnone := read?_of_isMarker (fun d hd => hword.isPrintable hd) (congrArg some hstart) hmark
    rw [readsBack, hnone] at hreads
    cases hreads
  refine ⟨?_, hmark⟩
  rw [readsBack, read?_word hword hmark] at hreads
  split at hreads
  · next v heq => rw [heq, eq_of_beq hreads]
  · cases hreads

/-- Letters and digits need no quotes. -/
theorem needsQuotes_of_isAlphanum {c : Char} (h : c.isAlphanum = true) :
    isLeadIndicator c = false ∧ needsQuotes c = false := by
  have hne (d : Char) (hd : d.isAlphanum = false) : c ≠ d := by
    rintro rfl
    exact absurd (h.symm.trans hd) (by decide)
  have hcontrol : isControl c = false := by
    have hcode := toNat_of_isAlphanum h
    simp only [isControl, Bool.or_eq_false_iff, Bool.and_eq_false_iff, decide_eq_false_iff_not]
    omega
  constructor
  · simp [isLeadIndicator]
    and_intros <;> exact hne _ rfl
  · simp [needsQuotes, hcontrol]
    and_intros <;> exact hne _ rfl

/-- Letters and digits are written without quotes, unless they are a word or a number to some
reader. -/
theorem isPlainText_of_isAlphanum {t : Text} (hne : t ≠ []) (h : ∀ c ∈ t, c.isAlphanum = true)
    (hword : reservedWords.contains (Text.lower t) = false) (hnumber : looksNumeric t = false)
    (hmeaning : Value.ofPlain? t = some (.text t)) : isPlainText t = true := by
  have htrim : Text.trim t = t :=
    Text.trim_of_notBlank fun c hc => isBlank_of_isAlphanum (h c hc)
  have hquotes : t.any needsQuotes = false :=
    List.any_eq_false.2 fun c hc => by simp [(needsQuotes_of_isAlphanum (h c hc)).2]
  have hmark : isMarker {} t = false := by
    unfold isMarker
    split
    · exact absurd (h _ List.mem_cons_self) (by decide)
    · exact absurd (h _ List.mem_cons_self) (by decide)
    · exact Bool.and_false _
  have hreads : readsBack t = true := by
    rw [readsBack, read?_word (isWord_of_isAlphanum hne h) hmark, hmeaning]
    exact beq_self_eq_true t
  obtain ⟨c, u, rfl⟩ := List.exists_cons_of_ne_nil hne
  simp only [isPlainText, htrim, hquotes, hword, hnumber, hreads,
    (needsQuotes_of_isAlphanum (h c List.mem_cons_self)).1]
  simp

/-- What is written as a scalar is what the scalar means. -/
theorem Value.ofScalar?_inline {v : Value} (hv : v.isBasic = true) {plain : Bool} {t : Text}
    (h : v.inlineTokens = [.scalar plain t]) : ofScalar? none plain t = some v := by
  cases v with
  | null =>
    obtain ⟨rfl, rfl⟩ : true = plain ∧ inline .null = t := by simpa [inlineTokens] using h
    rfl
  | boolean b =>
    obtain ⟨rfl, rfl⟩ : true = plain ∧ inline (.boolean b) = t := by simpa [inlineTokens] using h
    cases b <;> rfl
  | whole n =>
    obtain ⟨rfl, rfl⟩ : true = plain ∧ inline (.whole n) = t := by simpa [inlineTokens] using h
    exact ofPlain?_ofInt hv
  | text u =>
    obtain ⟨rfl, rfl⟩ : isPlainText u = plain ∧ u = t := by simpa [inlineTokens] using h
    cases hplain : isPlainText u with
    | true => exact (ofPlain?_of_isPlainText (List.all_eq_true.1 hv) hplain).1
    | false => rfl
  | sequence | mapping => cases h
  | fraction | tagged => cases hv

end Scaffold.Yaml
