import Scaffold.Text.Blank

/-!
# Text

All text the library reads and writes is a list of characters, so that readers are defined by
recursion on what is left to read and their laws are proved by induction on it.

Positions and lengths that leave the library count bytes of the UTF-8 form.  `Text.byteLength`
measures a text in bytes and `Text.cutAt?` divides one at a byte position; the main facts are
`Text.byteLength_append` and `Text.append_eq_of_cutAt?`, which say that the measure is additive
and that a cut loses nothing.
-/

namespace Scaffold

/-- A text is the list of its characters. -/
abbrev Text := List Char

instance : Coe String Text := ⟨String.toList⟩

/-- A property of every character of a text is decided by going through the text. -/
instance (priority := high) decidableForallMemText (t : Text) (p : Char → Prop) [DecidablePred p] :
    Decidable (∀ c ∈ t, p c) :=
  List.decidableBAll p t

instance (priority := high) decidableForallMemOption {α : Type} (o : Option α) (p : α → Prop)
    [DecidablePred p] : Decidable (∀ a ∈ o, p a) :=
  match o with
  | none => .isTrue (by simp)
  | some a => decidable_of_iff (p a) (by simp)

/-- The list without the longest run of `p` at its start and the longest one at its end. -/
def trimEdges {α : Type} (p : α → Bool) (l : List α) : List α :=
  ((l.dropWhile p).reverse.dropWhile p).reverse

/-- Trimming the edges of a list makes it no longer. -/
theorem length_trimEdges_le {α : Type} (p : α → Bool) (l : List α) :
    (trimEdges p l).length ≤ l.length := by
  have h₁ := (List.dropWhile_sublist p (l := (l.dropWhile p).reverse)).length_le
  have h₂ := (List.dropWhile_sublist p (l := l)).length_le
  simp only [trimEdges, List.length_reverse] at *
  omega

/-- Divides a list at its first element with `p`. -/
def breakAt? {α : Type} (p : α → Bool) : List α → Option (List α × α × List α)
  | [] => none
  | x :: l =>
    if p x then some ([], x, l)
    else (breakAt? p l).map fun (before, y, after) => (x :: before, y, after)

/-- Dividing a list loses nothing and finds the first element with `p`. -/
theorem eq_append_of_breakAt? {α : Type} {p : α → Bool} {l before after : List α} {x : α}
    (h : breakAt? p l = some (before, x, after)) :
    l = before ++ x :: after ∧ p x = true ∧ ∀ y ∈ before, p y = false := by
  induction l generalizing before with
  | nil => simp [breakAt?] at h
  | cons y l ih =>
    unfold breakAt? at h
    split at h
    · simp_all
    · obtain ⟨⟨b, z, a⟩, hb, he⟩ := Option.map_eq_some_iff.1 h
      cases he
      obtain ⟨rfl, hx, hall⟩ := ih hb
      simp_all

namespace Text

/-! ## Bytes -/

/-- The number of bytes of the UTF-8 form. -/
def byteLength : Text → Nat
  | [] => 0
  | c :: t => c.utf8Size + byteLength t

@[simp] theorem byteLength_nil : byteLength [] = 0 := rfl

@[simp] theorem byteLength_cons (c : Char) (t : Text) :
    byteLength (c :: t) = c.utf8Size + byteLength t := rfl

@[simp] theorem byteLength_append (t u : Text) :
    byteLength (t ++ u) = byteLength t + byteLength u := by
  induction t with
  | nil => simp
  | cons c t ih => simp [ih, Nat.add_assoc]

/-- The text before and after a byte position; `none` inside a character or behind the end. -/
def cutAt? : Text → Nat → Option (Text × Text)
  | t, 0 => some ([], t)
  | [], _ + 1 => none
  | c :: t, n + 1 =>
    if c.utf8Size ≤ n + 1 then (cutAt? t (n + 1 - c.utf8Size)).map fun (a, b) => (c :: a, b)
    else none

/-- A cut loses nothing. -/
theorem append_eq_of_cutAt? {t a b : Text} {n : Nat} (h : t.cutAt? n = some (a, b)) :
    a ++ b = t := by
  induction t generalizing n a with
  | nil => cases n <;> simp_all [cutAt?]
  | cons c t ih =>
    cases n with
    | zero => simp_all [cutAt?]
    | succ n =>
      simp only [cutAt?] at h
      split at h
      · obtain ⟨⟨x, y⟩, hc, he⟩ := Option.map_eq_some_iff.1 h
        cases he
        simp [ih hc]
      · simp at h

/-! ## Blanks -/

/-- The text without leading blanks. -/
def trimStart (t : Text) : Text := t.dropWhile isBlank

/-- The text without trailing blanks. -/
def trimEnd (t : Text) : Text := (t.reverse.dropWhile isBlank).reverse

/-- The text without leading and trailing blanks. -/
def trim (t : Text) : Text := trimEdges isBlank t

/-- The given number of spaces. -/
def spaces (n : Nat) : Text := List.replicate n ' '

/-! ## Searching and dividing -/

/-- The text before and after the first place where `needle` stands. -/
def breakOn? (needle : Text) : Text → Option (Text × Text)
  | [] => if needle.isEmpty then some ([], []) else none
  | c :: t =>
    match needle.isPrefixOf? (c :: t) with
    | some rest => some ([], rest)
    | none => (breakOn? needle t).map fun (a, b) => (c :: a, b)

/-- What is removed from the start stood there. -/
theorem append_of_isPrefixOf? {lead t rest : Text} (h : lead.isPrefixOf? t = some rest) :
    lead ++ rest = t := by
  induction lead generalizing t with
  | nil => exact (Option.some.inj (show some t = some rest from h)).symm
  | cons c lead ih =>
    cases t with
    | nil => exact nomatch (show none = some rest from h)
    | cons d t =>
      have h : (if c == d then lead.isPrefixOf? t else none) = some rest := h
      split at h
      · simp_all [ih h]
      · simp at h

/-- Dividing a text loses nothing. -/
theorem append_of_breakOn? {needle t a b : Text} (h : breakOn? needle t = some (a, b)) :
    a ++ needle ++ b = t := by
  induction t generalizing a with
  | nil => cases needle <;> simp_all [breakOn?]
  | cons c t ih =>
    simp only [breakOn?] at h
    split at h
    · rename_i rest hp
      cases h
      simpa using append_of_isPrefixOf? hp
    · obtain ⟨⟨x, y⟩, hb, he⟩ := Option.map_eq_some_iff.1 h
      cases he
      simp [← ih hb]

/-- `true` when `needle` stands somewhere in the text. -/
def contains (needle t : Text) : Bool := (breakOn? needle t).isSome

/-- The text before and after the last character equal to `c`. -/
def breakOnLast? (c : Char) (t : Text) : Option (Text × Text) :=
  (breakOn? [c] t.reverse).map fun (a, b) => (b.reverse, a.reverse)

/-- Dividing a text at its last such character loses nothing. -/
theorem append_of_breakOnLast? {c : Char} {t a b : Text} (h : breakOnLast? c t = some (a, b)) :
    a ++ c :: b = t := by
  obtain ⟨⟨x, y⟩, hb, he⟩ := Option.map_eq_some_iff.1 h
  cases he
  have := congrArg List.reverse (append_of_breakOn? hb)
  simpa using this

/-- Counts, from left to right, the places where `needle` stands that do not overlap an earlier
counted one; `skip` characters still belong to the last one. -/
def countApart (needle : Text) : Nat → Text → Nat
  | _, [] => 0
  | skip + 1, _ :: t => countApart needle skip t
  | 0, c :: t =>
    if needle.isPrefixOf (c :: t) then countApart needle (needle.length - 1) t + 1
    else countApart needle 0 t

/-- The lines of a text: the pieces between newlines. -/
def lines (t : Text) : List Text := t.splitOn '\n'

/-- The lines as one text, a newline between two of them. -/
def joinLines (ls : List Text) : Text := ['\n'].intercalate ls

/-- The text with its capital ASCII letters made small. -/
def lower (t : Text) : Text := t.map Char.toLower

/-- Removes `lead` from the start of the text as often as it stands there. -/
def dropLead (lead : Text) (t : Text) : Text :=
  go t.length t
where
  /-- One removal a step; no more than `n` are possible. -/
  go : Nat → Text → Text
    | 0, t => t
    | n + 1, t =>
      match lead.isPrefixOf? t with
      | some rest => go n rest
      | none => t

/-- The order of texts by code points. -/
def le : Text → Text → Bool
  | [], _ => true
  | _ :: _, [] => false
  | c :: t, d :: u => if c = d then le t u else c < d

/-- The word for a truth value. -/
def ofBool (b : Bool) : Text := if b then "true" else "false"

/-- The decimal digits of a number. -/
def ofNat (n : Nat) : Text := Nat.toDigits 10 n

/-- The decimal digits of a whole number, behind a minus sign when it is negative. -/
def ofInt (n : Int) : Text := if n < 0 then '-' :: ofNat n.natAbs else ofNat n.natAbs

end Text

end Scaffold
