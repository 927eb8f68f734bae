import Mathlib.Logic.ExistsUnique
import Scaffold.Proofs.Text.Search

/-!
# Occurrences

Where a text stands in another one, as byte positions (`OccursAt`).  `breakOn?` divides at the least
of them, and `countApart` counts from there, each next one behind the end of the one before.  So it
counts one when no position lies behind the end of the first (`countApart_eq_one_iff`), which is
uniqueness for a text that does not overlap itself and not for any other
(`near_iff_existsUnique`, `OverlapsItself.exists_near`).
-/

namespace Scaffold.Text

/-! ## Positions in bytes -/

/-- `needle` stands in a text behind its first `n` bytes. -/
def OccursAt (needle t : Text) (n : Nat) : Prop :=
  ∃ before after, before ++ needle ++ after = t ∧ before.byteLength = n

theorem byteLength_pos {t : Text} (h : t ≠ []) : 0 < t.byteLength := by
  obtain ⟨c, t, rfl⟩ := List.exists_cons_of_ne_nil h
  exact Nat.add_pos_left c.utf8Size_pos _

theorem eq_nil_of_byteLength {t : Text} (h : t.byteLength = 0) : t = [] :=
  Decidable.byContradiction fun hne => Nat.ne_of_gt (byteLength_pos hne) h

/-- Of two divisions of a text, the one at the later byte has the longer first part. -/
theorem exists_eq_append_of_byteLength_le {a b c d : Text} (h : a ++ b = c ++ d)
    (hle : a.byteLength ≤ c.byteLength) : ∃ u, c = a ++ u ∧ b = u ++ d := by
  rcases List.append_eq_append_iff.1 h with ⟨u, rfl, rfl⟩ | ⟨u, rfl, rfl⟩
  · exact ⟨u, rfl, rfl⟩
  · rw [byteLength_append] at hle
    obtain rfl : u = [] := eq_nil_of_byteLength (by omega)
    exact ⟨[], by simp, rfl⟩

/-- A text is cut at a byte position exactly when its first part has that many bytes. -/
theorem cutAt?_eq_some_iff {t a b : Text} {n : Nat} :
    t.cutAt? n = some (a, b) ↔ a ++ b = t ∧ a.byteLength = n := by
  constructor
  · intro h
    refine ⟨append_eq_of_cutAt? h, ?_⟩
    induction t generalizing n a with
    | nil =>
      cases n with
      | zero =>
        obtain ⟨rfl, -⟩ := Prod.mk.inj (Option.some.inj h)
        rfl
      | succ n => cases h
    | cons c t ih =>
      cases n with
      | zero =>
        obtain ⟨rfl, -⟩ := Prod.mk.inj (Option.some.inj h)
        rfl
      | succ n =>
        rw [cutAt?] at h
        split at h
        · obtain ⟨⟨x, y⟩, hcut, heq⟩ := Option.map_eq_some_iff.1 h
          obtain ⟨rfl, rfl⟩ := Prod.mk.inj heq
          rw [byteLength_cons, ih hcut]
          omega
        · cases h
  · rintro ⟨rfl, rfl⟩
    exact cutAt?_append a b

/-- A division of a text is at the first place of another one when that is so in bytes. -/
theorem breakOn?_eq_some_iff_bytes {needle t a b : Text} :
    breakOn? needle t = some (a, b) ↔
      a ++ needle ++ b = t ∧ ∀ n, OccursAt needle t n → a.byteLength ≤ n := by
  rw [breakOn?_eq_some_iff]
  refine and_congr_right fun hsplit => ⟨?_, fun hleast a' b' h' => ?_⟩
  · rintro hleast n ⟨a', b', h', rfl⟩
    refine Nat.le_of_not_lt fun hlt => ?_
    have hwhole : a' ++ (needle ++ b') = a ++ (needle ++ b) := by simpa [← h'] using hsplit.symm
    obtain ⟨u, rfl, -⟩ := exists_eq_append_of_byteLength_le hwhole (by omega)
    have hlength := hleast a' b' h'
    rw [List.length_append] at hlength
    obtain rfl : u = [] := List.eq_nil_of_length_eq_zero (by omega)
    simp at hlt
  · have hwhole : a ++ (needle ++ b) = a' ++ (needle ++ b') := by simpa [← h'] using hsplit
    obtain ⟨u, rfl, -⟩ := exists_eq_append_of_byteLength_le hwhole (hleast _ ⟨a', b', h', rfl⟩)
    rw [List.length_append]
    exact Nat.le_add_right _ _

theorem breakOn?_eq_none_iff {needle t : Text} :
    breakOn? needle t = none ↔ ∀ n, ¬ OccursAt needle t n := by
  have hfound : (breakOn? needle t).isSome = true ↔ needle <:+: t := contains_eq_true_iff
  rw [← Option.not_isSome_iff_eq_none, hfound]
  exact ⟨fun h n ⟨a, b, hsplit, _⟩ => h ⟨a, b, hsplit⟩, fun h ⟨a, b, hsplit⟩ => h _ ⟨a, b, hsplit, rfl⟩⟩

/-! ## Counting -/

/-- Counting goes on behind what is skipped. -/
theorem countApart_eq_drop (needle : Text) (skip : Nat) (t : Text) :
    countApart needle skip t = countApart needle 0 (t.drop skip) := by
  induction skip generalizing t with
  | zero => rfl
  | succ skip ih =>
    cases t with
    | nil => rfl
    | cons c t => rw [countApart, ih, List.drop_succ_cons]

/-- The first place counts one, and counting goes on behind it. -/
theorem countApart_eq {needle : Text} (hne : needle ≠ []) (t : Text) :
    countApart needle 0 t =
      ((breakOn? needle t).map fun (_, after) => countApart needle 0 after + 1).getD 0 := by
  induction t with
  | nil =>
    obtain ⟨c, needle, rfl⟩ := List.exists_cons_of_ne_nil hne
    rfl
  | cons c t ih =>
    rw [countApart, breakOn?]
    cases hstart : needle.isPrefixOf? (c :: t) with
    | some after =>
      obtain ⟨d, lead, rfl⟩ := List.exists_cons_of_ne_nil hne
      have hsplit := append_of_isPrefixOf? hstart
      have hprefix : (d :: lead).isPrefixOf (c :: t) = true :=
        List.isPrefixOf_iff_prefix.2 ⟨after, hsplit⟩
      obtain ⟨-, rfl⟩ := List.cons.inj hsplit
      rw [if_pos hprefix, countApart_eq_drop]
      simp
    | none =>
      have hprefix : ¬ needle.isPrefixOf (c :: t) = true := by
        intro hprefix
        obtain ⟨after, hsplit⟩ := List.isPrefixOf_iff_prefix.1 hprefix
        rw [← hsplit, isPrefixOf?_append] at hstart
        cases hstart
      rw [if_neg hprefix, ih]
      simp only [Option.map_map]
      rfl

/-- The places behind the end of an occurrence are those in the rest of the text. -/
theorem occursAt_behind_iff {needle a b : Text} :
    (∃ m, OccursAt needle (a ++ needle ++ b) m ∧ (a ++ needle).byteLength ≤ m) ↔
      ∃ m, OccursAt needle b m := by
  constructor
  · rintro ⟨_, ⟨a', b', hsplit, rfl⟩, hle⟩
    rw [List.append_assoc a'] at hsplit
    obtain ⟨u, -, hrest⟩ := exists_eq_append_of_byteLength_le hsplit.symm hle
    exact ⟨_, u, b', by rw [hrest, List.append_assoc], rfl⟩
  · rintro ⟨_, u, b', rfl, rfl⟩
    exact ⟨_, ⟨a ++ needle ++ u, b', by simp only [List.append_assoc], rfl⟩, by simp⟩

/-- `needle` stands behind `n` bytes, and every place of it is this one or lies inside it. -/
def NearOccurrence (needle t : Text) (n : Nat) : Prop :=
  OccursAt needle t n ∧ ∀ m, OccursAt needle t m → n ≤ m ∧ m < n + needle.byteLength

theorem countApart_eq_zero_iff {needle : Text} (hne : needle ≠ []) {t : Text} :
    countApart needle 0 t = 0 ↔ ∀ n, ¬ OccursAt needle t n := by
  rw [countApart_eq hne, ← breakOn?_eq_none_iff]
  cases breakOn? needle t <;> simp

/-- One place is counted when no other lies behind the end of the first one. -/
theorem countApart_eq_one_iff {needle : Text} (hne : needle ≠ []) {t : Text} :
    countApart needle 0 t = 1 ↔ ∃ n, NearOccurrence needle t n := by
  rw [countApart_eq hne]
  cases hbreak : breakOn? needle t with
  | none =>
    rw [breakOn?_eq_none_iff] at hbreak
    exact iff_of_false (by simp) fun ⟨n, h, _⟩ => hbreak n h
  | some p =>
    obtain ⟨a, b⟩ := p
    obtain ⟨rfl, hleast⟩ := breakOn?_eq_some_iff_bytes.1 hbreak
    have hfirst : OccursAt needle (a ++ needle ++ b) a.byteLength := ⟨a, b, rfl, rfl⟩
    rw [Option.map_some, Option.getD_some, Nat.add_eq_right, countApart_eq_zero_iff hne,
      ← not_exists, ← occursAt_behind_iff (a := a)]
    simp only [not_exists, not_and, Nat.not_le, byteLength_append]
    constructor
    · exact fun h => ⟨_, hfirst, fun m hm => ⟨hleast m hm, h m hm⟩⟩
    · rintro ⟨n, hn, hnear⟩ m hm
      obtain rfl : n = a.byteLength := Nat.le_antisymm (hnear _ hfirst).1 (hleast _ hn)
      exact (hnear m hm).2

/-! ## Overlaps -/

/-- A proper part of a text stands at its start and at its end. -/
def OverlapsItself (t : Text) : Prop := ∃ u, u ≠ [] ∧ u ≠ t ∧ u <+: t ∧ u <:+ t

theorem overlapsItself_iff {t : Text} :
    OverlapsItself t ↔ ∃ n, n < t.length ∧ 0 < n ∧ t.take n <:+ t := by
  constructor
  · rintro ⟨u, hu, hproper, hstart, hend⟩
    refine ⟨u.length, ?_, List.length_pos_iff.2 hu, ?_⟩
    · exact Nat.lt_of_le_of_ne hstart.length_le fun hlength => hproper (hstart.eq_of_length hlength)
    · rwa [← List.prefix_iff_eq_take.1 hstart]
  · rintro ⟨n, hlt, hpos, hend⟩
    have hlength : (t.take n).length = n := List.length_take_of_le (Nat.le_of_lt hlt)
    refine ⟨t.take n, ?_, fun heq => ?_, List.take_prefix n t, hend⟩
    · exact List.ne_nil_of_length_pos (by rwa [hlength])
    · rw [heq] at hlength
      omega

instance (t : Text) : Decidable (OverlapsItself t) :=
  decidable_of_iff _ overlapsItself_iff.symm

/-- Two places of a text, one inside the other, overlap. -/
theorem overlapsItself_of_occursAt {needle t : Text} {n m : Nat} (hn : OccursAt needle t n)
    (hm : OccursAt needle t m) (hlt : n < m) (hinside : m < n + needle.byteLength) :
    OverlapsItself needle := by
  obtain ⟨a, b, rfl, rfl⟩ := hn
  obtain ⟨a', b', hsplit, rfl⟩ := hm
  rw [List.append_assoc, List.append_assoc] at hsplit
  obtain ⟨v, rfl, hv⟩ := exists_eq_append_of_byteLength_le hsplit.symm (Nat.le_of_lt hlt)
  rw [byteLength_append] at hlt hinside
  -- the second place starts behind `v`, a part of the first
  obtain ⟨u, hu, hrest⟩ := exists_eq_append_of_byteLength_le hv.symm (by omega)
  have hlength := congrArg byteLength hu
  rw [byteLength_append] at hlength
  have hshorter : u.byteLength ≤ needle.byteLength := by omega
  obtain ⟨w, hw, -⟩ := exists_eq_append_of_byteLength_le hrest.symm hshorter
  refine ⟨u, ?_, ?_, ⟨w, hw.symm⟩, ⟨v, hu.symm⟩⟩
  · rintro rfl
    simp at hlength
    omega
  · intro heq
    rw [heq] at hlength
    omega

/-- For a text that does not overlap itself, places near the first one are no other ones. -/
theorem near_iff_existsUnique {needle : Text} (hne : needle ≠ []) (h : ¬ OverlapsItself needle)
    (t : Text) : (∃ n, NearOccurrence needle t n) ↔ ∃! n, OccursAt needle t n := by
  constructor
  · rintro ⟨n, hn, hnear⟩
    refine ⟨n, hn, fun m hm => Decidable.byContradiction fun hother => ?_⟩
    obtain ⟨hle, hinside⟩ := hnear m hm
    exact h (overlapsItself_of_occursAt hn hm (Nat.lt_of_le_of_ne hle (Ne.symm hother)) hinside)
  · rintro ⟨n, hn, hunique⟩
    refine ⟨n, hn, fun m hm => ?_⟩
    obtain rfl := hunique m hm
    have := byteLength_pos hne
    omega

/-- A text that overlaps itself stands twice in some text, with no place behind the first one. -/
theorem OverlapsItself.exists_near {needle : Text} (h : OverlapsItself needle) :
    ∃ t, (∃ n, NearOccurrence needle t n) ∧ ¬ ∃! n, OccursAt needle t n := by
  obtain ⟨u, hu, hproper, ⟨w, hstart⟩, (v : Text), hend⟩ := h
  have hv : 0 < v.byteLength := byteLength_pos fun hnil => hproper (by rw [← hend, hnil, List.nil_append])
  have hpos := byteLength_pos hu
  have hlength := congrArg byteLength hend
  rw [byteLength_append] at hlength
  have hfirst : OccursAt needle (v ++ needle) 0 :=
    ⟨[], w, by rw [List.nil_append, ← hstart, ← List.append_assoc, hend, hstart], rfl⟩
  have hsecond : OccursAt needle (v ++ needle) v.byteLength := ⟨v, [], by simp, rfl⟩
  refine ⟨v ++ needle, ⟨0, hfirst, fun m hm => ⟨Nat.zero_le m, ?_⟩⟩, fun hunique => ?_⟩
  · obtain ⟨a, b, hsplit, rfl⟩ := hm
    have := congrArg byteLength hsplit
    simp only [byteLength_append] at this
    omega
  · have := hunique.unique hfirst hsecond
    omega

end Scaffold.Text
