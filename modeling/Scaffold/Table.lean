/-!
# Tables

A table is a list of keys with their values in which a key stands once.  `Table.insert` keeps the
place of a key that is already there, so a table also records the order in which its keys came in.

`lookup_insert` and `lookup_erase` describe both changes through `List.lookup`, and `keys_insert` the
order.  Each entry is found by its key (`lookup_of_mem`).
-/

namespace Scaffold.Table

variable {κ α : Type} [BEq κ]

/-- Binds `key` to `value`: an old entry keeps its place, a new one becomes the last. -/
def insert (key : κ) (value : α) : List (κ × α) → List (κ × α)
  | [] => [(key, value)]
  | (k, v) :: es => if k == key then (k, value) :: es else (k, v) :: insert key value es

/-- Removes every entry of `key`. -/
def erase (key : κ) (es : List (κ × α)) : List (κ × α) := es.filter fun e => !(e.1 == key)

variable [LawfulBEq κ]

/-- The inserted key has the new value and every other key the old one. -/
theorem lookup_insert (key k : κ) (value : α) (es : List (κ × α)) :
    (insert key value es).lookup k = if k == key then some value else es.lookup k := by
  induction es with
  | nil => cases h : k == key <;> simp [insert, List.lookup_cons, h]
  | cons e es ih =>
    obtain ⟨l, v⟩ := e
    by_cases hl : l = key
    · subst hl
      cases h : k == l <;> simp [insert, List.lookup_cons, h]
    · cases h : k == l with
      | false => simp [insert, List.lookup_cons, hl, h, ih]
      | true =>
        obtain rfl : k = l := by simpa using h
        simp [insert, hl]

/-- The erased key has no value and every other key the old one. -/
theorem lookup_erase (key k : κ) (es : List (κ × α)) :
    (erase key es).lookup k = if k == key then none else es.lookup k := by
  induction es with
  | nil => simp [erase]
  | cons e es ih =>
    obtain ⟨l, v⟩ := e
    by_cases hl : l = key
    · subst hl
      have hdrop : erase l ((l, v) :: es) = erase l es := by simp [erase]
      rw [hdrop, ih]
      cases h : k == l <;> simp [List.lookup_cons, h]
    · have hkeep : erase key ((l, v) :: es) = (l, v) :: erase key es := by simp [erase, hl]
      rw [hkeep, List.lookup_cons, List.lookup_cons, ih]
      cases h : k == l with
      | false => rfl
      | true =>
        obtain rfl : k = l := by simpa using h
        simp [hl]

/-- The keys stay in their order, and a new one is the last. -/
theorem keys_insert (key : κ) (value : α) (es : List (κ × α)) :
    (insert key value es).map Prod.fst =
      if key ∈ es.map Prod.fst then es.map Prod.fst else es.map Prod.fst ++ [key] := by
  induction es with
  | nil => rfl
  | cons e es ih =>
    obtain ⟨k, v⟩ := e
    by_cases hk : k = key
    · subst hk
      simp [insert]
    · simp only [insert, beq_iff_eq, hk, if_false, List.map_cons, ih, List.mem_cons,
        Ne.symm hk, false_or]
      split <;> rfl

theorem mem_insert {key : κ} {value : α} {es : List (κ × α)} {e : κ × α}
    (h : e ∈ insert key value es) : e = (key, value) ∨ e ∈ es := by
  induction es with
  | nil => exact .inl (List.mem_singleton.1 h)
  | cons d es ih =>
    obtain ⟨k, v⟩ := d
    by_cases hk : k = key
    · subst hk
      rw [insert, beq_self_eq_true, if_pos rfl] at h
      exact (List.mem_cons.1 h).imp_right (List.mem_cons_of_mem _)
    · rw [insert, beq_false_of_ne hk, if_neg Bool.false_ne_true] at h
      rcases List.mem_cons.1 h with rfl | h
      · exact .inr List.mem_cons_self
      · exact (ih h).imp_right (List.mem_cons_of_mem _)

/-- A key that is bound to its own value changes nothing. -/
theorem insert_of_lookup {key : κ} {value : α} {es : List (κ × α)}
    (h : es.lookup key = some value) : insert key value es = es := by
  induction es with
  | nil => cases h
  | cons e es ih =>
    obtain ⟨k, v⟩ := e
    by_cases hk : k = key
    · subst hk
      simp_all [insert]
    · have hkey : (key == k) = false := beq_false_of_ne (Ne.symm hk)
      rw [List.lookup_cons, hkey] at h
      simp [insert, hk, ih h]

theorem lookup_of_notMem {key : κ} {es : List (κ × α)} (h : key ∉ es.map Prod.fst) :
    es.lookup key = none := by
  refine List.lookup_eq_none_iff.2 fun e he => ?_
  have hne : key ≠ e.1 := fun heq => h (List.mem_map.2 ⟨e, he, heq.symm⟩)
  simpa using hne

/-! ## Keys that stand once -/

section

variable {ι : Type} {name : ι → κ} {xs : List ι} (h : (xs.map name).Nodup) {x : ι} (hx : x ∈ xs)
include h hx

omit [BEq κ] [LawfulBEq κ] in
/-- Where no key stands twice, all members in front of one have other keys. -/
theorem exists_front : ∃ front back, xs = front ++ x :: back ∧ ∀ y ∈ front, name y ≠ name x := by
  obtain ⟨front, back, rfl⟩ := List.append_of_mem hx
  rw [List.map_append, List.nodup_append] at h
  exact ⟨front, back, rfl, fun y hy => h.2.2 _ (List.mem_map_of_mem hy) _ List.mem_cons_self⟩

/-- Where no key stands twice, a member is found by its key. -/
theorem find?_of_mem : (xs.find? fun y => name y == name x) = some x := by
  obtain ⟨front, back, rfl, hfront⟩ := exists_front h hx
  refine List.find?_eq_some_iff_append.2 ⟨beq_self_eq_true _, front, back, rfl, fun y hy => ?_⟩
  simpa using hfront y hy

end

/-- Where no key stands twice, each key has its own value. -/
theorem lookup_of_mem {es : List (κ × α)} (h : (es.map Prod.fst).Nodup) {e : κ × α} (he : e ∈ es) :
    es.lookup e.1 = some e.2 := by
  obtain ⟨front, back, hes, hfront⟩ := exists_front h he
  refine List.lookup_eq_some_iff.2 ⟨front, back, hes, fun d hd => ?_⟩
  simpa using Ne.symm (hfront d hd)

end Scaffold.Table
