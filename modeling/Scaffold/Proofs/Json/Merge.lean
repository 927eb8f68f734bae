import Scaffold.Json.Basic

/-!
# Merging, path by path

A patch that is laid over a value decides what stands on its own paths and nothing else
(`Overrides`).  All of it follows from one step: below a key, the result is what is merged of what
the two have there (`get?_merge`), and so it is along a path (`at?_merge`).  The entries of an object
that both have keep their order, and new ones follow in the order of the patch (`keys_mergeEntries`).

A patch that is laid over the result again changes nothing (`merge_again`).  For this it matters that
no key of the patch stands twice: of two entries the first one counts for the paths, but both are
merged, one after the other.
-/

namespace Scaffold

namespace Json

/-! ## Paths -/

/-- The value behind a path of keys. -/
def at? : (path : List Text) → Json → Option Json
  | [], v => some v
  | key :: path, v => (v.get? key).bind (at? path)

theorem at?_append (path rest : List Text) (v : Json) :
    at? (path ++ rest) v = (at? path v).bind (at? rest) := by
  induction path generalizing v with
  | nil => rfl
  | cons key path ih =>
    rw [List.cons_append, at?, at?, Option.bind_assoc]
    exact congrArg _ (funext ih)

mutual

/-- In no object does a key stand twice. -/
def hasDistinctKeys : Json → Bool
  | .array items => itemsHaveDistinctKeys items
  | .object entries => decide (entries.map Prod.fst).Nodup && entriesHaveDistinctKeys entries
  | _ => true

/-- In no object of the items does a key stand twice. -/
def itemsHaveDistinctKeys : List Json → Bool
  | [] => true
  | item :: items => hasDistinctKeys item && itemsHaveDistinctKeys items

/-- In no object of the values does a key stand twice. -/
def entriesHaveDistinctKeys : List (Text × Json) → Bool
  | [] => true
  | (_, value) :: entries => hasDistinctKeys value && entriesHaveDistinctKeys entries

end

theorem entriesHaveDistinctKeys_iff {es : List (Text × Json)} :
    entriesHaveDistinctKeys es = true ↔ ∀ e ∈ es, e.2.hasDistinctKeys = true := by
  induction es with
  | nil => simp [entriesHaveDistinctKeys]
  | cons e es ih => rw [entriesHaveDistinctKeys, Bool.and_eq_true, ih, List.forall_mem_cons]

theorem hasDistinctKeys_object {es : List (Text × Json)} :
    (Json.object es).hasDistinctKeys = true ↔
      (es.map Prod.fst).Nodup ∧ ∀ e ∈ es, e.2.hasDistinctKeys = true := by
  rw [hasDistinctKeys, Bool.and_eq_true, decide_eq_true_eq, entriesHaveDistinctKeys_iff]

/-- An object in which one more key is bound, or a key bound anew. -/
theorem hasDistinctKeys_insert {es : List (Text × Json)}
    (h : (Json.object es).hasDistinctKeys = true) {v : Json} (hv : v.hasDistinctKeys = true)
    (key : Text) : (Json.object (Table.insert key v es)).hasDistinctKeys = true := by
  rw [hasDistinctKeys_object] at *
  refine ⟨?_, fun e he => ?_⟩
  · rw [Table.keys_insert]
    split
    · exact h.1
    · next hkey =>
      refine List.nodup_append.2 ⟨h.1, List.pairwise_singleton _ _, ?_⟩
      rintro k hk l hl rfl
      exact hkey (List.mem_singleton.1 hl ▸ hk)
  · rcases Table.mem_insert he with rfl | he
    · exact hv
    · exact h.2 e he

mutual

/-- What is read has distinct keys. -/
theorem hasDistinctKeys_distinct : (v : Json) → (distinct v).hasDistinctKeys = true
  | .array items => itemsHaveDistinctKeys_distinctItems items
  | .object entries => hasDistinctKeys_distinctEntries entries [] rfl
  | .null | .boolean _ | .whole _ | .fraction _ | .text _ => rfl

theorem itemsHaveDistinctKeys_distinctItems :
    (items : List Json) → itemsHaveDistinctKeys (distinctItems items) = true
  | [] => rfl
  | item :: items => by
    rw [distinctItems, itemsHaveDistinctKeys, hasDistinctKeys_distinct item,
      itemsHaveDistinctKeys_distinctItems items, Bool.and_self]

theorem hasDistinctKeys_distinctEntries : (entries read : List (Text × Json)) →
    (Json.object read).hasDistinctKeys = true →
    (Json.object (distinctEntries read entries)).hasDistinctKeys = true
  | [], _, h => h
  | (key, value) :: entries, _, h =>
    hasDistinctKeys_distinctEntries entries _
      (hasDistinctKeys_insert h (hasDistinctKeys_distinct value) key)

end

/-! ## One object -/

/-- Below a key stands what is merged of what the two have there. -/
theorem lookup_mergeEntries {ps : List (Text × Json)} (h : (ps.map Prod.fst).Nodup)
    (es : List (Text × Json)) (key : Text) :
    (mergeEntries es ps).lookup key = Option.merge merge (es.lookup key) (ps.lookup key) := by
  induction ps generalizing es with
  | nil => simp [mergeEntries]
  | cons p ps ih =>
    obtain ⟨k, q⟩ := p
    obtain ⟨hk, hps⟩ := List.nodup_cons.1 h
    rw [mergeEntries, ih hps, Table.lookup_insert, List.lookup_cons]
    by_cases hkey : key = k
    · subst hkey
      rw [Table.lookup_of_notMem hk, beq_self_eq_true, if_pos rfl]
      cases es.lookup key <;> rfl
    · rw [beq_false_of_ne hkey, if_neg Bool.false_ne_true]

/-- The entries of an object keep their order, and the new ones follow in that of the patch. -/
theorem keys_mergeEntries {ps : List (Text × Json)} (h : (ps.map Prod.fst).Nodup)
    (es : List (Text × Json)) :
    (mergeEntries es ps).map Prod.fst =
      es.map Prod.fst ++ (ps.map Prod.fst).filter (· ∉ es.map Prod.fst) := by
  induction ps generalizing es with
  | nil => simp [mergeEntries]
  | cons p ps ih =>
    obtain ⟨k, q⟩ := p
    obtain ⟨hk, hps⟩ := List.nodup_cons.1 h
    rw [mergeEntries, ih hps, Table.keys_insert, List.map_cons, List.filter_cons]
    by_cases hkey : k ∈ es.map Prod.fst
    · rw [if_pos hkey, if_neg (by simpa using hkey)]
    · have hfilter : (ps.map Prod.fst).filter (· ∉ es.map Prod.fst ++ [k]) =
          (ps.map Prod.fst).filter (· ∉ es.map Prod.fst) := by
        refine List.filter_congr fun l hl => ?_
        have hne : l ≠ k := fun heq => hk (heq ▸ hl)
        simp [hne]
      rw [if_neg hkey, if_pos (by simpa using hkey), hfilter, List.append_assoc,
        List.singleton_append]

/-- Below a key of a patch that is an object stands what is merged of what the two have there. -/
theorem get?_merge {p : Json} (hp : p.hasDistinctKeys = true) (hobject : p.isObject = true)
    (t : Json) (key : Text) :
    (merge t p).get? key = Option.merge merge (t.get? key) (p.get? key) := by
  cases p with
  | object ps =>
    by_cases ht : t.isObject = true
    · cases t with
      | object es => exact lookup_mergeEntries (hasDistinctKeys_object.1 hp).1 es key
      | _ => cases ht
    · rw [Bool.not_eq_true] at ht
      have hnone : t.get? key = none := by
        cases t with
        | object es => cases ht
        | _ => rfl
      rw [merge_of_target_not_isObject ht, hnone, Option.merge_none_left]
  | _ => cases hobject

/-! ## Along a path -/

theorem hasDistinctKeys_of_get? {v w : Json} (h : v.hasDistinctKeys = true) {key : Text}
    (hw : v.get? key = some w) : w.hasDistinctKeys = true := by
  cases v with
  | object es =>
    obtain ⟨es₁, es₂, rfl, -⟩ := List.lookup_eq_some_iff.1 hw
    exact (hasDistinctKeys_object.1 h).2 _ (List.mem_append_right _ List.mem_cons_self)
  | _ => cases hw

theorem isObject_of_get? {v w : Json} {key : Text} (h : v.get? key = some w) :
    v.isObject = true := by
  cases v with
  | object es => rfl
  | _ => cases h

theorem hasDistinctKeys_of_at? {v w : Json} (h : v.hasDistinctKeys = true) {path : List Text}
    (hw : v.at? path = some w) : w.hasDistinctKeys = true := by
  induction path generalizing v with
  | nil => exact Option.some.inj hw ▸ h
  | cons key path ih =>
    obtain ⟨u, hu, hw⟩ := Option.bind_eq_some_iff.1 hw
    exact ih (hasDistinctKeys_of_get? h hu) hw

/-- Where a path ends in the patch, the result has what is merged of what the two have there. -/
theorem at?_merge {p q : Json} (hp : p.hasDistinctKeys = true) {path : List Text}
    (h : p.at? path = some q) (t : Json) :
    (merge t p).at? path = Option.merge merge (t.at? path) (some q) := by
  induction path generalizing p t with
  | nil =>
    obtain rfl := Option.some.inj h
    rfl
  | cons key path ih =>
    obtain ⟨u, hu, hq⟩ := Option.bind_eq_some_iff.1 h
    rw [at?, at?, get?_merge hp (isObject_of_get? hu), hu]
    cases ht : t.get? key with
    | none => rw [Option.merge_none_left, Option.bind_some, hq, Option.bind_none,
        Option.merge_none_left]
    | some v => exact ih (hasDistinctKeys_of_get? hp hu) hq v

/-! ## Merging again -/

/-- Entries that each patch leaves as they are. -/
theorem mergeEntries_eq_self {es ps : List (Text × Json)}
    (h : ∀ p ∈ ps, ∃ v, es.lookup p.1 = some v ∧ merge v p.2 = v) : mergeEntries es ps = es := by
  induction ps with
  | nil => rfl
  | cons p ps ih =>
    obtain ⟨key, patch⟩ := p
    obtain ⟨⟨v, hv, hmerge⟩, hps⟩ := List.forall_mem_cons.1 h
    rw [mergeEntries]
    simp only [hv, hmerge]
    rw [Table.insert_of_lookup hv, ih hps]

mutual

/-- A patch that is laid over the result again changes nothing. -/
theorem merge_again : (p : Json) → p.hasDistinctKeys = true → ∀ t, merge (merge t p) p = merge t p
  | .object ps, hp, t => by
    obtain ⟨hkeys, hvalues⟩ := hasDistinctKeys_object.1 hp
    obtain ⟨es, hes⟩ : ∃ es, merge t (.object ps) = .object es := by
      cases t <;> exact ⟨_, rfl⟩
    have hmerged : ∀ p ∈ ps, ∃ v, es.lookup p.1 = some v ∧ merge v p.2 = v := by
      intro p hmem
      have hagain := mergeEntries_again ps hvalues p hmem
      have hget : es.lookup p.1 = Option.merge merge (t.get? p.1) (ps.lookup p.1) := by
        have hmerge := get?_merge hp rfl t p.1
        rwa [hes] at hmerge
      rw [hget, Table.lookup_of_mem hkeys hmem]
      cases t.get? p.1 with
      | some v => exact ⟨_, rfl, hagain v⟩
      | none =>
        -- what the patch brings in is the patch laid over nothing
        have hnull : merge .null p.2 = p.2 := merge_of_target_not_isObject rfl
        have hself := hagain .null
        rw [hnull] at hself
        exact ⟨_, rfl, hself⟩
    rw [hes]
    exact congrArg Json.object (mergeEntries_eq_self hmerged)
  | .null, _, _ | .boolean _, _, _ | .whole _, _, _ | .fraction _, _, _ | .text _, _, _
  | .array _, _, _ => rfl

theorem mergeEntries_again : (ps : List (Text × Json)) →
    (∀ p ∈ ps, p.2.hasDistinctKeys = true) → ∀ p ∈ ps, ∀ v, merge (merge v p.2) p.2 = merge v p.2
  | [], _, _, hmem, _ => nomatch hmem
  | (key, patch) :: ps, hps, p, hmem, v => by
    obtain ⟨hpatch, hps⟩ := List.forall_mem_cons.1 hps
    rcases List.mem_cons.1 hmem with rfl | hmem
    · exact merge_again patch hpatch v
    · exact mergeEntries_again ps hps p hmem v

end

mutual

/-- A value with a patch merged in has distinct keys again. -/
theorem hasDistinctKeys_merge : (p t : Json) → p.hasDistinctKeys = true →
    t.hasDistinctKeys = true → (merge t p).hasDistinctKeys = true
  | .object ps, t, hp, ht => by
    cases t with
    | object es => exact hasDistinctKeys_mergeEntries ps es (hasDistinctKeys_object.1 hp).2 ht
    | _ => exact hp
  | .null, _, hp, _ | .boolean _, _, hp, _ | .whole _, _, hp, _ | .fraction _, _, hp, _
  | .text _, _, hp, _ | .array _, _, hp, _ => hp

theorem hasDistinctKeys_mergeEntries : (ps es : List (Text × Json)) →
    (∀ p ∈ ps, p.2.hasDistinctKeys = true) → (Json.object es).hasDistinctKeys = true →
    (Json.object (mergeEntries es ps)).hasDistinctKeys = true
  | [], _, _, hes => hes
  | (key, patch) :: ps, es, hps, hes => by
    obtain ⟨hpatch, hps⟩ := List.forall_mem_cons.1 hps
    rw [mergeEntries]
    refine hasDistinctKeys_mergeEntries ps _ hps (hasDistinctKeys_insert hes ?_ key)
    split
    · next v hv => exact hasDistinctKeys_merge patch v hpatch (hasDistinctKeys_of_get? hes hv)
    · exact hpatch

end

/-! ## Main result -/

/-- A patch `p` decides what stands in `r` on its own paths, and `t` decides all else. -/
structure Overrides (p t r : Json) : Prop where
  /-- A value that is no object stands where the patch has it. -/
  replaced : ∀ path v, p.at? path = some v → v.isObject = false → r.at? path = some v
  /-- Below an object of both, all paths stay that start with a key which the patch lacks there. -/
  kept : ∀ path es ps key rest, t.at? path = some (.object es) → p.at? path = some (.object ps) →
    key ∉ ps.map Prod.fst → r.at? (path ++ key :: rest) = t.at? (path ++ key :: rest)
  /-- An object of the patch stands where no object stood. -/
  taken : ∀ path ps, p.at? path = some (.object ps) →
    (∀ es, t.at? path ≠ some (.object es)) → r.at? path = some (.object ps)
  /-- An object of both has its old keys in their order and then the new ones in theirs. -/
  ordered : ∀ path es ps, t.at? path = some (.object es) → p.at? path = some (.object ps) →
    ∃ rs, r.at? path = some (.object rs) ∧
      rs.map Prod.fst = es.map Prod.fst ++ (ps.map Prod.fst).filter (· ∉ es.map Prod.fst)

/-- A value with a patch merged in has what the patch says on the paths of the patch and what the
value says on all others, in the order of the value, and merging the patch in again changes
nothing. -/
theorem merge_overrides {p : Json} (hp : p.hasDistinctKeys = true) (t : Json) :
    Overrides p t (merge t p) ∧ merge (merge t p) p = merge t p ∧
      (t.hasDistinctKeys = true → (merge t p).hasDistinctKeys = true) := by
  have hboth {path : List Text} {es ps : List (Text × Json)}
      (ht : t.at? path = some (.object es)) (hps : p.at? path = some (.object ps)) :
      (merge t p).at? path = some (.object (mergeEntries es ps)) := by
    rw [at?_merge hp hps, ht]
    rfl
  refine ⟨⟨?_, ?_, ?_, ?_⟩, merge_again p hp t, hasDistinctKeys_merge p t hp⟩
  · intro path v hv hobject
    rw [at?_merge hp hv]
    cases t.at? path with
    | none => rw [Option.merge_none_left]
    | some w => exact congrArg some (merge_of_not_isObject hobject)
  · intro path es ps key rest ht hps hkey
    have hnodup := (hasDistinctKeys_object.1 (hasDistinctKeys_of_at? hp hps)).1
    have hstep : (mergeEntries es ps).lookup key = es.lookup key := by
      rw [lookup_mergeEntries hnodup, Table.lookup_of_notMem hkey, Option.merge_none_right]
    rw [at?_append, at?_append, hboth ht hps, ht]
    show ((mergeEntries es ps).lookup key).bind _ = (es.lookup key).bind _
    rw [hstep]
  · intro path ps hps hnone
    rw [at?_merge hp hps]
    cases ht : t.at? path with
    | none => rw [Option.merge_none_left]
    | some w =>
      have hw : w.isObject = false := by
        cases w with
        | object es => exact absurd ht (hnone es)
        | _ => rfl
      exact congrArg some (merge_of_target_not_isObject hw)
  · intro path es ps ht hps
    have hnodup := (hasDistinctKeys_object.1 (hasDistinctKeys_of_at? hp hps)).1
    exact ⟨_, hboth ht hps, keys_mergeEntries hnodup es⟩

/-- A value with an object under each of two keys. -/
def sampleTarget : Json :=
  .object [("z", .object [("b", .whole 1), ("a", .array [.null])]), ("y", .boolean true),
    ("x", .object [("c", .null)])]

/-- A patch with an object under a key that has none, and with two new keys. -/
def samplePatch : Json :=
  .object [("w", .text "new"), ("y", .object [("d", .object [])]),
    ("z", .object [("e", .whole 2), ("a", .object [("f", .null)])])]

/-- The value with the patch merged in. -/
def sampleMerged : Json :=
  .object [("z", .object [("b", .whole 1), ("a", .object [("f", .null)]), ("e", .whole 2)]),
    ("y", .object [("d", .object [])]), ("x", .object [("c", .null)]), ("w", .text "new")]

theorem merge_overrides_sample :
    samplePatch.hasDistinctKeys = true ∧ merge sampleTarget samplePatch = sampleMerged ∧
      Overrides samplePatch sampleTarget sampleMerged ∧
      merge sampleMerged samplePatch = sampleMerged := by
  have hkeys : samplePatch.hasDistinctKeys = true := by decide
  have hmerge : merge sampleTarget samplePatch = sampleMerged := by rfl
  obtain ⟨hoverrides, hagain, -⟩ := merge_overrides hkeys sampleTarget
  rw [hmerge] at hoverrides hagain
  exact ⟨hkeys, hmerge, hoverrides, hagain⟩

end Json

end Scaffold
