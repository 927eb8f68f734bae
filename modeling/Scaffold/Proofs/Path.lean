import Mathlib.Data.List.TakeWhile
import Scaffold.Path
import Scaffold.Proofs.Text.Search

/-!
# Pieces of paths

The pieces of a path below a directory are those of the directory and the name
(`Path.segments_join`), and the parent of a path that ends in a name has the pieces in front of the
name, up to pieces at the end that are no component (`Path.parent?_of_segments`,
`Path.segments_ofSegments`).
-/

namespace Scaffold.Path

/-- A name of a file: one piece that leads somewhere below a directory. -/
structure IsName (name : Text) : Prop where
  notFiller : isFiller name = false
  noSlash : '/' ∉ name

theorem IsName.ne_nil {name : Text} (h : IsName name) : name ≠ [] := by
  rintro rfl
  cases h.notFiller

/-! ## Pieces -/

/-- The text of a path behind the root slash. -/
def body (p : Path) : Text := if p.isAbsolute then p.text.drop 1 else p.text

theorem segments_eq (p : Path) : p.segments = p.body.splitOn '/' := rfl

theorem text_eq (p : Path) : p.text = (if p.isAbsolute then ['/'] else []) ++ p.body := by
  obtain ⟨t⟩ := p
  by_cases h : isAbsolute ⟨t⟩
  · obtain ⟨u, rfl⟩ : ∃ u, t = '/' :: u :=
      List.head?_eq_some_iff.1 (by simpa [isAbsolute] using h)
    simp [body, h]
  · simp [body, h]

/-- What follows a path belongs to its body. -/
theorem body_append {t : Text} (ht : t ≠ []) (u : Text) :
    isAbsolute ⟨t ++ u⟩ = isAbsolute ⟨t⟩ ∧ body ⟨t ++ u⟩ = body ⟨t⟩ ++ u := by
  obtain ⟨c, t, rfl⟩ := List.exists_cons_of_ne_nil ht
  have habs : isAbsolute ⟨c :: t ++ u⟩ = isAbsolute ⟨c :: t⟩ := rfl
  refine ⟨habs, ?_⟩
  rw [body, body, habs]
  cases isAbsolute ⟨c :: t⟩ <;> rfl

theorem isAbsolute_name {name : Text} (h : '/' ∉ name) : isAbsolute ⟨name⟩ = false := by
  rw [isAbsolute, beq_eq_false_iff_ne]
  exact fun hhead => h (List.mem_of_head? hhead)

theorem segments_name {name : Text} (h : '/' ∉ name) : segments ⟨name⟩ = [name] := by
  rw [segments, isAbsolute_name h, if_neg Bool.false_ne_true]
  exact List.splitOn_eq_singleton h

/-- Below the empty path a name is all that there is. -/
theorem join_of_nil {root : Path} (hroot : root.text = []) {name : Text} (h : '/' ∉ name) :
    root.join ⟨name⟩ = ⟨name⟩ := by
  rw [join, isAbsolute_name h, hroot]
  rfl

/-- A name is put behind a slash; one that ends the directory serves. -/
theorem text_join {root : Path} (hroot : root.text ≠ []) {name : Text} (h : '/' ∉ name) :
    (root.text.getLast? = some '/' ∧ root.join ⟨name⟩ = ⟨root.text ++ name⟩) ∨
      root.join ⟨name⟩ = ⟨root.text ++ '/' :: name⟩ := by
  by_cases hslash : root.text.getLast? = some '/'
  · refine .inl ⟨hslash, ?_⟩
    rw [join, isAbsolute_name h, hslash]
    rfl
  · refine .inr ?_
    rw [join, isAbsolute_name h, if_neg Bool.false_ne_true]
    split
    · next hnil => exact absurd (List.getLast?_eq_none_iff.1 hnil) hroot
    · next hlast => exact absurd hlast hslash
    · rfl

/-- The pieces of a path below a directory: those of the directory, without an empty one behind its
last slash, and the name. -/
theorem segments_join {root : Path} (hroot : root.text ≠ []) {name : Text} (h : '/' ∉ name) :
    (root.join ⟨name⟩).isAbsolute = root.isAbsolute ∧
      ∃ ss, (root.join ⟨name⟩).segments = ss ++ [name] ∧
        (root.segments = ss ∨ root.segments = ss ++ [[]]) := by
  have hsplit : name.splitOn '/' = [name] := List.splitOn_eq_singleton h
  obtain ⟨hslash, hjoin⟩ | hjoin := text_join hroot h
  · obtain ⟨habs, hbody⟩ := body_append hroot name
    rw [hjoin]
    refine ⟨habs, ?_⟩
    by_cases hempty : root.body = []
    · refine ⟨[], ?_, .inr ?_⟩
      · rw [segments_eq, hbody, hempty, List.nil_append, hsplit, List.nil_append]
      · rw [segments_eq, hempty, List.splitOn_nil, List.nil_append]
    · obtain ⟨v, c, hv⟩ := (List.eq_nil_or_concat _).resolve_left hempty
      obtain rfl : c = '/' := by
        rw [text_eq root, hv, List.concat_eq_append, ← List.append_assoc,
          List.getLast?_concat] at hslash
        exact Option.some.inj hslash
      rw [List.concat_eq_append] at hv
      refine ⟨v.splitOn '/', ?_, .inr ?_⟩
      · rw [segments_eq, hbody, hv, List.append_assoc, List.singleton_append,
          List.splitOn_append_cons_self, hsplit]
      · rw [segments_eq, hv, List.splitOn_append_cons_self, List.splitOn_nil]
  · obtain ⟨habs, hbody⟩ := body_append hroot ('/' :: name)
    rw [hjoin]
    refine ⟨habs, root.segments, ?_, .inl rfl⟩
    rw [segments_eq, hbody, List.splitOn_append_cons_self, hsplit, segments_eq]

/-- A relative path with a text does not start with an empty piece. -/
theorem head?_segments {p : Path} (hp : p.text ≠ []) (hrel : p.isAbsolute = false) :
    p.segments.head? ≠ some [] := by
  obtain ⟨c, t, ht⟩ := List.exists_cons_of_ne_nil hp
  have hc : c ≠ '/' := by
    rintro rfl
    rw [isAbsolute, ht] at hrel
    cases hrel
  have hbody : p.body = c :: t := by
    rw [body, hrel, ht]
    rfl
  obtain ⟨first, rest, hsplit⟩ := List.exists_cons_of_ne_nil (List.splitOn_ne_nil '/' t)
  rw [segments_eq, hbody, List.splitOn_cons_eq_if_modifyHead, if_neg (by simpa using hc), hsplit]
  simp

/-- A path below a path that is below another one. -/
theorem join_join (p : Path) {t u : Text} (ht : isAbsolute ⟨t⟩ = false)
    (hend : ∃ c ∈ t.getLast?, c ≠ '/') (hu : isAbsolute ⟨u⟩ = false) :
    (p.join ⟨t⟩).join ⟨u⟩ = p.join ⟨t ++ '/' :: u⟩ := by
  obtain ⟨c, hc, hslash⟩ := hend
  have habs : isAbsolute ⟨t ++ '/' :: u⟩ = false := by
    cases t with
    | nil => cases hc
    | cons a t => exact ht
  have hbelow {q : Path} (hq : q.text.getLast? = some c) : q.join ⟨u⟩ = ⟨q.text ++ '/' :: u⟩ := by
    rw [join, hu, if_neg Bool.false_ne_true, hq]
    split
    · next h => cases h
    · next h => exact absurd (Option.some.inj h) hslash
    · rfl
  have hlast (v : Text) : (v ++ t).getLast? = some c := by
    rw [List.getLast?_append, hc]
    rfl
  rw [join.eq_1 p ⟨t⟩, join.eq_1 p ⟨t ++ '/' :: u⟩, ht, habs, if_neg Bool.false_ne_true,
    if_neg Bool.false_ne_true]
  split
  · exact hbelow hc
  · rw [hbelow (hlast _)]
    simp
  · have := hlast (p.text ++ ['/'])
    rw [List.append_assoc, List.singleton_append] at this
    rw [hbelow this]
    simp

/-! ## Parents -/

/-- Only pieces that are no component are trimmed. -/
theorem eq_append_trimFiller (absolute : Bool) (ss : List Text) :
    ∃ fs, (∀ f ∈ fs, isFiller f = true) ∧ ss = trimFiller absolute ss ++ fs := by
  cases ss with
  | nil => exact ⟨[], by simp, rfl⟩
  | cons s ss =>
    have hrest : ss = (ss.reverse.dropWhile isFiller).reverse ++
        (ss.reverse.takeWhile isFiller).reverse := by
      rw [← List.reverse_append, List.takeWhile_append_dropWhile, List.reverse_reverse]
    have hfiller : ∀ f ∈ (ss.reverse.takeWhile isFiller).reverse, isFiller f = true :=
      fun f hf => List.all_eq_true.1 List.all_takeWhile f (List.mem_reverse.1 hf)
    rw [trimFiller]
    split
    · next h =>
      simp only [Bool.and_eq_true, List.isEmpty_iff] at h
      refine ⟨s :: ss, List.forall_mem_cons.2 ⟨h.1.2, ?_⟩, rfl⟩
      rwa [hrest, h.1.1, List.nil_append]
    · refine ⟨_, hfiller, ?_⟩
      rw [List.cons_append, ← hrest]

/-- The pieces up to the last name are kept. -/
theorem trimFiller_append (absolute : Bool) (ss : List Text) {name : Text} (h : IsName name)
    {fs : List Text} (hfs : ∀ f ∈ fs, isFiller f = true) :
    trimFiller absolute (ss ++ name :: fs) = ss ++ [name] := by
  have hneg : ¬ isFiller name = true := by simp [h.notFiller]
  have hdrop (front : List Text) :
      ((front ++ name :: fs).reverse.dropWhile isFiller).reverse = front ++ [name] := by
    rw [List.reverse_append, List.reverse_cons, List.append_assoc, List.dropWhile_append_of_pos
      fun f hf => hfs f (List.mem_reverse.1 hf), List.singleton_append,
      List.dropWhile_cons_of_neg hneg, List.reverse_cons, List.reverse_reverse]
  cases ss with
  | nil =>
    have hall : fs.reverse.dropWhile isFiller = [] :=
      List.dropWhile_eq_nil_iff.2 fun f hf => hfs f (List.mem_reverse.1 hf)
    simp [trimFiller, h.notFiller, hall]
  | cons s ss =>
    rw [List.cons_append, trimFiller, hdrop]
    simp

/-- The parent of a path that ends in a name. -/
theorem parent?_of_segments {p : Path} {ss : List Text} {name : Text} (h : IsName name)
    (hp : p.segments = ss ++ [name]) :
    p.parent? = some (ofSegments p.isAbsolute (trimFiller p.isAbsolute ss)) := by
  rw [parent?, hp, trimFiller_append _ _ h (List.forall_mem_nil _)]
  split
  · next hnil => simp at hnil
  · rw [List.dropLast_concat]

/-- A path that is put together of pieces has these pieces. -/
theorem segments_ofSegments {absolute : Bool} {ss : List Text} (hslash : ∀ s ∈ ss, '/' ∉ s)
    (hne : ss ≠ []) (hrel : absolute = false → ss.head? ≠ some []) :
    (ofSegments absolute ss).isAbsolute = absolute ∧ (ofSegments absolute ss).segments = ss := by
  have hsplit : (['/'].intercalate ss).splitOn '/' = ss := List.splitOn_intercalate '/' hslash hne
  cases absolute with
  | true =>
    refine ⟨rfl, ?_⟩
    rw [segments_eq]
    exact hsplit
  | false =>
    have habs : (ofSegments false ss).isAbsolute = false := by
      obtain ⟨s, ss, rfl⟩ := List.exists_cons_of_ne_nil hne
      obtain ⟨c, s, rfl⟩ : ∃ c u, s = c :: u :=
        List.exists_cons_of_ne_nil (by simpa using hrel rfl)
      have hc : c ≠ '/' := by
        rintro rfl
        exact hslash _ List.mem_cons_self List.mem_cons_self
      cases ss <;> simpa [isAbsolute, ofSegments, List.intercalate] using hc
    refine ⟨habs, ?_⟩
    rw [segments_eq, body, habs]
    exact hsplit

/-! ## Last pieces -/

/-- The path is a name, or a name behind a slash. -/
def EndsIn (p : Path) (name : Text) : Prop := p.text = name ∨ ∃ u, p.text = u ++ '/' :: name

/-- A path that ends in a name has it as its last piece. -/
theorem EndsIn.segments {p : Path} {name : Text} (h : p.EndsIn name) (hn : IsName name) :
    ∃ ss, p.segments = ss ++ [name] := by
  obtain ⟨t⟩ := p
  have hsplit : name.splitOn '/' = [name] := List.splitOn_eq_singleton hn.noSlash
  obtain rfl | ⟨u, rfl⟩ : t = name ∨ ∃ u, t = u ++ '/' :: name := h
  · exact ⟨[], segments_name hn.noSlash⟩
  · by_cases hu : u = []
    · subst hu
      exact ⟨[], hsplit⟩
    · refine ⟨(body ⟨u⟩).splitOn '/', ?_⟩
      rw [segments_eq, (body_append hu _).2, List.splitOn_append_cons_self, hsplit]

/-- What is below a path ends as it does without the path. -/
theorem EndsIn.join {q : Path} {name : Text} (h : q.EndsIn name) (hrel : q.isAbsolute = false)
    (root : Path) : (root.join q).EndsIn name := by
  have hbehind (u : Text) : EndsIn ⟨u ++ '/' :: q.text⟩ name := by
    rcases h with h | ⟨v, h⟩
    · exact .inr ⟨u, by rw [h]⟩
    · exact .inr ⟨u ++ '/' :: v, by simp [h]⟩
  rw [Path.join, hrel, if_neg Bool.false_ne_true]
  split
  · exact h
  · next hslash =>
    obtain ⟨u, hu⟩ := List.getLast?_eq_some_iff.1 hslash
    rw [hu, List.append_assoc]
    exact hbehind u
  · exact hbehind root.text

/-! ## Components -/

/-- The name of a component. -/
structure IsNormal (name : Text) : Prop extends IsName name where
  notUp : name ≠ ['.', '.']

theorem componentOf_eq_none_iff {s : Text} : componentOf s = none ↔ isFiller s = true := by
  rw [componentOf]
  split
  · next h => exact iff_of_true rfl h
  · next h => split <;> simp [h]

theorem componentOf_of_isNormal {s : Text} (h : IsNormal s) : componentOf s = some (.name s) := by
  simp [componentOf, h.notFiller, h.notUp]

theorem componentOf_eq_name_iff {s n : Text} :
    componentOf s = some (.name n) ↔ s = n ∧ isFiller s = false ∧ s ≠ ['.', '.'] := by
  rw [componentOf]
  split
  · next h => simp [h]
  · next h =>
    split
    · next hup => simp [(beq_iff_eq.1 hup)]
    · next hup => simpa [h] using fun _ => hup

/-- A path whose first component is the root is absolute. -/
theorem components_eq_root_iff {p : Path} {cs : List Component} :
    p.components = .root :: cs ↔
      p.isAbsolute = true ∧ p.segments.filterMap componentOf = cs := by
  have hroot : .root ∉ p.segments.filterMap componentOf := by
    intro hmem
    obtain ⟨s, -, hs⟩ := List.mem_filterMap.1 hmem
    rw [componentOf] at hs
    split at hs
    · cases hs
    · split at hs <;> cases hs
  cases habs : p.isAbsolute with
  | true => simp [components, habs]
  | false =>
    refine iff_of_false (fun h => ?_) (by simp)
    rw [components, habs] at h
    split at h
    · next _ heq => cases heq
    · cases h
    · exact hroot (h ▸ List.mem_cons_self)

/-- A path whose components are the root and names. -/
theorem isNormal_of_mem {p : Path} {names : List Text}
    (h : p.components = .root :: names.map .name) : ∀ n ∈ names, IsNormal n := by
  intro n hn
  obtain ⟨-, hcomponents⟩ := components_eq_root_iff.1 h
  have hmem : .name n ∈ p.segments.filterMap componentOf := by
    rw [hcomponents]
    exact List.mem_map_of_mem hn
  obtain ⟨s, hs, hcomponent⟩ := List.mem_filterMap.1 hmem
  obtain ⟨rfl, hfiller, hup⟩ := componentOf_eq_name_iff.1 hcomponent
  exact ⟨⟨hfiller, Text.notMem_of_mem_splitOn hs⟩, hup⟩

/-! ## Extensions -/

/-- What is left of a name without its last extension.  A dot at the start opens no extension. -/
def IsStem (name stem : Text) : Prop :=
  (stem ≠ [] ∧ ∃ extension, '.' ∉ extension ∧ name = stem ++ '.' :: extension) ∨
    (stem = name ∧ '.' ∉ name.drop 1)

theorem stem_append {stem extension : Text} (hne : stem ≠ []) (h : '.' ∉ extension) :
    Path.stem (stem ++ '.' :: extension) = stem := by
  rw [Path.stem, Text.breakOnLast?_append stem h]
  split
  · next hsome => simp [hne] at hsome
  · next hnone => cases hnone
  · next hsome => exact (congrArg Prod.fst (Option.some.inj hsome)).symm

theorem stem_of_notMem {name : Text} (h : '.' ∉ name.drop 1) : Path.stem name = name := by
  cases name with
  | nil => rfl
  | cons c t =>
    rw [List.drop_one, List.tail_cons] at h
    by_cases hc : c = '.'
    · subst hc
      rw [Path.stem, show '.' :: t = [] ++ '.' :: t from rfl, Text.breakOnLast?_append [] h]
    · have hnone : '.' ∉ c :: t := by simp [h, Ne.symm hc]
      rw [Path.stem, Text.breakOnLast?_eq_none hnone]

/-- Every name has exactly one stem. -/
theorem stem_eq_iff {name stem : Text} : Path.stem name = stem ↔ IsStem name stem := by
  constructor
  · rintro rfl
    by_cases hdot : '.' ∈ name.drop 1
    · obtain ⟨c, t, rfl⟩ : ∃ c t, name = c :: t := by
        cases name with
        | nil => cases hdot
        | cons c t => exact ⟨c, t, rfl⟩
      -- the last dot stands behind the first character
      obtain ⟨back, front, hsplit, hback⟩ :=
        List.eq_append_cons_of_mem (List.mem_reverse.2 (show '.' ∈ t from hdot))
      have ht : t = front.reverse ++ '.' :: back.reverse := by
        rw [← List.reverse_reverse t, hsplit]
        simp
      have hextension : '.' ∉ back.reverse := by simpa using hback
      rw [ht, ← List.cons_append, stem_append (List.cons_ne_nil _ _) hextension]
      exact .inl ⟨List.cons_ne_nil _ _, _, hextension, rfl⟩
    · exact .inr ⟨stem_of_notMem hdot, hdot⟩
  · rintro (⟨hne, extension, hextension, rfl⟩ | ⟨rfl, hdot⟩)
    · exact stem_append hne hextension
    · exact stem_of_notMem hdot

/-- A stem is a beginning of the name. -/
theorem stem_isPrefix (name : Text) : Path.stem name <+: name := by
  obtain ⟨-, extension, -, h⟩ | ⟨h, -⟩ := stem_eq_iff.1 (rfl : Path.stem name = Path.stem name)
  · exact ⟨_, h.symm⟩
  · exact ⟨[], by rw [List.append_nil, h]⟩

/-- The pieces of a path that ends in a name, up to the name. -/
theorem exists_trimFiller_eq {p : Path} {cs : List Component} {n : Text}
    (h : p.components = .root :: (cs ++ [.name n])) :
    ∃ front, trimFiller true p.segments = front ++ [n] ∧ front.filterMap componentOf = cs ∧
      ∀ piece ∈ front ++ [n], '/' ∉ piece := by
  obtain ⟨-, hcomponents⟩ := components_eq_root_iff.1 h
  obtain ⟨front, back, hsegments, hfront, hback⟩ := List.filterMap_eq_append_iff.1 hcomponents
  obtain ⟨fs, s, rest, rfl, hfs, hs, hrest⟩ := List.filterMap_eq_cons_iff.1 hback
  obtain ⟨rfl, hfiller, -⟩ := componentOf_eq_name_iff.1 hs
  rw [← List.append_assoc] at hsegments
  have hslash : ∀ piece ∈ (front ++ fs) ++ [s], '/' ∉ piece := by
    intro piece hpiece
    refine Text.notMem_of_mem_splitOn (t := p.body) ?_
    rw [← segments_eq, hsegments, List.append_cons]
    exact List.mem_append_left _ hpiece
  have hbehind : ∀ f ∈ rest, isFiller f = true := fun f hf =>
    componentOf_eq_none_iff.1 (List.filterMap_eq_nil_iff.1 hrest f hf)
  have hname : IsName s := ⟨hfiller, hslash s (by simp)⟩
  refine ⟨front ++ fs, ?_, ?_, hslash⟩
  · rw [hsegments, trimFiller_append _ _ hname hbehind]
  · rw [List.filterMap_append, hfront, List.filterMap_eq_nil_iff.2 hfs, List.append_nil]

/-- The components of a path without the extension of its last name: instead of the name its stem is
read, or two dots when the stem is one. -/
theorem components_withoutExtension {p : Path} {cs : List Component} {n : Text}
    (h : p.components = .root :: (cs ++ [.name n])) :
    ∃ kept, (kept = Path.stem n ∨ Path.stem n = ['.'] ∧ kept = ['.', '.']) ∧
      p.withoutExtension.components = .root :: (cs ++ (componentOf kept).toList) := by
  obtain ⟨habs, -⟩ := components_eq_root_iff.1 h
  obtain ⟨front, htrim, hfront, hslash⟩ := exists_trimFiller_eq h
  obtain ⟨hfrontSlash, hnameSlash⟩ := List.forall_mem_append.1 hslash
  have hname : p.fileName? = some n := by
    rw [fileName?, h, ← List.cons_append, List.getLast?_concat]
  obtain ⟨kept, hkept, hwithout⟩ : ∃ kept, (kept = Path.stem n ∨ Path.stem n = ['.'] ∧
      kept = ['.', '.']) ∧ p.withoutExtension = ofSegments true (front ++ [kept]) := by
    rw [withoutExtension, hname, habs]
    simp only [htrim, List.getLast?_concat, List.dropLast_concat]
    refine ⟨_, ?_, rfl⟩
    split
    · next hdots => exact .inr ⟨beq_iff_eq.1 (Bool.and_eq_true_iff.1 hdots).1, rfl⟩
    · exact .inl rfl
  have hkeptSlash : '/' ∉ kept := by
    obtain hkept | ⟨-, hkept⟩ := hkept
    · rw [hkept]
      exact fun hc => hnameSlash n (List.mem_singleton_self n) ((stem_isPrefix n).mem hc)
    · rw [hkept]
      decide
  have hpieces : ∀ piece ∈ front ++ [kept], '/' ∉ piece :=
    List.forall_mem_append.2 ⟨hfrontSlash, List.forall_mem_singleton.2 hkeptSlash⟩
  have hsegments : (ofSegments true (front ++ [kept])).isAbsolute = true ∧
      (ofSegments true (front ++ [kept])).segments = front ++ [kept] :=
    segments_ofSegments hpieces (by simp) nofun
  refine ⟨kept, hkept, hwithout ▸ components_eq_root_iff.2 ⟨hsegments.1, ?_⟩⟩
  rw [hsegments.2, List.filterMap_append, hfront, List.filterMap_cons]
  cases componentOf kept <;> rfl

end Scaffold.Path
