import Mathlib.Data.List.Induction
import Scaffold.Env.Project
import Scaffold.Proofs.Path

/-!
# Relative imports resolve back

An import path is followed piece by piece from a directory (`walk`).  The path that is written for a
module goes up to the last directory that it shares with the importing one and down from there
(`exists_relativeImport_eq`), so it leads to the module without its extension.  It must start with a
dot and a slash or with two dots and a slash to be taken for a path at all, and it does unless the
module is below the directory and the first name on the way down starts with two dots; and no path
leads to a module whose name without the extension is one or two dots
(`relativeImport_resolves_iff`).
-/

namespace Scaffold.Env

open Scaffold.Path (Component IsNormal IsStem)

/-! ## Following an import -/

/-- The directory that a piece of an import path leads to. -/
def walkStep (dir : List Text) (piece : Text) : List Text :=
  if Path.isFiller piece then dir
  else if piece = ['.', '.'] then dir.dropLast
  else dir ++ [piece]

/-- Where an import path leads from a directory. -/
def walk (dir : List Text) (importPath : Text) : List Text :=
  (importPath.splitOn '/').foldl walkStep dir

/-- The import path is taken for a path from the importing file. -/
def IsRelative (importPath : Text) : Prop :=
  ['.', '/'] <+: importPath ∨ ['.', '.', '/'] <+: importPath

theorem walkStep_of_isNormal {name : Text} (h : IsNormal name) (dir : List Text) :
    walkStep dir name = dir ++ [name] := by
  simp [walkStep, h.notFiller, h.notUp]

theorem foldl_walkStep_names {names : List Text} (h : ∀ n ∈ names, IsNormal n) (dir : List Text) :
    names.foldl walkStep dir = dir ++ names := by
  induction names generalizing dir with
  | nil => exact (List.append_nil dir).symm
  | cons n names ih =>
    obtain ⟨hn, hnames⟩ := List.forall_mem_cons.1 h
    rw [List.foldl_cons, walkStep_of_isNormal hn, ih hnames, List.append_assoc,
      List.singleton_append]

/-- As many pieces up as there are names lead out of them. -/
theorem foldl_walkStep_ups (dir names : List Text) :
    (List.replicate names.length ['.', '.']).foldl walkStep (dir ++ names) = dir := by
  induction names using List.reverseRecOn with
  | nil => exact List.append_nil dir
  | append_singleton names n ih =>
    have hup : walkStep (dir ++ (names ++ [n])) ['.', '.'] = dir ++ names := by
      rw [← List.append_assoc]
      exact List.dropLast_concat
    rw [List.length_append, List.length_singleton, List.replicate_succ, List.foldl_cons, hup, ih]

/-- No import path leads into what is no name. -/
theorem mem_foldl_walkStep {pieces dir : List Text} {n : Text}
    (h : n ∈ pieces.foldl walkStep dir) :
    n ∈ dir ∨ Path.isFiller n = false ∧ n ≠ ['.', '.'] := by
  induction pieces generalizing dir with
  | nil => exact .inl h
  | cons piece pieces ih =>
    rw [List.foldl_cons] at h
    refine (ih h).elim (fun hmem => ?_) .inr
    rw [walkStep] at hmem
    split at hmem
    · exact .inl hmem
    · next hfiller =>
      split at hmem
      · exact .inl (List.dropLast_subset dir hmem)
      · next hup =>
        rcases List.mem_append.1 hmem with hmem | hmem
        · exact .inl hmem
        · obtain rfl := List.mem_singleton.1 hmem
          exact .inr ⟨Bool.eq_false_iff.2 hfiller, hup⟩

/-! ## The path that is written -/

/-- Two lists divide behind what they share at their starts. -/
theorem exists_commonLength {α : Type} [BEq α] [LawfulBEq α] (as bs : List α) :
    ∃ common as' bs', as = common ++ as' ∧ bs = common ++ bs' ∧
      commonLength as bs = common.length ∧ ∀ a ∈ as'.head?, a ∉ bs'.head? := by
  fun_induction commonLength as bs with
  | case1 a as b bs heq ih =>
    obtain ⟨common, as', bs', rfl, rfl, hlength, hheads⟩ := ih
    obtain rfl := beq_iff_eq.1 heq
    exact ⟨a :: common, as', bs', rfl, rfl, by rw [hlength, List.length_cons], hheads⟩
  | case2 a as b bs hne =>
    refine ⟨[], a :: as, b :: bs, rfl, rfl, rfl, fun x hx hmem => hne ?_⟩
    obtain rfl := Option.mem_some.1 hx
    obtain rfl := Option.mem_some.1 hmem
    exact beq_self_eq_true _
  | case3 as bs hnot =>
    refine ⟨[], as, bs, rfl, rfl, rfl, fun x hx hmem => ?_⟩
    obtain ⟨as, rfl⟩ := List.head?_eq_some_iff.1 hx
    obtain ⟨bs, rfl⟩ := List.head?_eq_some_iff.1 hmem
    exact hnot _ _ _ _ rfl rfl

theorem commonLength_map {α β : Type} [BEq α] [LawfulBEq α] [BEq β] [LawfulBEq β] {f : α → β}
    (hf : f.Injective) (as bs : List α) :
    commonLength (as.map f) (bs.map f) = commonLength as bs := by
  induction as generalizing bs with
  | nil => rfl
  | cons a as ih =>
    cases bs with
    | nil => rfl
    | cons b bs =>
      have hbeq : (f a == f b) = (a == b) := by
        rw [Bool.eq_iff_iff]
        simp [hf.eq_iff]
      rw [List.map_cons, List.map_cons, commonLength, commonLength, hbeq, ih]

/-- Pieces of a path, marked as a path from the importing file. -/
def markRelative (joined : Text) : Text :=
  if List.isPrefixOf ['.', '.'] joined then joined else "./" ++ joined

/-- The path of a module goes up to the last directory that is shared and down from there. -/
theorem exists_relativeImport_eq {fromDir modulePath : Path} {source goal : List Text}
    (hfrom : fromDir.components = .root :: source.map .name)
    (hgoal : modulePath.withoutExtension.components = .root :: goal.map .name) :
    ∃ common up down, source = common ++ up ∧ goal = common ++ down ∧
      (∀ n ∈ up.head?, n ∉ down.head?) ∧
      relativeImport fromDir modulePath =
        markRelative (['/'].intercalate (List.replicate up.length ['.', '.'] ++ down)) := by
  obtain ⟨common, up, down, rfl, rfl, hlength, hheads⟩ := exists_commonLength source goal
  refine ⟨common, up, down, rfl, rfl, hheads, ?_⟩
  have hcommon : commonLength fromDir.components modulePath.withoutExtension.components =
      common.length + 1 := by
    rw [hfrom, hgoal, commonLength, if_pos (beq_self_eq_true _),
      commonLength_map (fun _ _ => Component.name.inj), hlength]
  have hup : fromDir.components.length - (common.length + 1) = up.length := by
    simp [hfrom]
  have hdown : (modulePath.withoutExtension.components.drop (common.length + 1)).map
      Component.text = down := by
    rw [hgoal, List.drop_succ_cons, List.map_append, List.drop_left' (List.length_map ..),
      List.map_map]
    exact List.map_id down
  rw [relativeImport]
  simp only [hcommon, hup, hdown]
  rfl

/-! ## Marked paths -/

section

variable {pieces : List Text} (hslash : ∀ piece ∈ pieces, '/' ∉ piece)
include hslash

/-- The mark changes nothing about where a path leads. -/
theorem walk_markRelative (dir : List Text) :
    walk dir (markRelative (['/'].intercalate pieces)) = pieces.foldl walkStep dir := by
  by_cases hnil : pieces = []
  · subst hnil
    rfl
  rw [walk, markRelative]
  split
  · rw [List.splitOn_intercalate '/' hslash hnil]
  · have hmarked : "./" ++ ['/'].intercalate pieces = ['/'].intercalate (['.'] :: pieces) := by
      obtain ⟨first, rest, rfl⟩ := List.exists_cons_of_ne_nil hnil
      rfl
    have hall : ∀ piece ∈ ['.'] :: pieces, '/' ∉ piece :=
      List.forall_mem_cons.2 ⟨by decide, hslash⟩
    rw [hmarked, List.splitOn_intercalate '/' hall (List.cons_ne_nil _ _)]
    rfl

end

/-- A path that goes up is taken for a path when it goes on. -/
theorem isRelative_up {pieces : List Text} (hne : pieces ≠ []) :
    IsRelative (markRelative (['/'].intercalate (['.', '.'] :: pieces))) := by
  obtain ⟨first, rest, rfl⟩ := List.exists_cons_of_ne_nil hne
  exact .inr ⟨_, rfl⟩

/-- A path that goes down is taken for a path unless its first name starts with two dots. -/
theorem isRelative_down_iff {first : Text} (hn : IsNormal first) (rest : List Text) :
    IsRelative (markRelative (['/'].intercalate (first :: rest))) ↔ ¬ ['.', '.'] <+: first := by
  obtain ⟨u, hjoined, hdots⟩ : ∃ u, ['/'].intercalate (first :: rest) = first ++ u ∧
      (['.', '.'] <+: first ++ u ↔ ['.', '.'] <+: first) := by
    cases rest with
    | nil => exact ⟨[], rfl, by rw [List.append_nil]⟩
    | cons second rest => exact ⟨_, rfl, Text.prefix_append_cons_iff (by decide)⟩
  rw [hjoined, markRelative]
  by_cases hfirst : ['.', '.'] <+: first
  · rw [if_pos (List.isPrefixOf_iff_prefix.2 (hdots.2 hfirst))]
    refine iff_of_false ?_ (not_not_intro hfirst)
    -- behind the two dots the name goes on, and not with a slash
    obtain ⟨w, rfl⟩ := hfirst
    obtain ⟨c, w, rfl⟩ : ∃ c w', w = c :: w' := by
      refine List.exists_cons_of_ne_nil ?_
      rintro rfl
      exact hn.notUp rfl
    have hc : '/' ≠ c := fun hc => hn.noSlash (by simp [← hc])
    simp [IsRelative, hc]
  · rw [if_neg fun hpre => hfirst (hdots.1 (List.isPrefixOf_iff_prefix.1 hpre))]
    exact iff_of_true (.inl ⟨_, rfl⟩) hfirst

/-! ## Imports of modules -/

section

variable {fromDir modulePath : Path} {source dirs : List Text} {n stem : Text}
  (hfrom : fromDir.components = .root :: source.map .name)
  (hmodule : modulePath.components = .root :: (dirs ++ [n]).map .name) (hstem : IsStem n stem)
include hmodule hstem

/-- A module keeps its directories and gets its stem as name, when that can be one. -/
theorem components_withoutExtension_of_stem (hdot : stem ≠ ['.']) (hdots : stem ≠ ['.', '.']) :
    modulePath.withoutExtension.components = .root :: (dirs ++ [stem]).map .name := by
  have hn : IsNormal n := Path.isNormal_of_mem hmodule n (by simp)
  obtain rfl := Path.stem_eq_iff.2 hstem
  have hne : Path.stem n ≠ [] := by
    obtain ⟨hne, -⟩ | ⟨heq, -⟩ := hstem
    · exact hne
    · rw [heq]
      exact hn.ne_nil
  have hnormal : IsNormal (Path.stem n) := by
    refine ⟨⟨?_, fun hslash => hn.noSlash ((Path.stem_isPrefix n).mem hslash)⟩, hdots⟩
    simpa [Path.isFiller] using ⟨hne, hdot⟩
  rw [List.map_append] at hmodule
  obtain ⟨kept, hkept | ⟨hone, -⟩, hcomponents⟩ := Path.components_withoutExtension hmodule
  · rw [hcomponents, hkept, Path.componentOf_of_isNormal hnormal, List.map_append]
    rfl
  · exact absurd hone hdot

include hfrom

/-- The import path of a module leads to its stem in its directory, unless no path does. -/
theorem walk_relativeImport_iff :
    walk source (relativeImport fromDir modulePath) = dirs ++ [stem] ↔
      stem ≠ ['.'] ∧ stem ≠ ['.', '.'] := by
  refine ⟨fun hwalk => ?_, fun ⟨hdot, hdots⟩ => ?_⟩
  · have hsource := Path.isNormal_of_mem hfrom
    have hmem : stem ∈ walk source (relativeImport fromDir modulePath) := by simp [hwalk]
    have hname : Path.isFiller stem = false ∧ stem ≠ ['.', '.'] :=
      (mem_foldl_walkStep hmem).elim
        (fun hmem => ⟨(hsource stem hmem).notFiller, (hsource stem hmem).notUp⟩) id
    refine ⟨?_, hname.2⟩
    rintro rfl
    cases hname.1
  · have hgoal := components_withoutExtension_of_stem hmodule hstem hdot hdots
    have hnames := Path.isNormal_of_mem hgoal
    obtain ⟨common, up, down, rfl, hsplit, -, himport⟩ := exists_relativeImport_eq hfrom hgoal
    rw [hsplit] at hnames ⊢
    have hdown := (List.forall_mem_append.1 hnames).2
    have hslash : ∀ piece ∈ List.replicate up.length ['.', '.'] ++ down, '/' ∉ piece := by
      refine List.forall_mem_append.2 ⟨fun piece hpiece => ?_, fun n hn => (hdown n hn).noSlash⟩
      rw [List.eq_of_mem_replicate hpiece]
      decide
    rw [himport, walk_markRelative hslash, List.foldl_append, foldl_walkStep_ups,
      foldl_walkStep_names hdown]

/-- The import path of a module that is not above the directory is taken for a path unless it starts
with a name that starts with two dots. -/
theorem isRelative_relativeImport_iff (hdot : stem ≠ ['.']) (hdots : stem ≠ ['.', '.'])
    (habove : dirs ++ [stem] <+: source → dirs ++ [stem] = source) :
    IsRelative (relativeImport fromDir modulePath) ↔
      ¬ ∃ first rest, dirs ++ [stem] = source ++ first :: rest ∧ ['.', '.'] <+: first := by
  have hgoal := components_withoutExtension_of_stem hmodule hstem hdot hdots
  have hnames := Path.isNormal_of_mem hgoal
  obtain ⟨common, up, down, rfl, hsplit, hheads, himport⟩ := exists_relativeImport_eq hfrom hgoal
  rw [hsplit] at habove hnames
  rw [himport, hsplit]
  cases up with
  | cons u up =>
    have hdown : down ≠ [] := by
      rintro rfl
      rw [List.append_nil] at habove
      simpa using habove (List.prefix_append _ _)
    refine iff_of_true (isRelative_up (by simp [hdown])) ?_
    rintro ⟨first, rest, heq, -⟩
    rw [List.append_assoc, List.append_cancel_left_eq] at heq
    exact hheads u rfl (by rw [heq]; rfl)
  | nil =>
    rw [List.append_nil]
    cases down with
    | nil => exact iff_of_true (.inl ⟨[], rfl⟩) (by simp)
    | cons first rest =>
      refine (isRelative_down_iff (hnames first (by simp)) rest).trans (not_congr ?_)
      refine ⟨fun hfirst => ⟨first, rest, rfl, hfirst⟩, ?_⟩
      rintro ⟨first', rest', heq, hfirst⟩
      obtain ⟨rfl, -⟩ := List.cons_eq_cons.1 (List.append_cancel_left heq)
      exact hfirst

/-- The import path of a module that is not above the directory leads to the module without its last
extension, unless that leaves no name, and is taken for a path unless the module is below the
directory and the first name on the way to it starts with two dots. -/
theorem relativeImport_resolves_iff (habove : dirs ++ [stem] <+: source → dirs ++ [stem] = source) :
    (walk source (relativeImport fromDir modulePath) = dirs ++ [stem] ↔
        stem ≠ ['.'] ∧ stem ≠ ['.', '.']) ∧
      (stem ≠ ['.'] → stem ≠ ['.', '.'] → (IsRelative (relativeImport fromDir modulePath) ↔
        ¬ ∃ first rest, dirs ++ [stem] = source ++ first :: rest ∧ ['.', '.'] <+: first)) :=
  ⟨walk_relativeImport_iff hfrom hmodule hstem, fun hdot hdots =>
    isRelative_relativeImport_iff hfrom hmodule hstem hdot hdots habove⟩

end

theorem relativeImport_resolves_iff_sample :
    relativeImport ⟨"/ws/apps/web"⟩ ⟨"/ws/..env/model.v1.ts"⟩ = "../../..env/model.v1" ∧
      walk ["ws", "apps", "web"] "../../..env/model.v1" = (["ws", "..env", "model.v1"] : List Text) ∧
      IsRelative "../../..env/model.v1" := by
  have himport : relativeImport ⟨"/ws/apps/web"⟩ ⟨"/ws/..env/model.v1.ts"⟩ =
      "../../..env/model.v1" := by decide
  have hresolves := @relativeImport_resolves_iff ⟨"/ws/apps/web"⟩ ⟨"/ws/..env/model.v1.ts"⟩
    ["ws", "apps", "web"] ["ws", "..env"] "model.v1.ts" "model.v1" (by decide) (by decide)
    (.inl ⟨by decide, "ts", by decide, by decide⟩) (by decide)
  rw [himport] at hresolves
  refine ⟨himport, hresolves.1.2 (by decide), (hresolves.2 (by decide) (by decide)).2 ?_⟩
  rintro ⟨first, rest, heq, -⟩
  cases congrArg (·[1]?) heq

/-- Below the directory a name that starts with two dots is mistaken for a way up, and the path of
the module for that of a package. -/
theorem not_relativeImport_resolves_always :
    ¬ ∀ (fromDir modulePath : Path) (source dirs : List Text) (n stem : Text),
      fromDir.components = .root :: source.map .name →
      modulePath.components = .root :: (dirs ++ [n]).map .name → IsStem n stem →
      ¬ dirs ++ [stem] <+: source →
      IsRelative (relativeImport fromDir modulePath) ∧
        walk source (relativeImport fromDir modulePath) = dirs ++ [stem] := by
  intro h
  have hrelative := (h ⟨"/ws"⟩ ⟨"/ws/..lib/m.ts"⟩ ["ws"] ["ws", "..lib"] "m.ts" "m" (by decide)
    (by decide) (.inl ⟨by decide, "ts", by decide, by decide⟩) (by decide)).1
  have himport : relativeImport ⟨"/ws"⟩ ⟨"/ws/..lib/m.ts"⟩ = "..lib/m" := by decide
  rw [himport] at hrelative
  exact absurd hrelative (by simp [IsRelative])

end Scaffold.Env
