import Scaffold.Env.Store
import Scaffold.Proofs.Disk
import Scaffold.Proofs.Env.ModelText
import Scaffold.Proofs.Script.Array
import Scaffold.Proofs.Script.Literal.Location

/-!
# The keys that a project selects

The model file of a project is made by the first call that selects keys and edited by all later
ones.  What both leave is a list of keys that is read from the text of the file (`Selects`): the
first call writes its keys as they are (`exists_renderProjectModel`), and a later call adds those
that are not there yet (`Selects.addArrayItems`).  So after any number of calls the file selects the
keys of the first call and then the others in the order of their first request
(`projectKeys_setupAll`); no key stands there twice unless the first call repeats one.
-/

namespace Scaffold.Env

open Script

/-! ## Keys in the order of their first request -/

/-- The keys with those that are requested and not there yet, each once. -/
def withRequested (keys requested : List Text) : List Text :=
  keys ++ (requested.removeAll keys).eraseDups

/-- Two requests are as good as one for all their keys. -/
theorem withRequested_append (keys requested more : List Text) :
    withRequested (withRequested keys requested) more = withRequested keys (requested ++ more) := by
  have hmore : more.removeAll (withRequested keys requested) =
      (more.removeAll keys).removeAll (requested.removeAll keys) := by
    simp only [List.removeAll, List.filter_filter]
    refine List.filter_congr fun key _ => ?_
    simp [withRequested, List.removeAll, Bool.and_comm]
  have happend : (requested ++ more).removeAll keys =
      requested.removeAll keys ++ more.removeAll keys := List.filter_append ..
  rw [withRequested, hmore, withRequested, withRequested, happend, List.eraseDups_append,
    List.append_assoc]

theorem withRequested_nil (keys : List Text) : withRequested keys [] = keys := by
  simp [withRequested, List.removeAll]

theorem nodup_eraseDups (keys : List Text) : keys.eraseDups.Nodup := by
  induction h : keys.length using Nat.strong_induction_on generalizing keys with
  | _ n ih =>
    cases keys with
    | nil => simp
    | cons key keys =>
      subst h
      rw [List.eraseDups_cons, List.nodup_cons]
      refine ⟨by simp, ih _ ?_ _ rfl⟩
      exact Nat.lt_succ_of_le (List.length_filter_le _ _)

theorem eraseDups_of_nodup {keys : List Text} (h : keys.Nodup) : keys.eraseDups = keys := by
  induction keys with
  | nil => simp
  | cons key keys ih =>
    obtain ⟨hkey, hkeys⟩ := List.nodup_cons.1 h
    have hfilter : keys.filter (fun other => !other == key) = keys := by
      refine List.filter_eq_self.2 fun other hother => ?_
      have : other ≠ key := fun heq => hkey (heq ▸ hother)
      simpa using this
    rw [List.eraseDups_cons, hfilter, ih hkeys]

/-- The keys are all requested ones without repeats exactly when the first ones have none. -/
theorem withRequested_eq_eraseDups_iff (keys requested : List Text) :
    withRequested keys requested = (keys ++ requested).eraseDups ↔ keys.Nodup := by
  rw [withRequested, List.eraseDups_append, List.append_left_inj]
  exact ⟨fun h => h ▸ nodup_eraseDups keys, fun h => (eraseDups_of_nodup h).symm⟩

theorem contains_string {keys : List Text} {key : Text} :
    (keys.map Literal.string).contains (.string key) = decide (key ∈ keys) := by
  rw [List.contains_eq_any_beq, List.any_map, Bool.eq_iff_iff, List.any_eq_true, decide_eq_true_iff]
  constructor
  · rintro ⟨other, hother, hequal⟩
    obtain rfl : key = other := eq_of_beq hequal
    exact hother
  · exact fun hkey => ⟨key, hkey, beq_self_eq_true key⟩

/-- The items that an array of strings lacks are the requested keys that are not there yet. -/
theorem newItems_strings (keys requested : List Text) :
    Document.newItems (keys.map .string) (requested.map .string) =
      (requested.removeAll keys).eraseDups.map Literal.string := by
  induction requested generalizing keys with
  | nil => simp [Document.newItems, List.removeAll]
  | cons key requested ih =>
    have hnext := ih (keys ++ [key])
    rw [List.map_append, List.map_singleton] at hnext
    rw [List.map_cons, Document.newItems, contains_string]
    by_cases hkey : key ∈ keys
    · rw [if_pos (by simpa using hkey), ih]
      simp [List.removeAll, hkey]
    · have hfilter : (requested.removeAll keys).filter (fun other => !other == key) =
          requested.removeAll (keys ++ [key]) := by
        simp only [List.removeAll, List.filter_filter]
        refine List.filter_congr fun other _ => ?_
        rw [Bool.eq_iff_iff]
        simp [and_comm]
      have hcons : (key :: requested).removeAll keys = key :: requested.removeAll keys := by
        simp [List.removeAll, hkey]
      rw [if_neg (by simpa using hkey), hnext, hcons, List.eraseDups_cons, hfilter, List.map_cons]

/-! ## Lists of keys in a text -/

/-- Strings are equal to no other values. -/
theorem eq_of_beq_strings {items : List Literal} {keys : List Text}
    (h : Literal.beqItems items (keys.map .string) = true) : items = keys.map .string := by
  induction keys generalizing items with
  | nil =>
    cases items with
    | nil => rfl
    | cons item items => cases h
  | cons key keys ih =>
    cases items with
    | nil => cases h
    | cons item items =>
      obtain ⟨hitem, hrest⟩ := Bool.and_eq_true_iff.1 h
      cases item with
      | string t =>
        obtain rfl : t = key := eq_of_beq hitem
        rw [ih hrest, List.map_cons]
      | _ => cases hitem

theorem eq_of_beq_keyList {keys : List Text} {v : Literal} (h : (v == keyList keys) = true) :
    v = keyList keys := by
  cases v with
  | array items => exact congrArg Literal.array (eq_of_beq_strings h)
  | _ => cases h

/-- The text is that of a file that selects keys. -/
def Selects (path : Path) (t : Text) (keys : List Text) : Prop :=
  ∃ r, Region.ofDocument (.ofContent path t) projectMarker = .ok r ∧
    Literal.read {} r.content = keyList keys

namespace Selects

variable {path : Path} {t : Text} {keys : List Text} (h : Selects path t keys)
include h

theorem readProjectKeys_eq : readProjectKeys (.ofContent path t) {} = .ok keys := by
  obtain ⟨r, hr, hread⟩ := h
  rw [readProjectKeys, bind_of_ok hr]
  simp only [hread]
  have hstring : Literal.asString? ∘ Literal.string = some := rfl
  show Except.ok _ = _
  rw [List.filterMap_map, hstring, List.filterMap_some]

/-- A further call adds the keys that are not there yet. -/
theorem addArrayItems {requested : List Text} {changed : Bool} {e : Document}
    (hadd : (Document.ofContent path t).addArrayItems {} projectMarker
      (requested.map Literal.string) = .ok (changed, e)) :
    Selects path e.content (withRequested keys requested) := by
  obtain ⟨r, hr, hread⟩ := h
  obtain ⟨r', existing, sources, hr', hread', hsources, hcases⟩ :=
    Document.exists_of_addArrayItems hadd
  obtain rfl : r = r' := Except.ok.inj (hr.symm.trans hr')
  obtain rfl : keys.map Literal.string = existing :=
    Literal.array.inj (hread.symm.trans hread')
  have hadded := newItems_strings keys requested
  generalize hnew : (requested.removeAll keys).eraseDups = added at hadded
  rw [hadded] at hsources
  have hreads : List.Forall₂ (Literal.ReadsAs {}) sources (added.map .string) := by
    refine Document.readsAs_of_mapM (fun item hitem s hs => ?_) hsources
    obtain ⟨key, -, rfl⟩ := List.mem_map.1 hitem
    simp [Literal.leaves] at hs
  rw [withRequested, hnew]
  rcases hcases with ⟨rfl, -, rfl⟩ | ⟨hne, -, hextend⟩
  · obtain rfl : added = [] := by simpa using hreads
    rw [List.append_nil, Document.content_ofContent]
    exact ⟨r, hr, hread⟩
  · obtain ⟨lead, o, inner, c, tail, ho, hc, hbal, rfl, rfl, hagain⟩ :=
      exists_ofDocument_eq rfl hr
    obtain ⟨rfl, hpieces⟩ := Literal.eq_of_read_array ho hc hbal hread
    obtain ⟨n, m, hextended⟩ := Document.extend_at path lead tail inner '[' c .comma sources
    obtain rfl := Except.ok.inj (hextend.symm.trans hextended)
    obtain ⟨hbal', hpieces'⟩ := balanced_and_pieces_addedEntries hbal (n := n) (m := m) hne
      (Literal.isPiece_of_readsAs hreads)
    rw [Document.content_ofContent]
    refine ⟨_, hagain _ hbal', ?_⟩
    show Literal.read {} ('[' :: addedEntries .comma inner n m sources ++ [c]) = _
    rw [Literal.read_array hc hbal' rfl, hpieces', List.map_append, ← hpieces,
      eq_of_beq_strings (Literal.beqItems_of_readsAs hreads), keyList, List.map_append]

/-- Keys can always be added. -/
theorem exists_addArrayItems (requested : List Text) :
    ∃ changed e, (Document.ofContent path t).addArrayItems {} projectMarker
      (requested.map Literal.string) = .ok (changed, e) := by
  obtain ⟨r, hr, hread⟩ := h
  obtain ⟨lead, o, inner, c, tail, -, -, -, rfl, rfl, -⟩ := exists_ofDocument_eq rfl hr
  obtain ⟨n, m, hextend⟩ := Document.extend_at path lead tail inner o c .comma
    ((requested.removeAll keys).eraseDups.map quoted)
  have hsources (indent : Nat) :
      (Document.newItems (keys.map .string) (requested.map .string)).mapM
        (Literal.print {} indent) = .ok ((requested.removeAll keys).eraseDups.map quoted) := by
    rw [newItems_strings, List.mapM_map]
    exact mapM_of_ok fun key _ => rfl
  rw [Document.addArrayItems, bind_of_ok hr]
  simp only [hread, keyList]
  rw [bind_of_ok (hsources _)]
  split
  · exact ⟨false, _, rfl⟩
  · exact ⟨true, _, bind_of_ok hextend _⟩

end Selects

/-! ## The first call -/

/-- A list of keys has a text, which is read as the list. -/
theorem exists_print_keyList (keys : List Text) (n : Nat) :
    ∃ t, (keyList keys).print {} n = .ok t ∧ IsEnclosed t ∧ Literal.read {} t = keyList keys := by
  have hstring : ∀ leaf ∈ (keyList keys).leaves, ∃ key, leaf = .string key := by
    induction keys with
    | nil => simp [keyList, Literal.leaves, Literal.leavesOfItems]
    | cons key keys ih =>
      simp only [keyList, Literal.leaves, List.map_cons, Literal.leavesOfItems] at ih ⊢
      simpa using ih
  have hwritable (leaf : Literal) (hleaf : leaf ∈ (keyList keys).leaves) : leaf.Writable := by
    obtain ⟨key, rfl⟩ := hstring leaf hleaf
    constructor <;> intros <;> contradiction
  have hreadable (leaf : Literal) (hleaf : leaf ∈ (keyList keys).leaves) :
      Literal.Leaf {} leaf := by
    obtain ⟨key, rfl⟩ := hstring leaf hleaf
    constructor <;> intros <;> contradiction
  have hvoc : Vocabulary.SourcesStand {} := fun _ _ h => absurd h (Option.not_mem_none _)
  obtain ⟨t, ht, hwritten⟩ := Literal.exists_print hvoc (keyList keys) n hwritable
  have hreads := Literal.readsAs_print Vocabulary.sound_empty (keyList keys) n t hreadable ht
  exact ⟨t, ht, hwritten.enclosed rfl, eq_of_beq_keyList hreads.equal⟩

/-- What stands in a new project model before the line with the list. -/
def modelHeader (importPath : Text) : Text :=
  "import \x7b defineVariables \x7d from ".toList ++ '\'' :: (importPath ++ '\'' ::
    ";\n\n// Keys of the global environment used by this project.".toList)

/-- A text in seven pieces, divided at quotes and around the line with the marker. -/
theorem append_divided (importPath list : Text) {a b c m e a' c' m' e' : Text}
    (ha : a = a' ++ ['\'']) (hc : b ++ c = '\'' :: (c' ++ ['\n'])) (hm : m = m' ++ projectMarker)
    (he : e = e' ++ ['\n']) :
    a ++ importPath ++ b ++ c ++ m ++ list ++ e =
      a' ++ '\'' :: (importPath ++ '\'' :: c') ++
        '\n' :: (m' ++ projectMarker ++ (list ++ (e' ++ ['\n']))) := by
  rw [List.append_assoc _ b c, ha, hc, hm, he]
  simp only [List.append_assoc, List.cons_append, List.nil_append]

theorem renderProjectModel_eq {keys : List Text} {list : Text}
    (h : (keyList keys).print {} 0 = .ok list) (importPath : Text) :
    renderProjectModel importPath keys {} =
      .ok (modelHeader importPath ++ '\n' :: ("export const environmentVariables = ".toList ++
        projectMarker ++ (list ++ (");".toList ++ ['\n'])))) := by
  rw [renderProjectModel, bind_of_ok h]
  -- the pieces are named first: rewriting would compare the long texts letter by letter
  have hfrom : "import \x7b defineVariables \x7d from '".toList =
      "import \x7b defineVariables \x7d from ".toList ++ ['\''] := by cbv
  have hcomment : "';\n\n".toList ++
        "// Keys of the global environment used by this project.\n".toList =
      '\'' :: (";\n\n// Keys of the global environment used by this project.".toList ++
        ['\n']) := by cbv
  have hmarker : "export const environmentVariables = defineVariables(".toList =
      "export const environmentVariables = ".toList ++ projectMarker := by cbv
  have hend : ");\n".toList = ");".toList ++ ['\n'] := by cbv
  exact congrArg Except.ok (append_divided importPath list hfrom hcomment hmarker hend)

theorem contains_modelHeader {importPath : Text}
    (h : Text.contains projectMarker importPath = false) :
    Text.contains projectMarker (modelHeader importPath) = false := by
  have hquote : '\'' ∉ projectMarker := by decide
  have hbehind : Text.contains projectMarker (importPath ++ '\'' ::
      ";\n\n// Keys of the global environment used by this project.".toList) = false :=
    (Text.contains_append_cons hquote _ _).trans (Bool.or_eq_false_iff.2 ⟨h, rfl⟩)
  exact (Text.contains_append_cons hquote _ _).trans (Bool.or_eq_false_iff.2 ⟨rfl, hbehind⟩)

/-- A new project model selects its keys, unless the marker stands in the path of its import. -/
theorem exists_renderProjectModel (path : Path) {importPath : Text}
    (himport : Text.contains projectMarker importPath = false) (keys : List Text) :
    ∃ t, renderProjectModel importPath keys {} = .ok t ∧ Selects path t keys := by
  obtain ⟨list, hprint, henclosed, hread⟩ := exists_print_keyList keys 0
  have hline : '\n' ∉ "export const environmentVariables = ".toList ++ projectMarker :=
    mt List.elem_eq_true_of_mem (Bool.eq_false_iff.1 rfl)
  have hfirst : Text.breakOn? projectMarker
      ("export const environmentVariables = ".toList ++ projectMarker) =
        some ("export const environmentVariables = ".toList, []) := rfl
  have hmarker : IsOpenEnded projectMarker := ⟨by decide, by decide⟩
  have hlocated := ofDocument_enclosed (contains_modelHeader himport) hline hfirst hmarker henclosed
    path ");".toList
  exact ⟨_, renderProjectModel_eq hprint importPath, _, hlocated, hread⟩

/-! ## Calls -/

/-- A computed file is saved. -/
theorem writeComputed_eq_ok {file : Disk → Except Fault (Path × Text)} {change : Change}
    {d d' : Disk} :
    (writeComputed file).outcome d = (.ok change, d') ↔
      ∃ path content status, file d = .ok (path, content) ∧
        (Edit.writeIfChanged path content).outcome d = (.ok status, d') ∧
        change = (path, status) := by
  rw [writeComputed, Edit.outcome_bind_eq_ok]
  constructor
  · rintro ⟨⟨path, content⟩, d₁, hlook, h⟩
    rw [Edit.outcome_look] at hlook
    obtain ⟨hfile, rfl⟩ := Prod.mk.inj hlook
    obtain ⟨status, d₂, hwrite, hdone⟩ := (Edit.outcome_bind_eq_ok d).1 h
    obtain ⟨hchange, rfl⟩ := Prod.mk.inj hdone
    exact ⟨path, content, status, hfile, hwrite, (Except.ok.inj hchange).symm⟩
  · rintro ⟨path, content, status, hfile, hwrite, rfl⟩
    refine ⟨(path, content), d, by rw [Edit.outcome_look, hfile], ?_⟩
    exact (Edit.outcome_bind_eq_ok d).2 ⟨status, d', hwrite, rfl⟩

/-- The model file of a project selects the keys. -/
def ProjectSelects (l : Layout) (project : Path) (d : Disk) (keys : List Text) : Prop :=
  ∃ t, d.text? (l.projectModel project) = some t ∧ Selects (l.projectModel project) t keys

/-- Calls that select keys, one after the other. -/
def setupAll (l : Layout) (project : Path) (calls : List (List Text)) : Edit Unit :=
  calls.forM fun keys => do let _ ← setupProject l project keys

theorem setupAll_cons_eq_ok {l : Layout} {project : Path} {keys : List Text}
    {calls : List (List Text)} {d d' : Disk} :
    (setupAll l project (keys :: calls)).outcome d = (.ok (), d') ↔
      ∃ change d₁, (setupProject l project keys).outcome d = (.ok change, d₁) ∧
        (setupAll l project calls).outcome d₁ = (.ok (), d') := by
  show ((do let _ ← setupProject l project keys) >>= fun _ => setupAll l project calls :
    Edit Unit).outcome d = _ ↔ _
  rw [Edit.outcome_bind_eq_ok]
  constructor
  · rintro ⟨_, d₁, hfirst, hrest⟩
    obtain ⟨change, d₂, hcall, hdone⟩ := (Edit.outcome_bind_eq_ok d).1 hfirst
    obtain rfl : d₂ = d₁ := congrArg Prod.snd hdone
    exact ⟨change, d₂, hcall, hrest⟩
  · rintro ⟨change, d₁, hcall, hrest⟩
    exact ⟨(), d₁, (Edit.outcome_bind_eq_ok d).2 ⟨change, d₁, hcall, rfl⟩, hrest⟩

/-- The import path in a new project model. -/
def importOf (l : Layout) (project : Path) : Text :=
  relativeImport ((l.projectModel project).parent?.getD ".") l.environmentModel

section

variable {l : Layout} (hvoc : l.vocabulary = {}) {project : Path} {d d' : Disk} {change : Change}
include hvoc

theorem ProjectSelects.projectKeys_eq {keys : List Text} (h : ProjectSelects l project d keys) :
    projectKeys l project d = .ok keys := by
  obtain ⟨t, ht, hselects⟩ := h
  rw [projectKeys, bind_of_ok (Disk.openDocument_of_text? ht), hvoc]
  exact hselects.readProjectKeys_eq

/-- The call that makes the model file selects its keys. -/
theorem setupProject_creates (hnew : d.contains (l.projectModel project) = false)
    (himport : Text.contains projectMarker (importOf l project) = false) {keys : List Text}
    (h : (setupProject l project keys).outcome d = (.ok change, d')) :
    ProjectSelects l project d' keys := by
  obtain ⟨path, content, status, hfile, hwrite, -⟩ := writeComputed_eq_ok.1 h
  have htext := Edit.text?_of_writeIfChanged hwrite
  obtain ⟨model, -, hfile⟩ := bind_eq_ok.1 hfile
  split at hfile
  · cases hfile
  · simp only [hnew, Bool.false_eq_true, if_false, hvoc] at hfile
    obtain ⟨t, ht, hselects⟩ := exists_renderProjectModel (l.projectModel project) himport keys
    obtain ⟨content', hrender, hfile⟩ := bind_eq_ok.1 hfile
    obtain ⟨rfl, rfl⟩ := Prod.mk.inj (Except.ok.inj hfile)
    obtain rfl : t = content' := Except.ok.inj (ht.symm.trans hrender)
    exact ⟨t, htext, hselects⟩

/-- A further call selects the keys that are not selected yet, too. -/
theorem setupProject_extends {keys requested : List Text}
    (hselects : ProjectSelects l project d keys)
    (h : (setupProject l project requested).outcome d = (.ok change, d')) :
    ProjectSelects l project d' (withRequested keys requested) := by
  obtain ⟨t, ht, hselects⟩ := hselects
  obtain ⟨path, content, status, hfile, hwrite, -⟩ := writeComputed_eq_ok.1 h
  have htext := Edit.text?_of_writeIfChanged hwrite
  obtain ⟨model, -, hfile⟩ := bind_eq_ok.1 hfile
  split at hfile
  · cases hfile
  · simp only [Disk.contains_of_text? ht, if_true, hvoc] at hfile
    rw [bind_of_ok (Disk.openDocument_of_text? ht)] at hfile
    obtain ⟨⟨changed, e⟩, hadd, hfile⟩ := bind_eq_ok.1 hfile
    obtain ⟨rfl, rfl⟩ := Prod.mk.inj (Except.ok.inj hfile)
    exact ⟨e.content, htext, hselects.addArrayItems hadd⟩

/-- A call with declared keys computes a model file. -/
theorem exists_projectWithKeys {model : Model} (hmodel : readModel l d = .ok model)
    {requested : List Text} (hdeclared : ∀ key ∈ requested, model.contains key = true)
    (hfile : d.contains (l.projectModel project) = false ∧
        Text.contains projectMarker (importOf l project) = false ∨
      ∃ keys, ProjectSelects l project d keys) :
    ∃ t, projectWithKeys l project requested d = .ok (l.projectModel project, t) := by
  have hfind : requested.find? (fun key => !model.contains key) = none := by
    simpa using hdeclared
  rw [projectWithKeys, bind_of_ok hmodel]
  simp only [hfind, hvoc]
  rcases hfile with ⟨hnew, himport⟩ | ⟨keys, t, ht, hselects⟩
  · obtain ⟨t, hrender, -⟩ := exists_renderProjectModel (l.projectModel project) himport requested
    rw [hnew, if_neg Bool.false_ne_true]
    exact ⟨t, bind_of_ok hrender _⟩
  · obtain ⟨changed, e, hadd⟩ := hselects.exists_addArrayItems requested
    rw [Disk.contains_of_text? ht, if_pos rfl, bind_of_ok (Disk.openDocument_of_text? ht)]
    exact ⟨e.content, bind_of_ok hadd _⟩

/-- A call with declared keys succeeds when the model file has a place on the disk. -/
theorem setupProject_of_declared {model : Model} (hmodel : readModel l d = .ok model)
    {requested : List Text} (hdeclared : ∀ key ∈ requested, model.contains key = true)
    (hfile : d.contains (l.projectModel project) = false ∧
        Text.contains projectMarker (importOf l project) = false ∨
      ∃ keys, ProjectSelects l project d keys)
    {m : Location} (hlocate : d.locate? (l.projectModel project) = some m) :
    ∃ change t e, (setupProject l project requested).outcome d = (.ok change, e) ∧
      d.get? m ≠ some .directory ∧ d.Writes m (.text t) e := by
  obtain ⟨t, ht⟩ := exists_projectWithKeys hvoc hmodel hdeclared hfile
  have hentry : d.entryAt? (l.projectModel project) = d.get? m := by
    rw [Disk.entryAt?, hlocate, Option.bind_some]
  have hget : d.get? m = none ∨ ∃ u, d.get? m = some (.file (.text u)) := by
    rw [← hentry]
    rcases hfile with ⟨hnew, -⟩ | ⟨keys, u, hu, -⟩
    · exact .inl (by simpa [Disk.contains] using hnew)
    · exact .inr ⟨u, Disk.entryAt?_of_text? hu⟩
  have hfree : d.get? m ≠ some .directory := by
    rcases hget with hnone | ⟨u, hu⟩
    · simp [hnone]
    · simp [hu]
  have hbinary : ∀ b, d.get? m ≠ some (.file (.binary b)) := by
    rcases hget with hnone | ⟨u, hu⟩
    · simp [hnone]
    · simp [hu]
  obtain ⟨status, e, hwrite, hwrites⟩ := Edit.outcome_writeIfChanged hlocate hfree hbinary t
  exact ⟨_, t, e, writeComputed_eq_ok.2 ⟨_, t, status, ht, hwrite, rfl⟩, hfree, hwrites⟩

/-- Further calls select all their keys that are not selected yet. -/
theorem setupAll_extends {calls : List (List Text)} {keys : List Text}
    (hselects : ProjectSelects l project d keys)
    (h : (setupAll l project calls).outcome d = (.ok (), d')) :
    ProjectSelects l project d' (withRequested keys calls.flatten) := by
  induction calls generalizing d keys with
  | nil =>
    obtain rfl : d = d' := congrArg Prod.snd h
    rwa [List.flatten_nil, withRequested_nil]
  | cons requested calls ih =>
    obtain ⟨change, d₁, hcall, hrest⟩ := setupAll_cons_eq_ok.1 h
    rw [List.flatten_cons, ← withRequested_append]
    exact ih (setupProject_extends hvoc hselects hcall) hrest

/-- When all calls succeed, the model file that the first one makes selects its keys as they are and
behind them the further keys in the order of their first request, each once.  These are all
requested keys without repeats exactly when the first call repeats none. -/
theorem projectKeys_setupAll (hnew : d.contains (l.projectModel project) = false)
    (himport : Text.contains projectMarker (importOf l project) = false) {first : List Text}
    {rest : List (List Text)}
    (h : (setupAll l project (first :: rest)).outcome d = (.ok (), d')) :
    projectKeys l project d' = .ok (first ++ (rest.flatten.removeAll first).eraseDups) ∧
      (projectKeys l project d' = .ok (first :: rest).flatten.eraseDups ↔ first.Nodup) := by
  obtain ⟨change, d₁, hcall, hrest⟩ := setupAll_cons_eq_ok.1 h
  have hkeys := (setupAll_extends hvoc (setupProject_creates hvoc hnew himport hcall)
    hrest).projectKeys_eq hvoc
  refine ⟨hkeys, ?_⟩
  rw [hkeys, Except.ok.injEq]
  exact withRequested_eq_eraseDups_iff first rest.flatten

end

/-! ## A sample -/

/-- The declaration of a string. -/
def sampleString (key : Text) : Declaration := ⟨key, true, .string⟩

/-- The text of a model with two variables. -/
def sampleModelText : Text := modelOf [sampleString "a", sampleString "b"] [] ++ ['\n']

/-- The sample workspace with that model, and the directories of a project. -/
def sampleProjectDisk : Disk where
  home := []
  entries := [
    (["ws"], .directory),
    (["ws", "environment.global-model.ts"], .file (.text sampleModelText)),
    (["ws", "app"], .directory),
    (["ws", "app", "src"], .directory),
    (["ws", "app", "src", "environment"], .directory)]

/-- The project of the sample workspace. -/
def sampleProject : Path := "app"

/-- Where its model file stands. -/
def sampleKeysFile : Location :=
  [("ws" : Text), ("app" : Text), ("src" : Text), ("environment" : Text),
    ("environment.model.ts" : Text)]

/-- What the sample model declares. -/
def sampleModel : Model where
  statics := [sampleString "a", sampleString "b"]
  calculated := []
  calculations := []

theorem readModel_sample {d : Disk}
    (h : d.text? Scaffold.sampleLayout.environmentModel = some sampleModelText) :
    readModel Scaffold.sampleLayout d = .ok sampleModel := by
  have hwell : WellFormed [sampleString "a", sampleString "b"] [] := ⟨by decide, nofun⟩
  exact (bind_of_ok (Disk.openDocument_of_text? h) _).trans (hwell.read_modelDocument _)

theorem contains_sampleProjectDisk :
    sampleProjectDisk.contains (Scaffold.sampleLayout.projectModel sampleProject) = false := by rfl

theorem contains_importOf_sample :
    Text.contains projectMarker (importOf Scaffold.sampleLayout sampleProject) = false := by rfl

/-- Calls with declared keys in the sample workspace. -/
theorem setupAll_sample (first second : List Text)
    (hfirst : ∀ key ∈ first, key ∈ ["a".toList, "b".toList])
    (hsecond : ∀ key ∈ second, key ∈ ["a".toList, "b".toList]) :
    ∃ d, (setupAll Scaffold.sampleLayout sampleProject [first, second]).outcome sampleProjectDisk =
      (.ok (), d) := by
  have hmodel : readModel Scaffold.sampleLayout sampleProjectDisk = .ok sampleModel :=
    readModel_sample rfl
  have hcontains : ∀ key ∈ ["a".toList, "b".toList], sampleModel.contains key = true := by decide
  have hlocate : sampleProjectDisk.locate? (Scaffold.sampleLayout.projectModel sampleProject) =
      some sampleKeysFile := rfl
  have hmodelFile : sampleProjectDisk.locate? Scaffold.sampleLayout.environmentModel =
      some [("ws" : Text), ("environment.global-model.ts" : Text)] := rfl
  have hother : sampleProjectDisk.locate? Scaffold.sampleLayout.environmentModel ≠
      some sampleKeysFile := by
    rw [hmodelFile]
    exact fun h => absurd (congrArg (Option.map List.length) h) (by decide)
  obtain ⟨change, t, d, hcall, hfree, hwrites⟩ := setupProject_of_declared rfl hmodel
    (fun key hkey => hcontains key (hfirst key hkey))
    (.inl ⟨contains_sampleProjectDisk, contains_importOf_sample⟩) hlocate
  have hselects :=
    setupProject_creates rfl contains_sampleProjectDisk contains_importOf_sample hcall
  have hmodel' : readModel Scaffold.sampleLayout d = .ok sampleModel := by
    rw [readModel, Disk.openDocument_congr (hwrites.entryAt?_of_ne hfree hother)]
    exact hmodel
  obtain ⟨change', t', d', hcall', -⟩ := setupProject_of_declared rfl hmodel'
    (fun key hkey => hcontains key (hsecond key hkey)) (.inr ⟨first, hselects⟩)
    (((hwrites.sameDirectories hfree).locate?_eq _).trans hlocate)
  exact ⟨d', setupAll_cons_eq_ok.2 ⟨change, d, hcall, setupAll_cons_eq_ok.2
    ⟨change', d', hcall', rfl⟩⟩⟩

theorem projectKeys_setupAll_sample : ∃ d,
    (setupAll Scaffold.sampleLayout sampleProject [["a"], ["b", "a", "b"]]).outcome
      sampleProjectDisk = (.ok (), d) ∧
    projectKeys Scaffold.sampleLayout sampleProject d = .ok ["a", "b"] := by
  obtain ⟨d, hcalls⟩ := setupAll_sample ["a"] ["b", "a", "b"] (by decide) (by decide)
  have hkeys :=
    projectKeys_setupAll rfl contains_sampleProjectDisk contains_importOf_sample hcalls
  exact ⟨d, hcalls, hkeys.1⟩

/-- The keys of the first call are written as they are. -/
theorem not_projectKeys_setupAll_always :
    ¬ ∀ (l : Layout) (project : Path) (calls : List (List Text)) (d d' : Disk),
      l.vocabulary = {} → d.contains (l.projectModel project) = false → calls ≠ [] →
      (setupAll l project calls).outcome d = (.ok (), d') →
      projectKeys l project d' = .ok calls.flatten.eraseDups := by
  intro h
  obtain ⟨d, hcalls⟩ := setupAll_sample ["a", "a"] [] (by decide) (by decide)
  have hkeys := h _ _ _ _ _ rfl contains_sampleProjectDisk (by decide) hcalls
  obtain ⟨change, d₁, hcall, hrest⟩ := setupAll_cons_eq_ok.1 hcalls
  have hselects := setupAll_extends rfl
    (setupProject_creates rfl contains_sampleProjectDisk contains_importOf_sample hcall) hrest
  rw [hselects.projectKeys_eq rfl] at hkeys
  exact absurd (Except.ok.inj hkeys) (by decide)

end Scaffold.Env
