import Scaffold.Compose.Printer
import Scaffold.Compose.Reader
import Scaffold.Proofs.Outcome
import Scaffold.Proofs.Text.Search
import Scaffold.Proofs.Yaml.RoundTrip

/-!
# Reading compose files back

A definition that is written is read as the same definition, and so writing what was read changes
nothing (`Definition.read_render`).  The writer and the reader meet at `Definition.sections`, the
document as a YAML value: the text is this value, section by section (`Definition.render_eq`), and
the value means the definition (`Definition.ofValue_sections`).
-/

namespace Scaffold.Compose

open Yaml (Value writeText writeSections)
open Yaml.Value (nestedEntries)

/-! ## Short syntax -/

/-- A separator that does not stand in the first text divides the two. -/
theorem breakOn?_joinPair {c : Char} {first : Text} (h : c ∉ first) (second : Option Text) :
    Text.breakOn? [c] (joinPair c first second) = second.map (first, ·) := by
  cases second with
  | none => exact Text.breakOn?_eq_none h
  | some second => exact Text.breakOn?_of_notMem (m := []) (n := []) h nofun second

theorem Mount.read_render {m : Mount} (h : ':' ∉ m.path) : Mount.read m.render = m := by
  obtain ⟨path, target⟩ := m
  rw [Mount.read, Mount.render, breakOn?_joinPair h]
  cases target <;> rfl

theorem Entry.read_render {e : Entry} (h : '=' ∉ e.key) : Entry.read e.render = e := by
  obtain ⟨key, value⟩ := e
  rw [Entry.read, Entry.render, breakOn?_joinPair h]
  cases value <;> rfl

/-- A text without an equals sign is the key of a variable that is passed through. -/
theorem Entry.read_of_notMem {t : Text} (h : '=' ∉ t) : Entry.read t = ⟨t, none⟩ :=
  Entry.read_render (e := ⟨t, none⟩) h

theorem Port.read_render {p : Port} (h : ':' ∉ p.internal) : Port.read p.render = p := by
  obtain ⟨external, internal⟩ := p
  cases external with
  | none => rw [Port.read, Port.render, Text.breakOnLast?_eq_none h]
  | some external => rw [Port.read, Port.render, Text.breakOnLast?_append external h]

theorem map_map_eq_self_iff {α β : Type} {f : α → β} {g : β → α} {as : List α} :
    (as.map f).map g = as ↔ ∀ a ∈ as, g (f a) = a := by
  rw [List.map_map]
  conv => lhs; rhs; rw [← List.map_id as]
  exact List.map_inj_left

theorem map_map_eq_self {α β : Type} {f : α → β} {g : β → α} {as : List α}
    (h : ∀ a ∈ as, g (f a) = a) : (as.map f).map g = as :=
  map_map_eq_self_iff.2 h

/-! ## Names of settings -/

/-- The names of the sections that the definition itself holds. -/
def sectionNames : List Text := ["services", "volumes", "networks"]

/-- The names of the settings that a service itself holds. -/
def settingNames : List Text :=
  ["image", "build", "ports", "volumes", "networks", "environment", "labels"]

/-- A text of letters and digits is written without quotes if it is read as itself. -/
theorem writeText_of_isAlphanum {t : Text} (hletters : t ≠ [] ∧ ∀ c ∈ t, c.isAlphanum = true)
    (hword : Yaml.reservedWords.contains (Text.lower t) = false ∧ Yaml.looksNumeric t = false)
    (hmeaning : Value.ofPlain? t = some (.text t)) : writeText t = t := by
  have hplain :=
    Yaml.isPlainText_of_isAlphanum hletters.1 hletters.2 hword.1 hword.2 hmeaning
  rw [writeText, if_pos hplain]

/-- The names are written without quotes. -/
theorem writeText_name : ∀ name ∈ sectionNames ++ settingNames, writeText name = name := by
  have hletters : ∀ name ∈ sectionNames ++ settingNames,
      name ≠ [] ∧ ∀ c ∈ name, c.isAlphanum = true := by decide
  have hwords : ∀ name ∈ sectionNames ++ settingNames,
      Yaml.reservedWords.contains (Text.lower name) = false ∧ Yaml.looksNumeric name = false := by
    decide +kernel
  have hmeaning : ∀ name ∈ sectionNames ++ settingNames,
      Value.ofPlain? name = some (.text name) := by
    simp only [sectionNames, settingNames, List.cons_append, List.nil_append, List.forall_mem_cons]
    exact ⟨rfl, rfl, rfl, rfl, rfl, rfl, rfl, rfl, rfl, rfl, nofun⟩
  intro name hname
  exact writeText_of_isAlphanum (hletters _ hname) (hwords _ hname) (hmeaning _ hname)

/-- A key without a text counts as the empty text, which is no name of a setting. -/
theorem getD_beq_iff {key : Value} (name : Text) (hne : name ≠ []) :
    (key.text?.getD [] == name) = true ↔ key.text? = some name := by
  cases key.text? with
  | none => simpa using hne.symm
  | some field => simp

/-! ## Sections -/

/-- A setting with a text, when there is one. -/
def textSetting (name : Text) (t : Option Text) : Settings :=
  t.toList.map fun t => (.text name, .text t)

/-- A setting with a list of texts, unless it is empty. -/
def listSetting (name : Text) (items : List Text) : Settings :=
  if items.isEmpty then [] else [(.text name, .sequence (items.map .text))]

/-- The settings of a service with one text each. -/
def Service.textSettings (s : Service) : Settings :=
  textSetting "image" s.image ++ textSetting "build" s.build

/-- The settings of a service with lists of texts. -/
def Service.listSettings (s : Service) : Settings :=
  listSetting "ports" (s.ports.map Port.render) ++
    (listSetting "volumes" (s.volumes.map Mount.render) ++
      (listSetting "networks" s.networks ++
        (listSetting "environment" (s.environment.map Entry.render) ++
          listSetting "labels" s.labels)))

/-- The settings of a service in the order in which they are written. -/
def Service.settings (s : Service) : Settings :=
  s.textSettings ++ (s.extra ++ s.listSettings)

/-- A service as a value: null when it has no settings. -/
def Service.toValue (s : Service) : Value :=
  if s.settings.isEmpty then .null else .mapping s.settings

/-- A section with a list of names, unless it is empty. -/
def nameSection (name : Text) (names : List Text) : Settings :=
  if names.isEmpty then [] else [(.text name, .mapping (names.map fun n => (.text n, .null)))]

/-- The section of the services. -/
def serviceSection (services : List Service) : Value × Value :=
  (.text "services", .mapping (services.map fun s => (.text s.name, s.toValue)))

/-- The sections of a definition in the order in which they are written. -/
def Definition.sections (d : Definition) : Settings :=
  d.extra ++ (serviceSection d.services ::
    (nameSection "volumes" d.volumes ++ nameSection "networks" d.networks))

/-! ## What can be written -/

/-- A service that is read as it was written: all texts are writable, separators stand only where
the short syntax has them, and no other setting has the name of a setting that the service itself
holds.  A build that is no text is such a setting. -/
structure Service.IsRenderable (s : Service) : Prop where
  name : (Value.text s.name).isKey = true
  image : ∀ t ∈ s.image, Yaml.IsWritable t
  build : ∀ t ∈ s.build, Yaml.IsWritable t
  ports : ∀ p ∈ s.ports,
    (∀ t ∈ p.external, Yaml.IsWritable t) ∧ Yaml.IsWritable p.internal ∧ ':' ∉ p.internal
  volumes : ∀ m ∈ s.volumes,
    Yaml.IsWritable m.path ∧ (∀ t ∈ m.target, Yaml.IsWritable t) ∧ ':' ∉ m.path
  networks : ∀ name ∈ s.networks, Yaml.IsWritable name ∧ '=' ∉ name
  environment : ∀ e ∈ s.environment,
    Yaml.IsWritable e.key ∧ (∀ t ∈ e.value, Yaml.IsWritable t) ∧ '=' ∉ e.key
  labels : ∀ t ∈ s.labels, Yaml.IsWritable t
  extra : (Value.mapping s.extra).isBasic = true
  depth : ∀ setting ∈ s.extra, setting.2.depth ≤ 100
  unmodelled : ∀ setting ∈ s.extra, ∀ name ∈ settingNames, setting.1.text? = some name →
    name = "build" ∧ s.build = none ∧ setting.2.text? = none

/-- A definition that is read as it was written: its services are, no name stands twice, and no
other section has the name of a section that the definition itself holds. -/
structure Definition.IsRenderable (d : Definition) : Prop where
  services : ∀ s ∈ d.services, s.IsRenderable
  serviceNames : (d.services.map Service.name).Nodup
  volumes : ∀ name ∈ d.volumes, (Value.text name).isKey = true
  volumeNames : d.volumes.Nodup
  networks : ∀ name ∈ d.networks, (Value.text name).isKey = true
  networkNames : d.networks.Nodup
  extra : (Value.mapping d.extra).isBasic = true
  depth : ∀ setting ∈ d.extra, setting.2.depth ≤ 100
  unmodelled : ∀ setting ∈ d.extra, ∀ name ∈ sectionNames, setting.1.text? ≠ some name

/-! ## Writing -/

theorem nestedEntries_append (i : Nat) (as bs : Settings) :
    nestedEntries i (as ++ bs) = nestedEntries i as ++ nestedEntries i bs := by
  induction as with
  | nil => rfl
  | cons a as ih => simp [nestedEntries, ih, List.append_assoc]

theorem nestedEntries_map {α : Type} (i : Nat) (f : α → Value × Value) (as : List α) :
    nestedEntries i (as.map f) = as.flatMap fun a => nestedEntries i [f a] := by
  induction as with
  | nil => rfl
  | cons a as ih =>
    rw [List.map_cons, List.flatMap_cons, ← ih, ← nestedEntries_append]
    rfl

theorem nestedItems_map_text (i : Nat) (items : List Text) :
    Value.nestedItems i (items.map .text) =
      items.flatMap fun item => Text.spaces i ++ ['-', ' '] ++ writeText item ++ ['\n'] := by
  induction items with
  | nil => rfl
  | cons item items ih => simp [Value.nestedItems, Value.nestedItem, Value.inline, ih]

theorem nestedEntries_name {name : Text} (h : writeText name = name) (i : Nat) (v : Value) :
    nestedEntries i [(.text name, v)] = Text.spaces i ++ name ++ ':' :: v.nested i := by
  simp [nestedEntries, Value.inline, h]

theorem renderText_eq {name : Text} (h : writeText name = name) (t : Option Text) :
    renderText name t = nestedEntries (2 * Value.indentStep) (textSetting name t) := by
  cases t with
  | none => rfl
  | some t =>
    rw [textSetting, Option.toList_some, List.map_singleton, nestedEntries_name h]
    simp [renderText, Value.nested, Value.inline]

theorem renderList_eq {name : Text} (h : writeText name = name) (items : List Text) :
    renderList name items = nestedEntries (2 * Value.indentStep) (listSetting name items) := by
  cases items with
  | nil => rfl
  | cons item items =>
    have hitems := nestedItems_map_text (3 * Value.indentStep) (item :: items)
    rw [renderList, ← hitems, listSetting, List.isEmpty_cons, if_neg Bool.false_ne_true,
      if_neg Bool.false_ne_true, nestedEntries_name h]
    simp [Value.nested, Value.indentStep]

theorem Service.render_eq (s : Service) :
    s.render = nestedEntries Value.indentStep [(.text s.name, s.toValue)] := by
  have hname (name : Text) (h : name ∈ sectionNames ++ settingNames) := writeText_name name h
  have hsettings : s.render = Text.spaces Value.indentStep ++ writeText s.name ++ [':', '\n'] ++
      nestedEntries (2 * Value.indentStep) s.settings := by
    rw [Service.render, Service.settings, Service.textSettings, Service.listSettings]
    simp only [nestedEntries_append]
    rw [renderText_eq (hname "image" (by decide)), renderText_eq (hname "build" (by decide)),
      renderList_eq (hname "ports" (by decide)), renderList_eq (hname "volumes" (by decide)),
      renderList_eq (hname "networks" (by decide)),
      renderList_eq (hname "environment" (by decide)), renderList_eq (hname "labels" (by decide))]
    simp only [List.append_assoc]
  rw [hsettings, Service.toValue]
  cases s.settings with
  | nil => simp [nestedEntries, Value.nested, Value.inline]
  | cons setting settings =>
    simp [nestedEntries, Value.nested, Value.inline, Value.indentStep]

theorem renderServices_eq (services : List Service) :
    renderServices services = nestedEntries 0 [serviceSection services] := by
  rw [serviceSection, nestedEntries_name (writeText_name _ (by decide))]
  cases services with
  | nil => rfl
  | cons s services =>
    have hservices : (s :: services).flatMap Service.render =
        nestedEntries Value.indentStep
          ((s :: services).map fun s => (.text s.name, s.toValue)) := by
      simp only [nestedEntries_map, ← Service.render_eq]
    rw [renderServices, hservices, List.isEmpty_cons, if_neg Bool.false_ne_true]
    rfl

theorem renderNames_eq {name : Text} (h : writeText name = name) (names : List Text) :
    renderNames name names = (nameSection name names).map fun s => nestedEntries 0 [s] := by
  cases names with
  | nil => rfl
  | cons n names =>
    have hnames : ((n :: names).flatMap fun n =>
        Text.spaces Value.indentStep ++ writeText n ++ [':', '\n']) =
        nestedEntries Value.indentStep ((n :: names).map fun n => (.text n, .null)) := by
      rw [nestedEntries_map]
      simp [nestedEntries, Value.nested, Value.inline]
    rw [renderNames, hnames, nameSection, List.isEmpty_cons, if_neg Bool.false_ne_true,
      if_neg Bool.false_ne_true, List.map_singleton, nestedEntries_name h]
    simp [Value.nested, Text.spaces]

/-- The text of a definition is the document of its sections. -/
theorem Definition.render_eq (d : Definition) : d.render = writeSections d.sections := by
  rw [Definition.render, writeSections, Definition.sections, renderServices_eq,
    renderNames_eq (writeText_name "volumes" (by decide)),
    renderNames_eq (writeText_name "networks" (by decide))]
  simp

/-! ## The document -/

/-- The texts of the keys. -/
def keyTexts (settings : Settings) : List (Option Text) := settings.map (·.1.text?)

theorem keyTexts_append (as bs : Settings) : keyTexts (as ++ bs) = keyTexts as ++ keyTexts bs :=
  List.map_append

/-- Settings under names of their own, and others under other names. -/
theorem nodup_keyTexts {extra named : Settings} {names : List Text} (hnames : names.Nodup)
    (hnamed : (keyTexts named).Sublist (names.map some)) (hextra : (keyTexts extra).Nodup)
    (hother : ∀ setting ∈ extra, setting.1.text? ∉ keyTexts named) :
    (keyTexts (extra ++ named)).Nodup := by
  rw [keyTexts_append, List.nodup_append']
  refine ⟨hextra, hnamed.nodup (hnames.map (Option.some_injective _)), fun key hkey => ?_⟩
  obtain ⟨setting, hsetting, rfl⟩ := List.mem_map.1 hkey
  exact hother setting hsetting

theorem keyTexts_textSetting (name : Text) (t : Option Text) :
    (keyTexts (textSetting name t)).Sublist [some name] := by
  cases t with
  | none => exact List.nil_sublist _
  | some t => exact List.Sublist.refl _

theorem keyTexts_listSetting (name : Text) (items : List Text) :
    (keyTexts (listSetting name items)).Sublist [some name] := by
  cases items with
  | nil => exact List.nil_sublist _
  | cons item items => exact List.Sublist.refl _

theorem keyTexts_nameSection (name : Text) (names : List Text) :
    (keyTexts (nameSection name names)).Sublist [some name] := by
  cases names with
  | nil => exact List.nil_sublist _
  | cons n names => exact List.Sublist.refl _

theorem isBasic_mapping_iff {settings : Settings} : (Value.mapping settings).isBasic = true ↔
    (keyTexts settings).Nodup ∧ ∀ e ∈ settings, e.1.isKey = true ∧ e.2.isBasic = true := by
  rw [Value.isBasic, Bool.and_eq_true, decide_eq_true_eq, Value.haveBasic_iff, keyTexts]

/-- A setting that can be written inside `n` collections less than a document may have. -/
def Fits (n : Nat) (setting : Value × Value) : Prop :=
  setting.1.isKey = true ∧ setting.2.isBasic = true ∧ setting.2.depth ≤ n

/-- Settings under different keys that fit are a value that fits. -/
theorem fits_mapping {settings : Settings} (hkeys : (keyTexts settings).Nodup) {n : Nat}
    (h : ∀ setting ∈ settings, Fits n setting) :
    (Value.mapping settings).isBasic = true ∧ (Value.mapping settings).depth ≤ n + 1 := by
  refine ⟨isBasic_mapping_iff.2 ⟨hkeys, fun e he => ⟨(h e he).1, (h e he).2.1⟩⟩, ?_⟩
  refine Nat.succ_le_succ (Value.depthEntries_le fun e he => ⟨?_, (h e he).2.2⟩)
  obtain ⟨_, _, hkey, -⟩ := Value.spells_key (h e he).1
  rw [hkey]
  exact Nat.zero_le n

theorem isWritable_joinPair {c : Char} (hc : Yaml.isWritable c = true) {first : Text}
    (hfirst : Yaml.IsWritable first) {second : Option Text}
    (hsecond : ∀ t ∈ second, Yaml.IsWritable t) : Yaml.IsWritable (joinPair c first second) := by
  cases second with
  | none => exact hfirst
  | some second => exact hfirst.append (.cons hc (hsecond second rfl))

theorem isWritable_port {p : Port} (hexternal : ∀ t ∈ p.external, Yaml.IsWritable t)
    (hinternal : Yaml.IsWritable p.internal) : Yaml.IsWritable p.render := by
  obtain ⟨external, internal⟩ := p
  cases external with
  | none => exact hinternal
  | some external => exact (hexternal external rfl).append (.cons rfl hinternal)

theorem fits_textSetting {name : Text} (hname : (Value.text name).isKey = true) {t : Option Text}
    (ht : ∀ u ∈ t, Yaml.IsWritable u) : ∀ e ∈ textSetting name t, Fits 100 e := by
  intro e he
  obtain ⟨u, hu, rfl⟩ := List.mem_map.1 he
  exact ⟨hname, List.all_eq_true.2 (ht u (Option.mem_toList.1 hu)), Nat.zero_le _⟩

theorem fits_listSetting {name : Text} (hname : (Value.text name).isKey = true) {items : List Text}
    (hitems : ∀ t ∈ items, Yaml.IsWritable t) : ∀ e ∈ listSetting name items, Fits 100 e := by
  intro e he
  rw [listSetting] at he
  split at he
  · cases he
  · obtain rfl := List.mem_singleton.1 he
    refine ⟨hname, Value.areBasic_iff.2 ?_, ?_⟩
    · exact List.forall_mem_map.2 fun t ht => List.all_eq_true.2 (hitems t ht)
    · refine (Nat.succ_le_succ (Value.depthItems_le (n := 0) ?_)).trans (by decide : 0 + 1 ≤ 100)
      simp [Value.depth]

namespace Service.IsRenderable

variable {s : Service}

theorem fits_settings (h : s.IsRenderable) : ∀ e ∈ s.settings, Fits 100 e := by
  have hkey : ∀ name ∈ settingNames, (Value.text name).isKey = true := by decide
  have hextra := (isBasic_mapping_iff.1 h.extra).2
  simp only [settings, textSettings, listSettings, List.forall_mem_append]
  refine ⟨⟨fits_textSetting (hkey _ (by decide)) h.image,
    fits_textSetting (hkey _ (by decide)) h.build⟩,
    fun e he => ⟨(hextra e he).1, (hextra e he).2, h.depth e he⟩, ?_, ?_, ?_, ?_, ?_⟩
  all_goals refine fits_listSetting (hkey _ (by decide)) ?_
  · exact List.forall_mem_map.2 fun p hp => isWritable_port (h.ports p hp).1 (h.ports p hp).2.1
  · exact List.forall_mem_map.2 fun m hm =>
      isWritable_joinPair rfl (h.volumes m hm).1 (h.volumes m hm).2.1
  · exact fun name hname => (h.networks name hname).1
  · exact List.forall_mem_map.2 fun e he =>
      isWritable_joinPair rfl (h.environment e he).1 (h.environment e he).2.1
  · exact h.labels

/-- The names of the settings that the service itself holds; a build is among them if it has one. -/
theorem keyTexts_sublist (s : Service) :
    (keyTexts (s.textSettings ++ s.listSettings)).Sublist
      ([some "image".toList] ++ keyTexts (textSetting "build" s.build) ++
        ["ports", "volumes", "networks", "environment", "labels"].map (some ∘ String.toList)) := by
  have hlist (name : Text) (items : List Text) := keyTexts_listSetting name items
  simp only [textSettings, listSettings, keyTexts_append]
  exact ((keyTexts_textSetting _ _).append (.refl _)).append <|
    (hlist _ _).append <| (hlist _ _).append <| (hlist _ _).append <|
      (hlist _ _).append (hlist _ _)

theorem nodup_settings (h : s.IsRenderable) : (keyTexts s.settings).Nodup := by
  have hperm : (keyTexts s.settings).Perm
      (keyTexts (s.extra ++ (s.textSettings ++ s.listSettings))) := by
    rw [settings]
    exact (List.perm_append_comm_assoc _ _ _).map _
  have hnamed : (keyTexts (s.textSettings ++ s.listSettings)).Sublist (settingNames.map some) :=
    (keyTexts_sublist s).trans <|
      ((List.Sublist.refl _).append (keyTexts_textSetting _ _)).append (.refl _)
  refine hperm.nodup_iff.2 (nodup_keyTexts (by decide) hnamed (isBasic_mapping_iff.1 h.extra).1 ?_)
  intro setting hsetting hmem
  obtain ⟨name, hname, htext⟩ := List.mem_map.1 (hnamed.subset hmem)
  obtain ⟨rfl, hbuild, -⟩ := h.unmodelled setting hsetting name hname htext.symm
  have hnone := (keyTexts_sublist s).subset hmem
  rw [← htext, hbuild] at hnone
  revert hnone
  decide

/-- A service is a value that can be written inside two collections. -/
theorem fits_toValue (h : s.IsRenderable) : Fits 101 (.text s.name, s.toValue) := by
  refine ⟨h.name, ?_⟩
  rw [toValue]
  split
  · exact ⟨rfl, Nat.zero_le _⟩
  · exact fits_mapping h.nodup_settings h.fits_settings

end Service.IsRenderable

theorem keyTexts_map {α : Type} (f : α → Text) (g : α → Value) (as : List α) :
    keyTexts (as.map fun a => (.text (f a), g a)) = (as.map f).map some := by
  simp [keyTexts, Value.text?, Value.untagged]

namespace Definition.IsRenderable

variable {d : Definition}

theorem fits_serviceSection (h : d.IsRenderable) : Fits 102 (serviceSection d.services) := by
  have hkey : (Value.text "services").isKey = true := by decide
  have hkeys := h.serviceNames.map (Option.some_injective _)
  rw [← keyTexts_map Service.name Service.toValue] at hkeys
  exact ⟨hkey, fits_mapping hkeys
    (List.forall_mem_map.2 fun s hs => (h.services s hs).fits_toValue)⟩

theorem fits_nameSection {name : Text} (hname : (Value.text name).isKey = true) {names : List Text}
    (hnames : ∀ n ∈ names, (Value.text n).isKey = true) (hnodup : names.Nodup) :
    ∀ e ∈ nameSection name names, Fits 102 e := by
  intro e he
  rw [nameSection] at he
  split at he
  · cases he
  · obtain rfl := List.mem_singleton.1 he
    have hkeys := (hnodup.map Function.injective_id).map (Option.some_injective _)
    rw [← keyTexts_map id fun _ => .null] at hkeys
    exact ⟨hname, fits_mapping hkeys
      (List.forall_mem_map.2 fun n hn => ⟨hnames n hn, rfl, Nat.zero_le _⟩)⟩

theorem fits_sections (h : d.IsRenderable) : ∀ e ∈ d.sections, Fits 102 e := by
  have hkey : ∀ name ∈ sectionNames, (Value.text name).isKey = true := by decide
  have hextra := (isBasic_mapping_iff.1 h.extra).2
  simp only [sections, List.forall_mem_append, List.forall_mem_cons]
  exact ⟨fun e he => ⟨(hextra e he).1, (hextra e he).2, (h.depth e he).trans (by decide)⟩,
    h.fits_serviceSection, fits_nameSection (hkey _ (by decide)) h.volumes h.volumeNames,
    fits_nameSection (hkey _ (by decide)) h.networks h.networkNames⟩

theorem nodup_sections (h : d.IsRenderable) : (keyTexts d.sections).Nodup := by
  have hnamed : (keyTexts (serviceSection d.services ::
      (nameSection "volumes" d.volumes ++ nameSection "networks" d.networks))).Sublist
        (sectionNames.map some) := by
    rw [← List.singleton_append, keyTexts_append, keyTexts_append]
    exact (List.Sublist.refl [some "services".toList]).append <|
      (keyTexts_nameSection _ _).append (keyTexts_nameSection _ _)
  refine nodup_keyTexts (by decide) hnamed (isBasic_mapping_iff.1 h.extra).1 ?_
  intro setting hsetting hmem
  obtain ⟨name, hname, htext⟩ := List.mem_map.1 (hnamed.subset hmem)
  exact h.unmodelled setting hsetting name hname htext.symm

/-- The document can be read as the sections of the definition. -/
theorem read?_render (h : d.IsRenderable) : Yaml.read? d.render = some (.mapping d.sections) := by
  obtain ⟨hbasic, hdepth⟩ := fits_mapping h.nodup_sections h.fits_sections
  rw [d.render_eq]
  exact Yaml.read?_writeSections hbasic (by simp [sections]) (hdepth.trans (by decide))

end Definition.IsRenderable

/-! ## Reading -/

/-- A service with more settings. -/
def Service.addSettings (s : Service) (settings : Settings) : Except Fault Service :=
  settings.foldlM (fun s (key, value) => s.addSetting key value) s

namespace Service

theorem addSettings_append {s s' : Service} {as : Settings} (h : s.addSettings as = .ok s')
    (bs : Settings) : s.addSettings (as ++ bs) = s'.addSettings bs := by
  rw [addSettings, List.foldlM_append]
  exact bind_of_ok h _

theorem addSettings_textSetting {s s' : Service} {name : Text} {t : Option Text}
    (hnone : t = none → s' = s)
    (hsome : ∀ u, t = some u → s.addSetting (.text name) (.text u) = .ok s') :
    s.addSettings (textSetting name t) = .ok s' := by
  cases t with
  | none => rw [hnone rfl]; rfl
  | some u => exact bind_of_ok (hsome u rfl) _

theorem addSettings_listSetting {s s' : Service} {name : Text} {items : List Text}
    (hnil : items = [] → s' = s)
    (hadd : s.addSetting (.text name) (.sequence (items.map .text)) = .ok s') :
    s.addSettings (listSetting name items) = .ok s' := by
  cases items with
  | nil => rw [hnil rfl]; rfl
  | cons item items => exact bind_of_ok hadd _

theorem readTexts_text (service field : Text) (items : List Text) :
    readTexts service field (.sequence (items.map .text)) = .ok items :=
  mapM_map_of_ok fun _ _ => rfl

theorem readEntries_text (service field : Text) (items : List Text) :
    readEntries service field (.sequence (items.map .text)) = .ok (items.map Entry.read) := by
  rw [readEntries, readTexts_text]
  · rfl
  · nofun

/-- A setting that is kept as it stands: it has no name of a setting that a service itself holds, or
it is a build that is no text. -/
def IsOther (setting : Value × Value) : Prop :=
  ∀ name ∈ settingNames, setting.1.text? = some name → name = "build" ∧ setting.2.text? = none

theorem addSetting_extra (s : Service) {key value : Value} (h : IsOther (key, value)) :
    s.addSetting key value = .ok { s with extra := s.extra ++ [(key, value)] } := by
  have hne (name : Text) (hname : name ∈ settingNames) (hnil : name ≠ [])
      (hbuild : name ≠ "build") : (key.text?.getD [] == name) = false :=
    Bool.eq_false_iff.2 fun heq => hbuild (h name hname ((getD_beq_iff name hnil).1 heq)).1
  have hbuild : (key.text?.getD [] == "build".toList && value.text?.isSome) = false := by
    cases heq : key.text?.getD [] == "build".toList with
    | false => rfl
    | true =>
      obtain ⟨-, hnone⟩ := h "build" (by decide) ((getD_beq_iff _ (by decide)).1 heq)
      rw [hnone]
      rfl
  simp only [addSetting, hne "image" (by decide) (by decide) (by decide), hbuild,
    hne "volumes" (by decide) (by decide) (by decide), hne "ports" (by decide) (by decide) (by decide),
    hne "labels" (by decide) (by decide) (by decide),
    hne "environment" (by decide) (by decide) (by decide),
    hne "networks" (by decide) (by decide) (by decide)]
  rfl

theorem addSettings_extra (extra : Settings) (s : Service) (h : ∀ setting ∈ extra, IsOther setting) :
    s.addSettings extra = .ok { s with extra := s.extra ++ extra } := by
  induction extra generalizing s with
  | nil =>
    rw [List.append_nil]
    rfl
  | cons setting extra ih =>
    obtain ⟨hsetting, hextra⟩ := List.forall_mem_cons.1 h
    have hadd := s.addSetting_extra hsetting
    rw [addSettings, List.foldlM_cons, bind_of_ok hadd, ← addSettings, ih _ hextra]
    simp

theorem addSettings_textSettings (s : Service) :
    addSettings { name := s.name } s.textSettings =
      .ok { name := s.name, image := s.image, build := s.build } := by
  have himage : addSettings { name := s.name } (textSetting "image" s.image) =
      .ok { name := s.name, image := s.image } :=
    addSettings_textSetting (by rintro h; rw [h]) (by rintro u h; rw [h]; rfl)
  rw [textSettings, addSettings_append himage]
  exact addSettings_textSetting (by rintro h; rw [h]) (by rintro u h; rw [h]; rfl)

section

variable (s : Service) (items : List Text)

theorem addSetting_ports : s.addSetting (.text "ports") (.sequence (items.map .text)) =
    .ok { s with ports := items.map Port.read } :=
  bind_of_ok (readTexts_text _ _ items) _

theorem addSetting_volumes : s.addSetting (.text "volumes") (.sequence (items.map .text)) =
    .ok { s with volumes := items.map Mount.read } :=
  bind_of_ok (readTexts_text _ _ items) _

theorem addSetting_networks : s.addSetting (.text "networks") (.sequence (items.map .text)) =
    .ok { s with networks := (items.map Entry.read).map Entry.key } :=
  bind_of_ok (readEntries_text _ _ items) _

theorem addSetting_environment :
    s.addSetting (.text "environment") (.sequence (items.map .text)) =
      .ok { s with environment := items.map Entry.read } :=
  bind_of_ok (readEntries_text _ _ items) _

theorem addSetting_labels : s.addSetting (.text "labels") (.sequence (items.map .text)) =
    .ok { s with labels := (items.map Entry.read).map Entry.render } :=
  bind_of_ok (readEntries_text _ _ items) _

end

/-- The service that is read from the lists that are written: each text is divided anew. -/
def reread (s : Service) : Service where
  name := s.name
  image := s.image
  build := s.build
  volumes := (s.volumes.map Mount.render).map Mount.read
  networks := (s.networks.map Entry.read).map Entry.key
  environment := (s.environment.map Entry.render).map Entry.read
  labels := s.labels
  ports := (s.ports.map Port.render).map Port.read
  extra := s.extra

theorem addSettings_listSettings (s : Service) :
    addSettings { name := s.name, image := s.image, build := s.build, extra := s.extra }
      s.listSettings = .ok s.reread := by
  obtain ⟨name, image, build, volumes, networks, environment, labels, ports, extra⟩ := s
  have hports : addSettings { name, image, build, extra }
      (listSetting "ports" (ports.map Port.render)) =
        .ok { name, image, build, extra, ports := (ports.map Port.render).map Port.read } :=
    addSettings_listSetting (fun h => by rw [h, List.map_nil]) (addSetting_ports _ _)
  have hvolumes (s : Service) (hnil : s.volumes = []) : s.addSettings
      (listSetting "volumes" (volumes.map Mount.render)) =
        .ok { s with volumes := (volumes.map Mount.render).map Mount.read } :=
    addSettings_listSetting (fun h => by rw [h, List.map_nil, ← hnil]) (addSetting_volumes _ _)
  have hnetworks (s : Service) (hnil : s.networks = []) : s.addSettings
      (listSetting "networks" networks) =
        .ok { s with networks := (networks.map Entry.read).map Entry.key } :=
    addSettings_listSetting (fun h => by rw [h, List.map_nil, List.map_nil, ← hnil])
      (addSetting_networks _ _)
  have henvironment (s : Service) (hnil : s.environment = []) : s.addSettings
      (listSetting "environment" (environment.map Entry.render)) =
        .ok { s with environment := (environment.map Entry.render).map Entry.read } :=
    addSettings_listSetting (fun h => by rw [h, List.map_nil, ← hnil]) (addSetting_environment _ _)
  have hlabels (s : Service) (hnil : s.labels = []) :
      s.addSettings (listSetting "labels" labels) = .ok { s with labels } := by
    refine addSettings_listSetting (fun h => by rw [h, ← hnil]) ?_
    rw [addSetting_labels, map_map_eq_self fun t _ => Entry.render_read t]
  rw [listSettings, addSettings_append hports, addSettings_append (hvolumes _ rfl),
    addSettings_append (hnetworks _ rfl), addSettings_append (henvironment _ rfl), hlabels _ rfl]
  rfl

/-- What is written of a service is always read, when the other settings have no names of its own. -/
theorem ofValue_toValue_reread {s : Service} (h : ∀ setting ∈ s.extra, IsOther setting) :
    ofValue s.name s.toValue = .ok s.reread := by
  have hextra :=
    addSettings_extra s.extra { name := s.name, image := s.image, build := s.build } h
  have hsettings : addSettings { name := s.name } s.settings = .ok s.reread := by
    rw [settings, addSettings_append s.addSettings_textSettings, addSettings_append hextra]
    exact s.addSettings_listSettings
  rw [toValue]
  split
  · next hnil =>
    rw [List.isEmpty_iff.1 hnil] at hsettings
    exact hsettings
  · exact hsettings

theorem IsRenderable.reread_eq {s : Service} (h : s.IsRenderable) : s.reread = s := by
  have hports := map_map_eq_self fun p hp => Port.read_render (h.ports p hp).2.2
  have hvolumes := map_map_eq_self fun m hm => Mount.read_render (h.volumes m hm).2.2
  have hnetworks : (s.networks.map Entry.read).map Entry.key = s.networks :=
    map_map_eq_self fun n hn => congrArg Entry.key (Entry.read_of_notMem (h.networks n hn).2)
  have henvironment := map_map_eq_self fun e he => Entry.read_render (h.environment e he).2.2
  rw [reread, hports, hvolumes, hnetworks, henvironment]

/-- A service is read as it was written. -/
theorem ofValue_toValue {s : Service} (h : s.IsRenderable) :
    ofValue s.name s.toValue = .ok s := by
  have hother (setting : Value × Value) (hsetting : setting ∈ s.extra) : IsOther setting :=
    fun name hname htext =>
      let ⟨hbuild, _, hnone⟩ := h.unmodelled setting hsetting name hname htext
      ⟨hbuild, hnone⟩
  rw [ofValue_toValue_reread hother, h.reread_eq]

end Service

namespace Definition

/-- The services of a document. -/
theorem readServices_toValue (path : Path) {services : List Service}
    (h : ∀ s ∈ services, s.IsRenderable) :
    readServices path (serviceSection services).2 = .ok services :=
  mapM_map_of_ok fun s hs => Service.ofValue_toValue (h s hs)

theorem readNames_text (path : Path) (field : Text) (names : List Text) :
    readNames path field (.mapping (names.map fun n => (.text n, .null))) = .ok names :=
  mapM_map_of_ok fun _ _ => rfl

/-- A definition with more sections. -/
def addSections (path : Path) (d : Definition) (sections : Settings) : Except Fault Definition :=
  sections.foldlM (fun d (key, value) => addSection path d key value) d

theorem addSections_append {path : Path} {d d' : Definition} {as : Settings}
    (h : d.addSections path as = .ok d') (bs : Settings) :
    d.addSections path (as ++ bs) = d'.addSections path bs := by
  rw [addSections, List.foldlM_append]
  exact bind_of_ok h _

/-- A section that the definition does not hold itself is kept as it stands. -/
theorem addSection_extra (path : Path) (d : Definition) {key : Value} (hkey : key.isKey = true)
    (h : ∀ name ∈ sectionNames, key.text? ≠ some name) (value : Value) :
    d.addSection path key value = .ok { d with extra := d.extra ++ [(key, value)] } := by
  obtain ⟨_, field, rfl, -⟩ := Value.spells_key hkey
  have hne (name : Text) (hname : name ∈ sectionNames) : (field == name) = false :=
    beq_eq_false_iff_ne.2 fun heq => h name hname (congrArg some heq)
  have hfield : (Value.text field).text?.getD [] = field := rfl
  simp only [addSection, hfield, hne "services" (by decide), hne "volumes" (by decide),
    hne "networks" (by decide)]
  rfl

theorem addSections_extra (path : Path) (extra : Settings) (d : Definition)
    (h : ∀ setting ∈ extra, setting.1.isKey = true ∧
      ∀ name ∈ sectionNames, setting.1.text? ≠ some name) :
    d.addSections path extra = .ok { d with extra := d.extra ++ extra } := by
  induction extra generalizing d with
  | nil =>
    rw [List.append_nil]
    rfl
  | cons setting extra ih =>
    obtain ⟨hsetting, hextra⟩ := List.forall_mem_cons.1 h
    have hadd := d.addSection_extra path hsetting.1 hsetting.2 setting.2
    rw [addSections, List.foldlM_cons, bind_of_ok hadd, ← addSections, ih _ hextra]
    simp

theorem addSections_nameSection {path : Path} {d d' : Definition} {name : Text}
    {names : List Text} (hnil : names = [] → d' = d)
    (hadd : d.addSection path (.text name) (.mapping (names.map fun n => (.text n, .null))) =
      .ok d') : d.addSections path (nameSection name names) = .ok d' := by
  cases names with
  | nil => rw [hnil rfl]; rfl
  | cons n names => exact bind_of_ok hadd _

theorem addSections_sections (path : Path) {d : Definition} (h : d.IsRenderable) :
    addSections path {} d.sections = .ok d := by
  obtain ⟨services, volumes, networks, extra⟩ := d
  have hextra : addSections path {} extra = .ok { extra } :=
    addSections_extra path extra {} fun setting hsetting =>
      ⟨((isBasic_mapping_iff.1 h.extra).2 setting hsetting).1, h.unmodelled setting hsetting⟩
  have hservices : addSections path { extra } [serviceSection services] =
      .ok { extra, services } := by
    have hadd : addSection path { extra } (.text "services") (serviceSection services).2 =
        .ok { extra, services } := bind_of_ok (readServices_toValue path h.services) _
    exact bind_of_ok hadd _
  have hvolumes : addSections path { extra, services } (nameSection "volumes" volumes) =
      .ok { extra, services, volumes } :=
    addSections_nameSection (fun h => by rw [h]) (bind_of_ok (readNames_text path _ volumes) _)
  have hnetworks : addSections path { extra, services, volumes }
      (nameSection "networks" networks) = .ok { extra, services, volumes, networks } :=
    addSections_nameSection (fun h => by rw [h]) (bind_of_ok (readNames_text path _ networks) _)
  rw [sections, addSections_append hextra, ← List.singleton_append, addSections_append hservices,
    addSections_append hvolumes, hnetworks]

/-- The sections of a definition are read as the definition. -/
theorem ofValue_sections (path : Path) {d : Definition} (h : d.IsRenderable) :
    ofValue path (.mapping d.sections) = .ok d := by
  have hservices : d.sections.any (fun (key, _) => key.text? == some "services".toList) = true :=
    List.any_eq_true.2 ⟨serviceSection d.services, by simp [sections], rfl⟩
  refine (bind_of_ok (addSections_sections path h) _).trans ?_
  simp only [hservices]
  rfl

theorem read_render {d : Definition} (h : d.IsRenderable) (path : Path) :
    read path d.render = .ok d := by
  rw [read, h.read?_render]
  exact ofValue_sections path h

/-- A definition that is written is read as the same definition, so that writing what was read
changes nothing. -/
theorem render_reads_back {d : Definition} (h : d.IsRenderable) (path : Path) :
    read path d.render = .ok d ∧ (read path d.render).map render = .ok d.render :=
  have hread := read_render h path
  ⟨hread, congrArg (Except.map render) hread⟩

/-- A definition with settings of every kind, and texts that must be quoted. -/
def sample : Definition where
  services := [
    { name := "db"
      image := some "postgres:16"
      volumes := [⟨"data", some "/var/lib/postgresql/data:ro"⟩, ⟨"/tmp", none⟩]
      environment := [⟨"PASSWORD", some "a=b: #c\n"⟩, ⟨"TZ", none⟩]
      ports := [⟨some "127.0.0.1:5432", "5432"⟩, ⟨none, "80"⟩]
      extra := [(.text "healthcheck", .mapping [(.text "retries", .whole (-3)),
        (.text "test", .sequence [.null, .sequence [.boolean true, .mapping []],
          .mapping [(.text "no", .text ""), (.text "nested", .sequence [])]])])] },
    { name := "web app"
      networks := ["back"]
      labels := ["traefik.enable=true", "--- plain"]
      extra := [(.text "build", .mapping [(.text "context", .text ".")])] },
    { name := "null" }]
  volumes := ["data"]
  networks := ["back", "3"]
  extra := [(.text "version", .text "3.8"), (.text "x-\ttab", .sequence [.text "..."])]

theorem isRenderable_sample : sample.IsRenderable where
  services := by
    refine List.forall_mem_cons.2 ⟨?_, List.forall_mem_cons.2 ⟨?_, List.forall_mem_singleton.2 ?_⟩⟩
    all_goals constructor <;> decide
  serviceNames := by decide
  volumes := by decide
  volumeNames := by decide
  networks := by decide
  networkNames := by decide
  extra := by decide
  depth := by decide
  unmodelled := by decide

theorem render_reads_back_sample : sample.IsRenderable ∧
    read "compose.yml" sample.render = .ok sample ∧
      (read "compose.yml" sample.render).map render = .ok sample.render :=
  ⟨isRenderable_sample, render_reads_back isRenderable_sample "compose.yml"⟩

end Definition

end Scaffold.Compose
