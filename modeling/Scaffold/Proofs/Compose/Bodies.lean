import Scaffold.Proofs.Compose.Calls

/-!
# What stands below names in compose files

A definition holds the names of volumes and networks, and the names of the networks of a service,
but nothing that stands below them.

## In a document

`below` lists the names below a section or setting, each with what stands there, in a mapping or in
a list; `networkSettings` lists the networks of all services so.  A document `Keeps` what stood
below the names of another if all of it stands there still, and is `Bare` if nothing stands below
its names.

## Reading and writing

A definition is read setting by setting, and each of its fields is `SetBy` the setting of one name,
so that no other setting matters in the end (`foldlM_setBy`).  This is how every name of an
unambiguous document gets into the definition (`Definition.mem_volumes_of_ofValue`,
`Definition.mem_networks_of_ofValue`, `Definition.exists_network_of_ofValue`).  What is written of a
definition has these names, with nothing below them (`Definition.IsRenderable.below_volumes`,
`Definition.IsRenderable.below_networks`, `Definition.IsRenderable.mem_networkSettings_sections`).
-/

namespace Scaffold

open Yaml (Value)

namespace Compose

/-! ## Names with what stands below them -/

/-- The names in a section or setting, each with what stands below it; a list has names only. -/
def members : Value → List (Text × Value)
  | .mapping entries => entries.filterMap fun e => e.1.scalarText?.map (·, e.2)
  | .sequence items => items.filterMap fun item => item.scalarText?.map (·, .null)
  | _ => []

/-- The names below a name. -/
def below (name : Text) (settings : Settings) : List (Text × Value) :=
  settings.flatMap fun s => if s.1.text? = some name then members s.2 else []

/-- The settings that a value is made of. -/
def settingsOf : Value → Settings
  | .mapping settings => settings
  | _ => []

/-- The networks of all services, each with its service and its settings there. -/
def networkSettings (sections : Settings) : List (Text × Text × Value) :=
  (below "services" sections).flatMap fun service =>
    (below "networks" (settingsOf service.2)).map fun network => (service.1, network)

theorem mem_below {name : Text} {settings : Settings} {m : Text × Value} :
    m ∈ below name settings ↔
      ∃ key value, (key, value) ∈ settings ∧ key.text? = some name ∧ m ∈ members value := by
  simp only [below, List.mem_flatMap]
  constructor
  · rintro ⟨⟨key, value⟩, hmem, hm⟩
    split at hm
    · next hkey => exact ⟨key, value, hmem, hkey, hm⟩
    · cases hm
  · rintro ⟨key, value, hmem, hkey, hm⟩
    exact ⟨(key, value), hmem, by rwa [if_pos hkey]⟩

theorem mem_networkSettings {sections : Settings} {service network : Text} {settings : Value} :
    (service, network, settings) ∈ networkSettings sections ↔
      ∃ body, (service, body) ∈ below "services" sections ∧
        (network, settings) ∈ below "networks" (settingsOf body) := by
  simp [networkSettings]

/-- Everything below the names of volumes and networks, and below the networks of the services,
stands there still. -/
structure Keeps (old new : Settings) : Prop where
  volumes : ∀ v ∈ below "volumes" old, v ∈ below "volumes" new
  networks : ∀ n ∈ below "networks" old, n ∈ below "networks" new
  settings : ∀ s ∈ networkSettings old, s ∈ networkSettings new

/-- Nothing stands below the names of volumes and networks, or below the networks of the services,
and no network of a service is written with an equals sign. -/
structure Bare (sections : Settings) : Prop where
  volumes : ∀ v ∈ below "volumes" sections, v.2 = .null
  networks : ∀ n ∈ below "networks" sections, n.2 = .null
  settings : ∀ s ∈ networkSettings sections, '=' ∉ s.2.1 ∧ s.2.2 = .null

/-- The names of settings, without the keys that are no texts. -/
def settingTexts (settings : Settings) : List Text := settings.filterMap (·.1.text?)

/-- No section stands twice, and no setting of a service.  Equal keys are not read; but keys of one
text may differ in their tags. -/
structure IsUnambiguous (document : Settings) : Prop where
  sections : (settingTexts document).Nodup
  settings : ∀ s ∈ below "services" document, (settingTexts (settingsOf s.2)).Nodup

/-! ## What is read -/

/-- A field holds what the setting of a name says, and no other setting changes it. -/
structure SetBy {β : Type} (name : Text) (P : Value → β → Prop) (e : Value × Value)
    (old new : β) : Prop where
  here : e.1.text? = some name → P e.2 new
  other : e.1.text? ≠ some name → new = old

namespace SetBy

variable {β : Type} {name : Text} {P : Value → β → Prop} {e : Value × Value} {new : β}

theorem of_name (hkey : e.1.text? = some name) (h : P e.2 new) (old : β) :
    SetBy name P e old new :=
  ⟨fun _ => h, fun hother => absurd hkey hother⟩

theorem of_other (hkey : e.1.text? ≠ some name) : SetBy name P e new new :=
  ⟨fun hname => absurd hname hkey, fun _ => rfl⟩

end SetBy

/-- After all settings, a field holds what the setting of its name says. -/
theorem foldlM_setBy {σ β : Type} {f : σ → Value × Value → Except Fault σ} {g : σ → β}
    {name : Text} {P : Value → β → Prop}
    (hstep : ∀ {s e s'}, f s e = .ok s' → SetBy name P e (g s) (g s'))
    {settings : Settings} (hkeys : (settingTexts settings).Nodup) {s s' : σ}
    (h : settings.foldlM f s = .ok s') {key value : Value} (hmem : (key, value) ∈ settings)
    (hkey : key.text? = some name) : P value (g s') := by
  have hkeeps {settings : Settings} (hother : ∀ e ∈ settings, e.1.text? ≠ some name) {s : σ}
      (h : settings.foldlM f s = .ok s') : g s' = g s := by
    induction settings generalizing s with
    | nil =>
      obtain rfl : s = s' := Except.ok.inj h
      rfl
    | cons e settings ih =>
      obtain ⟨he, hrest⟩ := List.forall_mem_cons.1 hother
      rw [List.foldlM_cons, bind_eq_ok] at h
      obtain ⟨s₁, hs₁, h⟩ := h
      rw [ih hrest h, (hstep hs₁).other he]
  induction settings generalizing s with
  | nil => cases hmem
  | cons e settings ih =>
    rw [List.foldlM_cons, bind_eq_ok] at h
    obtain ⟨s₁, hs₁, h⟩ := h
    rcases List.mem_cons.1 hmem with rfl | hmem
    · -- no later setting has the name
      have hnodup : (name :: settingTexts settings).Nodup := by
        rwa [settingTexts, List.filterMap_cons, hkey] at hkeys
      have hother : ∀ e ∈ settings, e.1.text? ≠ some name := by
        intro e he hname
        exact (List.nodup_cons.1 hnodup).1 (List.mem_filterMap.2 ⟨e, he, hname⟩)
      rw [hkeeps hother h]
      exact (hstep hs₁).here hkey
    · exact ih (hkeys.sublist ((List.sublist_cons_self e settings).filterMap _)) h hmem

theorem text?_ne {key : Value} {name other : Text} (hkey : key.text? = some name)
    (hne : name ≠ other) : key.text? ≠ some other := by
  rw [hkey]
  intro heq
  exact hne (Option.some.inj heq)

/-- Each section of a definition is read from the section of its name. -/
theorem Definition.addSection_sets {path : Path} {d d' : Definition} {e : Value × Value}
    (h : d.addSection path e.1 e.2 = .ok d') :
    SetBy "services" (fun v services => readServices path v = .ok services) e
        d.services d'.services ∧
      SetBy "volumes" (fun v names => readNames path "volumes" v = .ok names) e
        d.volumes d'.volumes ∧
      SetBy "networks" (fun v names => readNames path "networks" v = .ok names) e
        d.networks d'.networks := by
  unfold addSection at h
  simp only [getD_beq_iff "services" (by decide), getD_beq_iff "volumes" (by decide),
    getD_beq_iff "networks" (by decide)] at h
  split at h
  · next hkey =>
    obtain ⟨services, hservices, rfl⟩ := bind_pure_eq_ok.1 h
    exact ⟨.of_name hkey hservices _, .of_other (text?_ne hkey (by decide)),
      .of_other (text?_ne hkey (by decide))⟩
  split at h
  · next hservices hkey =>
    obtain ⟨volumes, hvolumes, rfl⟩ := bind_pure_eq_ok.1 h
    rw [hkey] at hvolumes
    exact ⟨.of_other hservices, .of_name hkey hvolumes _,
      .of_other (text?_ne hkey (by decide))⟩
  split at h
  · next hservices hvolumes hkey =>
    obtain ⟨networks, hnetworks, rfl⟩ := bind_pure_eq_ok.1 h
    rw [hkey] at hnetworks
    exact ⟨.of_other hservices, .of_other hvolumes, .of_name hkey hnetworks _⟩
  · next hservices hvolumes hnetworks =>
    obtain rfl := Except.ok.inj h
    exact ⟨.of_other hservices, .of_other hvolumes, .of_other hnetworks⟩

namespace Service

/-- What one setting does to a service: it sets the field of its name from what it says, or it is
kept as it stands. -/
inductive Sets (s : Service) : Value × Value → Service → Prop
  | image {key value : Value} {t : Text} (hkey : key.text? = some "image")
    (h : readText s.name "image" value = .ok t) : Sets s (key, value) { s with image := some t }
  | build {key value : Value} (hkey : key.text? = some "build") (h : value.text?.isSome = true) :
    Sets s (key, value) { s with build := value.scalarText? }
  | volumes {key value : Value} {texts : List Text} (hkey : key.text? = some "volumes")
    (h : readTexts s.name "volumes" value = .ok texts) :
    Sets s (key, value) { s with volumes := texts.map Mount.read }
  | ports {key value : Value} {texts : List Text} (hkey : key.text? = some "ports")
    (h : readTexts s.name "ports" value = .ok texts) :
    Sets s (key, value) { s with ports := texts.map Port.read }
  | labels {key value : Value} {entries : List Entry} (hkey : key.text? = some "labels")
    (h : readEntries s.name "labels" value = .ok entries) :
    Sets s (key, value) { s with labels := entries.map Entry.render }
  | environment {key value : Value} {entries : List Entry} (hkey : key.text? = some "environment")
    (h : readEntries s.name "environment" value = .ok entries) :
    Sets s (key, value) { s with environment := entries }
  | networks {key value : Value} {entries : List Entry} (hkey : key.text? = some "networks")
    (h : readEntries s.name "networks" value = .ok entries) :
    Sets s (key, value) { s with networks := entries.map Entry.key }
  | other {setting : Value × Value} (h : IsOther setting) :
    Sets s setting { s with extra := s.extra ++ [setting] }

theorem sets_of_addSetting {s s' : Service} {key value : Value}
    (h : s.addSetting key value = .ok s') : Sets s (key, value) s' := by
  unfold addSetting at h
  simp only [getD_beq_iff "image" (by decide), Bool.and_eq_true,
    getD_beq_iff "build" (by decide), getD_beq_iff "volumes" (by decide),
    getD_beq_iff "ports" (by decide), getD_beq_iff "labels" (by decide),
    getD_beq_iff "environment" (by decide), getD_beq_iff "networks" (by decide)] at h
  split at h
  · next hkey =>
    obtain ⟨t, hread, rfl⟩ := bind_pure_eq_ok.1 h
    rw [hkey] at hread
    exact .image hkey hread
  next himage =>
  split at h
  · next hkey =>
    obtain rfl := Except.ok.inj h
    exact .build hkey.1 hkey.2
  next hbuild =>
  split at h
  · next hkey =>
    obtain ⟨texts, hread, rfl⟩ := bind_pure_eq_ok.1 h
    rw [hkey] at hread
    exact .volumes hkey hread
  next hvolumes =>
  split at h
  · next hkey =>
    obtain ⟨texts, hread, rfl⟩ := bind_pure_eq_ok.1 h
    rw [hkey] at hread
    exact .ports hkey hread
  next hports =>
  split at h
  · next hkey =>
    obtain ⟨entries, hread, rfl⟩ := bind_pure_eq_ok.1 h
    rw [hkey] at hread
    exact .labels hkey hread
  next hlabels =>
  split at h
  · next hkey =>
    obtain ⟨entries, hread, rfl⟩ := bind_pure_eq_ok.1 h
    rw [hkey] at hread
    exact .environment hkey hread
  next henvironment =>
  split at h
  · next hkey =>
    obtain ⟨entries, hread, rfl⟩ := bind_pure_eq_ok.1 h
    rw [hkey] at hread
    exact .networks hkey hread
  next hnetworks =>
  obtain rfl := Except.ok.inj h
  refine .other fun name hname hkey => ?_
  simp only [settingNames, List.mem_cons, List.not_mem_nil, or_false] at hname
  rcases hname with rfl | rfl | rfl | rfl | rfl | rfl | rfl
  · exact absurd hkey himage
  · refine ⟨rfl, Option.eq_none_iff_forall_ne_some.2 fun t ht => hbuild ⟨hkey, ?_⟩⟩
    rw [ht]
    rfl
  · exact absurd hkey hports
  · exact absurd hkey hvolumes
  · exact absurd hkey hnetworks
  · exact absurd hkey henvironment
  · exact absurd hkey hlabels

/-- The networks are those that a setting for networks has, each cut at its equals sign. -/
def ReadsNetworks (value : Value) (networks : List Text) : Prop :=
  ∃ service entries, readEntries service "networks" value = .ok entries ∧
    networks = entries.map Entry.key

/-- The networks of a service are read from the setting of their name, and no setting changes the
name of the service. -/
theorem addSetting_sets {s s' : Service} {e : Value × Value} (h : s.addSetting e.1 e.2 = .ok s') :
    s'.name = s.name ∧ SetBy "networks" ReadsNetworks e s.networks s'.networks := by
  obtain ⟨key, value⟩ := e
  cases sets_of_addSetting h with
  | networks hkey hread => exact ⟨rfl, .of_name hkey ⟨_, _, hread, rfl⟩ _⟩
  | other hother =>
    refine ⟨rfl, .of_other fun hkey => ?_⟩
    exact absurd (hother "networks" (by decide) hkey).1 (by decide)
  | image hkey => exact ⟨rfl, .of_other (text?_ne hkey (by decide))⟩
  | build hkey => exact ⟨rfl, .of_other (text?_ne hkey (by decide))⟩
  | volumes hkey => exact ⟨rfl, .of_other (text?_ne hkey (by decide))⟩
  | ports hkey => exact ⟨rfl, .of_other (text?_ne hkey (by decide))⟩
  | labels hkey => exact ⟨rfl, .of_other (text?_ne hkey (by decide))⟩
  | environment hkey => exact ⟨rfl, .of_other (text?_ne hkey (by decide))⟩

end Service

/-! ## Names are kept -/

theorem mem_of_readNames {path : Path} {field : Text} {value : Value} {names : List Text}
    (h : Definition.readNames path field value = .ok names) {m : Text × Value}
    (hm : m ∈ members value) : m.1 ∈ names := by
  cases value with
  | mapping entries =>
    obtain ⟨⟨key, body⟩, he, hname⟩ := List.mem_filterMap.1 hm
    obtain ⟨name, htext, rfl⟩ := Option.map_eq_some_iff.1 hname
    obtain ⟨name', hmem, hread⟩ := exists_of_mapM_eq_ok h he
    simp only [htext] at hread
    obtain rfl := Except.ok.inj hread
    exact hmem
  | sequence items =>
    obtain ⟨item, hitem, hname⟩ := List.mem_filterMap.1 hm
    obtain ⟨name, htext, rfl⟩ := Option.map_eq_some_iff.1 hname
    obtain ⟨name', hmem, hread⟩ := exists_of_mapM_eq_ok h hitem
    simp only [htext] at hread
    obtain rfl := Except.ok.inj hread
    exact hmem
  | _ => cases hm

/-- A service is read for each name, in a mapping. -/
theorem exists_of_readServices {path : Path} {value : Value} {services : List Service}
    (h : Definition.readServices path value = .ok services) {m : Text × Value}
    (hm : m ∈ members value) : ∃ s ∈ services, Service.ofValue m.1 m.2 = .ok s := by
  cases value with
  | mapping entries =>
    obtain ⟨⟨key, body⟩, he, hname⟩ := List.mem_filterMap.1 hm
    obtain ⟨name, htext, rfl⟩ := Option.map_eq_some_iff.1 hname
    obtain ⟨s, hmem, hread⟩ := exists_of_mapM_eq_ok h he
    simp only [htext] at hread
    exact ⟨s, hmem, hread⟩
  | sequence items => cases h
  | _ => cases hm

/-- Networks without an equals sign are read as they are written, in a list or a mapping. -/
theorem mem_of_readEntries {service field : Text} {value : Value} {entries : List Entry}
    (h : Service.readEntries service field value = .ok entries) {m : Text × Value}
    (hm : m ∈ members value) (hequals : '=' ∉ m.1) : m.1 ∈ entries.map Entry.key := by
  cases value with
  | mapping settings =>
    obtain ⟨⟨key, body⟩, he, hname⟩ := List.mem_filterMap.1 hm
    obtain ⟨name, htext, rfl⟩ := Option.map_eq_some_iff.1 hname
    obtain ⟨entry, hmem, hread⟩ := exists_of_mapM_eq_ok h he
    obtain ⟨name', hname', heq⟩ := bind_eq_ok.1 hread
    rw [Service.readText, htext] at hname'
    obtain rfl := Except.ok.inj hname'
    obtain rfl := Except.ok.inj heq
    exact List.mem_map_of_mem hmem
  | sequence items =>
    obtain ⟨item, hitem, hname⟩ := List.mem_filterMap.1 hm
    obtain ⟨name, htext, rfl⟩ := Option.map_eq_some_iff.1 hname
    obtain ⟨texts, htexts, rfl⟩ := bind_pure_eq_ok.1 h
    obtain ⟨name', hmem, hread⟩ := exists_of_mapM_eq_ok htexts hitem
    simp only [htext] at hread
    obtain rfl := Except.ok.inj hread
    rw [List.map_map]
    refine List.mem_map.2 ⟨name, hmem, ?_⟩
    rw [Function.comp_apply, Entry.read_of_notMem hequals]
  | _ => cases hm

/-- A service has the name that it was read under. -/
theorem Service.name_of_ofValue {name : Text} {body : Value} {s : Service}
    (h : Service.ofValue name body = .ok s) : s.name = name := by
  cases body with
  | null =>
    obtain rfl := Except.ok.inj h
    rfl
  | mapping settings =>
    have hfold : ∀ (settings : Settings) (s₀ : Service), s₀.addSettings settings = .ok s →
        s.name = s₀.name := by
      intro settings
      induction settings with
      | nil =>
        intro s₀ hs₀
        obtain rfl : s₀ = s := Except.ok.inj hs₀
        rfl
      | cons e settings ih =>
        intro s₀ hs₀
        obtain ⟨s₁, hs₁, hrest⟩ := bind_eq_ok.1 ((List.foldlM_cons ..).symm.trans hs₀)
        rw [ih s₁ hrest, (Service.addSetting_sets hs₁).1]
    exact hfold settings { name } h
  | _ => cases h

/-- The networks of a service are read from their setting. -/
theorem Service.mem_networks_of_ofValue {name : Text} {body : Value} {s : Service}
    (h : Service.ofValue name body = .ok s) (hkeys : (settingTexts (settingsOf body)).Nodup)
    {m : Text × Value} (hm : m ∈ below "networks" (settingsOf body)) (hequals : '=' ∉ m.1) :
    m.1 ∈ s.networks := by
  cases body with
  | mapping settings =>
    obtain ⟨key, value, hmem, hkey, hm⟩ := mem_below.1 hm
    have hfold : settings.foldlM (fun (s : Service) (e : Value × Value) => s.addSetting e.1 e.2)
        { name } = Except.ok s := h
    obtain ⟨service, entries, hread, hnetworks⟩ :=
      foldlM_setBy (fun hstep => (Service.addSetting_sets hstep).2) hkeys hfold hmem hkey
    rw [hnetworks]
    exact mem_of_readEntries hread hm hequals
  | _ => cases hm

namespace Definition

section

variable {path : Path} {document : Settings} {d : Definition}
  (h : ofValue path (.mapping document) = .ok d) (hkeys : (settingTexts document).Nodup)
include h

theorem addSections_of_ofValue :
    document.foldlM (fun (d : Definition) (e : Value × Value) => addSection path d e.1 e.2) {} =
      Except.ok d := by
  obtain ⟨d', hd', hservices⟩ := bind_eq_ok.1 h
  split at hservices
  · obtain rfl := Except.ok.inj hservices
    exact hd'
  · cases hservices

include hkeys

theorem mem_volumes_of_ofValue {m : Text × Value} (hm : m ∈ below "volumes" document) :
    m.1 ∈ d.volumes := by
  obtain ⟨key, value, hmem, hkey, hm⟩ := mem_below.1 hm
  have hread : readNames path "volumes" value = .ok d.volumes :=
    foldlM_setBy (fun hstep => (addSection_sets hstep).2.1) hkeys (addSections_of_ofValue h) hmem
      hkey
  exact mem_of_readNames hread hm

theorem mem_networks_of_ofValue {m : Text × Value} (hm : m ∈ below "networks" document) :
    m.1 ∈ d.networks := by
  obtain ⟨key, value, hmem, hkey, hm⟩ := mem_below.1 hm
  have hread : readNames path "networks" value = .ok d.networks :=
    foldlM_setBy (fun hstep => (addSection_sets hstep).2.2) hkeys (addSections_of_ofValue h) hmem
      hkey
  exact mem_of_readNames hread hm

theorem exists_service_of_ofValue {m : Text × Value} (hm : m ∈ below "services" document) :
    ∃ s ∈ d.services, Service.ofValue m.1 m.2 = .ok s := by
  obtain ⟨key, value, hmem, hkey, hm⟩ := mem_below.1 hm
  have hread : readServices path value = .ok d.services :=
    foldlM_setBy (fun hstep => (addSection_sets hstep).1) hkeys (addSections_of_ofValue h) hmem
      hkey
  exact exists_of_readServices hread hm

end

/-- The networks of the services are read by their names. -/
theorem exists_network_of_ofValue {path : Path} {document : Settings} {d : Definition}
    (h : ofValue path (.mapping document) = .ok d) (hdocument : IsUnambiguous document)
    {service network : Text} {settings : Value}
    (hm : (service, network, settings) ∈ networkSettings document) (hequals : '=' ∉ network) :
    ∃ s ∈ d.services, s.name = service ∧ network ∈ s.networks := by
  obtain ⟨body, hbody, hnetwork⟩ := mem_networkSettings.1 hm
  obtain ⟨s, hs, hread⟩ := exists_service_of_ofValue h hdocument.sections hbody
  exact ⟨s, hs, Service.name_of_ofValue hread,
    Service.mem_networks_of_ofValue hread (hdocument.settings _ hbody) hnetwork hequals⟩

end Definition

/-! ## What is written -/

theorem members_mapping {α : Type} (f : α → Text) (g : α → Value) (as : List α) :
    members (.mapping (as.map fun a => (.text (f a), g a))) = as.map fun a => (f a, g a) := by
  induction as with
  | nil => rfl
  | cons a as ih => exact congrArg ((f a, g a) :: ·) ih

theorem members_sequence (items : List Text) :
    members (.sequence (items.map .text)) = items.map fun item => (item, .null) := by
  induction items with
  | nil => rfl
  | cons item items ih => exact congrArg ((item, .null) :: ·) ih

theorem below_append (name : Text) (as bs : Settings) :
    below name (as ++ bs) = below name as ++ below name bs :=
  List.flatMap_append

theorem below_eq_nil {name : Text} {settings : Settings}
    (h : ∀ s ∈ settings, s.1.text? ≠ some name) : below name settings = [] := by
  rw [below, List.flatMap_eq_nil_iff]
  intro s hs
  rw [if_neg (h s hs)]

theorem below_cons (name : Text) (key : Text) (value : Value) (settings : Settings) :
    below name ((.text key, value) :: settings) =
      (if key = name then members value else []) ++ below name settings := by
  have hkey : (Value.text key).text? = some name ↔ key = name := Option.some_inj
  simp only [below, List.flatMap_cons, hkey]

theorem below_nameSection (name key : Text) (names : List Text) :
    below name (nameSection key names) =
      if key = name then names.map fun n => (n, .null) else [] := by
  cases names with
  | nil => split <;> rfl
  | cons n names =>
    have hmembers := members_mapping id (fun _ => .null) (n :: names)
    rw [nameSection, List.isEmpty_cons, if_neg Bool.false_ne_true, below_cons]
    simp only [id] at hmembers
    rw [hmembers]
    exact List.append_nil _

theorem below_listSetting (name key : Text) (items : List Text) :
    below name (listSetting key items) =
      if key = name then items.map fun item => (item, .null) else [] := by
  cases items with
  | nil => split <;> rfl
  | cons item items =>
    rw [listSetting, List.isEmpty_cons, if_neg Bool.false_ne_true, below_cons, members_sequence]
    exact List.append_nil _

/-- No name stands below a text. -/
theorem below_textSetting (name key : Text) (t : Option Text) :
    below name (textSetting key t) = [] := by
  cases t with
  | none => rfl
  | some t =>
    rw [textSetting, Option.toList_some, List.map_singleton, below_cons]
    split <;> rfl

/-- Nothing stands below the networks of a service that is written. -/
theorem Service.IsRenderable.below_networks {s : Service} (h : s.IsRenderable) :
    below "networks" (settingsOf s.toValue) = s.networks.map fun n => (n, .null) := by
  have hsettings : settingsOf s.toValue = s.settings := by
    rw [toValue]
    split
    · next hnil => exact (List.isEmpty_iff.1 hnil).symm
    · rfl
  have hextra : below "networks" s.extra = [] := by
    refine below_eq_nil fun setting hsetting hname => ?_
    have hbuild := (h.unmodelled setting hsetting "networks" (by decide) hname).1
    exact absurd hbuild (by decide)
  simp only [hsettings, settings, textSettings, listSettings, below_append, below_textSetting,
    below_listSetting, hextra]
  simp

namespace Definition.IsRenderable

variable {d : Definition} (h : d.IsRenderable)
include h

theorem below_extra {name : Text} (hname : name ∈ sectionNames) : below name d.extra = [] :=
  below_eq_nil fun setting hsetting => h.unmodelled setting hsetting name hname

/-- Nothing stands below the volumes of a definition that is written. -/
theorem below_volumes : below "volumes" d.sections = d.volumes.map fun n => (n, .null) := by
  simp only [sections, serviceSection, below_append, below_cons, below_nameSection,
    h.below_extra (show "volumes".toList ∈ sectionNames by decide)]
  simp

theorem below_networks : below "networks" d.sections = d.networks.map fun n => (n, .null) := by
  simp only [sections, serviceSection, below_append, below_cons, below_nameSection,
    h.below_extra (show "networks".toList ∈ sectionNames by decide)]
  simp

theorem below_services :
    below "services" d.sections = d.services.map fun s => (s.name, s.toValue) := by
  simp only [sections, serviceSection, below_append, below_cons, below_nameSection,
    members_mapping, h.below_extra (show "services".toList ∈ sectionNames by decide)]
  simp

theorem mem_networkSettings_sections {service network : Text} {settings : Value} :
    (service, network, settings) ∈ networkSettings d.sections ↔
      settings = .null ∧ ∃ s ∈ d.services, s.name = service ∧ network ∈ s.networks := by
  simp only [mem_networkSettings, h.below_services, List.mem_map, Prod.mk.injEq]
  constructor
  · rintro ⟨body, ⟨s, hs, hname, rfl⟩, hnetwork⟩
    rw [(h.services s hs).below_networks] at hnetwork
    obtain ⟨n, hn, heq⟩ := List.mem_map.1 hnetwork
    obtain ⟨rfl, rfl⟩ := Prod.mk.inj heq
    exact ⟨rfl, s, hs, hname, hn⟩
  · rintro ⟨rfl, s, hs, hname, hn⟩
    refine ⟨s.toValue, ⟨s, hs, hname, rfl⟩, ?_⟩
    rw [(h.services s hs).below_networks]
    exact List.mem_map_of_mem hn

end Definition.IsRenderable

end Compose

end Scaffold
