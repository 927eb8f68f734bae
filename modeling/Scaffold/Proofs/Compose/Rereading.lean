import Scaffold.Proofs.Compose.Bodies
import Scaffold.Proofs.Yaml.Equality

/-!
# Reading a service again

A service that was read is written with all its settings in one shape and read once more.  Its ports
and volumes are texts that were divided, and the settings that are kept as they stand are some of
the body's (`IsRead`).  These are unchanged when they are read again, and so are labels.

What is divided again at an equals sign is the name of a network and the key of a variable.  They
hold one only when they were keys of a mapping, and then the service that is read again is another
one (`ofValue_toValue_iff`).
-/

namespace Scaffold.Compose

open Yaml (Value)

/-! ## Texts that were divided -/

/-- The key of a variable that is read ends in front of the first equals sign. -/
theorem Entry.notMem_key_read (t : Text) : '=' ∉ (Entry.read t).key := by
  rw [Entry.read]
  split
  · next key value hbreak =>
    obtain ⟨hsplit, hleast⟩ := Text.breakOn?_eq_some_iff.1 hbreak
    intro hmem
    obtain ⟨front, rest, rfl⟩ := List.append_of_mem hmem
    have hlength := hleast front (rest ++ '=' :: value) (by simpa using hsplit)
    rw [List.length_append, List.length_cons] at hlength
    omega
  · next hbreak =>
    intro hmem
    obtain ⟨front, rest, rfl⟩ := List.append_of_mem hmem
    have hfound : Text.contains ['='] (front ++ '=' :: rest) = true :=
      Text.contains_eq_true_iff.2 ⟨front, rest, by simp⟩
    rw [Text.contains, hbreak] at hfound
    cases hfound

theorem Entry.key_read_eq_iff {t : Text} : (Entry.read t).key = t ↔ '=' ∉ t :=
  ⟨fun h => h ▸ Entry.notMem_key_read t, fun h => congrArg Entry.key (Entry.read_of_notMem h)⟩

theorem Entry.read_render_eq_iff {e : Entry} : Entry.read e.render = e ↔ '=' ∉ e.key :=
  ⟨fun h => h ▸ Entry.notMem_key_read e.render, Entry.read_render⟩

/-! ## Mappings -/

/-- No two keys are the same, which is so in every mapping. -/
def DistinctKeys (settings : Settings) : Prop :=
  (settings.map (·.1)).Pairwise fun a b => (a == b) = false

namespace Service

/-! ## What is read -/

/-- What holds of a service that was read from settings. -/
structure IsRead (settings : Settings) (s : Service) : Prop where
  extra : s.extra.Sublist settings
  other : ∀ setting ∈ s.extra, IsOther setting
  volumes : (s.volumes.map Mount.render).map Mount.read = s.volumes
  ports : (s.ports.map Port.render).map Port.read = s.ports

theorem IsRead.step {settings : Settings} {s s' : Service} {setting : Value × Value}
    (h : IsRead settings s) (hsets : Sets s setting s') : IsRead (settings ++ [setting]) s' := by
  have hextra := h.extra.trans (List.sublist_append_left settings [setting])
  cases hsets with
  | @volumes _ _ texts =>
    have hvolumes : (texts.map Mount.read).map Mount.render = texts :=
      map_map_eq_self fun t _ => Mount.render_read t
    exact ⟨hextra, h.other, congrArg (List.map Mount.read) hvolumes, h.ports⟩
  | @ports _ _ texts =>
    have hports : (texts.map Port.read).map Port.render = texts :=
      map_map_eq_self fun t _ => Port.render_read t
    exact ⟨hextra, h.other, h.volumes, congrArg (List.map Port.read) hports⟩
  | other hother =>
    exact ⟨h.extra.append (List.Sublist.refl _),
      List.forall_mem_append.2 ⟨h.other, List.forall_mem_singleton.2 hother⟩, h.volumes, h.ports⟩
  | _ => exact ⟨hextra, h.other, h.volumes, h.ports⟩

theorem IsRead.addSettings {done settings : Settings} {s s' : Service} (h : IsRead done s)
    (hadd : s.addSettings settings = .ok s') : IsRead (done ++ settings) s' := by
  induction settings generalizing done s with
  | nil =>
    obtain rfl : s = s' := Except.ok.inj hadd
    rwa [List.append_nil]
  | cons setting settings ih =>
    obtain ⟨s₁, hs₁, hrest⟩ := bind_eq_ok.1 ((List.foldlM_cons ..).symm.trans hadd)
    rw [List.append_cons]
    exact ih (h.step (sets_of_addSetting hs₁)) hrest

theorem isRead_of_ofValue {name : Text} {body : Value} {s : Service}
    (h : ofValue name body = .ok s) : IsRead (settingsOf body) s := by
  have hempty : IsRead [] { name } := ⟨List.Sublist.refl _, nofun, rfl, rfl⟩
  cases body with
  | null =>
    obtain rfl := Except.ok.inj h
    exact hempty
  | mapping settings => exact hempty.addSettings h
  | _ => cases h

/-! ## What is written -/

/-- The keys of the settings with one text each. -/
theorem mem_keys_textSettings {s : Service} {key : Value}
    (h : key ∈ s.textSettings.map (·.1)) :
    key = .text "image" ∨ key = .text "build" ∧ s.build ≠ none := by
  rw [textSettings, List.map_append, List.mem_append] at h
  rcases h with h | h
  · cases himage : s.image with
    | none =>
      rw [himage] at h
      cases h
    | some t =>
      rw [himage] at h
      exact .inl (List.mem_singleton.1 h)
  · cases hbuild : s.build with
    | none =>
      rw [hbuild] at h
      cases h
    | some t =>
      rw [hbuild] at h
      exact .inr ⟨List.mem_singleton.1 h, Option.some_ne_none t⟩

theorem keys_textSettings (s : Service) :
    (s.textSettings.map (·.1)).Sublist [.text "image", .text "build"] := by
  cases himage : s.image <;> cases hbuild : s.build <;>
    simp [textSettings, textSetting, himage, hbuild]

/-- The names of the settings with lists. -/
def listNames : List Text := ["ports", "volumes", "networks", "environment", "labels"]

theorem keys_listSettings (s : Service) :
    (s.listSettings.map (·.1)).Sublist (listNames.map .text) := by
  have hkeys (name : Text) (items : List Text) :
      ((listSetting name items).map (·.1)).Sublist [.text name] := by
    cases items with
    | nil => exact List.nil_sublist _
    | cons item items => exact List.Sublist.refl _
  simp only [listSettings, List.map_append]
  exact (hkeys _ _).append ((hkeys _ _).append ((hkeys _ _).append ((hkeys _ _).append (hkeys _ _))))

/-- The key of a list is none of the other keys that are written. -/
theorem beq_key_list {s : Service} (hother : ∀ setting ∈ s.extra, IsOther setting) {key other : Value}
    (hkey : key ∈ s.textSettings.map (·.1) ∨ key ∈ s.extra.map (·.1))
    (hlist : other ∈ s.listSettings.map (·.1)) : (key == other) = false := by
  obtain ⟨name, hname, rfl⟩ := List.mem_map.1 (s.keys_listSettings.subset hlist)
  have hnames : ∀ name ∈ listNames, name ∈ settingNames ∧ name ≠ "image" ∧ name ≠ "build" := by decide
  obtain ⟨hsetting, himage, hbuild⟩ := hnames name hname
  refine Value.beq_text_eq_false ?_
  rintro rfl
  rcases hkey with htext | hextra
  · rcases mem_keys_textSettings htext with heq | ⟨heq, -⟩
    · exact himage (Value.text.inj heq)
    · exact hbuild (Value.text.inj heq)
  · obtain ⟨setting, hmem, heq⟩ := List.mem_map.1 hextra
    exact hbuild (hother setting hmem name hsetting (congrArg Value.text? heq)).1

/-- The keys that are written are distinct, unless a text for the build is written beside another
build that is kept as it stands. -/
theorem IsRead.distinctKeys_settings_iff {settings : Settings} {s : Service} (h : IsRead settings s)
    (hdistinct : DistinctKeys settings) :
    DistinctKeys s.settings ↔ s.build = none ∨ ∀ setting ∈ s.extra, setting.1 ≠ .text "build" := by
  have htext : (s.textSettings.map (·.1)).Pairwise fun a b => (a == b) = false :=
    List.Pairwise.sublist s.keys_textSettings (by decide)
  have hextra : (s.extra.map (·.1)).Pairwise fun a b => (a == b) = false :=
    hdistinct.sublist (h.extra.map _)
  have hlist : (s.listSettings.map (·.1)).Pairwise fun a b => (a == b) = false :=
    List.Pairwise.sublist s.keys_listSettings (by decide)
  rw [DistinctKeys, Service.settings, List.map_append, List.map_append, List.pairwise_append,
    List.pairwise_append]
  constructor
  · rintro ⟨-, -, hcross⟩
    refine or_iff_not_imp_left.2 fun hbuild setting hsetting heq => ?_
    obtain ⟨t, ht⟩ := Option.ne_none_iff_exists'.1 hbuild
    have hwritten : Value.text "build" ∈ s.textSettings.map (·.1) := by
      simp [textSettings, textSetting, ht]
    have hne := hcross _ hwritten _ (List.mem_append_left _ (List.mem_map_of_mem hsetting))
    rw [heq, Value.beq_self] at hne
    cases hne
  · intro hbuild
    -- a key that is kept can only meet the key of the build
    refine ⟨htext, ⟨hextra, hlist, fun key hkey other => beq_key_list h.other (.inr hkey)⟩, ?_⟩
    intro key hkey other hmem
    rcases List.mem_append.1 hmem with hkept | hlisted
    · obtain ⟨setting, hsetting, rfl⟩ := List.mem_map.1 hkept
      rcases mem_keys_textSettings hkey with rfl | ⟨rfl, hsome⟩
      · refine Value.text_beq_eq_false fun heq => ?_
        exact absurd (h.other setting hsetting "image" (by decide) (congrArg Value.text? heq)).1
          (by decide)
      · exact Value.text_beq_eq_false (hbuild.resolve_left hsome setting hsetting)
    · exact beq_key_list h.other (.inl hkey) hlisted

/-! ## Reading again -/

theorem IsRead.reread_eq {settings : Settings} {s : Service} (h : IsRead settings s)
    (hnetworks : (s.networks.map Entry.read).map Entry.key = s.networks)
    (henvironment : (s.environment.map Entry.render).map Entry.read = s.environment) :
    s.reread = s := by
  rw [reread, hnetworks, henvironment, h.volumes, h.ports]

/-- What is read again differs from what was read when an equals sign stands in the name of a network
or in the key of a variable, and only then. -/
theorem IsRead.reread_eq_iff {settings : Settings} {s : Service} (h : IsRead settings s) :
    s.reread = s ↔ (∀ name ∈ s.networks, '=' ∉ name) ∧ ∀ e ∈ s.environment, '=' ∉ e.key := by
  have hnetworks : (s.networks.map Entry.read).map Entry.key = s.networks ↔
      ∀ name ∈ s.networks, '=' ∉ name :=
    map_map_eq_self_iff.trans (forall₂_congr fun _ _ => Entry.key_read_eq_iff)
  have henvironment : (s.environment.map Entry.render).map Entry.read = s.environment ↔
      ∀ e ∈ s.environment, '=' ∉ e.key :=
    map_map_eq_self_iff.trans (forall₂_congr fun _ _ => Entry.read_render_eq_iff)
  rw [← hnetworks, ← henvironment]
  exact ⟨fun heq => ⟨congrArg Service.networks heq, congrArg Service.environment heq⟩,
    fun ⟨hsame, hsame'⟩ => h.reread_eq hsame hsame'⟩

theorem beq_self (s : Service) : (s == s) = true := by
  show Service.same s s = true
  simp [Service.same, Value.beq_self]

/-- A service that is read again and equal to the first one is the same, other settings included. -/
theorem IsRead.reread_eq_of_beq {settings : Settings} {s : Service} (h : IsRead settings s)
    (heq : (s.reread == s) = true) : s.reread = s := by
  have hsame : Service.same s.reread s = true := heq
  simp only [Service.same, Bool.and_eq_true, beq_iff_eq] at hsame
  obtain ⟨⟨⟨⟨⟨-, hnetworks⟩, henvironment⟩, -⟩, -⟩, -⟩ := hsame
  exact h.reread_eq hnetworks henvironment

/-- A service that was read is written as a value that is always read again.  Its keys are those of a
mapping unless a text for the build was read beside another build, and it is read as an equal
service, and so as the same one, exactly when no name of a network and no key of a variable
holds an equals sign. -/
theorem ofValue_toValue_iff {name : Text} {body : Value} {s : Service}
    (hbody : DistinctKeys (settingsOf body)) (h : ofValue name body = .ok s) :
    (DistinctKeys s.settings ↔
      s.build = none ∨ ∀ setting ∈ s.extra, setting.1 ≠ .text "build") ∧
    ∃ s', ofValue name s.toValue = .ok s' ∧
      ((s' == s) = true ↔ (∀ name ∈ s.networks, '=' ∉ name) ∧ ∀ e ∈ s.environment, '=' ∉ e.key) ∧
      ((s' == s) = true → s' = s) := by
  have hread := isRead_of_ofValue h
  have hname : s.name = name := name_of_ofValue h
  refine ⟨hread.distinctKeys_settings_iff hbody, s.reread, ?_, ?_, hread.reread_eq_of_beq⟩
  · rw [← hname]
    exact ofValue_toValue_reread hread.other
  · rw [← hread.reread_eq_iff]
    refine ⟨hread.reread_eq_of_beq, fun heq => ?_⟩
    rw [heq]
    exact s.beq_self

/-- A body with settings of every kind, in the shapes that are not written. -/
def sampleBody : Value :=
  .mapping [(.text "deploy", .mapping [(.text "replicas", .whole 2)]),
    (.text "ports", .sequence [.whole 80, .text "127.0.0.1:8080:90"]),
    (.tagged "a" (.text "volumes"), .sequence [.text "data:/data:ro"]),
    (.text "environment", .mapping [(.text "A", .text "b=c"), (.text "TZ", .null)]),
    (.text "networks", .mapping [(.text "back", .mapping [(.text "priority", .whole 1)])]),
    (.text "labels", .mapping [(.text "a=b", .boolean true)]),
    (.text "build", .mapping [(.text "context", .text ".")])]

/-- The service of the body. -/
def sampleService : Service where
  name := "web"
  volumes := [⟨"data", some "/data:ro"⟩]
  networks := ["back"]
  environment := [⟨"A", some "b=c"⟩, ⟨"TZ", none⟩]
  labels := ["a=b=true"]
  ports := [⟨none, "80"⟩, ⟨some "127.0.0.1:8080", "90"⟩]
  extra := [(.text "deploy", .mapping [(.text "replicas", .whole 2)]),
    (.text "build", .mapping [(.text "context", .text ".")])]

theorem ofValue_toValue_iff_sample :
    DistinctKeys (settingsOf sampleBody) ∧ ofValue "web" sampleBody = .ok sampleService ∧
      DistinctKeys sampleService.settings ∧
      ofValue "web" sampleService.toValue = .ok sampleService := by
  have hbody : DistinctKeys (settingsOf sampleBody) := by
    rw [DistinctKeys]
    decide
  have hread : ofValue "web" sampleBody = .ok sampleService := rfl
  obtain ⟨hkeys, s, hagain, hsame, heq⟩ := ofValue_toValue_iff hbody hread
  have hplain : (∀ name ∈ sampleService.networks, '=' ∉ name) ∧
      ∀ e ∈ sampleService.environment, '=' ∉ e.key := by decide
  rw [heq (hsame.2 hplain)] at hagain
  exact ⟨hbody, hread, hkeys.2 (.inl rfl), hagain⟩

/-- The name of a network is cut at its equals sign when it is read from a list. -/
theorem not_ofValue_toValue_always :
    ¬ ∀ (name : Text) (body : Value) (s : Service), DistinctKeys (settingsOf body) →
      ofValue name body = .ok s → ∃ s', ofValue name s.toValue = .ok s' ∧ (s' == s) = true := by
  intro hsame
  have hbody : DistinctKeys [(.text "networks", .mapping [(.text "a=b", .null)])] := by
    rw [DistinctKeys]
    decide
  obtain ⟨s, hread, heq⟩ := hsame "web"
    (.mapping [(.text "networks", .mapping [(.text "a=b", .null)])])
    { name := "web", networks := ["a=b"] } hbody rfl
  have hcut : ofValue "web" (toValue { name := "web", networks := ["a=b"] }) =
      .ok { name := "web", networks := ["a"] } := rfl
  obtain rfl := Except.ok.inj (hcut.symm.trans hread)
  cases heq

end Service

end Scaffold.Compose
