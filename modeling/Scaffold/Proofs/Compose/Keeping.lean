import Scaffold.Proofs.Compose.Bodies

/-!
# What calls keep of a compose file

A call that changes a compose file writes all names that were read from it, but nothing that stood
below the names of volumes and networks, or below the networks of the services.  So it keeps what
stood there exactly when nothing did (`edit_keeps_iff`), and a driver is lost
(`not_edit_keeps_always`).

The text that a call writes is known from the definition that was read (`Call.text_of_outcome`);
what remains is a fact about documents and definitions alone (`keeps_iff_bare`).  The definition
must be one that can be written, or the new text might mean something else.  The old document must
not be ambiguous: of two sections with one name, under different tags, only the last is read.
-/

namespace Scaffold.Compose

open Yaml (Value)

/-- A definition that is written keeps what stood below the names that were read only when nothing
did. -/
theorem keeps_iff_bare {path : Path} {document : Settings} {D D' : Definition}
    (hread : Definition.ofValue path (.mapping document) = .ok D)
    (hdocument : IsUnambiguous document) (hD' : D'.IsRenderable)
    (hservices : D.services ⊆ D'.services) (hvolumes : D.volumes ⊆ D'.volumes)
    (hnetworks : D.networks ⊆ D'.networks) : Keeps document D'.sections ↔ Bare document := by
  constructor
  · intro h
    refine ⟨fun v hv => ?_, fun n hn => ?_, ?_⟩
    · have hmem := h.volumes v hv
      rw [hD'.below_volumes] at hmem
      obtain ⟨name, -, rfl⟩ := List.mem_map.1 hmem
      rfl
    · have hmem := h.networks n hn
      rw [hD'.below_networks] at hmem
      obtain ⟨name, -, rfl⟩ := List.mem_map.1 hmem
      rfl
    · rintro ⟨service, network, settings⟩ hs
      obtain ⟨hnull, s, hsmem, -, hnetwork⟩ :=
        hD'.mem_networkSettings_sections.1 (h.settings _ hs)
      exact ⟨((hD'.services s hsmem).networks network hnetwork).2, hnull⟩
  · intro h
    refine ⟨?_, ?_, ?_⟩
    · rintro ⟨name, body⟩ hv
      obtain rfl : body = .null := h.volumes _ hv
      rw [hD'.below_volumes]
      exact List.mem_map_of_mem
        (hvolumes (Definition.mem_volumes_of_ofValue hread hdocument.sections hv))
    · rintro ⟨name, body⟩ hn
      obtain rfl : body = .null := h.networks _ hn
      rw [hD'.below_networks]
      exact List.mem_map_of_mem
        (hnetworks (Definition.mem_networks_of_ofValue hread hdocument.sections hn))
    · rintro ⟨service, network, settings⟩ hs
      obtain ⟨hequals, rfl⟩ : '=' ∉ network ∧ settings = .null := h.settings _ hs
      obtain ⟨s, hsmem, hname, hnetwork⟩ :=
        Definition.exists_network_of_ofValue hread hdocument hs hequals
      exact hD'.mem_networkSettings_sections.2 ⟨rfl, s, hservices hsmem, hname, hnetwork⟩

/-! ## Calls -/

/-- What a call adds stands in the document of a target: a volume or a network by its name, and a
service as it is deployed there. -/
def Call.StandsIn (t : Target) (document : Settings) : Call → Prop
  | .addService s e _ => (s.name, (s.deployed e t).toValue) ∈ below "services" document
  | .addVolume name _ => (name, .null) ∈ below "volumes" document
  | .addNetwork name _ => (name, .null) ∈ below "networks" document

theorem mem_addName (name : Text) (names : List Text) : name ∈ addName name names := by
  rw [addName]
  split
  · next h => exact List.contains_iff_mem.1 h
  · exact List.mem_append_right _ (List.mem_singleton_self name)

theorem subset_addName (name : Text) (names : List Text) : names ⊆ addName name names := by
  rw [addName]
  split
  · exact List.Subset.refl _
  · exact List.subset_append_left _ _

/-- A call only adds to a definition. -/
theorem Call.subset_apply (c : Call) (t : Target) (d : Definition) :
    d.services ⊆ (c.apply t d).services ∧ d.volumes ⊆ (c.apply t d).volumes ∧
      d.networks ⊆ (c.apply t d).networks := by
  cases c with
  | addService s e only =>
    exact ⟨List.subset_append_left _ _, List.Subset.refl _, List.Subset.refl _⟩
  | addVolume name only =>
    exact ⟨List.Subset.refl _, subset_addName name _, List.Subset.refl _⟩
  | addNetwork name only =>
    exact ⟨List.Subset.refl _, List.Subset.refl _, subset_addName name _⟩

/-- What a call adds is written. -/
theorem Call.standsIn_apply (c : Call) {t : Target} {d : Definition}
    (h : (c.apply t d).IsRenderable) : c.StandsIn t (c.apply t d).sections := by
  cases c with
  | addService s e only =>
    rw [StandsIn, h.below_services]
    exact List.mem_map.2 ⟨s.deployed e t, List.mem_append_right _ (List.mem_singleton_self _), rfl⟩
  | addVolume name only =>
    rw [StandsIn, h.below_volumes]
    exact List.mem_map_of_mem (mem_addName name d.volumes)
  | addNetwork name only =>
    rw [StandsIn, h.below_networks]
    exact List.mem_map_of_mem (mem_addName name d.networks)

section

variable {l : Layout} {d e : Disk} {t : Target} {old : Text} {D : Definition} {c : Call}
  {cs : List Change} (hold : d.text? (l.composeFile t) = some old)
include hold

/-- A compose file that is there stands in a directory with the others. -/
theorem exists_standIn_of_text :
    ∃ dir, StandIn l dir d ∧ d.get? (fileIn dir t) = some (.file (.text old)) := by
  cases hlocate : d.locate? (l.composeFile t) with
  | none =>
    rw [Disk.text?, Disk.entryAt?, hlocate] at hold
    cases hold
  | some m =>
    obtain ⟨dir, hdir⟩ := exists_standIn hlocate
    refine ⟨dir, hdir, ?_⟩
    rw [Disk.text?, hdir.entryAt?_eq] at hold
    split at hold
    · next u hu => rw [hu, Option.some.inj hold]
    · cases hold

/-- A call that succeeds on a target with a file writes what it makes of the definition there. -/
theorem Call.text_of_outcome (hD : definition l t d = .ok D) (hrenderable : D.IsRenderable)
    (hc : c.IsWritable) (ht : t ∈ c.targets) (h : (c.edit l).outcome d = (.ok cs, e)) :
    (c.apply t D).IsRenderable ∧ e.text? (l.composeFile t) = some (c.apply t D).render ∧
      definition l t e = .ok (c.apply t D) := by
  obtain ⟨dir, hstand, -⟩ := exists_standIn_of_text hold
  rcases hstand.outcome_call c with ⟨-, x, hx⟩ | ⟨-, new, hnew, cs', e', he', hsaved⟩
  · rw [h] at hx
    cases hx
  · rw [h] at he'
    obtain ⟨hcs, rfl⟩ := Prod.mk.inj he'
    obtain ⟨D', hD', hblocked, happly⟩ := hnew t ht
    obtain rfl : D = D' := Except.ok.inj (hD.symm.trans hD')
    have hwritten := hsaved.written t ht
    have he := hstand.of_sameDirectories hsaved.directories
    have hnewRenderable := hrenderable.apply hc hblocked
    rw [happly] at hwritten
    refine ⟨hnewRenderable, ?_, ?_⟩
    · rw [Disk.text?, he.entryAt?_eq, hwritten]
    · rw [he.definition_of_text hwritten]
      exact Definition.read_render hnewRenderable _

end

/-! ## A sample -/

/-- A compose file with a volume that has a driver. -/
def sampleDocument : Settings :=
  [(.text "services", .mapping []),
    (.text "volumes", .mapping [(.text "data", .mapping [(.text "driver", .text "nfs")])])]

/-- The text of the sample file. -/
def sampleText : Text := "services: \x7b\x7d\n\nvolumes:\n    data:\n        driver: nfs\n"

/-- The sample workspace with the sample file for production. -/
def sampleDriver : Disk :=
  ⟨[], [([("ws" : Text)], .directory),
    ([("ws" : Text), Target.prod.composeFileName], .file (.text sampleText))]⟩

/-- A call that adds a volume next to that with a driver. -/
def sampleCache : Call := .addVolume "cache" (some .prod)

theorem sampleText_eq : sampleText = Yaml.writeSections sampleDocument := by
  have hservices : Yaml.writeText "services" = "services" := writeText_name _ (by decide)
  have hvolumes : Yaml.writeText "volumes" = "volumes" := writeText_name _ (by decide)
  have hdata : Yaml.writeText "data" = "data" :=
    writeText_of_isAlphanum (by decide) (by decide +kernel) rfl
  have hdriver : Yaml.writeText "driver" = "driver" :=
    writeText_of_isAlphanum (by decide) (by decide +kernel) rfl
  have hnfs : Yaml.writeText "nfs" = "nfs" :=
    writeText_of_isAlphanum (by decide) (by decide +kernel) rfl
  simp only [Yaml.writeSections, sampleDocument, List.map_cons, List.map_nil, Value.nestedEntries,
    Value.nested, Value.inline, hservices, hvolumes, hdata, hdriver, hnfs]
  decide

theorem read?_sampleText : Yaml.read? sampleText = some (.mapping sampleDocument) := by
  rw [sampleText_eq]
  exact Yaml.read?_writeSections (by decide) (by simp [sampleDocument]) (by decide)

theorem standIn_sampleDriver : StandIn sampleLayout [("ws" : Text)] sampleDriver :=
  standIn_root rfl ⟨by decide, by decide⟩

theorem text?_sampleDriver :
    sampleDriver.text? (sampleLayout.composeFile .prod) = some sampleText := by
  rw [Disk.text?, standIn_sampleDriver.entryAt?_eq]
  rfl

theorem definition_sampleDriver :
    definition sampleLayout .prod sampleDriver = .ok { volumes := ["data"] } := by
  have hfile : sampleDriver.get? (fileIn [("ws" : Text)] .prod) = some (.file (.text sampleText)) :=
    rfl
  rw [standIn_sampleDriver.definition_of_text hfile, Definition.read, read?_sampleText]
  rfl

theorem outcome_sampleCache : ∃ cs e,
    (sampleCache.edit sampleLayout).outcome sampleDriver = (.ok cs, e) := by
  rcases standIn_sampleDriver.outcome_call sampleCache with ⟨hrefused, -⟩ | ⟨-, -, -, cs, e, he, -⟩
  · rcases hrefused with hreserved | ⟨t, ht, hblocked⟩
    · exact hreserved.elim
    · obtain rfl := List.mem_singleton.1 ht
      exact (hblocked _ definition_sampleDriver).elim
  · exact ⟨cs, e, he⟩

theorem isRenderable_sampleVolumes : ({ volumes := ["data"] } : Definition).IsRenderable where
  services := List.forall_mem_nil _
  serviceNames := List.nodup_nil
  volumes := by decide
  volumeNames := by decide
  networks := List.forall_mem_nil _
  networkNames := List.nodup_nil
  extra := rfl
  depth := List.forall_mem_nil _
  unmodelled := List.forall_mem_nil _

theorem isUnambiguous_sampleDocument : IsUnambiguous sampleDocument where
  sections := by decide
  settings := by
    have hnone : below "services" sampleDocument = [] := rfl
    rw [hnone]
    exact List.forall_mem_nil _

/-! ## Main result -/

/-- A call that succeeds on a target with a file adds to what is read from the file, and what it adds
stands in the new document.  It keeps what stood below the names of volumes and networks, and below
the networks of the services, exactly when nothing did. -/
theorem edit_keeps_iff {l : Layout} {d e : Disk} {t : Target} {old : Text} {document : Settings}
    {D : Definition} {c : Call} {cs : List Change}
    (hold : d.text? (l.composeFile t) = some old)
    (hyaml : Yaml.read? old = some (.mapping document)) (hdocument : IsUnambiguous document)
    (hD : definition l t d = .ok D) (hrenderable : D.IsRenderable) (hc : c.IsWritable)
    (ht : t ∈ c.targets) (h : (c.edit l).outcome d = (.ok cs, e)) :
    ∃ text new, e.text? (l.composeFile t) = some text ∧ Yaml.read? text = some (.mapping new) ∧
      definition l t e = .ok (c.apply t D) ∧ c.StandsIn t new ∧
      (Keeps document new ↔ Bare document) := by
  obtain ⟨hnew, htext, hdefinition⟩ := Call.text_of_outcome hold hD hrenderable hc ht h
  obtain ⟨dir, hstand, hfile⟩ := exists_standIn_of_text hold
  have hread : Definition.ofValue (l.composeFile t) (.mapping document) = .ok D := by
    rw [hstand.definition_of_text hfile, Definition.read, hyaml] at hD
    exact hD
  obtain ⟨hservices, hvolumes, hnetworks⟩ := c.subset_apply t D
  exact ⟨_, _, htext, hnew.read?_render, hdefinition, c.standsIn_apply hnew,
    keeps_iff_bare hread hdocument hnew hservices hvolumes hnetworks⟩

theorem edit_keeps_iff_sample : ∃ cs e text new,
    (sampleCache.edit sampleLayout).outcome sampleDriver = (.ok cs, e) ∧
      e.text? (sampleLayout.composeFile .prod) = some text ∧
      Yaml.read? text = some (.mapping new) ∧
      definition sampleLayout .prod e = .ok { volumes := ["data", "cache"] } ∧
      ("cache".toList, .null) ∈ below "volumes" new ∧
      (Keeps sampleDocument new ↔ Bare sampleDocument) := by
  have hcache : sampleCache.IsWritable := (by decide : (Value.text "cache").isKey = true)
  obtain ⟨cs, e, he⟩ := outcome_sampleCache
  obtain ⟨text, new, htext, hnew, hdefinition, hadded, hkeeps⟩ :=
    edit_keeps_iff text?_sampleDriver read?_sampleText isUnambiguous_sampleDocument
      definition_sampleDriver isRenderable_sampleVolumes hcache (List.mem_singleton_self _) he
  exact ⟨cs, e, text, new, he, htext, hnew, hdefinition, hadded, hkeeps⟩

/-- Not every call keeps what stood below the names: a driver is lost. -/
theorem not_edit_keeps_always :
    ¬ ∀ (l : Layout) (d e : Disk) (t : Target) (old : Text) (document : Settings) (D : Definition)
      (c : Call) (cs : List Change), d.text? (l.composeFile t) = some old →
        Yaml.read? old = some (.mapping document) → definition l t d = .ok D → t ∈ c.targets →
        (c.edit l).outcome d = (.ok cs, e) →
        ∃ text new, e.text? (l.composeFile t) = some text ∧
          Yaml.read? text = some (.mapping new) ∧ Keeps document new := by
  intro hkeeps
  have hcache : sampleCache.IsWritable := (by decide : (Value.text "cache").isKey = true)
  have ht : .prod ∈ sampleCache.targets := List.mem_singleton_self _
  obtain ⟨cs, e, he⟩ := outcome_sampleCache
  obtain ⟨hD', htext', -⟩ := Call.text_of_outcome text?_sampleDriver definition_sampleDriver
    isRenderable_sampleVolumes hcache ht he
  obtain ⟨text, new, htext, hnew, hnewKeeps⟩ :=
    hkeeps sampleLayout sampleDriver e .prod sampleText sampleDocument _ sampleCache cs
      text?_sampleDriver read?_sampleText definition_sampleDriver ht he
  obtain rfl : _ = text := Option.some.inj (htext'.symm.trans htext)
  rw [hD'.read?_render] at hnew
  obtain rfl : _ = new := Value.mapping.inj (Option.some.inj hnew)
  have hdriver : ("data".toList, Value.mapping [(.text "driver", .text "nfs")]) ∈
      below "volumes" sampleDocument := List.mem_singleton_self _
  have hlost := hnewKeeps.volumes _ hdriver
  rw [hD'.below_volumes] at hlost
  obtain ⟨name, -, heq⟩ := List.mem_map.1 hlost
  cases heq

end Scaffold.Compose
