import Scaffold.Proofs.Compose.Files
import Scaffold.Proofs.Compose.Labels
import Scaffold.Proofs.Compose.RoundTrip

/-!
# Calls on compose files

A call adds a service, a volume or a network to the compose files of some targets.  It changes
definitions by `Call.apply`, unless its sub-domain is reserved or the definition of one of its
targets blocks it (`Call.change_eq_ok`), and then it changes no file at all
(`StandIn.outcome_call`).  What a call makes of a definition can be written if the definition and
the call can (`Definition.IsRenderable.apply`).
-/

namespace Scaffold.Compose

open Yaml (Value IsWritable)

/-! ## Deployed services -/

/-- The ports that a service publishes in the file of a target. -/
def Exposure.published (e : Exposure) (t : Target) : List Port :=
  if t = .dev then
    e.devPort.toList.map fun port => ⟨some (Text.ofNat port), Text.ofNat (e.prodPort.getD port)⟩
  else []

/-- The labels that route a service of a name in the file of a target. -/
def Exposure.routing (e : Exposure) (name : Text) (t : Target) : List Text :=
  if t ≠ .dev ∧ e.isPublic = true then
    match e.prodPort <|> e.devPort with
    | some port => ((labels name port t e.subDomain).toOption).getD []
    | none => []
  else []

/-- The service as it stands in the file of a target. -/
def Service.deployed (s : Service) (e : Exposure) (t : Target) : Service :=
  { s with ports := s.ports ++ e.published t, labels := s.labels ++ e.routing s.name t }

/-- The sub-domain is the reserved one, in some letter case. -/
def Exposure.IsReserved (e : Exposure) : Prop :=
  ∃ name ∈ e.subDomain, Text.lower name = reservedSubDomain

instance (e : Exposure) : Decidable e.IsReserved :=
  inferInstanceAs (Decidable (∃ name ∈ e.subDomain, Text.lower name = reservedSubDomain))

/-- The service must be routed for a target, but has no port. -/
def Exposure.LacksPort (e : Exposure) (t : Target) : Prop :=
  e.isPublic = true ∧ e.prodPort = none ∧ e.devPort = none ∧ t ≠ .dev

instance (e : Exposure) (t : Target) : Decidable (e.LacksPort t) :=
  inferInstanceAs (Decidable (_ ∧ _ ∧ _ ∧ _))

theorem checkSubDomain_eq_ok {e : Exposure} :
    checkSubDomain e.subDomain = .ok () ↔ ¬ e.IsReserved := by
  unfold checkSubDomain Exposure.IsReserved
  cases e.subDomain with
  | none => simp
  | some name =>
    by_cases h : Text.lower name = reservedSubDomain
    · simp [h]
    · simp [h]

/-- A service has labels for every target, none in development. -/
theorem labels_eq {e : Exposure} (h : ¬ e.IsReserved) (name : Text) (port : Nat) (t : Target) :
    labels name port t e.subDomain =
      .ok ((rootDomain? t).elim [] fun root => routingLabels name port t root e.subDomain) := by
  rw [labels, checkSubDomain_eq_ok.2 h]
  cases rootDomain? t <;> rfl

/-- A public service has the labels for its port, outside development. -/
theorem Exposure.labels_eq_routing {e : Exposure} (hres : ¬ e.IsReserved) {t : Target}
    (hport : ¬ e.LacksPort t) (hpublic : e.isPublic = true) (ht : t ≠ .dev) (name : Text) :
    ∃ port, (e.prodPort <|> e.devPort) = some port ∧
      labels name port t e.subDomain = .ok (e.routing name t) := by
  cases hports : e.prodPort <|> e.devPort with
  | none =>
    obtain ⟨hprod, hdev⟩ := (Option.orElse_eq_none _ _).1 hports
    exact absurd ⟨hpublic, hprod, hdev, ht⟩ hport
  | some port =>
    refine ⟨port, rfl, ?_⟩
    rw [Exposure.routing, if_pos ⟨ht, hpublic⟩, hports]
    simp only [labels_eq hres]
    rfl

theorem Service.exposed_of_lacksPort (s : Service) {e : Exposure} {t : Target}
    (h : e.LacksPort t) :
    s.exposed e t = .error (.invalidService s.name .publicWithoutPort) := by
  obtain ⟨hpublic, hprod, hdev, ht⟩ := h
  rw [Service.exposed, if_neg ht, if_pos hpublic, hprod, hdev]
  rfl

/-- A service is deployed unless it is routed without a port. -/
theorem Service.exposed_of_not_lacksPort (s : Service) {e : Exposure} (hres : ¬ e.IsReserved)
    {t : Target} (h : ¬ e.LacksPort t) : s.exposed e t = .ok (s.deployed e t) := by
  by_cases hdev : t = .dev
  · rw [Service.exposed, if_pos hdev, Service.deployed, Exposure.published, if_pos hdev,
      Exposure.routing, if_neg fun hroute => hroute.1 hdev, List.append_nil]
    cases e.devPort with
    | none =>
      rw [Option.toList_none, List.map_nil, List.append_nil]
    | some port => rfl
  · rw [Service.exposed, if_neg hdev, Service.deployed, Exposure.published, if_neg hdev,
      List.append_nil]
    by_cases hpublic : e.isPublic = true
    · obtain ⟨port, hport, hlabels⟩ := e.labels_eq_routing hres h hpublic hdev s.name
      rw [if_pos hpublic, hport]
      exact bind_of_ok hlabels _
    · rw [if_neg hpublic, Exposure.routing, if_neg fun hroute => hpublic hroute.2, List.append_nil]

/-! ## What can be written -/

theorem isWritable_ofNat (n : Nat) : IsWritable (Text.ofNat n) := by
  intro c hc
  have halpha : c.isAlphanum = true := by
    simp [Char.isAlphanum, Decimal.isDigit_of_mem_ofNat hc]
  have hsafe := (Yaml.isSafe_of_isAlphanum halpha).1
  simp only [Yaml.isSafe, Bool.and_eq_true] at hsafe
  simp [Yaml.isWritable, hsafe.1.1.1]

theorem colon_notMem_ofNat (n : Nat) : ':' ∉ Text.ofNat n := by
  intro hc
  exact absurd (Decimal.isDigit_of_mem_ofNat hc) (by decide)

theorem isWritable_hostRule {host : Text} (h : IsWritable host) : IsWritable (hostRule host) :=
  (IsWritable.append (by decide) h).append (by decide)

theorem LabelKind.isWritable_key (kind : LabelKind) {name : Text} (h : IsWritable name) :
    IsWritable (kind.key name) := by
  have hlead : IsWritable kind.lead := by cases kind <;> decide
  have htail : IsWritable kind.tail := by cases kind <;> decide
  exact (hlead.append h).append htail

theorem isWritable_middlewareNames {name : Text} (h : IsWritable name) (subDomain : Option Text) :
    ∀ middleware ∈ middlewareNames name subDomain, IsWritable middleware := by
  rw [middlewareNames, List.forall_mem_cons]
  refine ⟨h.append (by decide), ?_⟩
  split
  · exact List.forall_mem_nil _
  · exact List.forall_mem_singleton.2 (h.append (by decide))

/-- What a label says is put together from texts that can be written. -/
theorem LabelKind.isWritable_value (kind : LabelKind) {name : Text} (hname : IsWritable name)
    (port : Nat) (t : Target) {root : Text} (hroot : IsWritable root) {subDomain : Option Text}
    (hsub : ∀ s ∈ subDomain, IsWritable s) :
    IsWritable (kind.value name port t root subDomain) := by
  have htrue : IsWritable "true" := by decide
  have hscheme : IsWritable (if t.usesTls then "https" else "http" : Text) := by
    split <;> decide
  cases kind with
  | rule =>
    cases subDomain with
    | none =>
      have hwww : IsWritable ("www." ++ root) := .append (by decide) hroot
      exact ((isWritable_hostRule hroot).append (by decide)).append (isWritable_hostRule hwww)
    | some s => exact isWritable_hostRule ((hsub s rfl).append (.cons rfl hroot))
  | entrypoints =>
    rw [value]
    split <;> decide
  | certificate => exact (by decide : IsWritable certificateResolver)
  | port => exact isWritable_ofNat port
  | compress => exact htrue
  | regex => exact .append (by decide) (hscheme.append (by decide))
  | replacement => exact hscheme.append (by decide)
  | permanent => exact htrue
  | middlewares =>
    intro c hc
    obtain rfl | ⟨middleware, hmem, hc⟩ := Text.mem_intercalate hc
    · rfl
    · exact isWritable_middlewareNames hname subDomain middleware hmem c hc

/-- The labels are put together from texts that can be written. -/
theorem isWritable_routingLabels {name : Text} (hname : IsWritable name) (port : Nat) (t : Target)
    {root : Text} (hroot : IsWritable root) {subDomain : Option Text}
    (hsub : ∀ s ∈ subDomain, IsWritable s) :
    ∀ label ∈ routingLabels name port t root subDomain, IsWritable label := by
  rw [routingLabels_eq, List.forall_mem_cons, List.forall_mem_map]
  exact ⟨by decide, fun kind _ =>
    (kind.isWritable_key hname).append (.cons rfl (kind.isWritable_value hname port t hroot hsub))⟩

theorem isWritable_rootDomain {t : Target} {root : Text} (h : rootDomain? t = some root) :
    IsWritable root := by
  cases t with
  | dev => cases h
  | _ =>
    obtain rfl := Option.some.inj h
    decide

theorem isWritable_labels {name : Text} (hname : IsWritable name) {port : Nat} {t : Target}
    {subDomain : Option Text} (hsub : ∀ s ∈ subDomain, IsWritable s) {ls : List Text}
    (h : labels name port t subDomain = .ok ls) : ∀ label ∈ ls, IsWritable label := by
  obtain ⟨-, -, h⟩ := bind_eq_ok.1 h
  split at h
  · obtain rfl := Except.ok.inj h
    exact List.forall_mem_nil _
  · next root hroot =>
    obtain rfl := Except.ok.inj h
    exact isWritable_routingLabels hname port t (isWritable_rootDomain hroot) hsub

/-- A service that is deployed can be written if it can be written itself. -/
theorem Service.IsRenderable.deployed {s : Service} (h : s.IsRenderable) {e : Exposure}
    (he : ∀ name ∈ e.subDomain, IsWritable name) (t : Target) : (s.deployed e t).IsRenderable := by
  have hname : IsWritable s.name := by
    have hkey := h.name
    simp only [Value.isKey, Bool.and_eq_true] at hkey
    exact List.all_eq_true.1 hkey.1
  have hpublished : ∀ p ∈ e.published t, (∀ u ∈ p.external, IsWritable u) ∧
      IsWritable p.internal ∧ ':' ∉ p.internal := by
    intro p hp
    rw [Exposure.published] at hp
    split at hp
    · obtain ⟨port, -, rfl⟩ := List.mem_map.1 hp
      refine ⟨?_, isWritable_ofNat _, colon_notMem_ofNat _⟩
      rintro u ⟨⟩
      exact isWritable_ofNat port
    · cases hp
  have hrouting : ∀ label ∈ e.routing s.name t, IsWritable label := by
    intro label hlabel
    rw [Exposure.routing] at hlabel
    split at hlabel
    · split at hlabel
      · next port _ =>
        cases hlabels : Compose.labels s.name port t e.subDomain with
        | error x =>
          rw [hlabels] at hlabel
          cases hlabel
        | ok ls =>
          rw [hlabels] at hlabel
          exact isWritable_labels hname he hlabels label hlabel
      · cases hlabel
    · cases hlabel
  exact
    { h with
      ports := List.forall_mem_append.2 ⟨h.ports, hpublished⟩
      labels := List.forall_mem_append.2 ⟨h.labels, hrouting⟩ }

/-! ## Calls -/

/-- A call that adds to the compose files of a workspace. -/
inductive Call where
  | addService (s : Service) (e : Exposure) (only : Option Target)
  | addVolume (name : Text) (only : Option Target)
  | addNetwork (name : Text) (only : Option Target)

namespace Call

/-- The edit that a call makes. -/
def edit (l : Layout) : Call → Edit (List Change)
  | .addService s e only => Compose.addService l s e only
  | .addVolume name only => Compose.addVolume l name only
  | .addNetwork name only => Compose.addNetwork l name only

/-- The only target that a call is meant for, if it is not meant for all. -/
def only : Call → Option Target
  | .addService _ _ only | .addVolume _ only | .addNetwork _ only => only

/-- The targets that a call is meant for. -/
def targets (c : Call) : List Target := targetsOf c.only

/-- How a call changes the definition of a target, if it can. -/
def change (l : Layout) : Call → Target → Definition → Except Fault Definition
  | .addService s e _ => Definition.addService l s e
  | .addVolume name _ => fun _ d => .ok { d with volumes := addName name d.volumes }
  | .addNetwork name _ => fun _ d => .ok { d with networks := addName name d.networks }

/-- A call whose service would have the reserved sub-domain. -/
def IsReserved : Call → Prop
  | .addService _ e _ => e.IsReserved
  | _ => False

instance : (c : Call) → Decidable c.IsReserved
  | .addService _ e _ => inferInstanceAs (Decidable e.IsReserved)
  | .addVolume .. | .addNetwork .. => isFalse id

/-- The definition of a target in which a call cannot be made: it has a service of the name
already, or the service must be routed without a port. -/
def Blocked (t : Target) (d : Definition) : Call → Prop
  | .addService s e _ => s.name ∈ d.services.map Service.name ∨ e.LacksPort t
  | _ => False

instance (t : Target) (d : Definition) : (c : Call) → Decidable (c.Blocked t d)
  | .addService s e _ =>
    inferInstanceAs (Decidable (s.name ∈ d.services.map Service.name ∨ e.LacksPort t))
  | .addVolume .. | .addNetwork .. => isFalse id

/-- What a call makes of the definition of a target. -/
def apply (t : Target) (d : Definition) : Call → Definition
  | .addService s e _ => { d with services := d.services ++ [s.deployed e t] }
  | .addVolume name _ => { d with volumes := addName name d.volumes }
  | .addNetwork name _ => { d with networks := addName name d.networks }

/-- A call with texts that can be written. -/
def IsWritable : Call → Prop
  | .addService s e _ => s.IsRenderable ∧ ∀ name ∈ e.subDomain, Yaml.IsWritable name
  | .addVolume name _ | .addNetwork name _ => (Value.text name).isKey = true

end Call

theorem Definition.isSome_service? {d : Definition} {name : Text} :
    (d.service? name).isSome = true ↔ name ∈ d.services.map Service.name := by
  simp [Definition.service?, List.find?_isSome]

/-- A call changes a definition unless it is blocked there. -/
theorem Call.change_eq_ok {l : Layout} {c : Call} (hc : ¬ c.IsReserved) {t : Target}
    {d d' : Definition} : c.change l t d = .ok d' ↔ ¬ c.Blocked t d ∧ d' = c.apply t d := by
  cases c with
  | addVolume name only => simp [change, Blocked, apply, eq_comm]
  | addNetwork name only => simp [change, Blocked, apply, eq_comm]
  | addService s e only =>
    simp only [change, Definition.addService, Blocked, apply, Definition.isSome_service?]
    by_cases hname : s.name ∈ d.services.map Service.name
    · simp [hname]
    · by_cases hport : e.LacksPort t
      · simp [hname, hport, s.exposed_of_lacksPort hport]
      · simp [hname, hport, s.exposed_of_not_lacksPort hc hport, eq_comm]

namespace Definition.IsRenderable

theorem isKey_addName {name : Text} (hname : (Value.text name).isKey = true) {names : List Text}
    (h : ∀ n ∈ names, (Value.text n).isKey = true) :
    ∀ n ∈ addName name names, (Value.text n).isKey = true := by
  rw [addName]
  split
  · exact h
  · exact List.forall_mem_append.2 ⟨h, List.forall_mem_singleton.2 hname⟩

theorem nodup_addName (name : Text) {names : List Text} (h : names.Nodup) :
    (addName name names).Nodup := by
  rw [addName]
  split
  · exact h
  · next hnew =>
    rw [List.perm_append_comm.nodup_iff]
    exact List.nodup_cons.2 ⟨by simpa using hnew, h⟩

/-- What a call makes of a definition can be written. -/
theorem apply {d : Definition} (h : d.IsRenderable) {c : Call} (hc : c.IsWritable) {t : Target}
    (hblocked : ¬ c.Blocked t d) : (c.apply t d).IsRenderable := by
  cases c with
  | addVolume name only =>
    exact
      { h with
        volumes := isKey_addName hc h.volumes
        volumeNames := nodup_addName name h.volumeNames }
  | addNetwork name only =>
    exact
      { h with
        networks := isKey_addName hc h.networks
        networkNames := nodup_addName name h.networkNames }
  | addService s e only =>
    have hnew : s.name ∉ d.services.map Service.name := fun hmem => hblocked (.inl hmem)
    have hnames : ((d.services ++ [s.deployed e t]).map Service.name).Nodup := by
      rw [List.map_append, List.perm_append_comm.nodup_iff]
      exact List.nodup_cons.2 ⟨hnew, h.serviceNames⟩
    exact
      { h with
        services := List.forall_mem_append.2
          ⟨h.services, List.forall_mem_singleton.2 (hc.1.deployed hc.2 t)⟩
        serviceNames := hnames }

end Definition.IsRenderable

/-! ## One call -/

theorem Call.outcome_edit_of_isReserved {c : Call} (hc : c.IsReserved) (l : Layout) (d : Disk) :
    ∃ x, (c.edit l).outcome d = (.error x, d) := by
  cases c with
  | addVolume name only => cases hc
  | addNetwork name only => cases hc
  | addService s e only =>
    cases hcheck : checkSubDomain e.subDomain with
    | ok u => exact absurd hc (checkSubDomain_eq_ok.1 hcheck)
    | error x =>
      have hlook : (Edit.look fun _ => checkSubDomain e.subDomain).outcome d = (.error x, d) := by
        rw [Edit.outcome_look, hcheck]
      exact ⟨x, Edit.outcome_bind_of_error d hlook _⟩

theorem Call.outcome_edit {c : Call} (hc : ¬ c.IsReserved) (l : Layout) (d : Disk) :
    (c.edit l).outcome d = (Compose.edit l c.only (c.change l)).outcome d := by
  cases c with
  | addVolume name only => rfl
  | addNetwork name only => rfl
  | addService s e only =>
    have hlook : (Edit.look fun _ => checkSubDomain e.subDomain).outcome d = (.ok (), d) := by
      rw [Edit.outcome_look, checkSubDomain_eq_ok.2 hc]
    exact Edit.outcome_bind_of_ok d hlook _

/-- A call is refused, on a disk that it has not touched, if its sub-domain is reserved or it is
blocked for one of its targets; otherwise it changes the definitions of its targets. -/
theorem StandIn.outcome_call {l : Layout} {dir : Location} {d : Disk} (h : StandIn l dir d)
    (c : Call) :
    (c.IsReserved ∨ ∃ t ∈ c.targets, ∀ D, definition l t d = .ok D → c.Blocked t D) ∧
        (∃ y, (c.edit l).outcome d = (.error y, d)) ∨
      ¬ c.IsReserved ∧ ∃ new : Target → Definition,
        (∀ t ∈ c.targets, ∃ D, definition l t d = .ok D ∧ ¬ c.Blocked t D ∧ new t = c.apply t D) ∧
        ∃ cs e, (c.edit l).outcome d = (.ok cs, e) ∧
          Saved dir c.targets (fun t => (new t).render) d e := by
  by_cases hc : c.IsReserved
  · exact .inl ⟨.inl hc, c.outcome_edit_of_isReserved hc l d⟩
  rw [Call.outcome_edit hc]
  obtain ⟨⟨t, ht, x, hx⟩, hrefused⟩ | ⟨new, hnew, hsaved⟩ := h.outcome_edit c.only (c.change l)
  · refine .inl ⟨.inr ⟨t, ht, fun D hD => ?_⟩, hrefused⟩
    by_contra hblocked
    rw [bind_of_ok hD, (Call.change_eq_ok hc).2 ⟨hblocked, rfl⟩] at hx
    cases hx
  · refine .inr ⟨hc, new, fun t ht => ?_, hsaved⟩
    obtain ⟨D, hD, hchange⟩ := bind_eq_ok.1 (hnew t ht)
    obtain ⟨hblocked, heq⟩ := (Call.change_eq_ok hc).1 hchange
    exact ⟨D, hD, hblocked, heq⟩

end Scaffold.Compose
