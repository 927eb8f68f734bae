import Scaffold.Proofs.Compose.Calls

/-!
# Keys of routing labels

The proxy reads the labels of all services together, by the key in front of the first equals sign.
A key tells its kind and its name.  Hence the labels of different services never meet, and the
router of a service names exactly the middlewares that its labels define (`labels_separate`).
-/

namespace Scaffold.Compose

/-! ## Reading labels -/

/-- The text of a label in front of the first equals sign. -/
def labelKey (label : Text) : Text := label.takeWhile (· != '=')

/-- The text of a label behind the first equals sign. -/
def labelValue (label : Text) : Text := (label.dropWhile (· != '=')).drop 1

/-- The router of a name uses a middleware. -/
def NamesMiddleware (name : Text) (ls : List Text) (middleware : Text) : Prop :=
  ∃ label ∈ ls, labelKey label = "traefik.http.routers." ++ name ++ ".middlewares" ∧
    middleware ∈ (labelValue label).splitOn ','

/-- What may be set for a middleware. -/
def middlewareSettings : List Text :=
  ["compress", "redirectregex.regex", "redirectregex.replacement", "redirectregex.permanent"]

/-- A label sets something for a middleware. -/
def SetsMiddleware (label middleware : Text) : Prop :=
  ∃ setting ∈ middlewareSettings,
    labelKey label = "traefik.http.middlewares." ++ middleware ++ '.' :: setting

theorem labelKey_append {key : Text} (h : '=' ∉ key) (value : Text) :
    labelKey (key ++ '=' :: value) = key := by
  rw [labelKey, List.takeWhile_append_of_pos]
  · simp
  · intro c hc
    simpa using fun heq : c = '=' => h (heq ▸ hc)

theorem labelValue_append {key : Text} (h : '=' ∉ key) (value : Text) :
    labelValue (key ++ '=' :: value) = value := by
  rw [labelValue, List.dropWhile_append_of_pos]
  · simp
  · intro c hc
    simpa using fun heq : c = '=' => h (heq ▸ hc)

theorem comma_notMem_middlewareNames {name : Text} (h : ',' ∉ name) (subDomain : Option Text) :
    ∀ m ∈ middlewareNames name subDomain, ',' ∉ m := by
  have hending {ending : Text} (he : ',' ∉ ending) : ',' ∉ name ++ ending :=
    fun hmem => (List.mem_append.1 hmem).elim h he
  rw [middlewareNames, List.forall_mem_cons]
  refine ⟨hending (by decide), ?_⟩
  split
  · exact List.forall_mem_nil _
  · exact List.forall_mem_singleton.2 (hending (by decide))

theorem eq_of_dotted_isSuffix {a b : Text} (ha : a ∈ middlewareSettings)
    (hb : b ∈ middlewareSettings) (h : '.' :: a <:+ '.' :: b) : a = b := by
  have hall : ∀ a ∈ middlewareSettings, ∀ b ∈ middlewareSettings,
      '.' :: a <:+ '.' :: b → a = b := by decide
  exact hall a ha b hb h

namespace LabelKind

/-- What a label sets for a middleware: the ending of its name and the setting. -/
def setting? : LabelKind → Option (Text × Text)
  | compress => some ("-compress", "compress")
  | regex => some ("-www-redirect", "redirectregex.regex")
  | replacement => some ("-www-redirect", "redirectregex.replacement")
  | permanent => some ("-www-redirect", "redirectregex.permanent")
  | _ => none

theorem isSome_setting? (kind : LabelKind) :
    kind.setting?.isSome = true ↔ kind.lead = compress.lead := by
  cases kind <;> decide

theorem tail_of_setting? {kind : LabelKind} {ending setting : Text}
    (h : kind.setting? = some (ending, setting)) :
    kind.tail = ending ++ '.' :: setting ∧ setting ∈ middlewareSettings := by
  cases kind <;> cases h <;> decide

/-- The middlewares of a service are those that its labels set something for. -/
theorem mem_middlewareNames_iff {name middleware : Text} {subDomain : Option Text} (t : Target) :
    middleware ∈ middlewareNames name subDomain ↔ ∃ kind ∈ all t subDomain,
      ∃ ending setting, kind.setting? = some (ending, setting) ∧ middleware = name ++ ending := by
  constructor
  · intro hmem
    rcases List.mem_cons.1 hmem with rfl | hmem
    · exact ⟨compress, by simp [all], _, _, rfl, rfl⟩
    · cases subDomain with
      | none =>
        obtain rfl := List.mem_singleton.1 hmem
        exact ⟨regex, by simp [all], _, _, rfl, rfl⟩
      | some s => cases hmem
  · rintro ⟨kind, hkind, ending, setting, hsetting, rfl⟩
    have hredirect (hending : ending = "-www-redirect") (hnot : kind ∉ all t (some [])) :
        name ++ ending ∈ middlewareNames name subDomain := by
      cases subDomain with
      | none => exact List.mem_cons_of_mem _ (List.mem_singleton.2 (hending ▸ rfl))
      | some s => exact absurd hkind hnot
    cases kind <;> cases hsetting
    · exact List.mem_cons_self
    · exact hredirect rfl (by cases t <;> decide)
    · exact hredirect rfl (by cases t <;> decide)
    · exact hredirect rfl (by cases t <;> decide)

end LabelKind

theorem not_setsMiddleware_enable (middleware : Text) :
    ¬ SetsMiddleware "traefik.enable=true" middleware := by
  rintro ⟨setting, -, hkey⟩
  have hlead : "traefik.http.middlewares.".toList <+: labelKey "traefik.enable=true" := by
    rw [hkey, List.append_assoc]
    exact List.prefix_append _ _
  exact absurd hlead (by decide)

section

variable {name : Text} (hname : '=' ∉ name)
include hname

theorem LabelKind.labelKey_label (kind : LabelKind) (p : Nat) (t : Target) (root : Text)
    (subDomain : Option Text) : labelKey (kind.label name p t root subDomain) = kind.key name :=
  labelKey_append (kind.equals_notMem_key hname) _

variable (p : Nat) (t : Target) (root : Text) (subDomain : Option Text)

theorem map_labelKey_routingLabels :
    (routingLabels name p t root subDomain).map labelKey =
      "traefik.enable".toList :: (LabelKind.all t subDomain).map (·.key name) := by
  rw [routingLabels_eq, List.map_cons, List.map_map]
  refine congrArg₂ _ (by decide) (List.map_congr_left fun kind _ => ?_)
  exact kind.labelKey_label hname p t root subDomain

/-- No key stands twice. -/
theorem nodup_labelKey_routingLabels :
    ((routingLabels name p t root subDomain).map labelKey).Nodup := by
  rw [map_labelKey_routingLabels hname, List.nodup_cons]
  refine ⟨fun hmem => ?_, (LabelKind.nodup_all t subDomain).map fun _ _ h => ?_⟩
  · obtain ⟨kind, -, hkey⟩ := List.mem_map.1 hmem
    exact kind.key_ne_enable name hkey
  · exact (LabelKind.key_injective h).1

/-- The label of the router lists the middlewares of the service. -/
theorem namesMiddleware_routingLabels (hcomma : ',' ∉ name) (middleware : Text) :
    NamesMiddleware name (routingLabels name p t root subDomain) middleware ↔
      middleware ∈ middlewareNames name subDomain := by
  have hsplit : (labelValue (LabelKind.middlewares.label name p t root subDomain)).splitOn ',' =
      middlewareNames name subDomain := by
    rw [LabelKind.label, labelValue_append (LabelKind.middlewares.equals_notMem_key hname)]
    exact List.splitOn_intercalate ',' (comma_notMem_middlewareNames hcomma subDomain)
      (List.cons_ne_nil _ _)
  rw [NamesMiddleware, routingLabels_eq]
  constructor
  · rintro ⟨label, hlabel, hkey, hmem⟩
    rcases List.mem_cons.1 hlabel with rfl | hlabel
    · exact absurd (hkey.symm.trans (by decide)) (LabelKind.middlewares.key_ne_enable name)
    obtain ⟨kind, -, rfl⟩ := List.mem_map.1 hlabel
    rw [kind.labelKey_label hname] at hkey
    obtain ⟨rfl, -⟩ := LabelKind.key_injective (k := .middlewares) hkey
    rwa [hsplit] at hmem
  · intro hmem
    have hlast : LabelKind.middlewares ∈ LabelKind.all t subDomain := by simp [LabelKind.all]
    exact ⟨_, List.mem_cons_of_mem _ (List.mem_map_of_mem hlast),
      LabelKind.middlewares.labelKey_label hname p t root subDomain, hsplit.symm ▸ hmem⟩

/-- A label sets something for the middleware of its kind. -/
theorem setsMiddleware_label (kind : LabelKind) (middleware : Text) :
    SetsMiddleware (kind.label name p t root subDomain) middleware ↔
      ∃ ending setting, kind.setting? = some (ending, setting) ∧ middleware = name ++ ending := by
  rw [SetsMiddleware, kind.labelKey_label hname]
  constructor
  · rintro ⟨setting, hsetting, hkey⟩
    rw [LabelKind.key, List.append_assoc, List.append_assoc] at hkey
    obtain ⟨hlead, hrest⟩ := LabelKind.lead_cancel (k := .compress) hkey
    obtain ⟨⟨ending, setting'⟩, hkind⟩ := Option.isSome_iff_exists.1 (kind.isSome_setting?.2 hlead)
    obtain ⟨htail, hsetting'⟩ := LabelKind.tail_of_setting? hkind
    rw [htail, ← List.append_assoc] at hrest
    obtain rfl : setting' = setting := by
      rcases suffix_or_suffix_of_append_eq hrest with hsuf | hsuf
      · exact eq_of_dotted_isSuffix hsetting' hsetting hsuf
      · exact (eq_of_dotted_isSuffix hsetting hsetting' hsuf).symm
    exact ⟨ending, setting', hkind, (List.append_cancel_right hrest).symm⟩
  · rintro ⟨ending, setting, hkind, rfl⟩
    obtain ⟨htail, hsetting⟩ := LabelKind.tail_of_setting? hkind
    have hlead : kind.lead = LabelKind.compress.lead := kind.isSome_setting?.1 (by rw [hkind]; rfl)
    refine ⟨setting, hsetting, ?_⟩
    rw [LabelKind.key, htail, hlead]
    simp only [List.append_assoc]
    rfl

/-- The labels define the middlewares of the service. -/
theorem exists_setsMiddleware_routingLabels (middleware : Text) :
    (∃ label ∈ routingLabels name p t root subDomain, SetsMiddleware label middleware) ↔
      middleware ∈ middlewareNames name subDomain := by
  rw [LabelKind.mem_middlewareNames_iff t, routingLabels_eq]
  constructor
  · rintro ⟨label, hlabel, hsets⟩
    rcases List.mem_cons.1 hlabel with rfl | hlabel
    · exact absurd hsets (not_setsMiddleware_enable middleware)
    obtain ⟨kind, hkind, rfl⟩ := List.mem_map.1 hlabel
    exact ⟨kind, hkind, (setsMiddleware_label hname p t root subDomain kind middleware).1 hsets⟩
  · rintro ⟨kind, hkind, hsetting⟩
    exact ⟨_, List.mem_cons_of_mem _ (List.mem_map_of_mem hkind),
      (setsMiddleware_label hname p t root subDomain kind middleware).2 hsetting⟩

/-- A label about a middleware sets something for one. -/
theorem exists_setsMiddleware_of_isPrefix {label : Text}
    (hlabel : label ∈ routingLabels name p t root subDomain)
    (hpre : "traefik.http.middlewares.".toList <+: labelKey label) :
    ∃ middleware, SetsMiddleware label middleware := by
  rw [routingLabels_eq] at hlabel
  rcases List.mem_cons.1 hlabel with rfl | hlabel
  · exact absurd hpre (by decide)
  obtain ⟨kind, -, rfl⟩ := List.mem_map.1 hlabel
  rw [kind.labelKey_label hname, LabelKind.key, List.append_assoc] at hpre
  have hlead : kind.lead = LabelKind.compress.lead := by
    rcases List.prefix_or_prefix_of_prefix hpre (List.prefix_append _ _) with hpre | hpre
    · exact (LabelKind.lead_eq_of_isPrefix (j := .compress) hpre).symm
    · exact LabelKind.lead_eq_of_isPrefix (k := .compress) hpre
  obtain ⟨⟨ending, setting⟩, hkind⟩ := Option.isSome_iff_exists.1 (kind.isSome_setting?.2 hlead)
  exact ⟨_, (setsMiddleware_label hname p t root subDomain kind _).2 ⟨ending, setting, hkind, rfl⟩⟩

end

/-! ## Labels of services -/

/-- The keys of a service are those of its labels, none in development. -/
theorem exists_labels_eq {name : Text} (hname : '=' ∉ name) (p : Nat) (t : Target)
    {subDomain : Option Text} (hsub : ∀ s ∈ subDomain, Text.lower s ≠ reservedSubDomain) :
    ∃ ls, labels name p t subDomain = .ok ls ∧
      (ls = [] ∨ ∃ root, ls = routingLabels name p t root subDomain) ∧
      ∀ key ∈ ls.map labelKey, key = "traefik.enable" ∨ ∃ kind : LabelKind, key = kind.key name := by
  have hreserved : ¬ Exposure.IsReserved { subDomain := subDomain } :=
    fun ⟨s, hs, hlower⟩ => hsub s hs hlower
  refine ⟨_, labels_eq hreserved name p t, ?_⟩
  cases rootDomain? t with
  | none => exact ⟨.inl rfl, fun _ hkey => by cases hkey⟩
  | some root =>
    refine ⟨.inr ⟨root, rfl⟩, fun key hkey => ?_⟩
    rw [Option.elim_some, map_labelKey_routingLabels hname] at hkey
    refine (List.mem_cons.1 hkey).imp_right fun hkey => ?_
    obtain ⟨kind, -, rfl⟩ := List.mem_map.1 hkey
    exact ⟨kind, rfl⟩

/-- Only the key that enables a service is a key of two. -/
theorem eq_enable_of_shared {name other key : Text} (hne : other ≠ name)
    (h : key = "traefik.enable" ∨ ∃ kind : LabelKind, key = kind.key name)
    (h' : key = "traefik.enable" ∨ ∃ kind : LabelKind, key = kind.key other) :
    key = "traefik.enable" := by
  obtain rfl | ⟨kind, rfl⟩ := h
  · rfl
  · obtain heq | ⟨kind', hsame⟩ := h'
    · exact heq
    · exact absurd (LabelKind.key_injective hsame).2.symm hne

/-- A service that may be routed has labels with distinct keys, and no key but the one that enables
it is a key of another service, whatever ports, targets and sub-domains the two have.  Unless its
name holds a comma, its router names exactly the middlewares that its labels define. -/
theorem labels_separate {name : Text} (hname : '=' ∉ name) (p : Nat) (t : Target)
    {subDomain : Option Text} (hsub : ∀ s ∈ subDomain, Text.lower s ≠ reservedSubDomain) :
    ∃ ls, labels name p t subDomain = .ok ls ∧ (ls.map labelKey).Nodup ∧
      (',' ∉ name → ∀ middleware, NamesMiddleware name ls middleware ↔
        ∃ label ∈ ls, SetsMiddleware label middleware) ∧
      (∀ label ∈ ls, "traefik.http.middlewares.".toList <+: labelKey label →
        ∃ middleware, SetsMiddleware label middleware) ∧
      ∀ other, other ≠ name → '=' ∉ other → ∀ (q : Nat) (u : Target) (subDomain' : Option Text),
        (∀ s ∈ subDomain', Text.lower s ≠ reservedSubDomain) →
        ∃ ls', labels other q u subDomain' = .ok ls' ∧
          ∀ key ∈ ls.map labelKey, key ∈ ls'.map labelKey → key = "traefik.enable" := by
  obtain ⟨ls, hls, hcases, hkeys⟩ := exists_labels_eq hname p t hsub
  refine ⟨ls, hls, ?_⟩
  have hapart : ∀ other, other ≠ name → '=' ∉ other →
      ∀ (q : Nat) (u : Target) (subDomain' : Option Text),
      (∀ s ∈ subDomain', Text.lower s ≠ reservedSubDomain) →
      ∃ ls', labels other q u subDomain' = .ok ls' ∧
        ∀ key ∈ ls.map labelKey, key ∈ ls'.map labelKey → key = "traefik.enable" := by
    intro other hne hother q u subDomain' hsub'
    obtain ⟨ls', hls', -, hkeys'⟩ := exists_labels_eq hother q u hsub'
    exact ⟨ls', hls', fun key hkey hkey' => eq_enable_of_shared hne (hkeys key hkey) (hkeys' key hkey')⟩
  obtain rfl | ⟨root, rfl⟩ := hcases
  · have hnone {P : Text → Prop} : ¬ ∃ label ∈ ([] : List Text), P label := by simp
    exact ⟨List.nodup_nil, fun _ _ => iff_of_false hnone hnone, List.forall_mem_nil _, hapart⟩
  · refine ⟨nodup_labelKey_routingLabels hname p t root subDomain, fun hcomma middleware => ?_,
      fun _ => exists_setsMiddleware_of_isPrefix hname p t root subDomain, hapart⟩
    rw [namesMiddleware_routingLabels hname p t root subDomain hcomma,
      exists_setsMiddleware_routingLabels hname p t root subDomain]

/-- A service whose name looks like a middleware of another one. -/
theorem labels_separate_sample :
    ∃ ls ls', labels "a" 80 .prod none = .ok ls ∧
      labels "a-compress.compress" 80 .local (some "www2") = .ok ls' ∧ ls.length = 10 ∧
      (∀ key ∈ ls.map labelKey, key ∈ ls'.map labelKey → key = "traefik.enable") ∧
      NamesMiddleware "a" ls "a-www-redirect" ∧
      ∃ label ∈ ls, SetsMiddleware label "a-www-redirect" := by
  obtain ⟨ls, hls, -, hnamed, -, hapart⟩ := @labels_separate "a" (by decide) 80 .prod none nofun
  obtain ⟨ls', hls', hkeys⟩ := hapart "a-compress.compress" (by decide) (by decide) 80 .local
    (some "www2") (by decide)
  have hrouting : labels "a" 80 .prod none =
      .ok (routingLabels "a" 80 .prod "$\x7bprod_root_domain\x7d" none) := rfl
  obtain rfl := Except.ok.inj (hls.symm.trans hrouting)
  have hnames : NamesMiddleware "a" (routingLabels "a" 80 .prod "$\x7bprod_root_domain\x7d" none)
      "a-www-redirect" :=
    (namesMiddleware_routingLabels (by decide) 80 .prod _ none (by decide) _).2 (by decide)
  exact ⟨_, ls', hls, hls', rfl, hkeys, hnames, (hnamed (by decide) _).1 hnames⟩

end Scaffold.Compose
