import Scaffold.Compose.Routing

/-!
# Routing labels by kind

A routing label is a key, an equals sign and a value.  The key is the name of the service between
two fixed texts (`LabelKind.key`).  No text in front is the beginning of another one and no text
behind is the end of another one, so a key tells both its kind and its name, whatever dots or
endings the name has (`LabelKind.key_injective`).  The labels of a service are one for each kind
that its target and its sub-domain ask for (`routingLabels_eq`).
-/

namespace Scaffold.Compose

/-! ## Keys -/

/-- What a label says about a service, apart from the label that enables it. -/
inductive LabelKind where
  | rule
  | entrypoints
  | certificate
  | port
  | compress
  | regex
  | replacement
  | permanent
  | middlewares
  deriving DecidableEq, Repr

/-- Of two ends of a text one is an end of the other. -/
theorem suffix_or_suffix_of_append_eq {x y a b : Text} (h : x ++ a = y ++ b) :
    a <:+ b ∨ b <:+ a :=
  List.suffix_or_suffix_of_suffix (h ▸ List.suffix_append x a) (List.suffix_append y b)

namespace LabelKind

/-- What stands in front of the name in a key. -/
def lead : LabelKind → Text
  | rule | entrypoints | certificate | middlewares => "traefik.http.routers."
  | port => "traefik.http.services."
  | compress | regex | replacement | permanent => "traefik.http.middlewares."

/-- What stands behind the name in a key. -/
def tail : LabelKind → Text
  | rule => ".rule"
  | entrypoints => ".entrypoints"
  | certificate => ".tls.certresolver"
  | port => ".loadbalancer.server.port"
  | compress => "-compress.compress"
  | regex => "-www-redirect.redirectregex.regex"
  | replacement => "-www-redirect.redirectregex.replacement"
  | permanent => "-www-redirect.redirectregex.permanent"
  | middlewares => ".middlewares"

/-- The key of a label for a service. -/
def key (kind : LabelKind) (name : Text) : Text := kind.lead ++ name ++ kind.tail

theorem lead_eq_of_isPrefix {j k : LabelKind} (h : j.lead <+: k.lead) : j.lead = k.lead := by
  revert h
  cases j <;> cases k <;> decide

theorem eq_of_tail_isSuffix {j k : LabelKind} (h : j.tail <:+ k.tail) : j = k := by
  revert h
  cases j <;> cases k <;> decide

/-- What stands in front of a name ends at the same place in equal keys. -/
theorem lead_cancel {j k : LabelKind} {x y : Text} (h : j.lead ++ x = k.lead ++ y) :
    j.lead = k.lead ∧ x = y := by
  have hlead : j.lead = k.lead := by
    have hj : j.lead <+: k.lead ++ y := h ▸ List.prefix_append _ _
    rcases List.prefix_or_prefix_of_prefix hj (List.prefix_append _ _) with hpre | hpre
    · exact lead_eq_of_isPrefix hpre
    · exact (lead_eq_of_isPrefix hpre).symm
  rw [hlead] at h
  exact ⟨hlead, List.append_cancel_left h⟩

/-- A key tells its kind and its name. -/
theorem key_injective {j k : LabelKind} {n m : Text} (h : j.key n = k.key m) : j = k ∧ n = m := by
  rw [key, key, List.append_assoc, List.append_assoc] at h
  obtain ⟨-, h⟩ := lead_cancel h
  obtain rfl : j = k := by
    rcases suffix_or_suffix_of_append_eq h with hsuf | hsuf
    · exact eq_of_tail_isSuffix hsuf
    · exact (eq_of_tail_isSuffix hsuf).symm
  exact ⟨rfl, List.append_cancel_right h⟩

theorem key_ne_enable (kind : LabelKind) (name : Text) : kind.key name ≠ "traefik.enable" := by
  intro h
  have hlead : kind.lead <+: "traefik.enable".toList := by
    rw [← h, key, List.append_assoc]
    exact List.prefix_append _ _
  revert hlead
  cases kind <;> decide

theorem equals_notMem_key (kind : LabelKind) {name : Text} (h : '=' ∉ name) :
    '=' ∉ kind.key name := by
  have hlead : '=' ∉ kind.lead := by cases kind <;> decide
  have htail : '=' ∉ kind.tail := by cases kind <;> decide
  simp [key, h, hlead, htail]

/-- The labels of a service, in order. -/
def all (t : Target) (subDomain : Option Text) : List LabelKind :=
  [rule, entrypoints] ++ (if t.usesTls then [certificate] else []) ++ [port, compress] ++
    (if subDomain.isSome then [] else [regex, replacement, permanent]) ++ [middlewares]

theorem nodup_all (t : Target) (subDomain : Option Text) : (all t subDomain).Nodup := by
  rw [all]
  cases t.usesTls <;> cases subDomain.isSome <;> decide

end LabelKind

/-- The middlewares of a service. -/
def middlewareNames (name : Text) (subDomain : Option Text) : List Text :=
  (name ++ "-compress") :: if subDomain.isSome then [] else [name ++ "-www-redirect"]

section

variable (name : Text) (p : Nat) (t : Target) (root : Text) (subDomain : Option Text)

namespace LabelKind

/-- What a label says. -/
def value : LabelKind → Text
  | rule =>
    match subDomain with
    | some subDomain => hostRule (subDomain ++ '.' :: root)
    | none => hostRule root ++ " || " ++ hostRule ("www." ++ root)
  | entrypoints => if t.usesTls then "websecure" else "web"
  | certificate => certificateResolver
  | port => Text.ofNat p
  | compress | permanent => "true"
  | regex => "^" ++ ((if t.usesTls then "https" else "http" : Text) ++ "://www\\.(.*)")
  | replacement => (if t.usesTls then "https" else "http" : Text) ++ "://$$\x7b1\x7d"
  | middlewares => [','].intercalate (middlewareNames name subDomain)

/-- A label of a service. -/
def label (kind : LabelKind) : Text :=
  kind.key name ++ '=' :: kind.value name p t root subDomain

variable {name p t root subDomain}

/-- A label that is put together of other pieces. -/
theorem eq_label {kind : LabelKind} {l : Text} (middle front rest : Text)
    (hl : l = kind.lead ++ name ++ middle ++ rest)
    (hmiddle : middle = kind.tail ++ '=' :: front)
    (hvalue : front ++ rest = kind.value name p t root subDomain) :
    l = kind.label name p t root subDomain := by
  rw [hl, hmiddle, label, ← hvalue, key]
  simp

end LabelKind

/-- The labels in order. -/
theorem routingLabels_eq :
    routingLabels name p t root subDomain = "traefik.enable=true".toList ::
      (LabelKind.all t subDomain).map fun kind => kind.label name p t root subDomain := by
  unfold routingLabels
  extract_lets router compress redirect scheme entrypoint rule certificate middleware redirection
    middlewares head service
  have hrule : router ++ ".rule=" ++ rule = LabelKind.rule.label name p t root subDomain :=
    LabelKind.eq_label ".rule=" [] rule rfl (by decide) rfl
  have hentrypoints : router ++ ".entrypoints=" ++ entrypoint =
      LabelKind.entrypoints.label name p t root subDomain :=
    LabelKind.eq_label ".entrypoints=" [] entrypoint rfl (by decide) rfl
  have hcertificate : certificate = (if t.usesTls then [LabelKind.certificate] else []).map
      fun kind => kind.label name p t root subDomain := by
    unfold certificate
    split
    · have hlabel : router ++ ".tls.certresolver=" ++ certificateResolver =
          LabelKind.certificate.label name p t root subDomain :=
        LabelKind.eq_label ".tls.certresolver=" [] certificateResolver rfl (by decide) rfl
      rw [hlabel]
      rfl
    · rfl
  have hport : "traefik.http.services." ++ name ++ ".loadbalancer.server.port=" ++ Text.ofNat p =
      LabelKind.port.label name p t root subDomain :=
    LabelKind.eq_label ".loadbalancer.server.port=" [] (Text.ofNat p) rfl (by decide) rfl
  have hcompress : "traefik.http.middlewares." ++ compress ++ ".compress=true" =
      LabelKind.compress.label name p t root subDomain := by
    refine LabelKind.eq_label ("-compress" ++ ".compress=true") "true" [] ?_ (by decide)
      (List.append_nil _)
    simp only [compress, List.append_assoc, List.append_nil]
    rfl
  have hredirection : redirection =
      (if subDomain.isSome then [] else [LabelKind.regex, .replacement, .permanent]).map
        fun kind => kind.label name p t root subDomain := by
    have hregex : middleware ++ ".regex=^" ++ scheme ++ "://www\\.(.*)" =
        LabelKind.regex.label name p t root subDomain := by
      refine LabelKind.eq_label ("-www-redirect" ++ ".redirectregex" ++ ".regex=^") "^"
        (scheme ++ "://www\\.(.*)") ?_ (by decide) rfl
      simp only [middleware, redirect, List.append_assoc]
      rfl
    have hreplacement : middleware ++ ".replacement=" ++ scheme ++ "://$$\x7b1\x7d" =
        LabelKind.replacement.label name p t root subDomain := by
      refine LabelKind.eq_label ("-www-redirect" ++ ".redirectregex" ++ ".replacement=") []
        (scheme ++ "://$$\x7b1\x7d") ?_ (by decide) rfl
      simp only [middleware, redirect, List.append_assoc]
      rfl
    have hpermanent : middleware ++ ".permanent=true" =
        LabelKind.permanent.label name p t root subDomain := by
      refine LabelKind.eq_label ("-www-redirect" ++ ".redirectregex" ++ ".permanent=true") "true"
        [] ?_ (by decide) (List.append_nil _)
      simp only [middleware, redirect, List.append_assoc, List.append_nil]
      rfl
    unfold redirection
    split
    · rfl
    · rw [hregex, hreplacement, hpermanent]
      rfl
  have hmiddlewares : router ++ ".middlewares=" ++ middlewares =
      LabelKind.middlewares.label name p t root subDomain := by
    refine LabelKind.eq_label ".middlewares=" [] middlewares rfl (by decide) ?_
    show middlewares = [','].intercalate (middlewareNames name subDomain)
    unfold middlewares middlewareNames
    cases subDomain with
    | none =>
      show compress ++ ',' :: redirect = compress ++ ([','] ++ (redirect ++ []))
      rw [List.append_nil]
      rfl
    | some s => exact (List.append_nil _).symm
  unfold head service
  rw [hrule, hentrypoints, hcertificate, hport, hcompress, hredirection, hmiddlewares,
    LabelKind.all, List.map_append, List.map_append, List.map_append, List.map_append]
  rfl

end

end Scaffold.Compose
