import Scaffold.Fault

/-!
# Routing labels

A public service is found from outside by a reverse proxy that reads the labels of the services.
The root domain of a deployment stands in its environment, so the labels refer to variables.
-/

namespace Scaffold.Compose

/-- The sub-domain that no service may have, because it leads to the root domain. -/
def reservedSubDomain : Text := "www"

/-- Who signs the certificates. -/
def certificateResolver : Text := "letsencrypt"

/-- The root domain of a target; nothing is routed in development. -/
def rootDomain? : Target → Option Text
  | .dev => none
  | .local => some "localhost"
  | .stage => some "$\x7bstage_root_domain\x7d"
  | .prod => some "$\x7bprod_root_domain\x7d"

/-- Refuses the reserved sub-domain in any letter case. -/
def checkSubDomain : Option Text → Except Fault Unit
  | some subDomain =>
    if Text.lower subDomain == reservedSubDomain then .error (.reservedSubDomain subDomain)
    else .ok ()
  | none => .ok ()

/-- A host as it stands in a rule. -/
def hostRule (host : Text) : Text := "Host(\x60" ++ host ++ "\x60)"

/-- The labels that route `name` below `root`.  Without a sub-domain the service answers on the root
domain, and on its `www.` name with a redirect. -/
def routingLabels (name : Text) (port : Nat) (target : Target) (root : Text)
    (subDomain : Option Text) : List Text :=
  let router : Text := "traefik.http.routers." ++ name
  let compress : Text := name ++ "-compress"
  let redirect : Text := name ++ "-www-redirect"
  let scheme : Text := if target.usesTls then "https" else "http"
  let entrypoint : Text := if target.usesTls then "websecure" else "web"
  let rule : Text :=
    match subDomain with
    | some subDomain => hostRule (subDomain ++ '.' :: root)
    | none => hostRule root ++ " || " ++ hostRule ("www." ++ root)
  let certificate : List Text :=
    if target.usesTls then [router ++ ".tls.certresolver=" ++ certificateResolver] else []
  let redirection : List Text :=
    if subDomain.isSome then []
    else
      let middleware : Text := "traefik.http.middlewares." ++ redirect ++ ".redirectregex"
      [middleware ++ ".regex=^" ++ scheme ++ "://www\\.(.*)",
        middleware ++ ".replacement=" ++ scheme ++ "://$$\x7b1\x7d",
        middleware ++ ".permanent=true"]
  let middlewares : Text := if subDomain.isSome then compress else compress ++ ',' :: redirect
  let head : List Text :=
    ["traefik.enable=true",
      router ++ ".rule=" ++ rule,
      router ++ ".entrypoints=" ++ entrypoint]
  let service : List Text :=
    ["traefik.http.services." ++ name ++ ".loadbalancer.server.port=" ++ Text.ofNat port,
      "traefik.http.middlewares." ++ compress ++ ".compress=true"]
  head ++ certificate ++ service ++ redirection ++ [router ++ ".middlewares=" ++ middlewares]

/-- The labels that route `name` for a target. -/
def labels (name : Text) (port : Nat) (target : Target) (subDomain : Option Text) :
    Except Fault (List Text) := do
  checkSubDomain subDomain
  match rootDomain? target with
  | none => return []
  | some root => return routingLabels name port target root subDomain

end Scaffold.Compose
