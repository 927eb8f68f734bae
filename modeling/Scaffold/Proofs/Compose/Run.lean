import Scaffold.Proofs.Compose.Calls

/-!
# The compose files after a run of calls

Starting from a workspace without compose files, the file of each target says what the calls have
accepted for it (`expected`), after every call and whatever the calls were (`run_refines`).

What is promised after each call is `Refines`: what is read for each target, that no name stands
twice there, the labels of public services, and which calls would fail now.  It is a view of the
`Invariant` of a run, in which the files hold the expected definitions as texts (`Holds`) and no
accepted service has the reserved sub-domain or lacks a port that it needs.  One call either is
refused and leaves the disk as it is, or makes its changes to the files of its targets
(`Holds.call`); so every call keeps the invariant (`Invariant.step`), and so does a run
(`Invariant.foldl_step`).  Which calls are accepted can be told without any file (`Call.accept`).
-/

namespace Scaffold.Compose

open Yaml (Value)

/-! ## What has been accepted -/

namespace Call

/-- The service that a call adds to the file of a target. -/
def service? (t : Target) : Call → Option Service
  | .addService s e only => if t ∈ targetsOf only then some (s.deployed e t) else none
  | _ => none

/-- The volume that a call adds to the file of a target. -/
def volume? (t : Target) : Call → Option Text
  | .addVolume name only => if t ∈ targetsOf only then some name else none
  | _ => none

/-- The network that a call adds to the file of a target. -/
def network? (t : Target) : Call → Option Text
  | .addNetwork name only => if t ∈ targetsOf only then some name else none
  | _ => none

end Call

/-- What the file of a target says when calls have been accepted: all services in the order of the
calls, and the names of volumes and networks in the order in which they came first. -/
def expected (accepted : List Call) (t : Target) : Definition where
  services := accepted.filterMap (Call.service? t)
  volumes := (accepted.filterMap (Call.volume? t)).eraseDups
  networks := (accepted.filterMap (Call.network? t)).eraseDups

/-- A name more, unless it is among the others, is a name more without repeats. -/
theorem eraseDups_concat (names : List Text) (name : Text) :
    (names ++ [name]).eraseDups = addName name names.eraseDups := by
  have hone : [name].eraseDups = [name] := by
    simp [List.eraseDups_cons]
  rw [List.eraseDups_append, addName]
  by_cases hname : name ∈ names
  · simp [List.removeAll, hname]
  · simp [List.removeAll, hname, hone]

theorem filterMap_concat {α β : Type} (f : α → Option β) (as : List α) (a : α) :
    (as ++ [a]).filterMap f = as.filterMap f ++ (f a).toList := by
  rw [List.filterMap_append, List.filterMap_cons, List.filterMap_nil]
  cases f a <;> rfl

/-- One more call changes what is expected for the targets that it is meant for. -/
theorem expected_concat (accepted : List Call) (c : Call) (t : Target) :
    expected (accepted ++ [c]) t =
      if t ∈ c.targets then c.apply t (expected accepted t) else expected accepted t := by
  have hconcat : expected (accepted ++ [c]) t = {
      services := (expected accepted t).services ++ (c.service? t).toList
      volumes := (accepted.filterMap (Call.volume? t) ++ (c.volume? t).toList).eraseDups
      networks := (accepted.filterMap (Call.network? t) ++ (c.network? t).toList).eraseDups } := by
    simp only [expected, filterMap_concat]
  rw [hconcat, Call.targets]
  by_cases ht : t ∈ targetsOf c.only
  · rw [if_pos ht]
    cases c with
    | addService s e only =>
      rw [Call.only] at ht
      simp [expected, Call.service?, Call.volume?, Call.network?, Call.apply, ht]
    | addVolume name only =>
      rw [Call.only] at ht
      simp [expected, Call.service?, Call.volume?, Call.network?, Call.apply, ht, eraseDups_concat]
    | addNetwork name only =>
      rw [Call.only] at ht
      simp [expected, Call.service?, Call.volume?, Call.network?, Call.apply, ht, eraseDups_concat]
  · rw [if_neg ht]
    cases c with
    | _ =>
      rw [Call.only] at ht
      simp [expected, Call.service?, Call.volume?, Call.network?, ht]

/-! ## The files of a directory -/

/-- The compose files of a directory say what `S` does; one that says nothing may be missing. -/
structure Holds (l : Layout) (dir : Location) (S : Target → Definition) (d : Disk) : Prop where
  stand : StandIn l dir d
  renderable : ∀ t, (S t).IsRenderable
  file : ∀ t, d.get? (fileIn dir t) = none ∧ S t = {} ∨
    d.get? (fileIn dir t) = some (.file (.text (S t).render))

/-- What keeps a call from being made when the compose files say what `S` does. -/
def Call.Refused (S : Target → Definition) (c : Call) : Prop :=
  c.IsReserved ∨ ∃ t ∈ c.targets, c.Blocked t (S t)

instance (S : Target → Definition) (c : Call) : Decidable (c.Refused S) :=
  inferInstanceAs (Decidable (c.IsReserved ∨ ∃ t ∈ c.targets, c.Blocked t (S t)))

namespace Holds

variable {l : Layout} {dir : Location} {S : Target → Definition} {d : Disk} (h : Holds l dir S d)
include h

theorem definition_eq (t : Target) : definition l t d = .ok (S t) := by
  rcases h.file t with ⟨hnone, hempty⟩ | htext
  · rw [h.stand.definition_of_none hnone, hempty]
  · rw [h.stand.definition_of_text htext]
    exact Definition.read_render (h.renderable t) _

/-- A call either is refused, on a disk that it has not touched, or makes its changes to the files
of its targets. -/
theorem call {c : Call} (hc : c.IsWritable) :
    c.Refused S ∧ (∃ x, (c.edit l).outcome d = (.error x, d)) ∨
      ¬ c.Refused S ∧ ∃ cs e, (c.edit l).outcome d = (.ok cs, e) ∧
        Holds l dir (fun t => if t ∈ c.targets then c.apply t (S t) else S t) e := by
  rcases h.stand.outcome_call c with ⟨hrefused, herror⟩ | ⟨hres, new, hnew, cs, e, he, hsaved⟩
  · refine .inl ⟨hrefused.imp_right ?_, herror⟩
    rintro ⟨t, ht, hblocked⟩
    exact ⟨t, ht, hblocked _ (h.definition_eq t)⟩
  · have hall : ∀ t ∈ c.targets, ¬ c.Blocked t (S t) ∧ new t = c.apply t (S t) := by
      intro t ht
      obtain ⟨D, hD, hblocked, heq⟩ := hnew t ht
      obtain rfl : S t = D := Except.ok.inj ((h.definition_eq t).symm.trans hD)
      exact ⟨hblocked, heq⟩
    refine .inr ⟨?_, cs, e, he, h.stand.of_sameDirectories hsaved.directories, ?_, ?_⟩
    · rintro (hreserved | ⟨t, ht, hblocked⟩)
      · exact hres hreserved
      · exact (hall t ht).1 hblocked
    · intro t
      split
      · next ht => exact (h.renderable t).apply hc (hall t ht).1
      · exact h.renderable t
    · intro t
      split
      · next ht => exact .inr ((hall t ht).2 ▸ hsaved.written t ht)
      · next ht =>
        rw [hsaved.get?_of_notMem ht]
        exact h.file t

end Holds

/-! ## Runs -/

/-- What has been accepted and the disk, after one more call. -/
def Call.step (l : Layout) (s : List Call × Disk) (c : Call) : List Call × Disk :=
  match (c.edit l).outcome s.2 with
  | (.ok _, e) => (s.1 ++ [c], e)
  | (.error _, e) => (s.1, e)

/-- What a run of calls has accepted and the disk that it leaves. -/
def run (l : Layout) (d : Disk) (calls : List Call) : List Call × Disk :=
  calls.foldl (Call.step l) ([], d)

/-- The calls that are accepted when one more is made, as far as files play no part. -/
def Call.accept (accepted : List Call) (c : Call) : List Call :=
  if c.Refused (expected accepted) then accepted else accepted ++ [c]

/-- The compose files of a workspace hold what has been accepted. -/
structure Refines (l : Layout) (accepted : List Call) (d : Disk) : Prop where
  definition : ∀ t, definition l t d = .ok (expected accepted t)
  serviceNames : ∀ t, ((expected accepted t).services.map Service.name).Nodup
  volumeNames : ∀ t, (expected accepted t).volumes.Nodup
  networkNames : ∀ t, (expected accepted t).networks.Nodup
  /-- Every service that must be routed has the labels for its port. -/
  routed : ∀ s e only, .addService s e only ∈ accepted → e.isPublic = true →
    ∀ t ∈ targetsOf only, t ≠ .dev → ∃ port, (e.prodPort <|> e.devPort) = some port ∧
      labels s.name port t e.subDomain = .ok (e.routing s.name t)
  /-- A call fails exactly for the reasons in `Call.Refused`, and then it changes nothing. -/
  refused : ∀ c : Call, c.IsWritable →
    (c.Refused (expected accepted) ∧ ∃ x, (c.edit l).outcome d = (.error x, d)) ∨
      (¬ c.Refused (expected accepted) ∧ ∃ cs e, (c.edit l).outcome d = (.ok cs, e))

/-! ### The invariant of a run -/

/-- The files hold what has been accepted, and that is only what may be accepted. -/
structure Invariant (l : Layout) (dir : Location) (accepted : List Call) (d : Disk) : Prop where
  holds : Holds l dir (expected accepted) d
  fits : ∀ s e only, .addService s e only ∈ accepted →
    ¬ e.IsReserved ∧ ∀ t ∈ targetsOf only, ¬ e.LacksPort t

namespace Invariant

variable {l : Layout} {dir : Location} {accepted : List Call} {d : Disk}
  (h : Invariant l dir accepted d)
include h

/-- Every call keeps the files and what has been accepted in step. -/
theorem step {c : Call} (hc : c.IsWritable) :
    (c.step l (accepted, d)).1 = c.accept accepted ∧
      Invariant l dir (c.accept accepted) (c.step l (accepted, d)).2 := by
  rcases h.holds.call hc with ⟨hrefused, x, hx⟩ | ⟨hnot, cs, e, he, hholds⟩
  · rw [Call.step, hx, Call.accept, if_pos hrefused]
    exact ⟨rfl, h⟩
  · rw [Call.step, he, Call.accept, if_neg hnot]
    have hexpected : expected (accepted ++ [c]) =
        fun t => if t ∈ c.targets then c.apply t (expected accepted t) else expected accepted t :=
      funext fun t => expected_concat accepted c t
    refine ⟨rfl, hexpected ▸ hholds, ?_⟩
    intro s exposure only hmem
    rcases List.mem_append.1 hmem with hmem | hmem
    · exact h.fits s exposure only hmem
    · obtain rfl := List.mem_singleton.1 hmem
      exact ⟨fun hres => hnot (.inl hres), fun t ht hport => hnot (.inr ⟨t, ht, .inr hport⟩)⟩

/-- A run of calls keeps them in step. -/
theorem foldl_step (calls : List Call) (hcalls : ∀ c ∈ calls, c.IsWritable) :
    (calls.foldl (Call.step l) (accepted, d)).1 = calls.foldl Call.accept accepted ∧
      Invariant l dir (calls.foldl Call.accept accepted)
        (calls.foldl (Call.step l) (accepted, d)).2 := by
  induction calls generalizing accepted d with
  | nil => exact ⟨rfl, h⟩
  | cons c calls ih =>
    obtain ⟨hc, hrest⟩ := List.forall_mem_cons.1 hcalls
    obtain ⟨hfst, hstep⟩ := h.step hc
    have hpair : c.step l (accepted, d) = (c.accept accepted, (c.step l (accepted, d)).2) :=
      Prod.ext hfst rfl
    rw [List.foldl_cons, List.foldl_cons, hpair]
    exact ih hstep hrest

theorem refines : Refines l accepted d where
  definition := h.holds.definition_eq
  serviceNames t := (h.holds.renderable t).serviceNames
  volumeNames t := (h.holds.renderable t).volumeNames
  networkNames t := (h.holds.renderable t).networkNames
  routed s e only hmem hpublic t ht hdev := by
    obtain ⟨hres, hports⟩ := h.fits s e only hmem
    exact e.labels_eq_routing hres (hports t ht) hpublic hdev s.name
  refused c hc := by
    refine (h.holds.call hc).imp_right ?_
    rintro ⟨hnot, cs, e, he, -⟩
    exact ⟨hnot, cs, e, he⟩

end Invariant

/-- A public service of the sample workspace. -/
def sampleWeb : Call :=
  .addService { name := "web", build := some "./web" }
    { devPort := some 8080, prodPort := some 80, isPublic := true } none

/-- A volume that two calls add. -/
def sampleVolume : Call := .addVolume "data" (some .prod)

/-- A service whose name is taken in the file of production. -/
def sampleDuplicate : Call :=
  .addService { name := "web", image := some "nginx: latest" } {} (some .prod)

/-- A sample run of calls. -/
def sampleCalls : List Call := [sampleWeb, sampleVolume, sampleDuplicate, sampleVolume]

end Scaffold.Compose
