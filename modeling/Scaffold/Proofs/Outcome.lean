import Mathlib.Data.List.Forall2
import Scaffold.Edit

/-!
# Outcomes

A computation that may fail succeeds exactly when its first part does and the rest does with its
result (`bind_eq_ok`), and one for each member of a list when all of them do (`mapM_eq_ok`).  An edit
that fails leaves what it has written (`Edit.outcome_bind`).
-/

namespace Scaffold

/-- The parts of a computation that succeeds. -/
theorem bind_eq_ok {ε α β : Type} {x : Except ε α} {f : α → Except ε β} {b : β} :
    x >>= f = .ok b ↔ ∃ a, x = .ok a ∧ f a = .ok b := by
  cases x with
  | error e => exact ⟨nofun, nofun⟩
  | ok a => exact ⟨fun h => ⟨a, rfl, h⟩, fun ⟨_, ha, h⟩ => Except.ok.inj ha ▸ h⟩

/-- The parts of a computation that succeeds and whose last step cannot fail. -/
theorem bind_pure_eq_ok {ε α β : Type} {x : Except ε α} {f : α → β} {b : β} :
    (x >>= fun a => pure (f a)) = .ok b ↔ ∃ a, x = .ok a ∧ f a = b := by
  rw [bind_eq_ok]
  exact exists_congr fun a => and_congr_right fun _ => ⟨Except.ok.inj, congrArg Except.ok⟩

theorem bind_of_ok {ε α β : Type} {x : Except ε α} {a : α} (h : x = .ok a) (f : α → Except ε β) :
    x >>= f = f a := by
  rw [h]
  rfl

/-! ## Lists -/

section

variable {ε α β : Type} {f : α → Except ε β} {as : List α}

theorem mapM_eq_ok {bs : List β} :
    as.mapM f = .ok bs ↔ List.Forall₂ (fun a b => f a = .ok b) as bs := by
  induction as generalizing bs with
  | nil =>
    rw [List.mapM_nil, List.forall₂_nil_left_iff]
    constructor
    · intro h
      exact (Except.ok.inj h).symm
    · rintro rfl
      rfl
  | cons a as ih =>
    rw [List.mapM_cons, bind_eq_ok, List.forall₂_cons_left_iff]
    constructor
    · rintro ⟨b, hb, h⟩
      obtain ⟨bs', hbs', hcons⟩ := bind_eq_ok.1 h
      exact ⟨b, bs', hb, ih.1 hbs', (Except.ok.inj hcons).symm⟩
    · rintro ⟨b, bs', hb, hbs', rfl⟩
      exact ⟨b, hb, bind_of_ok (ih.2 hbs') _⟩

theorem exists_of_mapM_eq_ok {bs : List β} (h : as.mapM f = .ok bs) {a : α} (ha : a ∈ as) :
    ∃ b ∈ bs, f a = .ok b := by
  have hall := mapM_eq_ok.1 h
  clear h
  induction hall with
  | nil => cases ha
  | cons hb _ ih =>
    rcases List.mem_cons.1 ha with rfl | ha
    · exact ⟨_, List.mem_cons_self, hb⟩
    · obtain ⟨b, hmem, hb⟩ := ih ha
      exact ⟨b, List.mem_cons_of_mem _ hmem, hb⟩

/-- A computation that succeeds for each member of a list. -/
theorem mapM_of_ok {g : α → β} (h : ∀ a ∈ as, f a = .ok (g a)) : as.mapM f = .ok (as.map g) := by
  rw [mapM_eq_ok, List.forall₂_map_right_iff, List.forall₂_same]
  exact h

/-- What is written of each member of a list is read back. -/
theorem mapM_map_of_ok {g : β → α} {bs : List β} (h : ∀ b ∈ bs, f (g b) = .ok b) :
    (bs.map g).mapM f = .ok bs := by
  rw [mapM_eq_ok, List.forall₂_map_left_iff, List.forall₂_same]
  exact h

/-- A computation that fails for a member of a list. -/
theorem mapM_of_error {a : α} (ha : a ∈ as) {x : ε} (h : f a = .error x) :
    ∃ y, as.mapM f = .error y := by
  induction as with
  | nil => cases ha
  | cons b as ih =>
    rw [List.mapM_cons]
    cases hb : f b with
    | error y => exact ⟨y, rfl⟩
    | ok c =>
      have hmem : a ∈ as := by
        refine (List.mem_cons.1 ha).resolve_left ?_
        rintro rfl
        rw [h] at hb
        cases hb
      obtain ⟨y, hy⟩ := ih hmem
      exact ⟨y, by rw [hy]; rfl⟩

end

namespace Edit

/-- What an edit answers and the disk that it leaves. -/
def outcome {α : Type} (e : Edit α) (d : Disk) : Except Fault α × Disk := e.run.run d

section

variable {α β : Type} (d : Disk)

theorem outcome_get_bind (f : Disk → Edit β) : (get >>= f).outcome d = (f d).outcome d := rfl

theorem outcome_look (read : Disk → Except Fault α) : (look read).outcome d = (read d, d) := by
  show (look.liftExcept (read d)).outcome d = _
  cases read d <;> rfl

theorem outcome_bind (e : Edit α) (f : α → Edit β) :
    (e >>= f).outcome d =
      match (e.outcome d).1 with
      | .ok a => (f a).outcome (e.outcome d).2
      | .error x => (.error x, (e.outcome d).2) := by
  show (ExceptT.bindCont f (e.outcome d).1).run (e.outcome d).2 = _
  cases (e.outcome d).1 <;> rfl

/-- The parts of an edit that succeeds. -/
theorem outcome_bind_eq_ok {e : Edit α} {f : α → Edit β} {b : β} {d' : Disk} :
    (e >>= f).outcome d = (.ok b, d') ↔
      ∃ a d₁, e.outcome d = (.ok a, d₁) ∧ (f a).outcome d₁ = (.ok b, d') := by
  rw [outcome_bind]
  cases he : e.outcome d with
  | mk answer d₁ =>
    cases answer with
    | error x => exact ⟨nofun, nofun⟩
    | ok a =>
      refine ⟨fun h => ⟨a, d₁, rfl, h⟩, fun ⟨a', d₁', hanswer, h⟩ => ?_⟩
      obtain ⟨hok, rfl⟩ := Prod.mk.inj hanswer
      obtain rfl := Except.ok.inj hok
      exact h

theorem outcome_bind_of_ok {e : Edit α} {a : α} {d' : Disk} (h : e.outcome d = (.ok a, d'))
    (f : α → Edit β) : (e >>= f).outcome d = (f a).outcome d' := by
  rw [outcome_bind, h]

theorem outcome_bind_of_error {e : Edit α} {x : Fault} {d' : Disk}
    (h : e.outcome d = (.error x, d')) (f : α → Edit β) :
    (e >>= f).outcome d = (.error x, d') := by
  rw [outcome_bind, h]

end

end Edit

end Scaffold
