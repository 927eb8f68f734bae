import Scaffold.Proofs.Env.Files

/-!
# What everyone may see of a disk

Two disks look the same from outside when they differ at most in the values of environment files
(`SamePublic`): the keys of these files and all other files agree.  Edits that agree on such disks
(`SameEdit`) are put together like edits (`SameEdit.bind`), and all that is written by an edit of
the environment keeps such disks the same (`SameEdit.writeIfChanged`, `SameEdit.writeEnvFile`).
-/

namespace Scaffold.Env

/-! ## Disks -/

/-- Texts of environment files with the same keys in the same order. -/
def SameKeys (t u : Text) : Prop := (DotEnv.ofText t).keys = (DotEnv.ofText u).keys

theorem SameKeys.contains_eq {t u : Text} (h : SameKeys t u) (key : Text) :
    (DotEnv.ofText u).contains key = (DotEnv.ofText t).contains key := by
  rw [DotEnv.contains, DotEnv.contains, h]

/-- Disks that differ at most in the values of environment files. -/
structure SamePublic (d e : Disk) : Prop where
  home : e.home = d.home
  entry : ∀ m, e.get? m = d.get? m ∨ (∃ l, m = l ++ [EnvFile.name .env]) ∧
    ∃ t u, d.get? m = some (.file (.text t)) ∧ e.get? m = some (.file (.text u)) ∧ SameKeys t u

/-- The path of a file that is no environment file. -/
def IsPublicFile (p : Path) : Prop :=
  ∃ name, p.EndsIn name ∧ Disk.IsFileName name ∧ name ≠ EnvFile.name .env

namespace SamePublic

theorem refl (d : Disk) : SamePublic d d := ⟨rfl, fun _ => .inl rfl⟩

variable {d e : Disk} (h : SamePublic d e)
include h

theorem symm : SamePublic e d where
  home := h.home.symm
  entry m := by
    obtain heq | ⟨hname, t, u, ht, hu, hkeys⟩ := h.entry m
    · exact .inl heq.symm
    · exact .inr ⟨hname, u, t, hu, ht, hkeys.symm⟩

theorem sameDirectories : Disk.SameDirectories d e where
  home := h.home
  directory l := by
    obtain heq | ⟨-, t, u, ht, hu, -⟩ := h.entry l
    · rw [heq]
    · exact iff_of_false (by simp [hu]) (by simp [ht])

theorem locate?_eq (p : Path) : e.locate? p = d.locate? p := h.sameDirectories.locate?_eq p

/-- A path leads to the same thing on both disks, or to an environment file with the same keys. -/
theorem entryAt?_cases (p : Path) : e.entryAt? p = d.entryAt? p ∨
    ∃ l t u, d.locate? p = some (l ++ [EnvFile.name .env]) ∧
      d.entryAt? p = some (.file (.text t)) ∧ e.entryAt? p = some (.file (.text u)) ∧
      SameKeys t u := by
  rw [Disk.entryAt?, Disk.entryAt?, h.locate?_eq]
  cases hlocate : d.locate? p with
  | none => exact .inl rfl
  | some m =>
    obtain heq | ⟨⟨l, rfl⟩, t, u, ht, hu, hkeys⟩ := h.entry m
    · exact .inl heq
    · exact .inr ⟨l, t, u, rfl, ht, hu, hkeys⟩

theorem contains_eq (p : Path) : e.contains p = d.contains p := by
  rw [Disk.contains, Disk.contains]
  obtain heq | ⟨-, t, u, -, ht, hu, -⟩ := h.entryAt?_cases p
  · rw [heq]
  · rw [ht, hu]
    rfl

/-- A file that is no environment file is the same on both disks. -/
theorem entryAt?_eq {p : Path} (hp : IsPublicFile p) : e.entryAt? p = d.entryAt? p := by
  obtain ⟨name, hp, hn, hname⟩ := hp
  refine (h.entryAt?_cases p).resolve_right ?_
  rintro ⟨l, t, u, hlocate, -⟩
  obtain ⟨k, hk⟩ := Disk.eq_concat_of_locate? hp hn hlocate
  exact hname (List.cons.inj (List.append_inj' hk rfl).2).1.symm

/-- Putting the same thing at one location of both disks. -/
theorem put {l : Location} (hl : l ≠ []) (entry : DiskEntry) :
    SamePublic (d.put l entry) (e.put l entry) where
  home := h.home
  entry m := by
    rw [Disk.get?_put d m entry hl, Disk.get?_put e m entry hl]
    cases m == l
    · exact h.entry m
    · exact .inl rfl

/-- Writing an environment file of both disks, with the same keys. -/
theorem of_writes {l : Location} {t u : Text} (hkeys : SameKeys t u) {d' e' : Disk}
    (hd : d.Writes (l ++ [EnvFile.name .env]) (.text t) d')
    (he : e.Writes (l ++ [EnvFile.name .env]) (.text u) e') : SamePublic d' e' where
  home := he.home.trans (h.home.trans hd.home.symm)
  entry m := by
    rw [hd.get?_eq, he.get?_eq]
    by_cases hm : m = l ++ [EnvFile.name .env]
    · rw [if_pos hm, if_pos hm]
      exact .inr ⟨⟨l, hm⟩, t, u, rfl, rfl, hkeys⟩
    · rw [if_neg hm, if_neg hm]
      exact h.entry m

/-! ## Directories -/

/-- A directory is made on both disks or on neither. -/
theorem makeDirectory? (p : Path) :
    (d.makeDirectory? p = none ∧ e.makeDirectory? p = none) ∨
      ∃ d' e', d.makeDirectory? p = some d' ∧ e.makeDirectory? p = some e' ∧ SamePublic d' e' := by
  unfold Disk.makeDirectory?
  rw [h.locate?_eq]
  cases d.locate? p with
  | none => exact .inl ⟨rfl, rfl⟩
  | some m =>
    simp only [Option.bind_eq_bind, Option.bind_some]
    obtain heq | ⟨-, t, u, ht, hu, -⟩ := h.entry m
    · rw [heq]
      cases hget : d.get? m with
      | some entry =>
        cases entry with
        | directory => exact .inr ⟨d, e, rfl, rfl, h⟩
        | file => exact .inl ⟨rfl, rfl⟩
      | none =>
        have hm : m ≠ [] := by
          rintro rfl
          cases hget
        exact .inr ⟨_, _, rfl, rfl, h.put hm .directory⟩
    · rw [ht, hu]
      exact .inl ⟨rfl, rfl⟩

theorem makeDirectories_go (n : Nat) (p : Path) :
    (Disk.makeDirectories.go n p d).1 = (Disk.makeDirectories.go n p e).1 ∧
      SamePublic (Disk.makeDirectories.go n p d).2 (Disk.makeDirectories.go n p e).2 := by
  induction n generalizing p d e with
  | zero => exact ⟨rfl, h⟩
  | succ n ih =>
    rw [Disk.makeDirectories.go, Disk.makeDirectories.go]
    obtain ⟨hd, he⟩ | ⟨d', e', hd, he, h'⟩ := h.makeDirectory? p
    · rw [hd, he]
      cases p.parent? with
      | none => exact ⟨rfl, h⟩
      | some parent =>
        simp only
        by_cases hstop : (!Disk.isUsable p || parent.text.isEmpty) = true
        · rw [if_pos hstop, if_pos hstop]
          exact ⟨rfl, h⟩
        · rw [if_neg hstop, if_neg hstop]
          obtain ⟨hmade, hparent⟩ := ih h parent
          simp only [hmade]
          obtain ⟨hd, he⟩ | ⟨d', e', hd, he, h'⟩ := hparent.makeDirectory? p
          · rw [hd, he]
            cases (Disk.makeDirectories.go n parent e).1 <;> exact ⟨rfl, hparent⟩
          · rw [hd, he]
            cases (Disk.makeDirectories.go n parent e).1
            · exact ⟨rfl, hparent⟩
            · exact ⟨rfl, h'⟩
    · rw [hd, he]
      exact ⟨rfl, h'⟩

end SamePublic

/-! ## Edits -/

/-- Both results are faults, or both are values, related ones. -/
def SameResult {α β : Type} (R : α → β → Prop) : Except Fault α → Except Fault β → Prop
  | .ok a, .ok b => R a b
  | .error _, .error _ => True
  | _, _ => False

theorem SameResult.isOk_eq {α β : Type} {R : α → β → Prop} {x : Except Fault α}
    {y : Except Fault β} (h : SameResult R x y) : x.isOk = y.isOk := by
  cases x <;> cases y <;> first | rfl | exact h.elim

/-- Edits that agree on disks that differ at most in the values of environment files. -/
def SameEdit {α β : Type} (R : α → β → Prop) (x : Edit α) (y : Edit β) : Prop :=
  ∀ d e, SamePublic d e → SameResult R (x.outcome d).1 (y.outcome e).1 ∧
    SamePublic (x.outcome d).2 (y.outcome e).2

namespace SameEdit

variable {α β γ δ : Type} {R : α → β → Prop} {S : γ → δ → Prop}

theorem bind {x : Edit α} {y : Edit β} {f : α → Edit γ} {g : β → Edit δ} (h : SameEdit R x y)
    (hrest : ∀ a b, R a b → SameEdit S (f a) (g b)) : SameEdit S (x >>= f) (y >>= g) := by
  intro d e hde
  rw [Edit.outcome_bind, Edit.outcome_bind]
  obtain ⟨hresult, hdisks⟩ := h d e hde
  generalize (x.outcome d).1 = result at hresult ⊢
  generalize (y.outcome e).1 = result' at hresult ⊢
  match result, result', hresult with
  | .ok a, .ok b, hab => exact hrest a b hab _ _ hdisks
  | .error _, .error _, _ => exact ⟨trivial, hdisks⟩

/-- Results that agree also agree less. -/
theorem mono {x : Edit α} {y : Edit β} (h : SameEdit R x y) {S : α → β → Prop}
    (hRS : ∀ a b, R a b → S a b) : SameEdit S x y := by
  intro d e hde
  obtain ⟨hresult, hdisks⟩ := h d e hde
  refine ⟨?_, hdisks⟩
  generalize (x.outcome d).1 = result at hresult ⊢
  generalize (y.outcome e).1 = result' at hresult ⊢
  match result, result', hresult with
  | .ok a, .ok b, hab => exact hRS a b hab
  | .error _, .error _, _ => exact trivial

theorem pure {a : α} {b : β} (h : R a b) : SameEdit R (Pure.pure a : Edit α) (Pure.pure b) :=
  fun _ _ hde => ⟨h, hde⟩

theorem look {read : Disk → Except Fault α} {read' : Disk → Except Fault β}
    (h : ∀ d e, SamePublic d e → SameResult R (read d) (read' e)) :
    SameEdit R (Edit.look read) (Edit.look read') := by
  intro d e hde
  rw [Edit.outcome_look, Edit.outcome_look]
  exact ⟨h d e hde, hde⟩

/-- The directories that lead to a file are made on both disks or on neither. -/
theorem makeParents (p : Path) : SameEdit Eq (Edit.makeParents p) (Edit.makeParents p) := by
  intro d e hde
  cases hparent : p.parent? with
  | none =>
    rw [Edit.makeParents, hparent]
    exact ⟨rfl, hde⟩
  | some parent =>
    by_cases hempty : parent.text.isEmpty = true
    · rw [Edit.makeParents, hparent]
      simp only [hempty]
      exact ⟨rfl, hde⟩
    · obtain ⟨hmade, hdisks⟩ := hde.makeDirectories_go (parent.segments.length + 1) parent
      rw [Edit.outcome_makeParents_of_parent hparent (Bool.eq_false_iff.2 hempty),
        Edit.outcome_makeParents_of_parent hparent (Bool.eq_false_iff.2 hempty)]
      refine ⟨?_, hdisks⟩
      rw [Disk.makeDirectories, Disk.makeDirectories, hmade]
      cases (Disk.makeDirectories.go (parent.segments.length + 1) parent e).1 with
      | true => exact (rfl : () = ())
      | false => exact trivial

/-- Writing the same text, or an environment file with the same keys. -/
theorem overwrite {p : Path} {t u : Text}
    (h : t = u ∨ p.EndsIn (EnvFile.name .env) ∧ SameKeys t u) :
    SameEdit Eq (Edit.overwrite p t) (Edit.overwrite p u) := by
  refine (makeParents p).bind fun _ _ _ => ?_
  intro d e hde
  rw [Edit.outcome_get_bind, Edit.outcome_get_bind, Disk.write?, Disk.write?, hde.locate?_eq]
  cases hlocate : d.locate? p with
  | none => exact ⟨trivial, hde⟩
  | some m =>
    by_cases hdir : d.get? m = some .directory
    · have hdir' := (hde.sameDirectories.directory m).2 hdir
      simp only [Option.bind_eq_bind, Option.bind_some, hdir, hdir', beq_self_eq_true, if_true]
      exact ⟨trivial, hde⟩
    · have hdir' := mt (hde.sameDirectories.directory m).1 hdir
      have hm : m ≠ [] := by
        rintro rfl
        exact hdir rfl
      have hdir := beq_eq_false_iff_ne.2 hdir
      have hdir' := beq_eq_false_iff_ne.2 hdir'
      simp only [Option.bind_eq_bind, Option.bind_some, hdir, hdir', Bool.false_eq_true, if_false]
      refine ⟨rfl, ?_⟩
      rcases h with rfl | ⟨hname, hkeys⟩
      · exact hde.put hm _
      · obtain ⟨l, rfl⟩ := Disk.eq_concat_of_locate? hname (EnvFile.isFileName .env) hlocate
        exact hde.of_writes hkeys (.put d hm _) (.put e hm _)

/-- Looking whether something stands where a path leads. -/
theorem ite_contains (p : Path) {x x' : Edit α} {y y' : Edit β} (hyes : SameEdit R x y)
    (hno : SameEdit R x' y') :
    SameEdit R (do if (← get).contains p then x else x')
      (do if (← get).contains p then y else y') := by
  intro d e hde
  rw [Edit.outcome_get_bind, Edit.outcome_get_bind, hde.contains_eq]
  split
  · exact hyes d e hde
  · exact hno d e hde

theorem overwrite_status {p : Path} {t u : Text}
    (h : t = u ∨ p.EndsIn (EnvFile.name .env) ∧ SameKeys t u) (status : Status) :
    SameEdit Eq (do Edit.overwrite p t; return status) (do Edit.overwrite p u; return status) :=
  (overwrite h).bind fun _ _ _ => pure rfl

/-- Writing the same text to a file that is no environment file. -/
theorem writeIfChanged {p : Path} (hp : IsPublicFile p) (t : Text) :
    SameEdit Eq (Edit.writeIfChanged p t) (Edit.writeIfChanged p t) := by
  have hread : SameEdit Eq (Edit.look (Disk.read .readingFile p))
      (Edit.look (Disk.read .readingFile p)) := by
    refine look fun d e hde => ?_
    rw [Disk.read, Disk.read, Disk.text?, Disk.text?, hde.entryAt?_eq hp]
    split
    · exact (rfl : _ = _)
    · exact trivial
  refine ite_contains p (hread.bind ?_) (overwrite_status (.inl rfl) .created)
  rintro content _ rfl
  split
  · exact pure rfl
  · exact overwrite_status (.inl rfl) .updated

section

variable {p : Path} (hends : p.EndsIn (EnvFile.name .env)) {t u : Text} (hkeys : SameKeys t u)
include hends hkeys

/-- An environment file that holds text already is written, if need be, and no fault arises. -/
theorem writeEnvFile_of_texts {d e : Disk} (hde : SamePublic d e) {m : Location} {t₀ u₀ : Text}
    (hlocate : d.locate? p = some m) (ht : d.get? m = some (.file (.text t₀)))
    (hu : e.get? m = some (.file (.text u₀))) :
    SameResult (fun _ _ => True) ((Edit.writeIfChanged p t).outcome d).1
        ((Edit.writeIfChanged p u).outcome e).1 ∧
      SamePublic ((Edit.writeIfChanged p t).outcome d).2 ((Edit.writeIfChanged p u).outcome e).2 := by
  obtain ⟨l, rfl⟩ := Disk.eq_concat_of_locate? hends (EnvFile.isFileName .env) hlocate
  have hlocate' : e.locate? p = some (l ++ [EnvFile.name .env]) := (hde.locate?_eq p).trans hlocate
  obtain ⟨status, d', hd', hwrites⟩ :=
    Edit.outcome_writeIfChanged hlocate (by simp [ht]) (by simp [ht]) t
  obtain ⟨status', e', he', hwrites'⟩ :=
    Edit.outcome_writeIfChanged hlocate' (by simp [hu]) (by simp [hu]) u
  rw [hd', he']
  exact ⟨trivial, hde.of_writes hkeys hwrites hwrites'⟩

/-- Writing an environment file with the same keys. -/
theorem writeEnvFile :
    SameEdit (fun _ _ => True) (Edit.writeIfChanged p t) (Edit.writeIfChanged p u) := by
  intro d e hde
  obtain heq | ⟨l, t₀, u₀, hlocate, ht, hu, -⟩ := hde.entryAt?_cases p
  · by_cases htext : ∃ t₀, d.entryAt? p = some (.file (.text t₀))
    · obtain ⟨t₀, ht⟩ := htext
      rw [ht] at heq
      obtain ⟨m, hlocate, hd⟩ := Option.bind_eq_some_iff.1 ht
      rw [Disk.entryAt?, hde.locate?_eq, hlocate] at heq
      exact writeEnvFile_of_texts hends hkeys hde hlocate hd heq
    · -- what is there cannot be compared, and what is missing is made
      have hread {f : Disk} (hf : f.entryAt? p = d.entryAt? p) :
          (Edit.look (Disk.read .readingFile p)).outcome f =
            (.error (.fileAccess p .readingFile), f) := by
        rw [Edit.outcome_look, Disk.read, Disk.text?, hf]
        rcases hentry : d.entryAt? p with _ | _ | t₀ | bytes
        · rfl
        · rfl
        · exact absurd ⟨t₀, hentry⟩ htext
        · rfl
      rw [Edit.writeIfChanged, Edit.writeIfChanged, Edit.outcome_get_bind, Edit.outcome_get_bind,
        hde.contains_eq]
      split
      · rw [Edit.outcome_bind_of_error d (hread rfl), Edit.outcome_bind_of_error e (hread heq)]
        exact ⟨trivial, hde⟩
      · refine ((overwrite (.inr ⟨hends, hkeys⟩)).bind fun _ _ _ => ?_) d e hde
        exact pure trivial
  · rw [Disk.entryAt?, hlocate] at ht
    rw [Disk.entryAt?, hde.locate?_eq, hlocate] at hu
    exact writeEnvFile_of_texts hends hkeys hde hlocate ht hu

end

end SameEdit

end Scaffold.Env
