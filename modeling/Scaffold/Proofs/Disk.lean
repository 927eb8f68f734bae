import Scaffold.Proofs.Outcome
import Scaffold.Proofs.Path

/-!
# Files on a disk

Where a path leads depends only on the directories of a disk (`Disk.SameDirectories.locate?_eq`),
and a file in a directory that exists is saved at its location and nowhere else
(`Edit.outcome_writeIfChanged`).
-/

namespace Scaffold

namespace Disk

/-! ## Following paths -/

/-- Both disks have the same directories. -/
structure SameDirectories (d e : Disk) : Prop where
  home : e.home = d.home
  directory : ∀ l, e.get? l = some .directory ↔ d.get? l = some .directory

/-- Where a path leads depends on the directories only. -/
theorem SameDirectories.locate?_eq {d e : Disk} (h : SameDirectories d e) (p : Path) :
    e.locate? p = d.locate? p := by
  have hstep : e.step? = d.step? := by
    funext l segment
    have hdir : (e.get? l != some .directory) = (d.get? l != some .directory) := by
      rw [Bool.eq_iff_iff]
      simp [h.directory l]
    rw [step?, step?, hdir]
  rw [locate?, locate?, hstep, h.home]

/-- Where the first piece of a path is followed from. -/
def start (d : Disk) (p : Path) : Location := if p.isAbsolute then [] else d.home

theorem locate?_eq_some {d : Disk} {p : Path} {l : Location} :
    d.locate? p = some l ↔ isUsable p = true ∧ p.segments.foldlM d.step? (d.start p) = some l := by
  rw [locate?, start]
  cases isUsable p <;> simp

theorem isUsable_iff {p : Path} : isUsable p = true ↔ p.text ≠ [] ∧ '\x00' ∉ p.text := by
  simp [isUsable]

/-- Pieces that are no component stay in a directory. -/
theorem step?_of_isFiller {d : Disk} {l : Location} {s : Text} (hs : Path.isFiller s = true) :
    d.step? l s = if d.get? l = some .directory then some l else none := by
  by_cases hd : d.get? l = some .directory <;> simp [step?, hs, hd]

theorem foldlM_filler {d : Disk} {fs : List Text} (hfs : ∀ f ∈ fs, Path.isFiller f = true)
    {l m : Location} (h : fs.foldlM d.step? l = some m) : m = l := by
  induction fs with
  | nil => exact (Option.some.inj h).symm
  | cons f fs ih =>
    obtain ⟨hf, hfs⟩ := List.forall_mem_cons.1 hfs
    rw [List.foldlM_cons, step?_of_isFiller hf] at h
    split at h
    · exact ih hfs h
    · cases h

/-- A name of a file that a directory can hold. -/
structure IsFileName (name : Text) : Prop extends Path.IsName name where
  notUp : name ≠ ['.', '.']
  noZero : '\x00' ∉ name
  short : name.byteLength ≤ maxNameLength

theorem IsFileName.step?_eq {name : Text} (h : IsFileName name) {d : Disk} {l : Location}
    (hl : d.get? l = some .directory) : d.step? l name = some (l ++ [name]) := by
  have hshort : ¬ maxNameLength < name.byteLength := Nat.not_lt.2 h.short
  simp [step?, hl, h.notFiller, h.notUp, hshort]

/-- The path leads to a directory at a location. -/
structure LeadsTo (d : Disk) (root : Path) (l : Location) : Prop where
  locate : d.locate? root = some l
  directory : d.get? l = some .directory

namespace LeadsTo

variable {d : Disk} {root : Path} {l : Location} (h : d.LeadsTo root l)
include h

theorem text_ne_nil : root.text ≠ [] := (isUsable_iff.1 (locate?_eq_some.1 h.locate).1).1

/-- The pieces in front of a name lead to the directory of the file. -/
theorem segments {name : Text} (hslash : '/' ∉ name) :
    ∃ ss, (root.join ⟨name⟩).segments = ss ++ [name] ∧
      ss.foldlM d.step? (d.start (root.join ⟨name⟩)) = some l := by
  obtain ⟨-, hfold⟩ := locate?_eq_some.1 h.locate
  obtain ⟨habs, ss, hsegments, hroot⟩ := Path.segments_join h.text_ne_nil hslash
  have hstart : d.start (root.join ⟨name⟩) = d.start root := by
    rw [start, habs, start]
  refine ⟨ss, hsegments, ?_⟩
  rw [hstart]
  rcases hroot with hroot | hroot
  · rwa [hroot] at hfold
  · rw [hroot, List.foldlM_append] at hfold
    obtain ⟨m, hm, hlast⟩ := Option.bind_eq_some_iff.1 hfold
    rw [hm, foldlM_filler (by decide) hlast]

theorem isUsable_join {name : Text} (hslash : '/' ∉ name) (hzero : '\x00' ∉ name) :
    isUsable (root.join ⟨name⟩) = true := by
  have hroot := (isUsable_iff.1 (locate?_eq_some.1 h.locate).1).2
  rw [isUsable_iff]
  obtain ⟨-, hjoin⟩ | hjoin := Path.text_join h.text_ne_nil hslash <;> rw [hjoin]
  · exact ⟨by simp [h.text_ne_nil], by simp [hroot, hzero]⟩
  · exact ⟨by simp, by simp [hroot, hzero]⟩

/-- A file below a directory stands at its name there. -/
theorem locate?_join {name : Text} (hn : IsFileName name) :
    d.locate? (root.join ⟨name⟩) = some (l ++ [name]) := by
  obtain ⟨ss, hsegments, hfold⟩ := h.segments hn.noSlash
  rw [locate?_eq_some]
  refine ⟨h.isUsable_join hn.noSlash hn.noZero, ?_⟩
  rw [hsegments, List.foldlM_append, hfold]
  show [name].foldlM d.step? l = _
  rw [List.foldlM_cons, hn.step?_eq h.directory]
  rfl

/-- A dot below a directory leads to the directory. -/
theorem join_here : d.LeadsTo (root.join ⟨['.']⟩) l where
  locate := by
    obtain ⟨ss, hsegments, hfold⟩ := h.segments (show '/' ∉ ['.'] by decide)
    rw [locate?_eq_some]
    refine ⟨h.isUsable_join (by decide) (by decide), ?_⟩
    rw [hsegments, List.foldlM_append, hfold]
    show [['.']].foldlM d.step? l = _
    rw [List.foldlM_cons, step?_of_isFiller rfl, if_pos h.directory]
    rfl
  directory := h.directory

end LeadsTo

/-- The last step of a path is made from a directory. -/
theorem exists_of_foldlM_concat {d : Disk} {ss : List Text} {s : Text} {a m : Location}
    (h : (ss ++ [s]).foldlM d.step? a = some m) :
    ∃ l, ss.foldlM d.step? a = some l ∧ d.get? l = some .directory ∧ d.step? l s = some m := by
  rw [List.foldlM_append] at h
  obtain ⟨l, hl, hlast⟩ := Option.bind_eq_some_iff.1 h
  have hstep : d.step? l s = some m := by
    rw [List.foldlM_cons] at hlast
    obtain ⟨m', hm', hm⟩ := Option.bind_eq_some_iff.1 hlast
    rwa [Option.some.inj hm] at hm'
  refine ⟨l, hl, ?_, hstep⟩
  rw [step?] at hstep
  split at hstep
  · cases hstep
  · next hdir => simpa using hdir

theorem foldlM_concat {d : Disk} {ss : List Text} {name : Text} (hn : IsFileName name)
    {a m : Location} (h : (ss ++ [name]).foldlM d.step? a = some m) :
    ∃ l, ss.foldlM d.step? a = some l ∧ d.get? l = some .directory ∧ m = l ++ [name] := by
  obtain ⟨l, hl, hdirectory, hstep⟩ := exists_of_foldlM_concat h
  rw [hn.step?_eq hdirectory] at hstep
  exact ⟨l, hl, hdirectory, (Option.some.inj hstep).symm⟩

/-- The pieces in front of the last one of a path lead to the directory of what stands there, unless
that is a directory itself. -/
theorem exists_concat_of_locate? {d : Disk} {p : Path} {m : Location} (hp : d.locate? p = some m)
    (hm : d.get? m ≠ some .directory) :
    ∃ ss name l, p.segments = ss ++ [name] ∧ Path.IsName name ∧
      ss.foldlM d.step? (d.start p) = some l ∧ d.get? l = some .directory := by
  obtain ⟨-, hfold⟩ := locate?_eq_some.1 hp
  obtain ⟨ss, name, hsegments⟩ :=
    (List.eq_nil_or_concat' p.segments).resolve_left (List.splitOn_ne_nil '/' p.body)
  rw [hsegments] at hfold
  obtain ⟨l, hl, hdirectory, hstep⟩ := exists_of_foldlM_concat hfold
  refine ⟨ss, name, l, hsegments, ⟨?_, ?_⟩, hl, hdirectory⟩
  · rw [Bool.eq_false_iff]
    intro hfiller
    rw [step?_of_isFiller hfiller, if_pos hdirectory] at hstep
    exact hm (Option.some.inj hstep ▸ hdirectory)
  · have hmem : name ∈ p.segments := by simp [hsegments]
    exact Text.notMem_of_mem_splitOn hmem

/-- A path that is put together of pieces leads where they lead, unless it is no path at all. -/
theorem leadsTo_ofSegments {d : Disk} {absolute : Bool} {ss : List Text} {l : Location}
    (hfold : ss.foldlM d.step? (if absolute then [] else d.home) = some l)
    (hdirectory : d.get? l = some .directory) (hmem : ∀ s ∈ ss, '/' ∉ s ∧ '\x00' ∉ s)
    (hrel : absolute = false → ss.head? ≠ some []) :
    (Path.ofSegments absolute ss).text = [] ∨ d.LeadsTo (Path.ofSegments absolute ss) l := by
  by_cases hnil : ss = []
  · subst hnil
    cases absolute with
    | false => exact .inl rfl
    | true =>
      obtain rfl : [] = l := Option.some.inj hfold
      exact .inr ⟨rfl, rfl⟩
  · obtain ⟨habs, hsegments⟩ := Path.segments_ofSegments (fun s hs => (hmem s hs).1) hnil hrel
    by_cases htext : (Path.ofSegments absolute ss).text = []
    · exact .inl htext
    · have hzero : '\x00' ∉ (Path.ofSegments absolute ss).text := by
        intro hz
        have hbody : '\x00' ∈ ['/'].intercalate ss := by
          cases absolute
          · exact hz
          · exact (List.mem_cons.1 hz).resolve_left (by decide)
        obtain hslash | ⟨s, hs, hc⟩ := Text.mem_intercalate hbody
        · exact absurd hslash (by decide)
        · exact (hmem s hs).2 hc
      refine .inr ⟨locate?_eq_some.2 ⟨isUsable_iff.2 ⟨htext, hzero⟩, ?_⟩, hdirectory⟩
      rwa [hsegments, start, habs]

/-- The parent of a path that leads to a file leads to a directory, unless it is no path at all. -/
theorem exists_parent_of_locate? {d : Disk} {p : Path} {m : Location} (hp : d.locate? p = some m)
    (hm : d.get? m ≠ some .directory) :
    ∃ parent, p.parent? = some parent ∧ (parent.text = [] ∨ ∃ l, d.LeadsTo parent l) := by
  obtain ⟨ss, name, l, hsegments, hn, hfold, hdirectory⟩ := exists_concat_of_locate? hp hm
  obtain ⟨htext, hzero⟩ := isUsable_iff.1 (locate?_eq_some.1 hp).1
  refine ⟨_, Path.parent?_of_segments hn hsegments, ?_⟩
  obtain ⟨fs, hfs, htrim⟩ := Path.eq_append_trimFiller p.isAbsolute ss
  have hkept : (Path.trimFiller p.isAbsolute ss).foldlM d.step? (d.start p) = some l := by
    rw [htrim, List.foldlM_append] at hfold
    obtain ⟨k, hk, hrest⟩ := Option.bind_eq_some_iff.1 hfold
    rw [hk, foldlM_filler hfs hrest]
  refine (leadsTo_ofSegments hkept hdirectory (fun s hs => ?_) fun hrel hhead => ?_).imp_right
    fun h => ⟨l, h⟩
  · have hmem : s ∈ p.segments := by
      rw [hsegments, htrim, List.append_assoc]
      exact List.mem_append_left _ hs
    refine ⟨Text.notMem_of_mem_splitOn hmem, fun hz => hzero ?_⟩
    rw [Path.text_eq]
    exact List.mem_append_right _ (Text.mem_of_mem_splitOn hmem hz).1
  · refine Path.head?_segments htext hrel ?_
    rw [hsegments, htrim, List.append_assoc, List.head?_append, hhead]
    rfl

/-- A path that ends in the name of a file leads to a file of that name, if anywhere. -/
theorem eq_concat_of_locate? {d : Disk} {p : Path} {name : Text} (hp : p.EndsIn name)
    (hn : IsFileName name) {m : Location} (h : d.locate? p = some m) : ∃ l, m = l ++ [name] := by
  obtain ⟨-, hfold⟩ := locate?_eq_some.1 h
  obtain ⟨ss, hsegments⟩ := hp.segments hn.toIsName
  rw [hsegments] at hfold
  obtain ⟨l, -, -, hm⟩ := foldlM_concat hn hfold
  exact ⟨l, hm⟩

/-- A file below a path leads to its directory. -/
theorem leadsTo_of_locate?_join {d : Disk} {root : Path} (hroot : root.text ≠ []) {name : Text}
    (hn : IsFileName name) {m : Location} (h : d.locate? (root.join ⟨name⟩) = some m) :
    ∃ l, d.LeadsTo root l ∧ m = l ++ [name] := by
  obtain ⟨husable, hfold⟩ := locate?_eq_some.1 h
  obtain ⟨habs, ss, hsegments, hpieces⟩ := Path.segments_join hroot hn.noSlash
  have hstart : d.start (root.join ⟨name⟩) = d.start root := by
    rw [start, habs, start]
  rw [hsegments, hstart] at hfold
  obtain ⟨l, hl, hdirectory, hm⟩ := foldlM_concat hn hfold
  refine ⟨l, ⟨locate?_eq_some.2 ⟨isUsable_iff.2 ⟨hroot, ?_⟩, ?_⟩, hdirectory⟩, hm⟩
  · have hzero := (isUsable_iff.1 husable).2
    obtain ⟨-, hjoin⟩ | hjoin := Path.text_join hroot hn.noSlash <;> rw [hjoin] at hzero
    · exact fun hmem => hzero (List.mem_append_left _ hmem)
    · exact fun hmem => hzero (List.mem_append_left _ hmem)
  · rcases hpieces with hpieces | hpieces
    · rw [hpieces, hl]
    · rw [hpieces, List.foldlM_append, hl]
      show [[]].foldlM d.step? l = some l
      rw [List.foldlM_cons, step?_of_isFiller rfl, if_pos hdirectory]
      rfl

/-- Where one file below a path has a place, all have: in one directory. -/
theorem exists_locate?_join {d : Disk} {root : Path} {name : Text} (hn : IsFileName name)
    {m : Location} (h : d.locate? (root.join ⟨name⟩) = some m) :
    ∃ l, ∀ other, IsFileName other → d.locate? (root.join ⟨other⟩) = some (l ++ [other]) := by
  by_cases hroot : root.text = []
  · -- the files stand in the directory where relative paths start
    have hstart {other : Text} (ho : IsFileName other) : d.start ⟨other⟩ = d.home := by
      rw [start, Path.isAbsolute_name ho.noSlash]
      rfl
    rw [Path.join_of_nil hroot hn.noSlash] at h
    obtain ⟨-, hfold⟩ := locate?_eq_some.1 h
    rw [Path.segments_name hn.noSlash, hstart hn] at hfold
    obtain ⟨l, hl, hdirectory, -⟩ := foldlM_concat hn (show ([] ++ [name]).foldlM _ _ = _ from hfold)
    obtain rfl : d.home = l := Option.some.inj hl
    refine ⟨d.home, fun other ho => ?_⟩
    have husable : isUsable ⟨other⟩ = true := isUsable_iff.2 ⟨ho.ne_nil, ho.noZero⟩
    rw [Path.join_of_nil hroot ho.noSlash, locate?_eq_some, Path.segments_name ho.noSlash,
      hstart ho, List.foldlM_cons, ho.step?_eq hdirectory]
    exact ⟨husable, rfl⟩
  · obtain ⟨l, hl, -⟩ := leadsTo_of_locate?_join hroot hn h
    exact ⟨l, fun other ho => hl.locate?_join ho⟩

/-! ## Writing a file -/

/-- The disk with a file at a location, all else as it was. -/
structure Writes (d : Disk) (l : Location) (content : FileContent) (e : Disk) : Prop where
  home : e.home = d.home
  get?_eq : ∀ m, e.get? m = if m = l then some (.file content) else d.get? m

theorem Writes.put (d : Disk) {l : Location} (hl : l ≠ []) (content : FileContent) :
    d.Writes l content (d.put l (.file content)) where
  home := rfl
  get?_eq m := by simp [get?_put d m _ hl]

/-- Writing a file changes no directory. -/
theorem Writes.sameDirectories {d e : Disk} {l : Location} {content : FileContent}
    (h : d.Writes l content e) (hl : d.get? l ≠ some .directory) : SameDirectories d e where
  home := h.home
  directory m := by
    rw [h.get?_eq]
    split
    · next hm => simp [hm, hl]
    · rfl

section

variable {d e : Disk} {l : Location} {content : FileContent} (h : d.Writes l content e)
  (hl : d.get? l ≠ some .directory) {p : Path}
include h hl

/-- Where another path leads nothing changes. -/
theorem Writes.entryAt?_of_ne (hp : d.locate? p ≠ some l) : e.entryAt? p = d.entryAt? p := by
  rw [entryAt?, entryAt?, (h.sameDirectories hl).locate?_eq]
  cases hm : d.locate? p with
  | none => rfl
  | some m =>
    rw [Option.bind_some, Option.bind_some, h.get?_eq, if_neg]
    rintro rfl
    exact hp hm

end

/-- What is read at a path depends on what stands there. -/
theorem openDocument_congr {d e : Disk} {p : Path} (h : e.entryAt? p = d.entryAt? p) :
    e.openDocument p = d.openDocument p := by
  rw [openDocument, openDocument, contains, contains, read, read, text?, text?, h]

theorem openOrEmpty_congr {d e : Disk} {p : Path} (h : e.entryAt? p = d.entryAt? p) :
    e.openOrEmpty p = d.openOrEmpty p := by
  rw [openOrEmpty, openOrEmpty, contains, contains, openDocument_congr h, h]

theorem LeadsTo.of_sameDirectories {d e : Disk} {root : Path} {l : Location}
    (h : d.LeadsTo root l) (hs : SameDirectories d e) : e.LeadsTo root l where
  locate := (hs.locate?_eq root).trans h.locate
  directory := (hs.directory l).2 h.directory

/-- A file is written where its path leads. -/
theorem write?_of_locate? {d : Disk} {p : Path} {m : Location} (hp : d.locate? p = some m)
    (hfree : d.get? m ≠ some .directory) (content : FileContent) :
    d.write? p content = some (d.put m (.file content)) := by
  rw [write?, hp]
  simp [hfree]

/-- What is written is there. -/
theorem text?_of_write? {d e : Disk} {p : Path} {t : Text} (h : d.write? p (.text t) = some e) :
    e.text? p = some t := by
  obtain ⟨m, hm, hput⟩ := Option.bind_eq_some_iff.1 h
  by_cases hfree : d.get? m = some .directory
  · simp [hfree] at hput
  · obtain rfl : d.put m (.file (.text t)) = e := by simpa [hfree] using hput
    have hroot : m ≠ [] := by
      rintro rfl
      exact hfree rfl
    have hwrites : d.Writes m (.text t) (d.put m (.file (.text t))) := .put d hroot _
    have hlocate := (hwrites.sameDirectories hfree).locate?_eq p
    rw [text?, entryAt?, hlocate, hm, Option.bind_some, hwrites.get?_eq, if_pos rfl]

theorem entryAt?_of_text? {d : Disk} {p : Path} {t : Text} (h : d.text? p = some t) :
    d.entryAt? p = some (.file (.text t)) := by
  rw [text?] at h
  split at h
  · next u hentry => rw [hentry, Option.some.inj h]
  · cases h

theorem contains_of_text? {d : Disk} {p : Path} {t : Text} (h : d.text? p = some t) :
    d.contains p = true := by
  rw [contains, entryAt?_of_text? h]
  rfl

/-- The document of a file with a text. -/
theorem openDocument_of_text? {d : Disk} {p : Path} {t : Text} (h : d.text? p = some t) :
    d.openDocument p = .ok (.ofContent p t) := by
  rw [openDocument, contains_of_text? h, if_pos rfl, read, h]
  rfl

/-- A document that is opened is that of a file with a text. -/
theorem exists_of_openDocument {d : Disk} {p : Path} {document : Document}
    (h : d.openDocument p = .ok document) :
    ∃ t, d.text? p = some t ∧ document = .ofContent p t := by
  rw [openDocument, read] at h
  split at h
  · cases ht : d.text? p with
    | none =>
      rw [ht] at h
      cases h
    | some t =>
      rw [ht] at h
      exact ⟨t, rfl, (Except.ok.inj h).symm⟩
  · cases h

/-! ## Removing a file -/

/-- Looking up in the entries of some locations. -/
private theorem lookup_filter (p : Location → Bool) (entries : List (Location × DiskEntry))
    (m : Location) :
    (entries.filter fun e => p e.1).lookup m = if p m then entries.lookup m else none := by
  induction entries with
  | nil => simp
  | cons e entries ih =>
    obtain ⟨k, entry⟩ := e
    rw [List.filter_cons, List.lookup_cons]
    by_cases hmk : m = k
    · subst hmk
      cases hp : p m
      · simpa [hp] using ih
      · simp
    · have hbeq : (m == k) = false := by simpa using hmk
      cases p k
      · simpa [hbeq] using ih
      · simpa [hbeq, List.lookup_cons] using ih

/-- What is removed is gone, with all that is below it. -/
theorem get?_remove {d : Disk} {p : Path} {l : Location} (hp : d.locate? p = some l) (hl : l ≠ [])
    (m : Location) : (d.remove p).get? m = if l <+: m then none else d.get? m := by
  have hremove : d.remove p = { d with entries := d.entries.filter fun e => !l.isPrefixOf e.1 } := by
    rw [remove, hp]
  rw [hremove, get?, get?]
  by_cases hm : m = []
  · subst hm
    simp [hl]
  · have hempty : m.isEmpty = false := by simpa using hm
    simp only [hempty, Bool.false_eq_true, if_false]
    rw [lookup_filter fun k => !l.isPrefixOf k]
    by_cases hpre : l <+: m
    · simp [hpre, List.isPrefixOf_iff_prefix.2 hpre]
    · have : l.isPrefixOf m = false := by
        rw [Bool.eq_false_iff]
        exact fun h => hpre (List.isPrefixOf_iff_prefix.1 h)
      simp [hpre, this]

end Disk

namespace Edit

/-! ## What was saved -/

/-- A file that was written holds the text. -/
theorem text?_of_overwrite {p : Path} {t : Text} {d e : Disk}
    (h : (overwrite p t).outcome d = (.ok (), e)) : e.text? p = some t := by
  obtain ⟨_, made, -, h⟩ := (outcome_bind_eq_ok d).1 h
  rw [outcome_get_bind] at h
  cases hwrite : made.write? p (.text t) with
  | none =>
    rw [hwrite] at h
    cases h
  | some written =>
    rw [hwrite] at h
    obtain rfl : written = e := congrArg Prod.snd h
    exact Disk.text?_of_write? hwrite

/-- A file that was saved holds the text, whether or not it had to be written. -/
theorem text?_of_writeIfChanged {p : Path} {t : Text} {status : Status} {d e : Disk}
    (h : (writeIfChanged p t).outcome d = (.ok status, e)) : e.text? p = some t := by
  have hover {kind : Status}
      (h : (overwrite p t >>= fun _ => pure kind).outcome d = (.ok status, e)) :
      e.text? p = some t := by
    obtain ⟨_, written, hwritten, h⟩ := (outcome_bind_eq_ok d).1 h
    obtain rfl : written = e := congrArg Prod.snd h
    exact text?_of_overwrite hwritten
  rw [writeIfChanged, outcome_get_bind] at h
  split at h
  · obtain ⟨u, d', hlook, h⟩ := (outcome_bind_eq_ok d).1 h
    rw [outcome_look] at hlook
    obtain ⟨hread, rfl⟩ := Prod.mk.inj hlook
    split at h
    · next hsame =>
      obtain rfl : d = e := congrArg Prod.snd h
      obtain rfl : u = t := by simpa using hsame
      rw [Disk.read] at hread
      split at hread
      · next htext => rw [htext, Except.ok.inj hread]
      · cases hread
    · exact hover h
  · exact hover h

/-- Nothing is done about a file that holds the text. -/
theorem writeIfChanged_of_text? {p : Path} {t : Text} {d : Disk} (h : d.text? p = some t) :
    (writeIfChanged p t).outcome d = (.ok .unchanged, d) := by
  have hread : (look (Disk.read .readingFile p)).outcome d = (.ok t, d) := by
    rw [outcome_look, Disk.read, h]
  rw [writeIfChanged, outcome_get_bind, Disk.contains_of_text? h, if_pos rfl,
    outcome_bind_of_ok d hread, if_pos (beq_self_eq_true t)]
  rfl

/-! ## Saving a file -/

/-- The directories on the way to the parent of a file are made. -/
theorem outcome_makeParents_of_parent {p parent : Path} (hp : p.parent? = some parent)
    (hparent : parent.text.isEmpty = false) (d : Disk) :
    (makeParents p).outcome d =
      (if (d.makeDirectories parent).1 then .ok () else .error (.fileAccess parent .creatingDirectory),
        (d.makeDirectories parent).2) := by
  rw [makeParents, hp]
  simp only [hparent, Bool.false_eq_true, if_false, outcome_get_bind]
  generalize d.makeDirectories parent = made
  obtain ⟨_ | _, e⟩ := made <;> rfl

section

variable {d : Disk} {p : Path} {m : Location} (hlocate : d.locate? p = some m)
include hlocate

section

variable (hfree : d.get? m ≠ some .directory)
include hfree

/-- The directory of a file stands already. -/
theorem outcome_makeParents : (makeParents p).outcome d = (.ok (), d) := by
  obtain ⟨parent, hparent, hplace⟩ := Disk.exists_parent_of_locate? hlocate hfree
  by_cases hempty : parent.text.isEmpty = true
  · rw [makeParents, hparent]
    simp only [hempty]
    rfl
  · obtain ⟨l, hl⟩ := hplace.resolve_left (by simpa using hempty)
    have hmake : d.makeDirectories parent = (true, d) := by
      have hone : d.makeDirectory? parent = some d := by
        rw [Disk.makeDirectory?, hl.locate]
        simp [hl.directory]
      rw [Disk.makeDirectories, Disk.makeDirectories.go, hone]
    rw [outcome_makeParents_of_parent hparent (Bool.eq_false_iff.2 hempty), hmake]
    rfl

theorem outcome_overwrite (t : Text) :
    ∃ e, (overwrite p t).outcome d = (.ok (), e) ∧ d.Writes m (.text t) e := by
  have hroot : m ≠ [] := by
    rintro rfl
    exact hfree rfl
  refine ⟨_, ?_, .put d hroot (.text t)⟩
  rw [overwrite, outcome_bind_of_ok d (outcome_makeParents hlocate hfree), outcome_get_bind,
    Disk.write?_of_locate? hlocate hfree]
  rfl

/-- A file is saved where its path leads: nothing is written when it has the text already. -/
theorem outcome_writeIfChanged (hbinary : ∀ b, d.get? m ≠ some (.file (.binary b))) (t : Text) :
    ∃ status e, (writeIfChanged p t).outcome d = (.ok status, e) ∧
      d.Writes m (.text t) e := by
  obtain ⟨e, hover, hwrites⟩ := outcome_overwrite hlocate hfree t
  have hentry : d.entryAt? p = d.get? m := by
    rw [Disk.entryAt?, hlocate]
    rfl
  rw [writeIfChanged, outcome_get_bind, Disk.contains, hentry]
  match hget : d.get? m with
  | none =>
    refine ⟨.created, e, ?_, hwrites⟩
    rw [Option.isSome_none, if_neg Bool.false_ne_true, outcome_bind_of_ok d hover]
    rfl
  | some .directory => exact absurd hget hfree
  | some (.file (.binary b)) => exact absurd hget (hbinary b)
  | some (.file (.text u)) =>
    have hread : (look (Disk.read .readingFile p)).outcome d = (.ok u, d) := by
      rw [outcome_look, Disk.read, Disk.text?, hentry, hget]
    rw [Option.isSome_some, if_pos rfl, outcome_bind_of_ok d hread]
    by_cases hsame : u = t
    · subst hsame
      refine ⟨.unchanged, d, by rw [if_pos (beq_self_eq_true u)]; rfl, rfl, fun k => ?_⟩
      split
      · next hk => rw [hk, hget]
      · rfl
    · refine ⟨.updated, e, ?_, hwrites⟩
      rw [if_neg (by simpa using hsame), outcome_bind_of_ok d hover]
      rfl

end

/-- A file that was saved is all that was written. -/
theorem writes_of_writeIfChanged {t : Text} {status : Status} {e : Disk}
    (h : (writeIfChanged p t).outcome d = (.ok status, e)) :
    d.get? m ≠ some .directory ∧ d.Writes m (.text t) e := by
  have hentry : d.entryAt? p = d.get? m := by
    rw [Disk.entryAt?, hlocate]
    rfl
  -- what is no text cannot be compared with one
  have hreadable {entry : DiskEntry} (hget : d.get? m = some entry) :
      ∃ u, entry = .file (.text u) := by
    rw [writeIfChanged, outcome_get_bind, Disk.contains, hentry, hget, Option.isSome_some,
      if_pos rfl] at h
    obtain ⟨u, d', hlook, -⟩ := (outcome_bind_eq_ok d).1 h
    rw [outcome_look, Disk.read, Disk.text?, hentry, hget] at hlook
    cases entry with
    | directory => cases (Prod.mk.inj hlook).1
    | file content =>
      cases content with
      | text u => exact ⟨u, rfl⟩
      | binary b => cases (Prod.mk.inj hlook).1
  have hfree : d.get? m ≠ some .directory := by
    intro hget
    obtain ⟨u, hu⟩ := hreadable hget
    cases hu
  have hbinary : ∀ b, d.get? m ≠ some (.file (.binary b)) := by
    intro b hget
    obtain ⟨u, hu⟩ := hreadable hget
    cases hu
  obtain ⟨status', e', hsave, hwrites⟩ := outcome_writeIfChanged hlocate hfree hbinary t
  obtain rfl : e' = e := congrArg Prod.snd (hsave.symm.trans h)
  exact ⟨hfree, hwrites⟩

end

/-- A file with another text is written. -/
theorem outcome_writeIfChanged_of_ne {p : Path} {t u : Text} {d : Disk} (h : d.text? p = some t)
    (hne : t ≠ u) :
    ∃ e, (writeIfChanged p u).outcome d = (.ok .updated, e) ∧ e.text? p = some u := by
  obtain ⟨m, hlocate, hm⟩ := Option.bind_eq_some_iff.1 (Disk.entryAt?_of_text? h)
  obtain ⟨e, hover, -⟩ := outcome_overwrite hlocate (by simp [hm]) u
  have hread : (look (Disk.read .readingFile p)).outcome d = (.ok t, d) := by
    rw [outcome_look, Disk.read, h]
  have hwrite : (writeIfChanged p u).outcome d = (.ok .updated, e) := by
    rw [writeIfChanged, outcome_get_bind, Disk.contains_of_text? h, if_pos rfl,
      outcome_bind_of_ok d hread, if_neg (by simpa using hne), outcome_bind_of_ok d hover]
    rfl
  exact ⟨e, hwrite, text?_of_writeIfChanged hwrite⟩

end Edit

/-! ## A sample -/

/-- A workspace `ws` in the directory where relative paths start. -/
def sampleLayout : Layout := { root := ⟨"ws"⟩ }

/-- A disk with nothing but the root of the sample workspace. -/
def sampleDisk : Disk := ⟨[], [([("ws" : Text)], .directory)]⟩

end Scaffold
