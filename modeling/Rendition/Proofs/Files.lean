import Rendition.Proofs.Lookup

/-!
# Rendition.Proofs.Files

Calls on files as equations of their runs. A step that can fail hands its state on even when it
fails (`run_bind`). The files of a catalog are what a look shows (`Catalog.look`), and taking names
away from a catalog is described by what it leaves (`Catalog.get?_without`). Files in memory do not
fail but for a missing file; what a sweep does is said for any files that can be looked at
(`run_sweep`).
-/

namespace Rendition

open Time

/-! ### Steps that can fail -/

/-- A step goes on with the value of the one before, in the state that one leaves; an error ends
both. -/
theorem run_bind {ε σ α β : Type} (m : ExceptT ε (StateM σ) α) (k : α → ExceptT ε (StateM σ) β)
    (s : σ) :
    (m >>= k).run.run s = match m.run.run s with
      | (.ok a, t) => (k a).run.run t
      | (.error e, t) => (.error e, t) := by
  show (ExceptT.bindCont k (m.run.run s).1).run (m.run.run s).2 = _
  rcases m.run.run s with ⟨_ | _, t⟩ <;> rfl

theorem run_bind_of_ok {ε σ α β : Type} {m : ExceptT ε (StateM σ) α} {s t : σ} {a : α}
    (h : m.run.run s = (.ok a, t)) (k : α → ExceptT ε (StateM σ) β) :
    (m >>= k).run.run s = (k a).run.run t := by
  rw [run_bind, h]

/-- Two steps that succeed one after the other both succeed. -/
theorem run_bind_inv {ε σ α β : Type} {m : ExceptT ε (StateM σ) α}
    {k : α → ExceptT ε (StateM σ) β} {s u : σ} {b : β}
    (h : (m >>= k).run.run s = (.ok b, u)) :
    ∃ a t, m.run.run s = (.ok a, t) ∧ (k a).run.run t = (.ok b, u) := by
  rw [run_bind] at h
  rcases hm : m.run.run s with ⟨e | a, t⟩
  · rw [hm] at h
    cases h
  · rw [hm] at h
    exact ⟨a, t, rfl, h⟩

/-- Of two steps one after the other that fail, the first one fails, or it succeeds and the second
one fails. -/
theorem run_bind_error_inv {ε σ α β : Type} {m : ExceptT ε (StateM σ) α}
    {k : α → ExceptT ε (StateM σ) β} {s u : σ} {e : ε}
    (h : (m >>= k).run.run s = (.error e, u)) :
    m.run.run s = (.error e, u) ∨
      ∃ a t, m.run.run s = (.ok a, t) ∧ (k a).run.run t = (.error e, u) := by
  rw [run_bind] at h
  rcases hm : m.run.run s with ⟨e' | a, t⟩
  · rw [hm] at h
    obtain ⟨he, rfl⟩ := Prod.mk.inj h
    exact Or.inl (by rw [Except.error.inj he])
  · rw [hm] at h
    exact Or.inr ⟨a, t, rfl, h⟩

/-- A step that cannot fail, among steps that can. -/
theorem run_liftM {ε σ α : Type} (m : StateM σ α) (s : σ) :
    (liftM m : ExceptT ε (StateM σ) α).run.run s = (.ok (m.run s).1, (m.run s).2) := rfl

/-! ### Outcomes that are known to be right -/

theorem eq_ok_of_toOption {ε α : Type} {x : Except ε α} {a : α}
    (h : x.toOption = some a) : x = .ok a := by
  cases x with
  | error e => cases h
  | ok b => exact congrArg Except.ok (Option.some.inj h)

theorem exists_ok_of_isSome {ε α : Type} {x : Except ε α} (h : x.toOption.isSome = true) :
    ∃ a, x = .ok a := by
  cases x with
  | error e => cases h
  | ok a => exact ⟨a, rfl⟩

/-! ### Catalogs as looks -/

namespace Catalog

variable {files : Catalog StoredFile}

/-- A catalog shows files only. -/
theorem fileAt_look {path : String} {found : FoundFile} :
    fileAt files.look path = some found ↔
      ∃ file, files.get? path = some file ∧ found = ⟨path, file.stat⟩ := by
  rw [fileAt_eq_some]
  constructor
  · rintro ⟨rfl, hlook, -⟩
    obtain ⟨file, hget, hstat⟩ := Option.map_eq_some_iff.1 hlook
    exact ⟨file, hget, by cases found; simp_all⟩
  · rintro ⟨file, hget, rfl⟩
    exact ⟨rfl, by simp [look, hget], rfl⟩

theorem fileAt_look_eq_none {path : String} :
    fileAt files.look path = none ↔ files.get? path = none := by
  constructor
  · intro h
    cases hget : files.get? path with
    | none => rfl
    | some file => simp [fileAt_look.2 ⟨file, hget, rfl⟩] at h
  · intro h
    cases hfile : fileAt files.look path with
    | none => rfl
    | some found =>
        obtain ⟨file, hget, -⟩ := fileAt_look.1 hfile
        simp [h] at hget

/-- The catalog without some names. -/
def without (files : Catalog StoredFile) (names : List String) : Catalog StoredFile :=
  names.foldl Catalog.erase files

theorem get?_without (files : Catalog StoredFile) (names : List String) (name : String) :
    (files.without names).get? name = if name ∈ names then none else files.get? name := by
  induction names generalizing files with
  | nil => simp [without]
  | cons first rest ih =>
      have hcons : files.without (first :: rest) = (files.erase first).without rest := rfl
      rw [hcons, ih, get?_erase]
      by_cases hrest : name ∈ rest
      · simp [hrest]
      · by_cases hfirst : name = first <;> simp [hrest, hfirst]

theorem mem_of_without {names : List String} {name : String}
    (h : ((files.without names).get? name).isSome) :
    name ∉ names ∧ (files.get? name).isSome := by
  rw [get?_without] at h
  split at h
  · cases h
  · next hnot => exact ⟨hnot, h⟩

theorem get?_of_without {names : List String} {name : String} {file : StoredFile}
    (h : (files.without names).get? name = some file) : files.get? name = some file := by
  rw [get?_without] at h
  split at h
  · cases h
  · exact h

end Catalog

/-! ### Files in memory -/

/-- The newest time of a file whose times are the same. -/
theorem StoredFile.newest_stat (content : Content) (time : Timestamp) :
    (StoredFile.stat ⟨content, time, time⟩).newest = time := by
  apply Timestamp.ext
  rw [stat, FileStat.newest, Timestamp.nanos_later, Int.max_self]

theorem StoredFile.nanos_newest_stat (file : StoredFile) :
    file.stat.newest.nanos = max file.modified.nanos file.changed.nanos :=
  Timestamp.nanos_later file.modified file.changed

namespace MemoryFiles

/-- What a look at the files shows. -/
abbrev look (m : MemoryFiles) : String → Option FileStat := m.files.look

variable (m : MemoryFiles)

theorem run_read (path : String) :
    (read path).run.run m = (match m.files.get? path with
      | some file => .ok file.content
      | none => .error (.notFound ("'" ++ path ++ "' does not exist")), m) := by
  have hbind : (read path).run.run m = ExceptT.run (m := StateM MemoryFiles)
      (match m.files.get? path with
        | some file => pure file.content
        | none => throw (Error.notFound ("'" ++ path ++ "' does not exist"))) m := rfl
  rw [hbind]
  cases m.files.get? path <;> rfl

theorem run_write (path : String) (content : Content) :
    (write path content).run.run m = (.ok (), m.insert path ⟨content, m.now, m.now⟩) := rfl

theorem run_remove (path : String) :
    (remove path).run.run m = (.ok (m.contains path), { m with files := m.files.erase path }) := rfl

theorem run_removeAll (paths : List String) :
    (removeAll fileSystem paths).run.run m
      = (.ok (), { m with files := m.files.without paths }) := by
  induction paths generalizing m with
  | nil => rfl
  | cons path rest ih =>
      have hrun := run_bind (remove path) (fun _ => removeAll fileSystem rest) m
      rw [run_remove] at hrun
      exact hrun.trans (ih _)

section Calls

variable {files : FileSystem MemoryFiles} (hfiles : files = fileSystem) {t : MemoryFiles}
  {path : String} {m}

include hfiles

/-- A look shows the files and leaves them alone. -/
theorem looks_stat (path : String) : Looks look (files.stat path) fun look => look path := by
  subst hfiles
  exact fun _ => rfl

theorem read_eq_ok {content : Content} (h : (files.read path).run.run m = (.ok content, t)) :
    t = m ∧ ∃ file, m.files.get? path = some file ∧ file.content = content := by
  subst hfiles
  obtain ⟨houtcome, rfl⟩ := Prod.mk.inj ((run_read m path).symm.trans h)
  cases hget : m.files.get? path with
  | none => simp [hget] at houtcome
  | some file =>
      rw [hget] at houtcome
      exact ⟨rfl, file, rfl, Except.ok.inj houtcome⟩

theorem read_eq_error {e : Error} (h : (files.read path).run.run m = (.error e, t)) :
    t = m ∧ m.files.get? path = none := by
  subst hfiles
  obtain ⟨houtcome, rfl⟩ := Prod.mk.inj ((run_read m path).symm.trans h)
  cases hget : m.files.get? path with
  | none => exact ⟨rfl, rfl⟩
  | some file => simp [hget] at houtcome

theorem write_eq {content : Content} {outcome : Except Error Unit}
    (h : (files.write path content).run.run m = (outcome, t)) :
    t = m.insert path ⟨content, m.now, m.now⟩ := by
  subst hfiles
  exact (Prod.mk.inj ((run_write m path content).symm.trans h)).2.symm

/-- Files in memory can be removed. -/
theorem removeAll_eq {paths : List String} {outcome : Except Error Unit}
    (h : (removeAll files paths).run.run m = (outcome, t)) :
    outcome = .ok () ∧ t = { m with files := m.files.without paths } := by
  subst hfiles
  obtain ⟨houtcome, ht⟩ := Prod.mk.inj ((run_removeAll m paths).symm.trans h)
  exact ⟨houtcome.symm, ht.symm⟩

end Calls

/-- Every time on disk lies before a time. -/
def StampedBefore (m : MemoryFiles) (time : Timestamp) : Prop :=
  ∀ entry ∈ m.files.entries, entry.2.modified < time ∧ entry.2.changed < time

instance (m : MemoryFiles) (time : Timestamp) : Decidable (m.StampedBefore time) :=
  inferInstanceAs (Decidable (∀ entry ∈ m.files.entries, _ ∧ _))

theorem StampedBefore.newest_lt {m : MemoryFiles} {time : Timestamp} (h : m.StampedBefore time)
    {name : String} {file : StoredFile} (hget : m.files.get? name = some file) :
    file.stat.newest < time := by
  obtain ⟨front, back, hentries, -⟩ := List.lookup_eq_some_iff.1 hget
  obtain ⟨hmodified, hchanged⟩ := h (name, file) (by simp [hentries])
  have hnewest := file.nanos_newest_stat
  simp only [Timestamp.lt_def] at *
  omega

theorem StampedBefore.modified_lt {m : MemoryFiles} {time : Timestamp} (h : m.StampedBefore time)
    {name : String} {file : StoredFile} (hget : m.files.get? name = some file) :
    file.modified < time := by
  have hlt := h.newest_lt hget
  have hnewest := file.nanos_newest_stat
  rw [Timestamp.lt_def] at *
  omega

theorem StampedBefore.mono {m : MemoryFiles} {time time' : Timestamp} (h : m.StampedBefore time)
    (hle : time ≤ time') : m.StampedBefore time' := by
  intro entry hentry
  obtain ⟨hmodified, hchanged⟩ := h entry hentry
  simp only [Timestamp.lt_def, Timestamp.le_def] at *
  omega

theorem StampedBefore.of_insert {m m' : MemoryFiles} {time : Timestamp} (h : m.StampedBefore time)
    {name : String} {file : StoredFile} (hfiles : m'.files = m.files.insert name file)
    (hmodified : file.modified < time) (hchanged : file.changed < time) :
    m'.StampedBefore time := by
  intro entry hentry
  rw [hfiles] at hentry
  rcases List.mem_cons.1 hentry with rfl | hentry
  · exact ⟨hmodified, hchanged⟩
  · exact h entry (List.mem_filter.1 hentry).1

end MemoryFiles

/-! ### Sweeping -/

section Sweep

variable {φ : Type} {files : FileSystem φ} {lookIn : φ → String → Option FileStat}

/-- A sweep leaves a fresh file alone and removes the doomed files of a stale one, up to the first
whose removal fails. -/
theorem run_sweep (hstat : ∀ path, Looks lookIn (files.stat path) fun look => look path)
    (fallbacks : Fallbacks) (path : RequestPath) (s : φ) :
    (sweep files fallbacks path).run.run s = match stalenessIn (lookIn s) fallbacks path with
      | .fresh => (.ok false, s)
      | .stale doomed => (((removeAll files doomed).run.run s).1.map fun _ => true,
          ((removeAll files doomed).run.run s).2) := by
  have hlook : (liftM (staleness files.stat fallbacks path) : FilesM φ Staleness).run.run s
      = (.ok (stalenessIn (lookIn s) fallbacks path), s) := by
    rw [run_liftM, looks_staleness hstat path s]
  have hrun := run_bind (liftM (staleness files.stat fallbacks path) : FilesM φ Staleness)
    (fun | .fresh => pure false | .stale doomed => do removeAll files doomed; pure true) s
  rw [hlook] at hrun
  change (sweep files fallbacks path).run.run s = _ at hrun
  rw [hrun]
  cases stalenessIn (lookIn s) fallbacks path with
  | fresh => rfl
  | stale doomed =>
      simp only
      rw [run_bind]
      rcases (removeAll files doomed).run.run s with ⟨_ | _, t⟩ <;> rfl

end Sweep

end Rendition
