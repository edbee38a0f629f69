import Rendition.Proofs.Levels
import Rendition.Proofs.Serving

/-!
# Rendition.Proofs.Tracing

Parts that record the names their calls are handed, and programs over them. `FileSystem.traced` and
`Cache.traced` do what the parts do that they are made of, which may be any, and list the names.

A program over traced parts follows the same program over the parts themselves (`Follows`): it has
the same outcome and leaves the same states, and the names that it adds are of some kind. There is
one rule for each way in which programs are put together. The programs that look for files are
followed as soon as every name is of the kind that they can make of a request path; the kind here is
`Beside`, the paths of request paths in one directory.
-/

namespace Rendition

/-! ### Traced parts -/

/-- A state, and the names that calls on it were handed, latest first. -/
structure Traced (σ : Type) where
  state : σ
  names : List String

/-- Makes a call and records the name that it is handed. -/
def Traced.call {σ α : Type} (name : String) (m : StateM σ α) : StateM (Traced σ) α := do
  let t ← get
  let (a, state) := m.run t.state
  set (⟨state, name :: t.names⟩ : Traced σ)
  pure a

/-- The files, with a record of the paths that calls are handed. -/
def FileSystem.traced {φ : Type} (files : FileSystem φ) : FileSystem (Traced φ) where
  stat path := Traced.call path (files.stat path)
  read path := ExceptT.mk (Traced.call path (files.read path).run)
  write path content := ExceptT.mk (Traced.call path (files.write path content).run)
  remove path := ExceptT.mk (Traced.call path (files.remove path).run)

/-- The store, with a record of the keys that calls are handed. -/
def Cache.traced {γ : Type} (cache : Cache γ) : Cache (Traced γ) where
  get key := ExceptT.mk (Traced.call key (cache.get key).run)
  set key content := ExceptT.mk (Traced.call key (cache.set key content).run)
  expire key ttl := ExceptT.mk (Traced.call key (cache.expire key ttl).run)

/-- A state, traced with names that are all of a kind. -/
structure Traced.Within {σ : Type} (P : String → Prop) (t : Traced σ) (s : σ) : Prop where
  state_eq : t.state = s
  names : ∀ name ∈ t.names, P name

/-! ### Programs that follow each other -/

section Follows

variable {σ σ' α β : Type} {R : σ' → σ → Prop}

/-- `m'` comes to what `m` comes to, and leads from related states to related ones. What it comes to
is of a kind. -/
def Follows (R : σ' → σ → Prop) (Q : α → Prop) (m' : StateM σ' α) (m : StateM σ α) : Prop :=
  ∀ s' s, R s' s →
    (m'.run s').1 = (m.run s).1 ∧ R (m'.run s').2 (m.run s).2 ∧ Q (m.run s).1

namespace Follows

theorem pure {Q : α → Prop} {a : α} (ha : Q a) :
    Follows R Q (Pure.pure a : StateM σ' α) (Pure.pure a : StateM σ α) :=
  fun _ _ h => ⟨rfl, h, ha⟩

theorem bind {Q : α → Prop} {T : β → Prop} {m' : StateM σ' α} {m : StateM σ α}
    {k' : α → StateM σ' β} {k : α → StateM σ β} (hm : Follows R Q m' m)
    (hk : ∀ a, Q a → Follows R T (k' a) (k a)) : Follows R T (m' >>= k') (m >>= k) := by
  intro s' s h
  obtain ⟨hvalue, hstate, hQ⟩ := hm s' s h
  have hbind' : (m' >>= k').run s' = (k' (m'.run s').1).run (m'.run s').2 := rfl
  have hbind : (m >>= k).run s = (k (m.run s).1).run (m.run s).2 := rfl
  rw [hbind', hbind, hvalue]
  exact hk _ hQ _ _ hstate

/-- A traced call follows the call. -/
theorem call {P : String → Prop} {Q : α → Prop} {name : String} (hname : P name) {m : StateM σ α}
    (hm : ∀ s, Q (m.run s).1) : Follows (Traced.Within P) Q (Traced.call name m) m := by
  rintro ⟨state, names⟩ s ⟨rfl, hnames⟩
  refine ⟨rfl, ⟨rfl, fun other hmem => ?_⟩, hm state⟩
  rcases List.mem_cons.1 hmem with rfl | hmem
  · exact hname
  · exact hnames other hmem

end Follows

/-! ### Programs that can fail -/

variable {ε : Type}

/-- An outcome whose value is of one kind and whose error of another. -/
def Ends (E : ε → Prop) (Q : α → Prop) : Except ε α → Prop
  | .ok a => Q a
  | .error e => E e

theorem ends_true (outcome : Except ε α) : Ends (fun _ => True) (fun _ => True) outcome := by
  cases outcome <;> exact trivial

/-- The same for programs that can fail. -/
def FollowsExcept (R : σ' → σ → Prop) (E : ε → Prop) (Q : α → Prop)
    (m' : ExceptT ε (StateM σ') α) (m : ExceptT ε (StateM σ) α) : Prop :=
  Follows R (Ends E Q) m'.run m.run

namespace FollowsExcept

variable {E : ε → Prop}

theorem pure {Q : α → Prop} {a : α} (ha : Q a) :
    FollowsExcept R E Q (Pure.pure a : ExceptT ε (StateM σ') α) (Pure.pure a) :=
  Follows.pure (Q := Ends E Q) ha

theorem throw {Q : α → Prop} {e : ε} (he : E e) :
    FollowsExcept R E Q (MonadExcept.throw e : ExceptT ε (StateM σ') α) (MonadExcept.throw e) :=
  Follows.pure (Q := Ends E Q) he

theorem bind {Q : α → Prop} {T : β → Prop} {m' : ExceptT ε (StateM σ') α}
    {m : ExceptT ε (StateM σ) α} {k' : α → ExceptT ε (StateM σ') β} {k : α → ExceptT ε (StateM σ) β}
    (hm : FollowsExcept R E Q m' m) (hk : ∀ a, Q a → FollowsExcept R E T (k' a) (k a)) :
    FollowsExcept R E T (m' >>= k') (m >>= k) := by
  intro s' s h
  obtain ⟨hvalue, hstate, hends⟩ := hm s' s h
  rw [run_bind, run_bind]
  rcases hrun' : m'.run.run s' with ⟨outcome', t'⟩
  rcases hrun : m.run.run s with ⟨outcome, t⟩
  rw [hrun', hrun] at hvalue hstate
  rw [hrun] at hends
  obtain rfl : outcome' = outcome := hvalue
  cases outcome' with
  | error e => exact ⟨rfl, hstate, hends⟩
  | ok a => exact hk a hends t' t hstate

/-- A step that cannot fail, in a program that can. -/
theorem lift {Q : α → Prop} {m' : StateM σ' α} {m : StateM σ α} (h : Follows R Q m' m) :
    FollowsExcept R E Q (liftM m' : ExceptT ε (StateM σ') α) (liftM m) := by
  intro s' s hs
  obtain ⟨hvalue, hstate, hQ⟩ := h s' s hs
  rw [run_liftM, run_liftM]
  exact ⟨congrArg Except.ok hvalue, hstate, hQ⟩

/-- A traced call follows the call, whatever that comes to. -/
theorem call {P : String → Prop} {name : String} (hname : P name) (m : ExceptT ε (StateM σ) α) :
    FollowsExcept (Traced.Within P) (fun _ => True) (fun _ => True)
      (ExceptT.mk (Traced.call name m.run)) m :=
  Follows.call hname fun _ => ends_true _

end FollowsExcept

end Follows

/-! ### Paths in a directory -/

/-- The path of a request path in a directory. -/
def Beside (dir name : String) : Prop :=
  ∃ q : RequestPath, q.text = name ∧ q.dir = dir

theorem beside_self (path : RequestPath) : Beside path.dir path.text := ⟨path, rfl, rfl⟩

/-- The path of a base of a request path, with an extension that is looked for, is beside it. -/
theorem Fallbacks.Plain.beside {fallbacks : Fallbacks} (h : fallbacks.Plain) {p : RequestPath}
    {stem ext : String} (hsplit : splitExtension p.fileName = some (stem, ext)) {cut : Cut}
    (hcut : cut ∈ cuts stem) {c : String} (hc : c ∈ fallbacks.candidates ext) :
    Beside p.dir (pathOf p.dir cut.base c) := by
  obtain ⟨q, htext, hdir, -⟩ :=
    exists_level hsplit hcut (h.isExtension (RequestPath.isExtension hsplit) hc)
  exact ⟨q, htext, hdir⟩

/-! ### Looking for files -/

section Lookup

variable {σ σ' : Type} {R : σ' → σ → Prop} {stat' : String → StateM σ' (Option FileStat)}
  {stat : String → StateM σ (Option FileStat)} {fallbacks : Fallbacks}

theorem follows_regularFile {P : String → Prop} {name : String}
    (hstat : Follows R (fun _ => True) (stat' name) (stat name)) (hname : P name) :
    Follows R (fun found => ∀ file ∈ found, P file.path) (regularFile stat' name)
      (regularFile stat name) := by
  refine hstat.bind fun s _ => .pure fun file hfile => ?_
  obtain ⟨t, -, rfl⟩ := Option.map_eq_some_iff.1 hfile
  exact hname

variable {P : String → Prop}
  (hstat : ∀ name, P name → Follows R (fun _ => True) (stat' name) (stat name))

include hstat

theorem follows_probe {dir base ext : String}
    (hnames : ∀ c ∈ fallbacks.candidates ext, P (pathOf dir base c)) :
    Follows R (fun found => ∀ file ∈ found, P file.path) (probe stat' fallbacks dir base ext)
      (probe stat fallbacks dir base ext) := by
  unfold probe
  generalize fallbacks.candidates ext = candidates at hnames
  induction candidates with
  | nil => exact .pure (by simp)
  | cons c rest ih =>
      have hname := hnames c List.mem_cons_self
      rw [List.findSomeM?_cons, List.findSomeM?_cons]
      refine (follows_regularFile (hstat _ hname) hname).bind fun found hfound => ?_
      cases found with
      | none => exact ih fun d hd => hnames d (List.mem_cons_of_mem _ hd)
      | some file => exact .pure hfound

theorem follows_resolveCut {dir ext : String} {l : List Cut}
    (hnames : ∀ cut ∈ l, ∀ c ∈ fallbacks.candidates ext, P (pathOf dir cut.base c)) :
    Follows R (fun found => ∀ r ∈ found, P r.file.path) (resolveCut stat' fallbacks dir ext l)
      (resolveCut stat fallbacks dir ext l) := by
  induction l with
  | nil => exact .pure (by simp)
  | cons cut rest ih =>
      unfold resolveCut
      refine (follows_probe hstat (hnames cut List.mem_cons_self)).bind fun found hfound => ?_
      cases found with
      | none => exact ih fun other hother => hnames other (List.mem_cons_of_mem _ hother)
      | some source => exact .pure (by simpa [Resolution.file] using hfound)

theorem follows_foundAt {dir ext : String} {l : List Cut}
    (hnames : ∀ cut ∈ l, ∀ c ∈ fallbacks.candidates ext, P (pathOf dir cut.base c)) :
    Follows R (fun found => ∀ file ∈ found, P file.path) (foundAt stat' fallbacks dir ext l)
      (foundAt stat fallbacks dir ext l) := by
  induction l with
  | nil => exact .pure (by simp)
  | cons cut rest ih =>
      unfold foundAt
      refine (follows_probe hstat (hnames cut List.mem_cons_self)).bind fun found hfound => ?_
      refine (ih fun other hother => hnames other (List.mem_cons_of_mem _ hother)).bind
        fun others hothers => .pure fun file hfile => ?_
      rcases List.mem_append.1 hfile with hfile | hfile
      · exact hfound file (by simpa using hfile)
      · exact hothers file hfile

end Lookup

section Beside

variable {σ σ' : Type} {R : σ' → σ → Prop} {stat' : String → StateM σ' (Option FileStat)}
  {stat : String → StateM σ (Option FileStat)} {fallbacks : Fallbacks} (hplain : fallbacks.Plain)
  {path : RequestPath}
  (hstat : ∀ name, Beside path.dir name → Follows R (fun _ => True) (stat' name) (stat name))

include hplain hstat

theorem follows_resolve : Follows R
    (Ends (fun _ => True) fun r : Resolution => Beside path.dir r.file.path)
    (resolve stat' fallbacks path) (resolve stat fallbacks path) := by
  refine (follows_regularFile (hstat _ (beside_self path)) (beside_self path)).bind
    fun found hfound => ?_
  cases found with
  | some file => exact .pure (hfound file rfl)
  | none =>
      cases hsplit : splitExtension path.fileName with
      | none => exact .pure trivial
      | some parts =>
          obtain ⟨stem, ext⟩ := parts
          refine (follows_resolveCut hstat fun cut hcut c hc => hplain.beside hsplit hcut hc).bind
            fun found hfound => ?_
          cases found with
          | none => exact .pure trivial
          | some r => exact .pure (hfound r rfl)

theorem follows_ancestry : Follows R (fun levels => ∀ file ∈ levels, Beside path.dir file.path)
    (ancestry stat' fallbacks path) (ancestry stat fallbacks path) := by
  unfold ancestry
  cases hsplit : splitExtension path.fileName with
  | none => exact .pure (by simp)
  | some parts =>
      exact follows_foundAt hstat fun cut hcut c hc =>
        hplain.beside hsplit (mem_generatedCuts.1 hcut).1 hc

theorem follows_staleness : Follows R
    (fun verdict => ∀ doomed, verdict = .stale doomed → ∀ name ∈ doomed, Beside path.dir name)
    (staleness stat' fallbacks path) (staleness stat fallbacks path) := by
  refine (follows_regularFile (hstat _ (beside_self path)) (beside_self path)).bind
    fun found _ => ?_
  cases found with
  | none => exact .pure (by simp)
  | some file =>
      refine (follows_ancestry hplain hstat).bind fun levels hlevels => .pure ?_
      intro doomed hstale name hmem
      unfold verdict at hstale
      split at hstale
      · obtain rfl := Staleness.stale.inj hstale
        rcases List.mem_cons.1 hmem with rfl | hmem
        · exact beside_self path
        · obtain ⟨level, hlevel, rfl⟩ := List.mem_map.1 hmem
          exact hlevels level (List.dropLast_subset _ hlevel)
      · cases hstale

end Beside

end Rendition
