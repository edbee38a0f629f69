import Rendition.Files.Memory
import Rendition.Proofs.Paths
import Rendition.Staleness

/-!
# Rendition.Proofs.Lookup

Resolution, ancestry and staleness as functions of what a look at each path shows. The definitions
work in any monad; here they are taken in the identity monad, where `look` is a plain function, and
described by the cuts of a stem: `resolveIn_eq_derived` says which cut a request is answered from,
and `ancestorsIn_eq` which files an ancestry lists.

In a state that a look does not change, the same definitions give the same answers and leave the
state alone (`looks_resolve`, `looks_ancestry`, `looks_staleness`), so everything said about `look`
holds of files that carry a state.
-/

namespace Rendition

/-! ### Looking at files -/

section Look

variable (look : String → Option FileStat) (fallbacks : Fallbacks)

/-- The file at a path, if there is one. -/
def fileAt (path : String) : Option FoundFile :=
  Id.run (regularFile (m := Id) look path)

/-- The first file with a base and an extension that may stand for one. -/
def firstAt (dir base extension : String) : Option FoundFile :=
  Id.run (probe (m := Id) look fallbacks dir base extension)

/-- What a path is answered from. -/
def resolveIn (path : RequestPath) : Except Unresolved Resolution :=
  Id.run (resolve (m := Id) look fallbacks path)

/-- The files that a path may have been made from. -/
def ancestorsIn (path : RequestPath) : List FoundFile :=
  Id.run (ancestry (m := Id) look fallbacks path)

/-- Whether a file is older than one of those. -/
def stalenessIn (path : RequestPath) : Staleness :=
  Id.run (staleness (m := Id) look fallbacks path)

end Look

/-- What is seen of the files in a catalog. -/
def Catalog.look (files : Catalog StoredFile) (path : String) : Option FileStat :=
  (files.get? path).map StoredFile.stat

variable {look : String → Option FileStat} {fallbacks : Fallbacks}

theorem fileAt_eq_some {path : String} {file : FoundFile} :
    fileAt look path = some file ↔
      file.path = path ∧ look path = some file.stat ∧ file.stat.isFile = true := by
  have hunfold : fileAt look path = ((look path).filter (·.isFile)).map fun s => ⟨path, s⟩ := rfl
  rw [hunfold]
  constructor
  · intro h
    obtain ⟨s, hs, rfl⟩ := Option.map_eq_some_iff.1 h
    obtain ⟨hlook, hfile⟩ := Option.filter_eq_some_iff.1 hs
    exact ⟨rfl, hlook, hfile⟩
  · rintro ⟨rfl, hlook, hfile⟩
    simp [hlook, Option.filter, hfile]

theorem firstAt_eq_findSome? (dir base extension : String) :
    firstAt look fallbacks dir base extension
      = (fallbacks.candidates extension).findSome? fun c => fileAt look (pathOf dir base c) :=
  List.idRun_findSomeM? _ _

/-- A file that is found has the base and a candidate extension in its path. -/
theorem exists_of_firstAt {dir base extension : String} {file : FoundFile}
    (h : firstAt look fallbacks dir base extension = some file) :
    ∃ c ∈ fallbacks.candidates extension, fileAt look (pathOf dir base c) = some file := by
  rw [firstAt_eq_findSome?] at h
  obtain ⟨front, c, back, hlist, hc, -⟩ := List.findSome?_eq_some_iff.1 h
  exact ⟨c, by simp [hlist], hc⟩

theorem firstAt_eq_none {dir base extension : String} :
    firstAt look fallbacks dir base extension = none ↔
      ∀ c ∈ fallbacks.candidates extension, fileAt look (pathOf dir base c) = none := by
  rw [firstAt_eq_findSome?, List.findSome?_eq_none_iff]

theorem fileAt_congr {look' : String → Option FileStat} {path : String}
    (h : look path = look' path) : fileAt look path = fileAt look' path := by
  show ((look _).filter (·.isFile)).map _ = ((look' _).filter (·.isFile)).map _
  rw [h]

theorem findSome?_congr {α β : Type} {find find' : α → Option β} {l : List α}
    (h : ∀ a ∈ l, find a = find' a) : l.findSome? find = l.findSome? find' := by
  induction l with
  | nil => rfl
  | cons a rest ih =>
      rw [List.findSome?_cons, List.findSome?_cons, h a List.mem_cons_self,
        ih fun b hb => h b (List.mem_cons_of_mem _ hb)]

/-- Looks that agree on the candidates of a base find the same file. -/
theorem firstAt_congr {look' : String → Option FileStat} {dir base extension : String}
    (h : ∀ c ∈ fallbacks.candidates extension,
      look (pathOf dir base c) = look' (pathOf dir base c)) :
    firstAt look fallbacks dir base extension = firstAt look' fallbacks dir base extension := by
  rw [firstAt_eq_findSome?, firstAt_eq_findSome?]
  exact findSome?_congr fun c hc => fileAt_congr (h c hc)

/-! ### Resolution -/

private theorem resolveCut_eq_findSome? (dir extension : String) : ∀ l : List Cut,
    Id.run (resolveCut (m := Id) look fallbacks dir extension l) = l.findSome? fun cut =>
      (firstAt look fallbacks dir cut.base extension).map fun source =>
        .derived source (Chain.ofTexts cut.tokens) extension
  | [] => rfl
  | cut :: rest => by
      have ih := resolveCut_eq_findSome? dir extension rest
      rw [resolveCut, List.findSome?_cons]
      cases hfirst : firstAt look fallbacks dir cut.base extension with
      | some source =>
          have hprobe : probe (m := Id) look fallbacks dir cut.base extension = some source :=
            hfirst
          rw [hprobe]
          rfl
      | none =>
          have hprobe : probe (m := Id) look fallbacks dir cut.base extension = none := hfirst
          rw [hprobe]
          exact ih

/-- Resolution in steps: the file of the path, then the first cut of its stem with a file. -/
theorem resolveIn_eq (path : RequestPath) :
    resolveIn look fallbacks path =
      match fileAt look path.text with
      | some file => .ok (.direct file)
      | none =>
        match splitExtension path.fileName with
        | none => .error (.noExtension path)
        | some (stem, extension) =>
          match (cuts stem).findSome? fun cut =>
            (firstAt look fallbacks path.dir cut.base extension).map fun source =>
              Resolution.derived source (Chain.ofTexts cut.tokens) extension with
          | some resolution => .ok resolution
          | none => .error (.noSource path) := by
  rw [resolveIn, resolve]
  cases hfile : fileAt look path.text with
  | some file =>
      have hregular : regularFile (m := Id) look path.text = some file := hfile
      rw [hregular]
      rfl
  | none =>
      have hregular : regularFile (m := Id) look path.text = none := hfile
      rw [hregular]
      cases splitExtension path.fileName with
      | none => rfl
      | some parts =>
          obtain ⟨stem, extension⟩ := parts
          simp only [← resolveCut_eq_findSome?]
          cases resolveCut (m := Id) look fallbacks path.dir extension (cuts stem) <;> rfl

/-- A path that names a file is answered with it, and no other is. -/
theorem resolveIn_eq_direct {path : RequestPath} {file : FoundFile} :
    resolveIn look fallbacks path = .ok (.direct file) ↔ fileAt look path.text = some file := by
  rw [resolveIn_eq]
  cases hfile : fileAt look path.text with
  | some other => simp
  | none =>
      simp only [reduceCtorEq, iff_false]
      intro h
      split at h
      · cases h
      · split at h
        · next hsome =>
            obtain ⟨front, cut, back, -, hcut, -⟩ := List.findSome?_eq_some_iff.1 hsome
            obtain ⟨source, -, hsource⟩ := Option.map_eq_some_iff.1 hcut
            cases h
            cases hsource
        · cases h

/-- In a list whose elements grow, those behind one are the larger ones. -/
theorem mem_behind_of_pairwise {α : Type} {size : α → Nat} {front back : List α} {a b : α}
    (hpair : (front ++ a :: back).Pairwise fun x y => size x < size y) :
    b ∈ back ↔ b ∈ front ++ a :: back ∧ size a < size b := by
  obtain ⟨-, hback, hfront⟩ := List.pairwise_append.1 hpair
  constructor
  · intro hb
    exact ⟨by simp [hb], (List.pairwise_cons.1 hback).1 b hb⟩
  · rintro ⟨hb, hlt⟩
    rcases List.mem_append.1 hb with hb | hb
    · have := hfront b hb a List.mem_cons_self
      omega
    · rcases List.mem_cons.1 hb with rfl | hb
      · omega
      · exact hb

/-- In a list whose elements grow, the first find is the smallest one. -/
theorem findSome?_eq_some_of_pairwise {α β : Type} {size : α → Nat} {find : α → Option β} {x : β}
    {l : List α} (hpair : l.Pairwise fun a b => size a < size b) :
    l.findSome? find = some x ↔
      ∃ a ∈ l, find a = some x ∧ ∀ other ∈ l, size other < size a → find other = none := by
  constructor
  · intro h
    obtain ⟨front, a, back, rfl, ha, hfront⟩ := List.findSome?_eq_some_iff.1 h
    refine ⟨a, by simp, ha, fun other hother hlen => ?_⟩
    -- A smaller element stands in front.
    rcases List.mem_append.1 hother with hother | hother
    · exact hfront other hother
    · have hback := (List.pairwise_append.1 hpair).2.1
      rcases List.mem_cons.1 hother with rfl | hother
      · omega
      · have := (List.pairwise_cons.1 hback).1 other hother
        omega
  · rintro ⟨a, ha, hfound, hnone⟩
    obtain ⟨front, back, rfl⟩ := List.append_of_mem ha
    refine List.findSome?_eq_some_iff.2 ⟨front, a, back, rfl, hfound, fun other hother => ?_⟩
    refine hnone other (by simp [hother]) ?_
    exact (List.pairwise_append.1 hpair).2.2 other hother a List.mem_cons_self

/-- The first cut of a stem that something is found for is the one of them with the fewest
tokens. -/
theorem findSome?_cuts_eq_some {α : Type} {stem : String} {find : Cut → Option α} {a : α} :
    (cuts stem).findSome? find = some a ↔
      ∃ cut ∈ cuts stem, find cut = some a ∧
        ∀ other ∈ cuts stem, other.tokens.length < cut.tokens.length → find other = none :=
  findSome?_eq_some_of_pairwise (pairwise_cuts stem)

/-- Where a derived answer comes from: the path names no file, and the cut is the one with the
longest base that a file is found for. -/
theorem resolveIn_eq_derived {path : RequestPath} {source : FoundFile} {chain : Chain}
    {extension : String} :
    resolveIn look fallbacks path = .ok (.derived source chain extension) ↔
      fileAt look path.text = none ∧ ∃ stem, splitExtension path.fileName = some (stem, extension) ∧
        ∃ cut ∈ cuts stem, chain = Chain.ofTexts cut.tokens ∧
          firstAt look fallbacks path.dir cut.base extension = some source ∧
          ∀ other ∈ cuts stem, other.tokens.length < cut.tokens.length →
            firstAt look fallbacks path.dir other.base extension = none := by
  rw [resolveIn_eq]
  cases hfile : fileAt look path.text with
  | some other => simp
  | none =>
      cases hsplit : splitExtension path.fileName with
      | none => simp
      | some parts =>
          obtain ⟨stem, ext⟩ := parts
          simp only [true_and, Option.some.injEq, Prod.mk.injEq]
          constructor
          · intro h
            split at h
            · next r hsome =>
                obtain rfl := Except.ok.inj h
                obtain ⟨cut, hcut, hderived, hnone⟩ := findSome?_cuts_eq_some.1 hsome
                obtain ⟨found, hfound, heq⟩ := Option.map_eq_some_iff.1 hderived
                obtain ⟨rfl, rfl, rfl⟩ := Resolution.derived.inj heq
                exact ⟨stem, ⟨rfl, rfl⟩, cut, hcut, rfl, hfound,
                  fun other hother hlen => by simpa using hnone other hother hlen⟩
            · cases h
          · rintro ⟨_, ⟨rfl, rfl⟩, cut, hcut, rfl, hfound, hnone⟩
            have hsome : ((cuts stem).findSome? fun cut =>
                (firstAt look fallbacks path.dir cut.base ext).map fun source =>
                  Resolution.derived source (Chain.ofTexts cut.tokens) ext)
                = some (.derived source (Chain.ofTexts cut.tokens) ext) :=
              findSome?_cuts_eq_some.2 ⟨cut, hcut, by simp [hfound],
                fun other hother hlen => by simp [hnone other hother hlen]⟩
            rw [hsome]

/-- A path is not answered exactly when it names no file and no cut of its stem has one. -/
theorem resolveIn_ok_of_cut {path : RequestPath} {stem extension : String} {cut : Cut}
    (hsplit : splitExtension path.fileName = some (stem, extension)) (hcut : cut ∈ cuts stem)
    (hfound : (firstAt look fallbacks path.dir cut.base extension).isSome) :
    ∃ r, resolveIn look fallbacks path = .ok r := by
  rw [resolveIn_eq]
  cases fileAt look path.text with
  | some file => exact ⟨_, rfl⟩
  | none =>
      rw [hsplit]
      have hsome : ((cuts stem).findSome? fun cut =>
          (firstAt look fallbacks path.dir cut.base extension).map fun source =>
            Resolution.derived source (Chain.ofTexts cut.tokens) extension).isSome := by
        rw [List.findSome?_isSome_iff]
        exact ⟨cut, hcut, by simpa using hfound⟩
      obtain ⟨r, hr⟩ := Option.isSome_iff_exists.1 hsome
      exact ⟨r, by simp only [hr]⟩

/-! ### Ancestry and staleness -/

private theorem foundAt_eq_filterMap (dir extension : String) : ∀ l : List Cut,
    Id.run (foundAt (m := Id) look fallbacks dir extension l)
      = l.filterMap fun cut => firstAt look fallbacks dir cut.base extension
  | [] => rfl
  | cut :: rest => by
      have ih := foundAt_eq_filterMap dir extension rest
      have hcons : Id.run (foundAt (m := Id) look fallbacks dir extension (cut :: rest))
          = (firstAt look fallbacks dir cut.base extension).toList
            ++ Id.run (foundAt (m := Id) look fallbacks dir extension rest) := rfl
      rw [hcons, ih, List.filterMap_cons]
      cases firstAt look fallbacks dir cut.base extension <;> rfl

/-- An ancestry lists the files that are found for the generated cuts, nearest first. -/
theorem ancestorsIn_eq {path : RequestPath} {stem extension : String}
    (hsplit : splitExtension path.fileName = some (stem, extension)) :
    ancestorsIn look fallbacks path = (generatedCuts stem).filterMap fun cut =>
      firstAt look fallbacks path.dir cut.base extension := by
  have hunfold : ancestorsIn look fallbacks path =
      Id.run (match splitExtension path.fileName with
        | none => pure []
        | some (stem, extension) =>
          foundAt (m := Id) look fallbacks path.dir extension (generatedCuts stem)) := rfl
  rw [hunfold, hsplit]
  exact foundAt_eq_filterMap _ _ _

theorem ancestorsIn_eq_nil {path : RequestPath} (hsplit : splitExtension path.fileName = none) :
    ancestorsIn look fallbacks path = [] := by
  have hunfold : ancestorsIn look fallbacks path =
      Id.run (match splitExtension path.fileName with
        | none => pure []
        | some (stem, extension) =>
          foundAt (m := Id) look fallbacks path.dir extension (generatedCuts stem)) := rfl
  rw [hunfold, hsplit]
  rfl

theorem stalenessIn_eq (path : RequestPath) :
    stalenessIn look fallbacks path =
      match fileAt look path.text with
      | none => .fresh
      | some file => verdict path.text file.stat (ancestorsIn look fallbacks path) := by
  have hunfold : stalenessIn look fallbacks path =
      Id.run (match fileAt look path.text with
        | none => pure .fresh
        | some file =>
          pure (verdict path.text file.stat (ancestorsIn look fallbacks path))) := rfl
  rw [hunfold]
  cases fileAt look path.text <;> rfl

/-! ### Looks in a state -/

section State

variable {φ α β : Type} {lookIn : φ → String → Option FileStat}

/-- A step that answers by a look at the state and leaves the state alone. -/
def Looks (lookIn : φ → String → Option FileStat) (m : StateM φ α)
    (answer : (String → Option FileStat) → α) : Prop :=
  ∀ s, m.run s = (answer (lookIn s), s)

/-- What follows a look goes on with its answer, in the same state. -/
theorem Looks.run_bind {m : StateM φ α} {answer : (String → Option FileStat) → α}
    (hm : Looks lookIn m answer) (k : α → StateM φ β) (s : φ) :
    (m >>= k).run s = (k (answer (lookIn s))).run s := by
  have hbind : (m >>= k).run s = (k (m.run s).1).run (m.run s).2 := rfl
  rw [hbind, hm s]

variable {stat : String → StateM φ (Option FileStat)}

theorem looks_regularFile (hstat : ∀ path, Looks lookIn (stat path) fun look => look path)
    (path : String) : Looks lookIn (regularFile stat path) fun look => fileAt look path := by
  intro s
  rw [regularFile, (hstat path).run_bind]
  rfl

theorem looks_probe (hstat : ∀ path, Looks lookIn (stat path) fun look => look path)
    (dir base extension : String) :
    Looks lookIn (probe stat fallbacks dir base extension) fun look =>
      firstAt look fallbacks dir base extension := by
  intro s
  simp only [firstAt_eq_findSome?, probe]
  induction fallbacks.candidates extension with
  | nil => rfl
  | cons c rest ih =>
      rw [List.findSomeM?_cons, (looks_regularFile hstat _).run_bind, List.findSome?_cons]
      cases fileAt (lookIn s) (pathOf dir base c) with
      | none => exact ih
      | some file => rfl

theorem looks_resolveCut (hstat : ∀ path, Looks lookIn (stat path) fun look => look path)
    (dir extension : String) (l : List Cut) :
    Looks lookIn (resolveCut stat fallbacks dir extension l) fun look =>
      l.findSome? fun cut => (firstAt look fallbacks dir cut.base extension).map fun source =>
        .derived source (Chain.ofTexts cut.tokens) extension := by
  intro s
  induction l with
  | nil => rfl
  | cons cut rest ih =>
      rw [resolveCut, (looks_probe hstat dir cut.base extension).run_bind]
      simp only [List.findSome?_cons]
      cases firstAt (lookIn s) fallbacks dir cut.base extension with
      | none => exact ih
      | some source => rfl

theorem looks_resolve (hstat : ∀ path, Looks lookIn (stat path) fun look => look path)
    (path : RequestPath) :
    Looks lookIn (resolve stat fallbacks path) fun look => resolveIn look fallbacks path := by
  intro s
  simp only [resolveIn_eq]
  rw [resolve, (looks_regularFile hstat path.text).run_bind]
  cases fileAt (lookIn s) path.text with
  | some file => rfl
  | none =>
      cases splitExtension path.fileName with
      | none => rfl
      | some parts =>
          obtain ⟨stem, extension⟩ := parts
          simp only [(looks_resolveCut hstat path.dir extension (cuts stem)).run_bind]
          generalize List.findSome? _ (cuts stem) = found
          cases found <;> rfl

theorem looks_foundAt (hstat : ∀ path, Looks lookIn (stat path) fun look => look path)
    (dir extension : String) (l : List Cut) :
    Looks lookIn (foundAt stat fallbacks dir extension l) fun look =>
      l.filterMap fun cut => firstAt look fallbacks dir cut.base extension := by
  induction l with
  | nil => intro s; rfl
  | cons cut rest ih =>
      intro s
      rw [foundAt, (looks_probe hstat dir cut.base extension).run_bind, ih.run_bind]
      simp only [List.filterMap_cons]
      cases firstAt (lookIn s) fallbacks dir cut.base extension <;> rfl

theorem looks_ancestry (hstat : ∀ path, Looks lookIn (stat path) fun look => look path)
    (path : RequestPath) :
    Looks lookIn (ancestry stat fallbacks path) fun look => ancestorsIn look fallbacks path := by
  intro s
  cases hsplit : splitExtension path.fileName with
  | none =>
      simp only [ancestorsIn_eq_nil hsplit, ancestry, hsplit]
      rfl
  | some parts =>
      obtain ⟨stem, extension⟩ := parts
      simp only [ancestorsIn_eq hsplit, ancestry, hsplit]
      exact looks_foundAt hstat path.dir extension (generatedCuts stem) s

theorem looks_staleness (hstat : ∀ path, Looks lookIn (stat path) fun look => look path)
    (path : RequestPath) :
    Looks lookIn (staleness stat fallbacks path) fun look => stalenessIn look fallbacks path := by
  intro s
  simp only [stalenessIn_eq]
  rw [staleness, (looks_regularFile hstat path.text).run_bind]
  cases fileAt (lookIn s) path.text with
  | none => rfl
  | some file =>
      simp only
      rw [(looks_ancestry hstat path).run_bind]
      rfl

end State

end Rendition
