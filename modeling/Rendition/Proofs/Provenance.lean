import Rendition.Proofs.Derivation
import Rendition.Proofs.Serving
import Rendition.Proofs.Staleness

/-!
# Rendition.Proofs.Provenance

Where the contents on disk come from, when all files and requests have one extension. A path is
rooted in an original when its name is the original's followed by well-formed directives (`Rooted`).
`Current` is the invariant of the files: whatever lies at a rooted path and is no older than the
original is derived from the content that the original has now. A request that checks its file, or
starts from a fresh one, is answered from a resolution that carries this on (`Grounds`): a fresh
file is derived by the directives in its name, and what a sweep leaves to start from is the
original.
-/

namespace Rendition

open Text

/-! ### Rooted paths -/

/-- The extension of the file name at the end of a path. -/
def extensionOf (path : String) : Option String :=
  (splitExtension (nameOf path)).map (·.2)

/-- Files with one extension, none of which has the name of a derivative. -/
structure Pristine (originals : Catalog StoredFile) (extension : String) : Prop where
  uniform : ∀ name, (originals.get? name).isSome → extensionOf name = some extension
  notDerivative : ∀ name, (originals.get? name).isSome → namesDerivative name = false

/-- A path whose name is that of an original beside it, with well-formed tokens between the base and
the extension. -/
structure Rooted (originals : Catalog StoredFile) (extension : String) (path : RequestPath)
    (base : String) (tokens : List String) : Prop where
  fileName : path.fileName = joined '_' (base :: tokens) ++ "." ++ extension
  noUnderscore : ∀ token ∈ tokens, '_' ∉ token.toList
  wellFormed : ∀ token ∈ tokens, Directive.isWellFormed token = true
  original : (originals.get? (pathOf path.dir base extension)).isSome

namespace Rooted

variable {originals : Catalog StoredFile} {extension : String} {path : RequestPath} {base : String}
  {tokens : List String}

private theorem no_slash (h : Rooted originals extension path base tokens) :
    '/' ∉ (base ++ "." ++ extension).toList := by
  intro hslash
  apply path.not_mem_slash_fileName
  rw [h.fileName]
  simp only [String.toList_append, List.mem_append] at hslash ⊢
  rcases hslash with (hslash | hslash) | hslash
  · exact Or.inl (Or.inl (mem_joined_of_mem List.mem_cons_self hslash))
  · exact Or.inl (Or.inr hslash)
  · exact Or.inr hslash

/-- The name of the original falls into its base and the extension. -/
theorem split_original (hp : Pristine originals extension)
    (h : Rooted originals extension path base tokens) :
    splitExtension (base ++ "." ++ extension) = some (base, extension) := by
  have hname : nameOf (pathOf path.dir base extension) = base ++ "." ++ extension := by
    rw [pathOf_eq]
    exact path.nameOf_dir_append h.no_slash
  have hext := hp.uniform _ h.original
  rw [extensionOf, hname] at hext
  obtain ⟨⟨stem, ext⟩, hsplit, rfl⟩ := Option.map_eq_some_iff.1 hext
  have hstem : stem = base := by
    have heq := (splitExtension_eq_some.1 hsplit).1
    simpa using heq.symm
  rw [hsplit, hstem]

/-- The name of the path falls into a stem that can be cut behind the base, and the extension. -/
theorem split (hp : Pristine originals extension)
    (h : Rooted originals extension path base tokens) :
    splitExtension path.fileName = some (joined '_' (base :: tokens), extension) := by
  obtain ⟨-, hbase, hext, hdot⟩ := splitExtension_eq_some.1 (h.split_original hp)
  exact splitExtension_eq_some.2 ⟨h.fileName, joined_cons_ne_empty hbase tokens, hext, hdot⟩

theorem cut_mem (hp : Pristine originals extension)
    (h : Rooted originals extension path base tokens) :
    ⟨base, tokens⟩ ∈ cuts (joined '_' (base :: tokens)) :=
  mem_cuts.2 ⟨rfl, (splitExtension_eq_some.1 (h.split_original hp)).2.1, h.noUnderscore⟩

theorem cut_front_mem (hp : Pristine originals extension)
    (h : Rooted originals extension path base tokens) {front back : List String}
    (htokens : tokens = front ++ back) :
    ⟨joined '_' (base :: front), back⟩ ∈ cuts (joined '_' (base :: tokens)) := by
  subst htokens
  exact cut_append_mem (h.cut_mem hp)

theorem generatedCut_mem (hp : Pristine originals extension)
    (h : Rooted originals extension path base tokens) (hne : tokens ≠ []) :
    ⟨base, tokens⟩ ∈ generatedCuts (joined '_' (base :: tokens)) :=
  mem_generatedCuts.2 ⟨h.cut_mem hp, hne, h.wellFormed⟩

theorem isExtension (hp : Pristine originals extension)
    (h : Rooted originals extension path base tokens) : IsExtension extension :=
  RequestPath.isExtension (h.split hp)

theorem text_eq (h : Rooted originals extension path base tokens) :
    path.text = pathOf path.dir (joined '_' (base :: tokens)) extension := by
  rw [path.text_eq, h.fileName, pathOf_eq]

/-- Without tokens the path is that of the original. -/
theorem text_eq_original (h : Rooted originals extension path base []) :
    path.text = pathOf path.dir base extension := by
  rw [h.text_eq, joined_singleton]

/-- With tokens the path names a derivative. -/
theorem namesDerivative (hp : Pristine originals extension)
    (h : Rooted originals extension path base tokens) (hne : tokens ≠ []) :
    namesDerivative path.text = true :=
  namesDerivative_of_cut (h.split hp) (h.generatedCut_mem hp hne)

theorem ne_original (hp : Pristine originals extension)
    (h : Rooted originals extension path base tokens) (hne : tokens ≠ []) {name : String}
    (hname : (originals.get? name).isSome) : path.text ≠ name := by
  rintro rfl
  have := h.namesDerivative hp hne
  simp [hp.notDerivative _ hname] at this

/-- A cut of the stem with fewer tokens than the path is rooted by has a rooted path. -/
theorem level (hp : Pristine originals extension)
    (h : Rooted originals extension path base tokens) {front back : List String}
    (htokens : tokens = front ++ back) :
    ∃ onDisk : RequestPath,
      onDisk.text = pathOf path.dir (joined '_' (base :: front)) extension ∧
      onDisk.dir = path.dir ∧ Rooted originals extension onDisk base front := by
  obtain ⟨onDisk, htext, hdir, hsplit⟩ :=
    exists_level (h.split hp) (h.cut_front_mem hp htokens) (h.isExtension hp)
  have hsub : ∀ token ∈ front, token ∈ tokens := by
    intro token htoken
    simp [htokens, htoken]
  exact ⟨onDisk, htext, hdir, (splitExtension_eq_some.1 hsplit).1,
    fun token htoken => h.noUnderscore token (hsub token htoken),
    fun token htoken => h.wellFormed token (hsub token htoken), hdir ▸ h.original⟩

end Rooted

/-! ### Where a resolution starts -/

/-- A resolution of a rooted path starts at a file that is rooted in the same original by the tokens
in front, and the tokens behind are left to be carried out. No file lies nearer to the path. -/
structure StartsAt (originals : Catalog StoredFile) (extension : String)
    (files : Catalog StoredFile) (path : RequestPath) (base : String) (tokens : List String)
    (r : Resolution) (onDisk : RequestPath) (front back : List String) : Prop where
  rooted : Rooted originals extension onDisk base front
  dir : onDisk.dir = path.dir
  text : r.file.path = onDisk.text
  stored : (files.get? onDisk.text).isSome
  split : tokens = front ++ back
  todo : (r = .direct r.file ∧ back = []) ∨
    (back ≠ [] ∧ r = .derived r.file (Chain.ofTexts back) extension)
  nearest : ∀ front' back', tokens = front' ++ back' → back'.length < back.length →
    files.get? (pathOf path.dir (joined '_' (base :: front')) extension) = none

section OneExtension

variable {originals files : Catalog StoredFile} {extension : String} {fallbacks : Fallbacks}
  {path : RequestPath} {base : String} {tokens : List String}

/-- Where every file has the requested extension, no further one is found. -/
theorem firstAt_eq_fileAt (hplain : fallbacks.Plain)
    (hfiles : ∀ name, (files.get? name).isSome → extensionOf name = some extension) {stem : String}
    (hsplit : splitExtension path.fileName = some (stem, extension)) {cut : Cut}
    (hcut : cut ∈ cuts stem) :
    firstAt files.look fallbacks path.dir cut.base extension
      = fileAt files.look (pathOf path.dir cut.base extension) := by
  cases hfile : fileAt files.look (pathOf path.dir cut.base extension) with
  | some file => simp [firstAt_eq_findSome?, Fallbacks.candidates, hfile]
  | none =>
      rw [firstAt_eq_none]
      intro c hc
      have hext := hplain.isExtension (RequestPath.isExtension hsplit) hc
      obtain ⟨q, htext, -, hsplit'⟩ := exists_level hsplit hcut hext
      rw [Catalog.fileAt_look_eq_none] at hfile ⊢
      cases hget : files.get? (pathOf path.dir cut.base c) with
      | none => rfl
      | some file =>
          have hname := hfiles _ (Option.isSome_of_eq_some hget)
          rw [← htext, extensionOf, RequestPath.nameOf_text, hsplit'] at hname
          obtain rfl : c = extension := Option.some.inj hname
          rw [hfile] at hget
          cases hget

variable (hp : Pristine originals extension) (hplain : fallbacks.Plain)
  (hpresent : ∀ name, (originals.get? name).isSome → (files.get? name).isSome)
  (hfiles : ∀ name, (files.get? name).isSome → extensionOf name = some extension)

include hp hplain hfiles

/-- What lies at the path of a level is found there. -/
theorem Rooted.firstAt_level (h : Rooted originals extension path base tokens)
    {front back : List String} (htokens : tokens = front ++ back) :
    firstAt files.look fallbacks path.dir (joined '_' (base :: front)) extension
      = fileAt files.look (pathOf path.dir (joined '_' (base :: front)) extension) := by
  have hcut := h.cut_front_mem hp htokens
  have hfirst := firstAt_eq_fileAt hplain hfiles (h.split hp) hcut
  exact hfirst

/-- A rooted file that is fresh is no older than its original. -/
theorem Rooted.not_older {onDisk : RequestPath} (h : Rooted originals extension onDisk base tokens)
    (hne : tokens ≠ []) (hfresh : stalenessIn files.look fallbacks onDisk = .fresh)
    {source file : StoredFile}
    (hsource : files.get? (pathOf onDisk.dir base extension) = some source)
    (hfile : files.get? onDisk.text = some file) : ¬ file.modified < source.stat.newest := by
  have hlevel := firstAt_eq_fileAt hplain hfiles (h.split hp) (h.cut_mem hp)
  have hfound := hlevel.trans (Catalog.fileAt_look.2 ⟨source, hsource, rfl⟩)
  have hmem := (mem_ancestorsIn (h.split hp)).2 ⟨_, h.generatedCut_mem hp hne, hfound⟩
  exact stalenessIn_eq_fresh.1 hfresh _ (Catalog.fileAt_look.2 ⟨file, hfile, rfl⟩) _ hmem

include hpresent

/-- A rooted path that is resolved starts somewhere between itself and its original. -/
theorem Rooted.startsAt (h : Rooted originals extension path base tokens) {r : Resolution}
    (hresolve : resolveIn files.look fallbacks path = .ok r) :
    ∃ onDisk front back,
      StartsAt originals extension files path base tokens r onDisk front back := by
  cases r with
  | direct found =>
      obtain ⟨file, hget, rfl⟩ := Catalog.fileAt_look.1 (resolveIn_eq_direct.1 hresolve)
      exact ⟨path, tokens, [], h, rfl, rfl, Option.isSome_of_eq_some hget, by simp,
        Or.inl ⟨rfl, rfl⟩, by simp⟩
  | derived found chain ext =>
      obtain ⟨hnone, stem, hsplit, cut, hcut, rfl, hfound, hnearest⟩ :=
        resolveIn_eq_derived.1 hresolve
      obtain ⟨rfl, rfl⟩ := Prod.mk.inj (Option.some.inj ((h.split hp).symm.trans hsplit))
      -- The original is a candidate, so the cut lies no further back.
      have hlen : cut.tokens.length ≤ tokens.length := by
        refine Nat.le_of_not_lt fun hlt => ?_
        have hbase := hnearest _ (h.cut_mem hp) hlt
        rw [firstAt_eq_fileAt hplain hfiles hsplit (h.cut_mem hp),
          Catalog.fileAt_look_eq_none] at hbase
        have := hpresent _ h.original
        simp [hbase] at this
      obtain ⟨front, htokens, hbase⟩ := cut_split hcut (h.cut_mem hp) hlen
      obtain ⟨onDisk, htext, hdir, hrooted⟩ := h.level hp htokens
      rw [firstAt_eq_fileAt hplain hfiles hsplit hcut, hbase, ← htext] at hfound
      obtain ⟨file, hget, rfl⟩ := Catalog.fileAt_look.1 hfound
      refine ⟨onDisk, front, cut.tokens, hrooted, hdir, rfl, Option.isSome_of_eq_some hget, htokens,
        Or.inr ⟨?_, rfl⟩, ?_⟩
      · intro hnil
        rw [hnil, List.append_nil] at htokens
        have htext' : onDisk.text = path.text := by rw [htext, ← htokens, h.text_eq]
        rw [← htext', Catalog.fileAt_look_eq_none, hget] at hnone
        cases hnone
      · intro front' back' htokens' hlt
        have hnone' := hnearest _ (h.cut_front_mem hp htokens') hlt
        rwa [h.firstAt_level hp hplain hfiles htokens', Catalog.fileAt_look_eq_none] at hnone'

/-- What lies between a stale rooted file and its original is doomed. -/
theorem Rooted.mem_doomed {onDisk : RequestPath} {front between : List String}
    (h : Rooted originals extension onDisk base (front ++ between)) (hfront : front ≠ [])
    (hstored : (files.get? (pathOf onDisk.dir (joined '_' (base :: front)) extension)).isSome)
    {doomed : List String} (hstale : stalenessIn files.look fallbacks onDisk = .stale doomed) :
    pathOf onDisk.dir (joined '_' (base :: front)) extension ∈ doomed := by
  rw [Rendition.mem_doomed (h.split hp) hstale]
  by_cases hbetween : between = []
  · left
    rw [h.text_eq, hbetween, List.append_nil]
  · right
    have hne : front ++ between ≠ [] := by simp [hfront]
    have hgenerated := h.generatedCut_mem hp hne
    have ha : ⟨joined '_' (base :: front), between⟩
        ∈ generatedCuts (joined '_' (base :: (front ++ between))) := by
      refine mem_generatedCuts.2 ⟨h.cut_front_mem hp rfl, hbetween, fun token htoken => ?_⟩
      exact h.wellFormed token (List.mem_append_right _ htoken)
    obtain ⟨file, hget⟩ := Option.isSome_iff_exists.1 hstored
    obtain ⟨source, hsource⟩ := Option.isSome_iff_exists.1 (hpresent _ h.original)
    refine ⟨_, ha, ⟨_, file.stat⟩, ?_, rfl, _, hgenerated, ?_, ?_⟩
    · have hlevel := h.firstAt_level hp hplain hfiles rfl
      exact hlevel.trans (Catalog.fileAt_look.2 ⟨file, hget, rfl⟩)
    · have := List.length_pos_iff.2 hfront
      simp only [List.length_append]
      omega
    · have hlevel := firstAt_eq_fileAt hplain hfiles (h.split hp) (h.cut_mem hp)
      rw [hlevel, Catalog.fileAt_look.2 ⟨source, hsource, rfl⟩]
      rfl

/-- Once the file that a rooted path started at is swept as stale, the path starts at the
original. -/
theorem StartsAt.eq_nil_of_swept {r r' : Resolution} {onDisk onDisk' : RequestPath}
    {front back front' back' : List String} {doomed : List String}
    (h : StartsAt originals extension files path base tokens r onDisk front back)
    (hstale : stalenessIn files.look fallbacks onDisk = .stale doomed)
    (h' : StartsAt originals extension (files.without doomed) path base tokens r' onDisk' front'
      back') : front' = [] := by
  by_cases hne : front' = []
  · exact hne
  -- Otherwise it starts between the stale file and its original, at a file that is doomed.
  exfalso
  obtain ⟨file, hget⟩ := Option.isSome_iff_exists.1 h'.stored
  have htext : onDisk'.text = pathOf onDisk.dir (joined '_' (base :: front')) extension := by
    rw [h'.rooted.text_eq, h'.dir, h.dir]
  rw [Catalog.get?_without, htext] at hget
  split at hget
  · cases hget
  · next hnotDoomed =>
      have hlen : back.length ≤ back'.length := by
        refine Nat.le_of_not_lt fun hlt => ?_
        have hnone := h.nearest front' back' h'.split hlt
        rw [← h.dir, hget] at hnone
        cases hnone
      have happend : front' ++ back' = front ++ back := h'.split ▸ h.split
      have hshort : front'.length ≤ front.length := by
        have := congrArg List.length happend
        simp only [List.length_append] at this
        omega
      obtain ⟨between, rfl⟩ := List.prefix_of_prefix_length_le
        (List.prefix_append front' back') (happend ▸ List.prefix_append front back) hshort
      exact hnotDoomed (h.rooted.mem_doomed hp hplain hpresent hfiles hne
        (Option.isSome_of_eq_some hget) hstale)

end OneExtension

/-! ### Contents of rooted files -/

variable {κ η : Type}

/-- The originals are there, every file has the one extension, and a rooted file that is no older
than its original is derived from the content that the original has. -/
structure Current (codec : Codec κ η) (originals : Catalog StoredFile) (extension : String)
    (files : Catalog StoredFile) : Prop where
  present : ∀ name, (originals.get? name).isSome → (files.get? name).isSome
  uniform : ∀ name, (files.get? name).isSome → extensionOf name = some extension
  derived : ∀ {path : RequestPath} {base : String} {tokens : List String}
    {source file : StoredFile}, Rooted originals extension path base tokens → tokens ≠ [] →
    files.get? (pathOf path.dir base extension) = some source →
    files.get? path.text = some file → ¬ file.modified < source.stat.newest →
    DerivedFrom codec extension source.content tokens file.content

/-- The file of a resolution is derived from a content by the tokens in front of those that are left
to be carried out. -/
inductive Grounds (codec : Codec κ η) (extension : String) (files : Catalog StoredFile)
    (content : Content) (tokens : List String) : Resolution → Prop
  | direct {found : FoundFile} {file : StoredFile} (hget : files.get? found.path = some file)
      (h : DerivedFrom codec extension content tokens file.content) :
      Grounds codec extension files content tokens (.direct found)
  | derived {found : FoundFile} {file : StoredFile} {front back : List String}
      (hget : files.get? found.path = some file)
      (h : DerivedFrom codec extension content front file.content) (hback : back ≠ [])
      (htokens : tokens = front ++ back) :
      Grounds codec extension files content tokens
        (.derived found (Chain.ofTexts back) extension)

section Grounds

variable {codec : Codec κ η} {originals files : Catalog StoredFile} {extension : String}
  {fallbacks : Fallbacks} {path : RequestPath} {base : String} {tokens : List String}
  {r : Resolution}

theorem StartsAt.grounds {onDisk : RequestPath} {front back : List String} {content : Content}
    {file : StoredFile}
    (h : StartsAt originals extension files path base tokens r onDisk front back)
    (hget : files.get? onDisk.text = some file)
    (hderived : DerivedFrom codec extension content front file.content) :
    Grounds codec extension files content tokens r := by
  rw [← h.text] at hget
  rcases h.todo with ⟨hr, hback⟩ | ⟨hback, hr⟩
  · rw [hr]
    have hfront : tokens = front := by rw [h.split, hback, List.append_nil]
    exact .direct hget (hfront ▸ hderived)
  · rw [hr]
    exact .derived hget hderived hback h.split

theorem StartsAt.grounds_of_original {onDisk : RequestPath} {back : List String}
    {source : StoredFile}
    (h : StartsAt originals extension files path base tokens r onDisk [] back)
    (hsource : files.get? (pathOf path.dir base extension) = some source) :
    Grounds codec extension files source.content tokens r := by
  rw [← h.dir, ← h.rooted.text_eq_original] at hsource
  exact h.grounds hsource .source

/-- Carrying out what is left of the tokens makes a derivative by all of them. -/
theorem Grounds.made {content : Content} {found : FoundFile} {chain : Chain} {ext : String}
    {file : StoredFile} {execution : Execution} {k l : κ}
    (h : Grounds codec extension files content tokens (.derived found chain ext))
    (hcodec : codec.Deterministic) (hget : files.get? found.path = some file)
    (hexecute : (codec.execute file.content chain ext).run.run k = (.ok execution, l)) :
    DerivedFrom codec extension content tokens execution.result := by
  cases h with
  | derived hget' hderived hback htokens =>
      obtain rfl := Option.some.inj (hget.symm.trans hget')
      rw [htokens]
      exact hderived.block hback (hcodec.yields hexecute)

variable (hcurrent : Current codec originals extension files) (hp : Pristine originals extension)
  (hplain : fallbacks.Plain)

include hcurrent hp hplain

/-- A request that starts from a fresh file is grounded in the original as it is. -/
theorem Current.grounds_of_fresh (h : Rooted originals extension path base tokens)
    (hresolve : resolveIn files.look fallbacks path = .ok r) {onDisk : RequestPath}
    (hpath : RequestPath.ofRequest r.file.path = .ok onDisk)
    (hfresh : stalenessIn files.look fallbacks onDisk = .fresh) {source : StoredFile}
    (hsource : files.get? (pathOf path.dir base extension) = some source) :
    Grounds codec extension files source.content tokens r := by
  obtain ⟨start, front, back, hstart⟩ :=
    h.startsAt hp hplain hcurrent.present hcurrent.uniform hresolve
  rw [hstart.text, start.ofRequest_text] at hpath
  obtain rfl := Except.ok.inj hpath
  obtain ⟨file, hget⟩ := Option.isSome_iff_exists.1 hstart.stored
  by_cases hfront : front = []
  · subst hfront
    exact hstart.grounds_of_original hsource
  · rw [← hstart.dir] at hsource
    have holder := hstart.rooted.not_older hp hplain hcurrent.uniform hfront hfresh hsource hget
    exact hstart.grounds hget (hcurrent.derived hstart.rooted hfront hsource hget holder)

/-- After a sweep, a request starts from the original. -/
theorem Current.grounds_of_swept (h : Rooted originals extension path base tokens)
    (hresolve : resolveIn files.look fallbacks path = .ok r) {onDisk : RequestPath}
    (hpath : RequestPath.ofRequest r.file.path = .ok onDisk) {doomed : List String}
    (hstale : stalenessIn files.look fallbacks onDisk = .stale doomed)
    (hswept : Current codec originals extension (files.without doomed)) {r' : Resolution}
    (hresolve' : resolveIn (files.without doomed).look fallbacks path = .ok r')
    {source : StoredFile}
    (hsource : (files.without doomed).get? (pathOf path.dir base extension) = some source) :
    Grounds codec extension (files.without doomed) source.content tokens r' := by
  obtain ⟨start, front, back, hstart⟩ :=
    h.startsAt hp hplain hcurrent.present hcurrent.uniform hresolve
  rw [hstart.text, start.ofRequest_text] at hpath
  obtain rfl := Except.ok.inj hpath
  obtain ⟨start', front', back', hstart'⟩ :=
    h.startsAt hp hplain hswept.present hswept.uniform hresolve'
  obtain rfl : front' = [] :=
    hstart.eq_nil_of_swept hp hplain hcurrent.present hcurrent.uniform hstale hstart'
  exact hstart'.grounds_of_original hsource

end Grounds

/-! ### Changes of the files -/

namespace Current

variable {codec : Codec κ η} {originals files : Catalog StoredFile} {extension : String}

/-- Originals lie on disk before there is anything else. -/
theorem initial (hp : Pristine originals extension) :
    Current codec originals extension originals where
  present _ h := h
  uniform := hp.uniform
  derived h hne _ hfile _ :=
    absurd rfl (h.ne_original hp hne (Option.isSome_of_eq_some hfile))

/-- No original is doomed. -/
theorem get?_without_doomed {fallbacks : Fallbacks} (hp : Pristine originals extension)
    (hplain : fallbacks.Plain) {look : String → Option FileStat} {path : RequestPath}
    {doomed : List String} (hstale : stalenessIn look fallbacks path = .stale doomed)
    {name : String} (hname : (originals.get? name).isSome) :
    (files.without doomed).get? name = files.get? name := by
  have hnot : name ∉ doomed := by
    intro hmem
    have := namesDerivative_of_mem_doomed hplain hstale hmem
    simp [hp.notDerivative name hname] at this
  rw [Catalog.get?_without, if_neg hnot]

theorem without (h : Current codec originals extension files) {names : List String}
    (hnames : ∀ name, (originals.get? name).isSome →
      (files.without names).get? name = files.get? name) :
    Current codec originals extension (files.without names) where
  present name hname := by
    rw [hnames name hname]
    exact h.present name hname
  uniform name hname := by
    rw [Catalog.get?_without] at hname
    split at hname
    · cases hname
    · exact h.uniform name hname
  derived hrooted hne hsource hfile holder := by
    rw [hnames _ hrooted.original] at hsource
    rw [Catalog.get?_without] at hfile
    split at hfile
    · cases hfile
    · exact h.derived hrooted hne hsource hfile holder

/-- A file may be put at a path that named none, if it is derived from the original that the path is
rooted in. -/
theorem insert_derived (h : Current codec originals extension files) {path : RequestPath}
    (hpath : path.extension = some extension) (hnone : files.get? path.text = none)
    {file : StoredFile}
    (hderived : ∀ {base : String} {tokens : List String} {source : StoredFile},
      Rooted originals extension path base tokens →
      files.get? (pathOf path.dir base extension) = some source →
      DerivedFrom codec extension source.content tokens file.content) :
    Current codec originals extension (files.insert path.text file) := by
  have hother : ∀ name, (originals.get? name).isSome →
      (files.insert path.text file).get? name = files.get? name := by
    intro name hname
    have hne : name ≠ path.text := by
      rintro rfl
      have := h.present _ hname
      simp [hnone] at this
    rw [Catalog.get?_insert, if_neg hne]
  refine ⟨fun name hname => ?_, fun name hname => ?_, ?_⟩
  · rw [hother name hname]
    exact h.present name hname
  · rw [Catalog.get?_insert] at hname
    split at hname
    · next heq =>
        rw [heq, extensionOf, RequestPath.nameOf_text]
        exact hpath
    · exact h.uniform name hname
  · intro path' base tokens source file' hrooted hne hsource hfile holder
    rw [hother _ hrooted.original] at hsource
    rw [Catalog.get?_insert] at hfile
    split at hfile
    · next heq =>
        obtain rfl := RequestPath.text_injective heq
        obtain rfl := Option.some.inj hfile
        exact hderived hrooted hsource
    · exact h.derived hrooted hne hsource hfile holder

/-- An original may be replaced later than all files were written: no derivative of it counts any
more. -/
theorem insert_original (h : Current codec originals extension files)
    (hp : Pristine originals extension) {name : String} (hname : (originals.get? name).isSome)
    {original : StoredFile}
    (hlater : ∀ other file, files.get? other = some file →
      file.modified < original.stat.newest) :
    Current codec originals extension (files.insert name original) := by
  refine ⟨fun other hother => ?_, fun other hother => ?_, ?_⟩
  · rw [Catalog.get?_insert]
    split
    · rfl
    · exact h.present other hother
  · rw [Catalog.get?_insert] at hother
    split at hother
    · next heq => exact heq ▸ hp.uniform name hname
    · exact h.uniform other hother
  · intro path base tokens source file hrooted hne hsource hfile holder
    rw [Catalog.get?_insert, if_neg (hrooted.ne_original hp hne hname)] at hfile
    rw [Catalog.get?_insert] at hsource
    split at hsource
    · obtain rfl := Option.some.inj hsource
      exact absurd (hlater _ _ hfile) holder
    · exact h.derived hrooted hne hsource hfile holder

end Current

end Rendition
