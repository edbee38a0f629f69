import Rendition.Proofs.Levels
import Rendition.Proofs.Lookup

/-!
# Rendition.Proofs.Staleness

What a verdict says. A file is fresh when no file of its ancestry is newer (`stalenessIn_eq_fresh`),
and a stale one goes together with every file of its ancestry behind which a further one was found
(`mem_doomed`). With plain extensions every doomed file has the name of a derivative
(`namesDerivative_of_mem_doomed`): that is what keeps true sources safe.
-/

namespace Rendition

variable {look : String → Option FileStat} {fallbacks : Fallbacks}

/-! ### Files of an ancestry -/

theorem mem_ancestorsIn {path : RequestPath} {stem extension : String}
    (hsplit : splitExtension path.fileName = some (stem, extension)) {level : FoundFile} :
    level ∈ ancestorsIn look fallbacks path ↔
      ∃ cut ∈ generatedCuts stem,
        firstAt look fallbacks path.dir cut.base extension = some level := by
  rw [ancestorsIn_eq hsplit, List.mem_filterMap]

/-- In a growing list, what is found behind nothing but the last find. -/
private theorem mem_dropLast_filterMap {α β : Type} {size : α → Nat} {find : α → Option β} {x : β}
    {l : List α} (hpair : l.Pairwise fun a b => size a < size b) :
    x ∈ (l.filterMap find).dropLast ↔
      ∃ a ∈ l, find a = some x ∧ ∃ b ∈ l, size a < size b ∧ (find b).isSome := by
  constructor
  · intro hx
    have hne : l.filterMap find ≠ [] := by
      intro h
      simp [h] at hx
    have hgrow : (l.filterMap find).Pairwise fun x y =>
        ∃ a ∈ l, find a = some x ∧ ∃ b ∈ l, size a < size b ∧ find b = some y := by
      rw [List.pairwise_filterMap]
      refine List.Pairwise.imp_of_mem (fun {a b} ha hb hlt => ?_) hpair
      exact fun x hxa y hyb => ⟨a, ha, hxa, b, hb, hlt, hyb⟩
    rw [← List.dropLast_concat_getLast hne] at hgrow
    obtain ⟨a, ha, hxa, b, hb, hlt, hyb⟩ :=
      (List.pairwise_append.1 hgrow).2.2 x hx _ (List.mem_singleton_self _)
    exact ⟨a, ha, hxa, b, hb, hlt, Option.isSome_of_eq_some hyb⟩
  · rintro ⟨a, ha, hxa, b, hb, hlt, hsome⟩
    obtain ⟨front, back, rfl⟩ := List.append_of_mem ha
    have hback : b ∈ back := (mem_behind_of_pairwise hpair).2 ⟨hb, hlt⟩
    obtain ⟨y, hyb⟩ := Option.isSome_iff_exists.1 hsome
    have hne : back.filterMap find ≠ [] :=
      List.ne_nil_of_mem (List.mem_filterMap.2 ⟨b, hback, hyb⟩)
    rw [List.filterMap_append, List.filterMap_cons, hxa,
      List.dropLast_append_of_ne_nil (by simp), List.dropLast_cons_of_ne_nil hne]
    simp

/-- Of the files of an ancestry, all but the last have a further one behind them. -/
theorem mem_dropLast_ancestorsIn {path : RequestPath} {stem extension : String}
    (hsplit : splitExtension path.fileName = some (stem, extension)) {level : FoundFile} :
    level ∈ (ancestorsIn look fallbacks path).dropLast ↔
      ∃ a ∈ generatedCuts stem, firstAt look fallbacks path.dir a.base extension = some level ∧
        ∃ b ∈ generatedCuts stem, a.tokens.length < b.tokens.length ∧
          (firstAt look fallbacks path.dir b.base extension).isSome := by
  rw [ancestorsIn_eq hsplit]
  exact mem_dropLast_filterMap (pairwise_generatedCuts stem)

/-! ### Verdicts -/

/-- A path is fresh when its file, if there is one, is no older than the files of its ancestry. -/
theorem stalenessIn_eq_fresh {path : RequestPath} :
    stalenessIn look fallbacks path = .fresh ↔
      ∀ file, fileAt look path.text = some file →
        ∀ level ∈ ancestorsIn look fallbacks path, ¬ file.stat.modified < level.stat.newest := by
  rw [stalenessIn_eq]
  cases fileAt look path.text with
  | none => simp
  | some file => simp [verdict]

/-- A path is stale when some file of its ancestry is newer; the last of these is not doomed. -/
theorem stalenessIn_eq_stale {path : RequestPath} {doomed : List String} :
    stalenessIn look fallbacks path = .stale doomed ↔
      ∃ file, fileAt look path.text = some file ∧
        (∃ level ∈ ancestorsIn look fallbacks path, file.stat.modified < level.stat.newest) ∧
        doomed = path.text :: (ancestorsIn look fallbacks path).dropLast.map (·.path) := by
  rw [stalenessIn_eq]
  cases fileAt look path.text with
  | none => simp
  | some file =>
      by_cases hnewer : ∃ level ∈ ancestorsIn look fallbacks path,
        file.stat.modified < level.stat.newest
      · have hany : (ancestorsIn look fallbacks path).any
            (fun level => file.stat.modified < level.stat.newest) = true := by simpa using hnewer
        simp only [verdict, hany, if_true, Staleness.stale.injEq, Option.some.injEq]
        constructor
        · rintro rfl
          exact ⟨file, rfl, hnewer, rfl⟩
        · rintro ⟨-, -, -, rfl⟩
          rfl
      · have hany : ¬ (ancestorsIn look fallbacks path).any
            (fun level => file.stat.modified < level.stat.newest) = true := by simpa using hnewer
        simp only [verdict, if_neg hany, reduceCtorEq, false_iff]
        rintro ⟨_, hfile, hlevel, -⟩
        exact hnewer (Option.some.inj hfile ▸ hlevel)

/-- A file whose name has no extension is fresh. -/
theorem exists_generatedCut_of_stale {path : RequestPath} {doomed : List String}
    (h : stalenessIn look fallbacks path = .stale doomed) :
    ∃ stem extension, splitExtension path.fileName = some (stem, extension) ∧
      ∃ cut, cut ∈ generatedCuts stem := by
  obtain ⟨-, -, ⟨level, hlevel, -⟩, -⟩ := stalenessIn_eq_stale.1 h
  cases hsplit : splitExtension path.fileName with
  | none => simp [ancestorsIn_eq_nil hsplit] at hlevel
  | some parts =>
      obtain ⟨stem, extension⟩ := parts
      obtain ⟨cut, hcut, -⟩ := (mem_ancestorsIn hsplit).1 hlevel
      exact ⟨stem, extension, rfl, cut, hcut⟩

/-- The doomed files are the stale one and the files of its ancestry behind which another one was
found. -/
theorem mem_doomed {path : RequestPath} {stem extension : String} {doomed : List String}
    (hsplit : splitExtension path.fileName = some (stem, extension))
    (h : stalenessIn look fallbacks path = .stale doomed) {name : String} :
    name ∈ doomed ↔ name = path.text ∨
      ∃ a ∈ generatedCuts stem, ∃ level,
        firstAt look fallbacks path.dir a.base extension = some level ∧ level.path = name ∧
        ∃ b ∈ generatedCuts stem, a.tokens.length < b.tokens.length ∧
          (firstAt look fallbacks path.dir b.base extension).isSome := by
  obtain ⟨file, -, -, rfl⟩ := stalenessIn_eq_stale.1 h
  rw [List.mem_cons, List.mem_map]
  refine or_congr_right ?_
  simp only [mem_dropLast_ancestorsIn hsplit]
  constructor
  · rintro ⟨level, ⟨a, ha, hlevel, hb⟩, hname⟩
    exact ⟨a, ha, level, hlevel, hname, hb⟩
  · rintro ⟨a, ha, level, hlevel, hname, hb⟩
    exact ⟨level, ⟨a, ha, hlevel, hb⟩, hname⟩

/-- The last file that is found in the ancestry of a stale one is spared. -/
theorem exists_spared {path : RequestPath} {stem extension : String} {doomed : List String}
    (hsplit : splitExtension path.fileName = some (stem, extension))
    (h : stalenessIn look fallbacks path = .stale doomed) :
    ∃ cut ∈ generatedCuts stem, ∃ level,
      firstAt look fallbacks path.dir cut.base extension = some level ∧ level.path ∉ doomed ∧
      ∀ other ∈ generatedCuts stem,
        (firstAt look fallbacks path.dir other.base extension).isSome →
        other.tokens.length ≤ cut.tokens.length := by
  obtain ⟨-, -, ⟨any, hany, -⟩, -⟩ := stalenessIn_eq_stale.1 h
  obtain ⟨cut, hcut, hfound⟩ := (mem_ancestorsIn hsplit).1 hany
  let found := (generatedCuts stem).filter fun cut =>
    (firstAt look fallbacks path.dir cut.base extension).isSome
  have hne : found ≠ [] :=
    List.ne_nil_of_mem (List.mem_filter.2 ⟨hcut, Option.isSome_of_eq_some hfound⟩)
  have hlast := List.mem_filter.1 (List.getLast_mem hne)
  obtain ⟨level, hlevel⟩ := Option.isSome_iff_exists.1 hlast.2
  -- No cut that a file is found for has more tokens.
  have hmost : ∀ b ∈ found, b.tokens.length ≤ (found.getLast hne).tokens.length := by
    intro b hb
    have hpair : found.Pairwise fun a b => a.tokens.length < b.tokens.length :=
      (pairwise_generatedCuts stem).filter _
    rw [← List.dropLast_concat_getLast hne] at hb hpair
    rcases List.mem_append.1 hb with hb | hb
    · exact Nat.le_of_lt ((List.pairwise_append.1 hpair).2.2 b hb _ (List.mem_singleton_self _))
    · exact Nat.le_of_eq (congrArg (·.tokens.length) (List.mem_singleton.1 hb))
  have hcutLast : found.getLast hne ∈ cuts stem := (mem_generatedCuts.1 hlast.1).1
  obtain ⟨c, -, hfile⟩ := exists_of_firstAt hlevel
  have hpath : level.path = pathOf path.dir (found.getLast hne).base c :=
    (fileAt_eq_some.1 hfile).1
  refine ⟨found.getLast hne, hlast.1, level, hlevel, fun hdoomed => ?_,
    fun other hother hsome => hmost other (List.mem_filter.2 ⟨hother, hsome⟩)⟩
  rcases (mem_doomed hsplit h).1 hdoomed with
    htext | ⟨a, ha, other, hother, heq, b, hb, hlen, hsome⟩
  · exact pathOf_ne_text hsplit hcutLast (mem_generatedCuts.1 hlast.1).2.1 (hpath.symm.trans htext)
  · obtain ⟨c', -, hfile'⟩ := exists_of_firstAt hother
    have hlen' : b.tokens.length ≤ (found.getLast hne).tokens.length :=
      hmost b (List.mem_filter.2 ⟨hb, hsome⟩)
    refine pathOf_ne_pathOf (mem_generatedCuts.1 ha).1 hcutLast (Nat.lt_of_lt_of_le hlen hlen')
      (?_ : pathOf path.dir a.base c' = pathOf _ _ c)
    rw [← hpath, ← heq, (fileAt_eq_some.1 hfile').1]

/-- With plain extensions, only files with the name of a derivative are doomed. -/
theorem namesDerivative_of_mem_doomed (hplain : fallbacks.Plain) {path : RequestPath}
    {doomed : List String} (h : stalenessIn look fallbacks path = .stale doomed) {name : String}
    (hname : name ∈ doomed) : namesDerivative name = true := by
  obtain ⟨stem, extension, hsplit, cut, hcut⟩ := exists_generatedCut_of_stale h
  rcases (mem_doomed hsplit h).1 hname with rfl | ⟨a, ha, level, hlevel, rfl, b, hb, hlen, -⟩
  · exact namesDerivative_of_cut hsplit hcut
  · obtain ⟨c, hc, hfile⟩ := exists_of_firstAt hlevel
    rw [(fileAt_eq_some.1 hfile).1]
    have hext : IsExtension c := hplain.isExtension (RequestPath.isExtension hsplit) hc
    exact namesDerivative_level hsplit (mem_generatedCuts.1 ha).1 hb hlen hext

end Rendition
