import Rendition.Proofs.Bases
import Rendition.Proofs.Interruption

/-!
# Rendition.Proofs.Removal

What a sweep removes. The files of an ancestry lie at cuts of one stem, so no two of them have the
same path, whatever their extensions, and none has that of the file that was made from them
(`nodup_ancestry`). So the doomed files are different ones, and the true source is none of them
(`doomed_of_stale`).

A sweep removes them in order, up to the first removal that is refused (`RecordedFiles.sweeps`).
If all go through, the stale file is gone with the rest, and a path without a file is fresh: another
sweep finds nothing to remove (`sweep_removes_doomed`).
-/

namespace Rendition

/-! ### The doomed files -/

section Doomed

variable {look : String → Option FileStat} {fallbacks : Fallbacks} {path : RequestPath}

theorem fileAt_of_mem_ancestorsIn {level : FoundFile}
    (h : level ∈ ancestorsIn look fallbacks path) : fileAt look level.path = some level := by
  cases hsplit : splitExtension path.fileName with
  | none => simp [ancestorsIn_eq_nil hsplit] at h
  | some parts =>
      obtain ⟨cut, -, hfound⟩ := (mem_ancestorsIn hsplit).1 h
      obtain ⟨c, -, hfile⟩ := exists_of_firstAt hfound
      rwa [(fileAt_eq_some.1 hfile).1]

/-- No two files of an ancestry have the same path, and none has the path that it belongs to. -/
theorem nodup_ancestry (look : String → Option FileStat) (fallbacks : Fallbacks)
    (path : RequestPath) :
    (path.text :: (ancestorsIn look fallbacks path).map (·.path)).Nodup := by
  cases hsplit : splitExtension path.fileName with
  | none =>
      rw [ancestorsIn_eq_nil hsplit]
      exact List.nodup_cons.2 ⟨List.not_mem_nil, List.nodup_nil⟩
  | some parts =>
      obtain ⟨stem, extension⟩ := parts
      have hpath : ∀ {cut : Cut} {level : FoundFile},
          firstAt look fallbacks path.dir cut.base extension = some level →
          ∃ c, level.path = pathOf path.dir cut.base c := by
        intro cut level hfound
        obtain ⟨c, -, hfile⟩ := exists_of_firstAt hfound
        exact ⟨c, (fileAt_eq_some.1 hfile).1⟩
      refine List.nodup_cons.2 ⟨fun hmem => ?_, ?_⟩
      · obtain ⟨level, hlevel, htext⟩ := List.mem_map.1 hmem
        obtain ⟨cut, hcut, hfound⟩ := (mem_ancestorsIn hsplit).1 hlevel
        obtain ⟨hmem, hne, -⟩ := mem_generatedCuts.1 hcut
        obtain ⟨c, hc⟩ := hpath hfound
        exact pathOf_ne_text hsplit hmem hne (hc.symm.trans htext)
      · rw [ancestorsIn_eq hsplit, List.Nodup, List.pairwise_map, List.pairwise_filterMap]
        refine List.Pairwise.imp_of_mem (fun {a b} ha hb hlt => ?_) (pairwise_generatedCuts stem)
        intro level hlevel other hother heq
        obtain ⟨c, hc⟩ := hpath hlevel
        obtain ⟨c', hc'⟩ := hpath hother
        exact pathOf_ne_pathOf (mem_generatedCuts.1 ha).1 (mem_generatedCuts.1 hb).1 hlt
          (hc.symm.trans (heq.trans hc'))

/-- The doomed files are the stale one and the files of its ancestry but the last. They are there,
they are different ones, and that last file is none of them. -/
theorem doomed_of_stale {doomed : List String}
    (h : stalenessIn look fallbacks path = .stale doomed) :
    doomed = path.text :: (ancestorsIn look fallbacks path).dropLast.map (·.path) ∧
      (∀ name ∈ doomed, HasFile look name) ∧ doomed.Nodup ∧
      ∃ last, (ancestorsIn look fallbacks path).getLast? = some last ∧ last.path ∉ doomed := by
  obtain ⟨file, hfile, ⟨newer, hnewer, -⟩, rfl⟩ := stalenessIn_eq_stale.1 h
  have hne : ancestorsIn look fallbacks path ≠ [] := List.ne_nil_of_mem hnewer
  have hnodup := nodup_ancestry look fallbacks path
  rw [← List.dropLast_concat_getLast hne, List.map_append, ← List.cons_append] at hnodup
  obtain ⟨hdoomed, -, hapart⟩ := List.nodup_append.1 hnodup
  refine ⟨rfl, fun name hname => ?_, hdoomed, _, List.getLast?_eq_some_getLast hne, fun hmem => ?_⟩
  · rcases List.mem_cons.1 hname with rfl | hname
    · exact hasFile_of_fileAt hfile
    · obtain ⟨level, hlevel, rfl⟩ := List.mem_map.1 hname
      exact hasFile_of_fileAt (fileAt_of_mem_ancestorsIn (List.dropLast_subset _ hlevel))
  · exact hapart _ hmem _ (List.mem_singleton_self _) rfl

end Doomed

/-! ### The run of a sweep -/

namespace RecordedFiles

variable {refusals : Refusals} {fallbacks : Fallbacks} {path : RequestPath} {s t : RecordedFiles}

/-- Exactly some files are gone; every other one keeps its content and its times. -/
structure Lacks (gone : List String) (s t : RecordedFiles) : Prop where
  get?_eq : ∀ name, t.memory.files.get? name
    = if name ∈ gone then none else s.memory.files.get? name
  now_eq : t.memory.now = s.memory.now

theorem lacks_removing (gone : List String) (s : RecordedFiles) : Lacks gone s (s.removing gone) :=
  ⟨fun name => Catalog.get?_without _ _ name, rfl⟩

/-- A path without a file is fresh. -/
theorem Lacks.fresh {gone : List String} (h : Lacks gone s t) (hpath : path.text ∈ gone) :
    stalenessIn t.look fallbacks path = .fresh := by
  refine stalenessIn_eq_fresh.2 fun file hfile => ?_
  obtain ⟨stored, hget, -⟩ := Catalog.fileAt_look.1 hfile
  rw [h.get?_eq, if_pos hpath] at hget
  cases hget

/-- What a sweep comes to. -/
inductive Sweeps (fallbacks : Fallbacks) (path : RequestPath) (s : RecordedFiles) :
    Except Error Bool → RecordedFiles → Prop
  /-- There is nothing to remove. -/
  | fresh (hfresh : stalenessIn s.look fallbacks path = .fresh) :
      Sweeps fallbacks path s (.ok false) s
  /-- All doomed files are removed. -/
  | all {doomed : List String} (hstale : stalenessIn s.look fallbacks path = .stale doomed) :
      Sweeps fallbacks path s (.ok true) (s.removing doomed)
  /-- Those in front of one are removed, and the removal of that is refused. -/
  | upTo {gone rest : List String} {refused : String} {e : Error}
      (hstale : stalenessIn s.look fallbacks path = .stale (gone ++ refused :: rest)) :
      Sweeps fallbacks path s (.error e)
        ⟨(s.removing gone).memory, ⟨.remove, refused, some e⟩ :: (s.removing gone).calls⟩

theorem sweeps {outcome : Except Error Bool}
    (h : (sweep (fileSystem refusals) fallbacks path).run.run s = (outcome, t)) :
    Sweeps fallbacks path s outcome t := by
  rw [run_sweep (looks_stat refusals rfl)] at h
  cases hstale : stalenessIn s.look fallbacks path with
  | fresh =>
      rw [hstale] at h
      obtain ⟨rfl, rfl⟩ := Prod.mk.inj h
      exact .fresh hstale
  | stale doomed =>
      rcases hremove : (removeAll (fileSystem refusals) doomed).run.run s with ⟨removed, u⟩
      simp only [hstale, hremove] at h
      obtain ⟨rfl, rfl⟩ := Prod.mk.inj h
      rcases run_removeAll_cases hremove with ⟨rfl, rfl⟩ | ⟨gone, refused, rest, e, rfl, rfl, rfl⟩
      · exact .all hstale
      · exact .upTo hstale

/-- A sweep of a fresh file does nothing. -/
theorem run_sweep_of_fresh (h : stalenessIn s.look fallbacks path = .fresh) :
    (sweep (fileSystem refusals) fallbacks path).run.run s = (.ok false, s) := by
  rw [run_sweep (looks_stat refusals rfl), h]

end RecordedFiles

open RecordedFiles in
/-- If a file is stale, the doomed files are it and the files of its ancestry but the last: they are
there, they are different ones, and that last file is none of them. A sweep that succeeds removes
exactly these, in order, and then the path is fresh and another sweep does nothing. A sweep that
fails removes exactly those in front of the one whose removal is refused. If the file is fresh, and
only then, a sweep has nothing to do. -/
theorem sweep_removes_doomed (refusals : Refusals) (fallbacks : Fallbacks) (path : RequestPath)
    (s : RecordedFiles) :
    let levels := ancestorsIn s.look fallbacks path
    let run := (sweep (fileSystem refusals) fallbacks path).run.run
    (∀ doomed, stalenessIn s.look fallbacks path = .stale doomed →
      doomed = path.text :: levels.dropLast.map (·.path) ∧ (∀ name ∈ doomed, HasFile s.look name) ∧
      doomed.Nodup ∧ ∃ last, levels.getLast? = some last ∧ last.path ∉ doomed) ∧
    (∀ t, run s = (.ok true, t) →
      ∃ doomed, stalenessIn s.look fallbacks path = .stale doomed ∧ Lacks doomed s t ∧
        t.calls = (doomed.map (⟨.remove, ·, none⟩)).reverse ++ s.calls ∧
        stalenessIn t.look fallbacks path = .fresh ∧ run t = (.ok false, t)) ∧
    (∀ e t, run s = (.error e, t) →
      ∃ gone refused rest,
        stalenessIn s.look fallbacks path = .stale (gone ++ refused :: rest) ∧ Lacks gone s t ∧
        t.calls = ⟨.remove, refused, some e⟩ :: (gone.map (⟨.remove, ·, none⟩)).reverse
          ++ s.calls) ∧
    (stalenessIn s.look fallbacks path = .fresh → run s = (.ok false, s)) ∧
    ∀ t, run s = (.ok false, t) → stalenessIn s.look fallbacks path = .fresh := by
  refine ⟨fun doomed => doomed_of_stale, fun t hrun => ?_, fun e t hrun => ?_,
    run_sweep_of_fresh, fun t hrun => ?_⟩
  · cases sweeps hrun with
    | @all doomed hstale =>
        have hlacks := lacks_removing doomed s
        have hpath : path.text ∈ doomed := by
          rw [(doomed_of_stale hstale).1]
          exact List.mem_cons_self
        have hfresh : stalenessIn (s.removing doomed).look fallbacks path = .fresh :=
          hlacks.fresh hpath
        exact ⟨doomed, hstale, hlacks, rfl, hfresh, run_sweep_of_fresh hfresh⟩
  · cases sweeps hrun with
    | @upTo gone rest refused _ hstale =>
        have hlacks := lacks_removing gone s
        exact ⟨gone, refused, rest, hstale, ⟨hlacks.get?_eq, hlacks.now_eq⟩, rfl⟩
  · cases sweeps hrun with
    | fresh hfresh => exact hfresh

open RecordedFiles Refused in
/-- A stale file and the one that it was made from go, and the photo stays; or the removal of the
second one is refused, and that stays, too. -/
theorem sweep_removes_doomed_refused :
    let run := fun name => (sweep (fileSystem (refusals name)) .builtIn path).run.run files
    (∃ t, run "" = (.ok true, t) ∧ Lacks ["a_q1_q2.jpg", "a_q1.jpg"] files t ∧
      stalenessIn t.look .builtIn path = .fresh) ∧
    ∃ e t, run "a_q1.jpg" = (.error e, t) ∧ Lacks ["a_q1_q2.jpg"] files t := by
  intro run
  have hstale : stalenessIn files.look .builtIn path = .stale ["a_q1_q2.jpg", "a_q1.jpg"] := by
    decide +kernel
  constructor
  · obtain ⟨-, hall, -⟩ := sweep_removes_doomed (refusals "") .builtIn path files
    have hswept : (run "").1.toOption = some true := by decide +kernel
    rcases hrun : run "" with ⟨outcome, t⟩
    rw [hrun] at hswept
    obtain rfl : outcome = .ok true := eq_ok_of_toOption hswept
    obtain ⟨doomed, hdoomed, hlacks, -, hfresh, -⟩ := hall t hrun
    obtain rfl := Staleness.stale.inj (hdoomed.symm.trans hstale)
    exact ⟨t, rfl, hlacks, hfresh⟩
  · obtain ⟨-, -, herror, -⟩ := sweep_removes_doomed (refusals "a_q1.jpg") .builtIn path files
    have hfailed : (run "a_q1.jpg").1.toOption = none := by decide +kernel
    have hgone : (run "a_q1.jpg").2.memory.contains path.text = false := by decide +kernel
    have hthere : files.memory.contains path.text = true := by decide +kernel
    rcases hrun : run "a_q1.jpg" with ⟨e | swept, t⟩
    · rw [hrun] at hgone
      obtain ⟨gone, refused, rest, hdoomed, hlacks, -⟩ := herror e t hrun
      have hparts := Staleness.stale.inj (hdoomed.symm.trans hstale)
      rcases gone with _ | ⟨first, _ | ⟨second, others⟩⟩
      · have hkept : t.memory.contains path.text = files.memory.contains path.text :=
          congrArg Option.isSome (hlacks.get?_eq path.text)
        rw [hkept, hthere] at hgone
        cases hgone
      · obtain rfl := (List.cons.inj hparts).1
        exact ⟨e, t, rfl, hlacks⟩
      · simp at hparts
    · rw [hrun] at hfailed
      cases hfailed

end Rendition
