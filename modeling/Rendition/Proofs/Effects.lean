import Rendition.Proofs.Bases
import Rendition.Proofs.Eviction
import Rendition.Proofs.Interruption
import Rendition.Proofs.Transparency

/-!
# Rendition.Proofs.Effects

What a request does to the files, whichever of its reads, writes and removals are refused. In disk
mode it removes files only when its check finds a stale one, in the order in which they are doomed
and as far as removals go through (`Settles.removes`), and it changes a file only by keeping what it
answers with, where there was none (`Answers.writes`). `Engine.Changes` puts the two together, and
every request for a path changes the files in that way (`request_changes`): a request that fails
leaves nothing behind. In store mode no file is changed.
-/

namespace Rendition

open Time

/-! ### Reads and writes that may be refused -/

namespace RecordedFiles

variable {refusals : Refusals} {s t : RecordedFiles} {path : String}

theorem eq_of_read {outcome : Except Error Content}
    (h : ((fileSystem refusals).read path).run.run s = (outcome, t)) :
    t = ⟨s.memory, ⟨.read, path, refusals s.calls .read path⟩ :: s.calls⟩ := by
  change (attempt refusals .read path (MemoryFiles.read path)).run.run s = _ at h
  rw [run_attempt, MemoryFiles.run_read] at h
  cases hrefusal : refusals s.calls .read path <;> rw [hrefusal] at h <;>
    exact (Prod.mk.inj h).2.symm

theorem write_cases {content : Content} {outcome : Except Error Unit}
    (h : ((fileSystem refusals).write path content).run.run s = (outcome, t)) :
    (∃ e, t = ⟨s.memory, ⟨.write, path, some e⟩ :: s.calls⟩) ∨
      t = ⟨s.memory.insert path ⟨content, s.memory.now, s.memory.now⟩,
        ⟨.write, path, none⟩ :: s.calls⟩ := by
  change (attempt refusals .write path (MemoryFiles.write path content)).run.run s = _ at h
  rw [run_attempt, MemoryFiles.run_write] at h
  cases hrefusal : refusals s.calls .write path with
  | some e =>
      rw [hrefusal] at h
      exact Or.inl ⟨e, (Prod.mk.inj h).2.symm⟩
  | none =>
      rw [hrefusal] at h
      exact Or.inr (Prod.mk.inj h).2.symm

/-- Of the doomed files those in front are removed, and all of them unless a removal is refused. -/
structure Removes (doomed : List String) (s t : RecordedFiles) (gone : List String)
    (made : List FileCall) : Prop where
  state_eq : t = ⟨{ s.memory with files := s.memory.files.without gone }, made ++ s.calls⟩
  removals : ∀ call ∈ made, call.operation = .remove
  front : gone <+: doomed
  all : (∀ call ∈ made, call.refusal? = none) → gone = doomed

theorem Removes.nothing (s : RecordedFiles) : Removes [] s s [] [] where
  state_eq := rfl
  removals := by simp
  front := List.nil_prefix
  all _ := rfl

theorem exists_removes {doomed : List String} {outcome : Except Error Unit}
    (h : (removeAll (fileSystem refusals) doomed).run.run s = (outcome, t)) :
    ∃ gone made, Removes doomed s t gone made := by
  have hremovals : ∀ gone : List String, ∀ call ∈ (gone.map (FileCall.mk .remove · none)).reverse,
      call.operation = .remove := by
    intro gone call hcall
    obtain ⟨name, -, rfl⟩ := List.mem_map.1 (List.mem_reverse.1 hcall)
    rfl
  rcases run_removeAll_cases h with ⟨-, rfl⟩ | ⟨gone, refused, rest, e, rfl, -, rfl⟩
  · exact ⟨doomed, _, rfl, hremovals doomed, List.prefix_rfl, fun _ => rfl⟩
  · refine ⟨gone, ⟨.remove, refused, some e⟩ :: (gone.map (⟨.remove, ·, none⟩)).reverse, rfl,
      List.forall_mem_cons.2 ⟨rfl, hremovals gone⟩, List.prefix_append _ _, fun hall => ?_⟩
    cases hall _ List.mem_cons_self

end RecordedFiles

section Request

variable {γ κ η : Type} {engine : Engine RecordedFiles γ κ η} {refusals : Refusals}
  {path : RequestPath} {s t u : RecordedFiles} {k l : κ}

/-! ### What settling removes -/

/-- Settling on a resolution removes what the check doomed, as far as removals go through. -/
theorem Settles.removes {fallbacks : Fallbacks} {picked : Bool} {outcome : Except Error Resolution}
    (hsettle : Settles (RecordedFiles.fileSystem refusals) RecordedFiles.look fallbacks path picked
      s outcome t) :
    ∃ gone made,
      RecordedFiles.Removes (removedBy fallbacks path picked s.memory) s t gone made := by
  have hnothing : removedBy fallbacks path picked s.memory = [] →
      ∃ gone made,
        RecordedFiles.Removes (removedBy fallbacks path picked s.memory) s s gone made :=
    fun hnil => ⟨[], [], hnil ▸ .nothing s⟩
  have hlook : RecordedFiles.look s = s.memory.look := rfl
  cases hsettle with
  | unresolved hresolve =>
      rw [hlook] at hresolve
      exact hnothing (by simp [removedBy, hresolve])
  | unpicked => exact hnothing rfl
  | misnamed hresolve hpath =>
      rw [hlook] at hresolve
      exact hnothing (by simp [removedBy, hresolve, hpath])
  | fresh hresolve hpath hfresh =>
      rw [hlook] at hresolve hfresh
      exact hnothing (by simp [removedBy, hresolve, hpath, hfresh])
  | swept hresolve hpath hstale hremove | interrupted hresolve hpath hstale hremove =>
      rw [hlook] at hresolve hstale
      obtain ⟨gone, made, hremoves⟩ := RecordedFiles.exists_removes hremove
      exact ⟨gone, made, by simpa [removedBy, hresolve, hpath, hstale] using hremoves⟩

/-! ### What answering writes -/

/-- Answering a resolution leaves the files alone, or keeps the answer, which is a derivative. -/
theorem Answers.writes (hfiles : engine.files = RecordedFiles.fileSystem refusals) {r : Resolution}
    {outcome : Except Error Served}
    (hanswer : Answers engine RecordedFiles.look path r t k outcome u l) :
    ∃ made, u.calls = made ++ t.calls ∧
      (u.memory = t.memory ∧ ⟨.write, path.text, none⟩ ∉ made ∨
        ∃ source chain extension served, r = .derived source chain extension ∧
          chain.isEmpty = false ∧ outcome = .ok served ∧ served.origin = .derived ∧
          ⟨.write, path.text, none⟩ ∈ made ∧
          u.memory = t.memory.insert path.text ⟨served.body, t.memory.now, t.memory.now⟩) := by
  have hread : ∀ {name : String} {outcome : Except Error Content} {v : RecordedFiles},
      (engine.files.read name).run.run t = (outcome, v) →
      v = ⟨t.memory, ⟨.read, name, refusals t.calls .read name⟩ :: t.calls⟩ := by
    intro name outcome v hrun
    rw [hfiles] at hrun
    exact RecordedFiles.eq_of_read hrun
  cases hanswer with
  | unread hrun | file hrun | undone hrun _ =>
      obtain rfl := hread hrun
      exact ⟨[_], rfl, Or.inl ⟨rfl, by simp⟩⟩
  | @made source chain extension _ _ _ _ _ _ execution hrun hexecute hkeep =>
      obtain rfl := hread hrun
      cases hkeep with
      | bare => exact ⟨[_], rfl, Or.inl ⟨rfl, by simp⟩⟩
      | written hchain hwrite =>
          rw [hfiles] at hwrite
          rcases RecordedFiles.write_cases hwrite with ⟨e, rfl⟩ | rfl
          · exact ⟨[_, _], rfl, Or.inl ⟨rfl, by simp⟩⟩
          · exact ⟨[_, _], rfl, Or.inr
              ⟨source, chain, extension, _, rfl, hchain, rfl, rfl, by simp, rfl⟩⟩

/-! ### What a request changes -/

/-- A request is answered with a derivative by a chain that is not empty, and the derivative is
written. -/
structure Engine.Persists (engine : Engine RecordedFiles γ κ η) (path : RequestPath)
    (w : World RecordedFiles γ κ) (made : List FileCall) (outcome : Except Halt Served) : Prop where
  derived : ∃ served, outcome = .ok served ∧ served.origin = .derived
  settled : ∃ source chain extension,
    ((engine.settled path).run.run w).1 = .ok (.derived source chain extension) ∧
      chain.isEmpty = false
  written : ⟨.write, path.text, none⟩ ∈ made

/-- What a request for a path does to the files, where `gone` is what it removes, in that order, and
`made` are the calls that it makes, latest first. -/
structure Engine.Changes (engine : Engine RecordedFiles γ κ η) (path : RequestPath)
    (w : World RecordedFiles γ κ) (outcome : Except Halt Served) (after : RecordedFiles)
    (gone : List String) (made : List FileCall) : Prop where
  calls : after.calls = made ++ w.files.calls
  /-- It removes what its check doomed, from the front, -/
  removed : gone <+:
    Rendition.removedBy engine.fallbacks path w.sampler.next.1 w.files.memory
  /-- and all of it unless a removal is refused. -/
  removed_all : (∀ call ∈ made, call.operation = .remove → call.refusal? = none) →
    gone = Rendition.removedBy engine.fallbacks path w.sampler.next.1 w.files.memory
  /-- It changes nothing else, -/
  unkept : ¬ engine.Persists path w made outcome →
    after.memory = { w.files.memory with files := w.files.memory.files.without gone }
  /-- unless it keeps the body that it answers with, at its path, -/
  kept : engine.Persists path w made outcome → ∀ served, outcome = .ok served →
    after.memory = { w.files.memory with
      files := (w.files.memory.files.without gone).insert path.text
        ⟨served.body, w.files.memory.now, w.files.memory.now⟩ }
  /-- where there was no file when it was resolved, be that before the check or after it. -/
  vacant : ∀ source chain extension,
    ((engine.settled path).run.run w).1 = .ok (.derived source chain extension) →
    ∃ used ∈ [w.files.memory.files, w.files.memory.files.without gone],
      resolveIn used.look engine.fallbacks path = .ok (.derived source chain extension) ∧
        ¬ HasFile used.look path.text

/-- A request that settles on a derivative was resolved before its check or after it. -/
theorem Settles.vacant {fallbacks : Fallbacks} {picked : Bool} {source : FoundFile} {chain : Chain}
    {extension : String}
    (hsettle : Settles (RecordedFiles.fileSystem refusals) RecordedFiles.look fallbacks path picked
      s (.ok (.derived source chain extension)) t) :
    ∃ used ∈ [s.memory.files, t.memory.files],
      resolveIn used.look fallbacks path = .ok (.derived source chain extension) ∧
        ¬ HasFile used.look path.text := by
  have hvacant : ∀ {used : Catalog StoredFile},
      resolveIn used.look fallbacks path = .ok (.derived source chain extension) →
      ¬ HasFile used.look path.text :=
    fun hresolve => fileAt_eq_none_iff.1 (resolveIn_eq_derived.1 hresolve).1
  rcases hsettle.ok_inv with ⟨hresolve, -, -⟩ | ⟨first, onDisk, doomed, -, hfirst, -, -, hswept⟩
  · exact ⟨s.memory.files, by simp, hresolve, hvacant hresolve⟩
  · rcases hswept with ⟨-, hresolve⟩ | ⟨e, -, rfl⟩
    · exact ⟨t.memory.files, by simp, hresolve, hvacant hresolve⟩
    · exact ⟨s.memory.files, by simp, hfirst, hvacant hfirst⟩

/-- In disk mode every request for a path changes the files in that way. -/
theorem Engine.exists_changes (hfiles : engine.files = RecordedFiles.fileSystem refusals)
    (hdisk : engine.backend = .disk) {raw : String} (hraw : RequestPath.ofRequest raw = .ok path)
    (w : World RecordedFiles γ κ) :
    ∃ gone made, engine.Changes path w ((engine.serve raw).run.run w).1
      ((engine.serve raw).run.run w).2.files gone made := by
  rcases engine.serve_cases hdisk (RecordedFiles.looks_stat refusals hfiles) hraw w with
    ⟨e, t, sampler, hsettle, -, hsettled, hserve⟩ |
    ⟨r, t, sampler, outcome, u, l, hsettle, -, hsettled, hanswer, hserve⟩
  all_goals
    rw [hfiles] at hsettle
    obtain ⟨gone, removals, hremoves⟩ := hsettle.removes
    have ht := hremoves.state_eq
    rw [hserve]
  · exact ⟨gone, removals,
      { calls := by rw [ht]
        removed := hremoves.front
        removed_all := fun hall => hremoves.all fun call hcall =>
          hall call hcall (hremoves.removals call hcall)
        unkept := fun _ => by rw [ht]
        kept := fun _ served hserved => by cases hserved
        vacant := fun source chain extension hderived => by
          rw [hsettled] at hderived
          cases hderived }⟩
  · obtain ⟨made, hcalls, hkept⟩ := hanswer.writes hfiles
    -- The one write that can succeed comes after the check.
    have hremoval : ⟨.write, path.text, none⟩ ∉ removals := by
      intro hmem
      cases hremoves.removals _ hmem
    exact ⟨gone, made ++ removals,
      { calls := by rw [hcalls, ht, List.append_assoc]
        removed := hremoves.front
        removed_all := fun hall => hremoves.all fun call hcall =>
          hall call (List.mem_append_right _ hcall) (hremoves.removals call hcall)
        unkept := fun hunkept => by
          rcases hkept with ⟨hmemory, -⟩ |
            ⟨source, chain, extension, served, rfl, hchain, rfl, horigin, hwritten, -⟩
          · rw [hmemory, ht]
          · refine absurd ⟨⟨served, rfl, horigin⟩, ⟨source, chain, extension, ?_, hchain⟩,
              List.mem_append_left _ hwritten⟩ hunkept
            rw [hsettled]
        kept := fun hpersists served hserved => by
          rcases hkept with ⟨-, hunwritten⟩ |
            ⟨source, chain, extension, served', -, -, rfl, -, -, hmemory⟩
          · rcases List.mem_append.1 hpersists.written with hmem | hmem
            · exact absurd hmem hunwritten
            · exact absurd hmem hremoval
          · obtain rfl := Except.ok.inj hserved
            rw [hmemory, ht]
            rfl
        vacant := fun source chain extension hderived => by
          rw [hsettled] at hderived
          obtain rfl := Except.ok.inj hderived
          have hvacant := hsettle.vacant
          rwa [ht] at hvacant }⟩

/-- In store mode no request changes a file. -/
theorem Engine.keepsFiles_in_store (hfiles : engine.files = RecordedFiles.fileSystem refusals)
    {cache : Cache γ} {ttl : Duration} (hstore : engine.backend = .store cache ttl) (raw : String) :
    KeepsFiles (fun s => s.memory.files) (engine.serve raw) := by
  have hread : ∀ name s,
      ((engine.files.read name).run.run s).2.memory.files = s.memory.files := by
    intro name s
    rw [hfiles]
    rcases hrun : ((RecordedFiles.fileSystem refusals).read name).run.run s with ⟨outcome, t⟩
    rw [RecordedFiles.eq_of_read hrun]
  exact engine.keepsFiles_serve_of_read hstore (RecordedFiles.looks_stat refusals hfiles) hread raw

/-- Whatever reads, writes and removals are refused, a request in disk mode changes the files as
`Engine.Changes` says, if its text names a path, and otherwise it changes nothing. If it fails it
only removes files, and none unless it is checked. In store mode it changes no file. -/
theorem request_changes (hfiles : engine.files = RecordedFiles.fileSystem refusals) (raw : String)
    (w : World RecordedFiles γ κ) :
    let run := (engine.serve raw).run.run w
    (engine.backend = .disk →
      (∀ e, RequestPath.ofRequest raw = .error e → run = (.error (.failed e), w)) ∧
      ∀ path, RequestPath.ofRequest raw = .ok path → ∃ gone made,
        engine.Changes path w run.1 run.2.files gone made ∧
        (∀ h, run.1 = .error h → run.2.files.memory
          = { w.files.memory with files := w.files.memory.files.without gone }) ∧
        (w.sampler.next.1 = false → gone = [])) ∧
    ∀ cache ttl, engine.backend = .store cache ttl →
      run.2.files.memory.files = w.files.memory.files := by
  intro run
  refine ⟨fun hdisk => ⟨fun e hraw => Engine.run_serve_unnamed hraw w, fun path hraw => ?_⟩,
    fun cache ttl hstore => ?_⟩
  · obtain ⟨gone, made, hchanges⟩ := Engine.exists_changes hfiles hdisk hraw w
    refine ⟨gone, made, hchanges, fun h herror => hchanges.unkept fun hpersists => ?_,
      fun hunpicked => ?_⟩
    · obtain ⟨served, hserved, -⟩ := hpersists.derived
      cases herror.symm.trans hserved
    · have hfront := hchanges.removed
      rw [hunpicked] at hfront
      exact List.prefix_nil.1 hfront
  · exact Engine.keepsFiles_in_store hfiles hstore raw w

end Request

open Refused Sketching in
/-- A stale derivative is removed with the one that it was made from, made anew of the photo and
kept. -/
theorem request_changes_stale :
    let w : World RecordedFiles Unit Codec.Sketch.Record := ⟨files, (), #[], ⟨1, 0⟩⟩
    let run := ((engine "").serve path.text).run.run w
    ∃ served, run.1 = .ok served ∧ served.origin = .derived ∧
      run.2.files.memory.files
        = (files.memory.files.without ["a_q1_q2.jpg", "a_q1.jpg"]).insert "a_q1_q2.jpg"
          ⟨served.body, instant 4, instant 4⟩ := by
  intro w run
  have hfiles : (engine "").files = RecordedFiles.fileSystem (refusals "") := rfl
  obtain ⟨hdisk, -⟩ := request_changes hfiles path.text w
  obtain ⟨gone, made, hchanges, -⟩ := (hdisk rfl).2 path path.ofRequest_text
  have hmade : run.2.files.calls = made := hchanges.calls.trans (List.append_nil made)
  have hgone : gone = ["a_q1_q2.jpg", "a_q1.jpg"] := by
    rw [hchanges.removed_all (hmade ▸ by decide +kernel)]
    decide +kernel
  have hderived : run.1.toOption.map (·.origin) = some .derived := by decide +kernel
  have hsettled : (((engine "").settled path).run.run w).1
      = .ok (.derived ⟨"a.jpg", StoredFile.stat ⟨.text "B", instant 3, instant 3⟩⟩
          (Chain.ofTexts ["q1", "q2"]) "jpg") := eq_ok_of_toOption (by decide +kernel)
  have hwritten : ⟨.write, path.text, none⟩ ∈ made := hmade ▸ by decide +kernel
  cases hserved : run.1 with
  | error h =>
      rw [hserved] at hderived
      cases hderived
  | ok served =>
      rw [hserved] at hderived
      have horigin : served.origin = .derived := Option.some.inj hderived
      refine ⟨served, rfl, horigin, ?_⟩
      have hkept := hchanges.kept ⟨⟨served, hserved, horigin⟩, ⟨_, _, _, hsettled, rfl⟩, hwritten⟩
        served hserved
      rw [hgone] at hkept
      exact congrArg MemoryFiles.files hkept

end Rendition
