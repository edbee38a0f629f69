import Rendition.Proofs.Eviction
import Rendition.Proofs.Invalidation

/-!
# Rendition.Proofs.Making

Requests that make something. Such a request settles on a derivative, reads the source among the
files that its check left, carries out the chain and keeps the result at its path (`Makes`). Every
other request at most removes files (`Engine.after_eq_without`). The modules that follow a
derivative through later requests reason from these two.
-/

namespace Rendition

open Time

section Making

variable {γ κ η : Type}

/-- The answer to a request that is made at a time. -/
def Engine.reply (engine : Engine MemoryFiles γ κ η) (raw : String) (now : Timestamp)
    (w : World MemoryFiles γ κ) : Except Halt Served :=
  ((engine.serve raw).run.run { w with files := w.files.atTime now }).1

/-- The resolution that a request at a time is answered from. -/
def Engine.settledAt (engine : Engine MemoryFiles γ κ η) (path : RequestPath) (now : Timestamp)
    (w : World MemoryFiles γ κ) : Except Halt Resolution :=
  ((engine.settled path).run.run { w with files := w.files.atTime now }).1

/-- A request carries out a chain on a file, which is there after the check of the request, and
keeps the result unless the chain is empty. -/
structure Engine.Makes (engine : Engine MemoryFiles γ κ η) (raw : String) (path : RequestPath)
    (now : Timestamp) (w : World MemoryFiles γ κ) (source : FoundFile) (chain : Chain)
    (extension : String) (left : Catalog StoredFile) (file : StoredFile) (execution : Execution) :
    Prop where
  removed : left = w.files.files.without (engine.removedBy raw w)
  resolved : resolveIn left.look engine.fallbacks path = .ok (.derived source chain extension)
  stored : left.get? source.path = some file
  executed : (engine.codec.execute file.content chain extension).run.run w.codec
    = (.ok execution, (engine.after raw now w).codec)
  kept : (engine.after raw now w).files.files
    = if chain.isEmpty then left else left.insert path.text ⟨execution.result, now, now⟩
  reply : engine.reply raw now w = .ok (Engine.served path execution.result
    (some (sourceModified (engine.after raw now w).files.look engine.fallbacks source)) .derived)

variable {engine : Engine MemoryFiles γ κ η} {path : RequestPath} {raw : String} {now : Timestamp}
  {w : World MemoryFiles γ κ}

section Makes

variable {source : FoundFile} {chain : Chain} {extension : String} {left : Catalog StoredFile}
  {file : StoredFile} {execution : Execution}
  (h : engine.Makes raw path now w source chain extension left file execution)

include h

/-- The source is a file that was there before. -/
theorem Engine.Makes.get?_source : w.files.files.get? source.path = some file :=
  Catalog.get?_of_without (h.removed ▸ h.stored)

theorem Engine.Makes.stat_eq : source.stat = file.stat := by
  obtain ⟨-, _, -, _, -, -, hfound, -⟩ := resolveIn_eq_derived.1 h.resolved
  obtain ⟨_, -, file', hget, rfl⟩ := Catalog.exists_of_firstAt hfound
  rw [Option.some.inj (hget.symm.trans h.stored)]

theorem Engine.Makes.source_ne : source.path ≠ path.text := by
  intro heq
  have hnone := Catalog.fileAt_look_eq_none.1 (resolveIn_eq_derived.1 h.resolved).1
  rw [← heq, h.stored] at hnone
  cases hnone

/-- The result is there, and so are the files that were left. -/
theorem Engine.Makes.get?_after (hchain : chain.isEmpty = false) (name : String) :
    (engine.after raw now w).files.files.get? name
      = if name = path.text then some ⟨execution.result, now, now⟩ else left.get? name := by
  rw [h.kept, if_neg (by simp [hchain]), Catalog.get?_insert]

end Makes

section Request

variable (hfiles : engine.files = MemoryFiles.fileSystem) (hdisk : engine.backend = .disk)
  (hraw : RequestPath.ofRequest raw = .ok path)

include hfiles hraw

/-- What is left of the files when a request has settled. -/
theorem Settles.left_eq {outcome : Except Error Resolution} {t : MemoryFiles}
    (hsettles : Settles engine.files MemoryFiles.look engine.fallbacks path w.sampler.next.1
      (w.files.atTime now) outcome t) :
    t.files = w.files.files.without (engine.removedBy raw w) := by
  rw [hsettles.files_eq hfiles, Engine.removedBy, hraw]
  rfl

include hdisk

/-- A request settles on nothing, and ends with that, or it settles on a resolution and answers
it. -/
theorem Engine.request_cases (now : Timestamp) (w : World MemoryFiles γ κ) :
    (∃ e t, Settles engine.files MemoryFiles.look engine.fallbacks path w.sampler.next.1
        (w.files.atTime now) (.error e) t ∧
      engine.settledAt path now w = .error (.failed e) ∧
      engine.reply raw now w = .error (.failed e) ∧ (engine.after raw now w).files = t) ∨
    ∃ r t outcome u l, Settles engine.files MemoryFiles.look engine.fallbacks path
        w.sampler.next.1 (w.files.atTime now) (.ok r) t ∧
      engine.settledAt path now w = .ok r ∧
      Answers engine MemoryFiles.look path r t w.codec outcome u l ∧
      engine.reply raw now w = outcome.mapError .failed ∧
      (engine.after raw now w).files = u ∧ (engine.after raw now w).codec = l := by
  have hstat := MemoryFiles.looks_stat hfiles
  simp only [Engine.settledAt, Engine.reply, Engine.after]
  rcases engine.serve_cases hdisk hstat hraw { w with files := w.files.atTime now } with
    ⟨e, t, sampler, hsettles, -, hsettled, hserve⟩ |
    ⟨r, t, sampler, outcome, u, l, hsettles, -, hsettled, hanswer, hserve⟩
  · rw [hsettled, hserve]
    exact Or.inl ⟨e, t, hsettles, rfl, rfl, rfl⟩
  · rw [hsettled, hserve]
    exact Or.inr ⟨r, t, outcome, u, l, hsettles, rfl, hanswer, rfl, rfl, rfl⟩

/-- A request that settles on a derivative, and is answered, makes it. -/
theorem Engine.exists_makes {source : FoundFile} {chain : Chain} {extension : String}
    {served : Served}
    (hsettled : engine.settledAt path now w = .ok (.derived source chain extension))
    (hserved : engine.reply raw now w = .ok served) :
    ∃ left file execution,
      engine.Makes raw path now w source chain extension left file execution := by
  rcases Engine.request_cases hfiles hdisk hraw now w with
    ⟨e, t, -, -, hreply, -⟩ | ⟨r, t, outcome, u, l, hsettles, hr, hanswer, hreply, hu, hl⟩
  · cases hreply.symm.trans hserved
  obtain rfl := Except.ok.inj (hsettled.symm.trans hr)
  have ht := hsettles.files_eq hfiles
  have hresolve := (hsettles.ok_inv_memory hfiles).1
  cases hanswer with
  | unread | undone => cases hreply.symm.trans hserved
  | made hread hexecute hkeep =>
      obtain ⟨hsame, file, hget, rfl⟩ := MemoryFiles.read_eq_ok hfiles hread
      rw [hsame] at hkeep
      refine ⟨t.files, file, _, hsettles.left_eq hfiles hraw, hresolve, hget,
        by rw [hl]; exact hexecute, ?_, by rw [hreply, hu]; rfl⟩
      cases hkeep with
      | bare hempty => rw [hu, if_pos hempty]
      | written hchain hwrite =>
          obtain rfl := MemoryFiles.write_eq hfiles hwrite
          rw [hu, if_neg (by simp [hchain]), ht]
          rfl

/-- A request that settles on a derivative is answered if the codec does not fail to carry out the
chain on the source. -/
theorem Engine.exists_makes_of_settled {source : FoundFile} {chain : Chain} {extension : String}
    (hsettled : engine.settledAt path now w = .ok (.derived source chain extension))
    (hexecute : ∀ file, w.files.files.get? source.path = some file → ∃ execution,
      ((engine.codec.execute file.content chain extension).run.run w.codec).1 = .ok execution) :
    ∃ left file execution,
      engine.Makes raw path now w source chain extension left file execution := by
  have hreply : ∃ served, engine.reply raw now w = .ok served := by
    rcases Engine.request_cases hfiles hdisk hraw now w with
      ⟨e, t, -, he, -⟩ | ⟨r, t, outcome, u, l, hsettles, hr, hanswer, hreply, -⟩
    · cases he.symm.trans hsettled
    obtain rfl := Except.ok.inj (hsettled.symm.trans hr)
    cases hanswer with
    | unread hread =>
        obtain ⟨-, _, -, _, -, -, hfound, -⟩ :=
          resolveIn_eq_derived.1 (hsettles.ok_inv_memory hfiles).1
        obtain ⟨_, -, file, hget, rfl⟩ := Catalog.exists_of_firstAt hfound
        cases hget.symm.trans (MemoryFiles.read_eq_error hfiles hread).2
    | undone hread hfailed =>
        obtain ⟨-, file, hget, rfl⟩ := MemoryFiles.read_eq_ok hfiles hread
        rw [hsettles.left_eq hfiles hraw] at hget
        obtain ⟨execution, hdone⟩ := hexecute file (Catalog.get?_of_without hget)
        rw [hfailed] at hdone
        cases hdone
    | made => exact ⟨_, hreply⟩
  obtain ⟨served, hserved⟩ := hreply
  exact Engine.exists_makes hfiles hdisk hraw hsettled hserved

/-- Any other request at most removes files. -/
theorem Engine.after_eq_without
    (hother : ∀ source chain extension served,
      engine.settledAt path now w = .ok (.derived source chain extension) →
      engine.reply raw now w ≠ .ok served) :
    (engine.after raw now w).files.files = w.files.files.without (engine.removedBy raw w) := by
  rcases Engine.request_cases hfiles hdisk hraw now w with
    ⟨e, t, hsettles, -, -, ht⟩ | ⟨r, t, outcome, u, l, hsettles, hr, hanswer, hreply, hu, -⟩
  · rw [ht]
    exact hsettles.left_eq hfiles hraw
  · have hleft := hsettles.left_eq hfiles hraw
    rw [hu]
    cases hanswer with
    | unread hread => rwa [(MemoryFiles.read_eq_error hfiles hread).1]
    | file hread => rwa [(MemoryFiles.read_eq_ok hfiles hread).1]
    | undone hread => rwa [(MemoryFiles.read_eq_ok hfiles hread).1]
    | made => exact absurd hreply (hother _ _ _ _ hr)

/-- A request that starts at a fresh file settles on that. -/
theorem Engine.settledAt_of_fresh {r : Resolution} {onDisk : RequestPath}
    (hresolve : resolveIn w.files.look engine.fallbacks path = .ok r)
    (hpath : RequestPath.ofRequest r.file.path = .ok onDisk)
    (hfresh : stalenessIn w.files.look engine.fallbacks onDisk = .fresh) (now : Timestamp) :
    engine.settledAt path now w = .ok r := by
  have hresolve' : resolveIn (MemoryFiles.look (w.files.atTime now)) engine.fallbacks path
      = .ok r := hresolve
  have hfresh' : stalenessIn (MemoryFiles.look (w.files.atTime now)) engine.fallbacks onDisk
      = .fresh := hfresh
  rcases Engine.request_cases hfiles hdisk hraw now w with
    ⟨e, t, hsettles, -⟩ | ⟨r', t, outcome, u, l, hsettles, hr, -⟩
  · cases (hsettles.of_fresh hresolve' hpath hfresh').1
  · obtain rfl := Except.ok.inj (hsettles.of_fresh hresolve' hpath hfresh').1
    exact hr

omit hfiles hdisk in
/-- It removes nothing. -/
theorem Engine.removedBy_of_fresh {r : Resolution} {onDisk : RequestPath}
    (hresolve : resolveIn w.files.look engine.fallbacks path = .ok r)
    (hpath : RequestPath.ofRequest r.file.path = .ok onDisk)
    (hfresh : stalenessIn w.files.look engine.fallbacks onDisk = .fresh) :
    engine.removedBy raw w = [] := by
  simp [Engine.removedBy, Rendition.removedBy, hraw, hresolve, hpath, hfresh]

/-- So a request that starts at a fresh file, with a chain that the codec never fails to carry out,
makes a derivative of that and removes nothing. -/
theorem Engine.exists_makes_of_fresh {source : FoundFile} {chain : Chain} {extension : String}
    {onDisk : RequestPath}
    (hresolve : resolveIn w.files.look engine.fallbacks path
      = .ok (.derived source chain extension))
    (hpath : RequestPath.ofRequest source.path = .ok onDisk)
    (hfresh : stalenessIn w.files.look engine.fallbacks onDisk = .fresh)
    (hexecute : ∀ content, ∃ execution,
      ((engine.codec.execute content chain extension).run.run w.codec).1 = .ok execution)
    (now : Timestamp) :
    engine.settledAt path now w = .ok (.derived source chain extension) ∧
      ∃ file execution, engine.Makes raw path now w source chain extension w.files.files file
        execution := by
  have hsettled := Engine.settledAt_of_fresh hfiles hdisk hraw hresolve hpath hfresh now
  obtain ⟨left, file, execution, hmakes⟩ := Engine.exists_makes_of_settled hfiles hdisk hraw
    hsettled fun file _ => hexecute file.content
  have hleft := hmakes.removed
  rw [Engine.removedBy_of_fresh hraw hresolve hpath hfresh] at hleft
  obtain rfl : left = w.files.files := hleft
  exact ⟨hsettled, file, execution, hmakes⟩

/-- A request that checks its own file and finds it stale settles on what is left without the doomed
files. -/
theorem Engine.settledAt_of_stale (hpicked : w.sampler.next.1 = true) {doomed : List String}
    (hstale : stalenessIn w.files.look engine.fallbacks path = .stale doomed) {r : Resolution}
    (hresolve : resolveIn (w.files.files.without doomed).look engine.fallbacks path = .ok r)
    (now : Timestamp) : engine.settledAt path now w = .ok r := by
  have hstale' : stalenessIn (MemoryFiles.look (w.files.atTime now)) engine.fallbacks path
      = .stale doomed := hstale
  rcases Engine.request_cases hfiles hdisk hraw now w with
    ⟨e, t, hsettles, -⟩ | ⟨r', t, outcome, u, l, hsettles, hr, -⟩
  all_goals
    rw [hpicked] at hsettles
    obtain ⟨rfl, houtcome⟩ := hsettles.of_stale hfiles hstale'
    have hok := houtcome.trans (congrArg (·.mapError Unresolved.toError) hresolve)
  · cases hok
  · obtain rfl := Except.ok.inj hok
    exact hr

omit hfiles hdisk in
/-- It removes the doomed files. -/
theorem Engine.removedBy_of_stale (hpicked : w.sampler.next.1 = true) {doomed : List String}
    (hstale : stalenessIn w.files.look engine.fallbacks path = .stale doomed) :
    engine.removedBy raw w = doomed := by
  obtain ⟨found, hfound, -⟩ := stalenessIn_eq_stale.1 hstale
  have hresolve : resolveIn w.files.look engine.fallbacks path = .ok (.direct found) :=
    resolveIn_eq_direct.2 hfound
  have hpath : RequestPath.ofRequest found.path = .ok path := by
    rw [(fileAt_eq_some.1 hfound).1]
    exact path.ofRequest_text
  simp [Engine.removedBy, Rendition.removedBy, Resolution.file, hraw, hpicked, hresolve, hpath,
    hstale]

/-- A path that is answered by a derivative names no file that is left. -/
theorem Engine.get?_of_derived {source : FoundFile} {chain : Chain} {extension : String}
    (hsettled : engine.settledAt path now w = .ok (.derived source chain extension)) :
    (w.files.files.without (engine.removedBy raw w)).get? path.text = none := by
  rcases Engine.request_cases hfiles hdisk hraw now w with
    ⟨e, t, -, he, -⟩ | ⟨r, t, outcome, u, l, hsettles, hr, -⟩
  · cases he.symm.trans hsettled
  · obtain rfl := Except.ok.inj (hsettled.symm.trans hr)
    have hresolve := (hsettles.ok_inv_memory hfiles).1
    rw [← hsettles.left_eq hfiles hraw]
    exact Catalog.fileAt_look_eq_none.1 (resolveIn_eq_derived.1 hresolve).1

end Request

/-- A request removes files that have the name of a derivative. -/
theorem namesDerivative_of_mem_removedBy (hplain : engine.fallbacks.Plain) {name : String}
    (hname : name ∈ engine.removedBy raw w) : namesDerivative name = true := by
  unfold Engine.removedBy at hname
  split at hname
  · cases hname
  · obtain ⟨-, r, onDisk, doomed, -, -, hstale, hmem⟩ := mem_removedBy.1 hname
    exact namesDerivative_of_mem_doomed hplain hstale hmem

end Making

end Rendition
