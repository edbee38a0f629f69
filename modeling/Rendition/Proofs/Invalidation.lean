import Rendition.Proofs.Derivation
import Rendition.Proofs.Serving
import Rendition.Proofs.Staleness

/-!
# Rendition.Proofs.Invalidation

What becomes of a kept derivative when its source changes. Resolution strips whatever tokens stand
behind the base of a source, but an ancestry ends at the first token that is no well-formed
directive. So a derivative is invalidated by a change of its source exactly when all tokens of its
chain are well-formed (`persisted_invalidated`): then a check finds it stale, removes it, and the
request is answered anew (`Recomputes`). One other token in the chain and the source is out of
sight: the derivative is found fresh whatever happens to its source.
-/

namespace Rendition

open Time

/-! ### Files after a derivative was kept and its source changed -/

/-- A derivative lies on disk beside the source that it was made from by a chain, as the nearest
file there was, and afterwards the source was changed. -/
structure Superseded (fallbacks : Fallbacks) (path : RequestPath) (source : FoundFile)
    (chain : Chain) (before after : Catalog StoredFile) (kept changed : StoredFile) : Prop where
  resolved : ∃ extension,
    resolveIn before.look fallbacks path = .ok (.derived source chain extension)
  chain : chain.isEmpty = false
  after : after = (before.insert path.text kept).insert source.path changed
  later : kept.modified < changed.stat.newest

namespace Superseded

variable {fallbacks : Fallbacks} {path : RequestPath} {source : FoundFile} {chain : Chain}
  {before after : Catalog StoredFile} {kept changed : StoredFile}

/-- The cut that the derivative was made at, and what is found now for it and for those with fewer
tokens. -/
theorem exists_cut (h : Superseded fallbacks path source chain before after kept changed) :
    ∃ stem extension, splitExtension path.fileName = some (stem, extension) ∧
      ∃ cut ∈ cuts stem, chain = Chain.ofTexts cut.tokens ∧ cut.tokens ≠ [] ∧
        firstAt after.look fallbacks path.dir cut.base extension
          = some ⟨source.path, changed.stat⟩ ∧
        ∀ other ∈ cuts stem, other.tokens ≠ [] → other.tokens.length < cut.tokens.length →
          firstAt after.look fallbacks path.dir other.base extension = none := by
  obtain ⟨extension, hresolve⟩ := h.resolved
  obtain ⟨-, stem, hsplit, cut, hcut, rfl, hfound, hnearest⟩ := resolveIn_eq_derived.1 hresolve
  have hne : cut.tokens ≠ [] := by
    intro hnil
    have := h.chain
    simp [hnil] at this
  have hget : ∀ name, after.get? name = if name = source.path then some changed
      else if name = path.text then some kept else before.get? name := by
    intro name
    rw [h.after, Catalog.get?_insert, Catalog.get?_insert]
  refine ⟨stem, extension, hsplit, cut, hcut, rfl, hne, ?_, fun other hother hother' hlen => ?_⟩
  · rw [firstAt_eq_findSome?] at hfound ⊢
    obtain ⟨front, c, back, hlist, hc, hfront⟩ := List.findSome?_eq_some_iff.1 hfound
    have hpath : source.path = pathOf path.dir cut.base c := (fileAt_eq_some.1 hc).1
    refine List.findSome?_eq_some_iff.2 ⟨front, c, back, hlist, ?_, fun c' hc' => ?_⟩
    · refine Catalog.fileAt_look.2 ⟨changed, ?_, by rw [hpath]⟩
      rw [hget, if_pos hpath.symm]
    · have hnone := Catalog.fileAt_look_eq_none.1 (hfront c' hc')
      have hsource : pathOf path.dir cut.base c' ≠ source.path := by
        intro heq
        obtain ⟨file, hfile, -⟩ := Catalog.fileAt_look.1 hc
        rw [heq, hpath, hfile] at hnone
        cases hnone
      rw [Catalog.fileAt_look_eq_none, hget, if_neg hsource,
        if_neg (pathOf_ne_text hsplit hcut hne)]
      exact hnone
  · rw [← hnearest other hother hlen]
    obtain ⟨c, -, hfile⟩ := exists_of_firstAt hfound
    have hpath : source.path = pathOf path.dir cut.base c := (fileAt_eq_some.1 hfile).1
    refine firstAt_congr fun c' _ => ?_
    have hsource : pathOf path.dir other.base c' ≠ source.path :=
      hpath ▸ pathOf_ne_pathOf hother hcut hlen
    rw [Catalog.look, hget, if_neg hsource, if_neg (pathOf_ne_text hsplit hother hother')]
    rfl

/-- The kept derivative is still there. -/
theorem get?_kept (h : Superseded fallbacks path source chain before after kept changed) :
    after.get? path.text = some kept := by
  obtain ⟨stem, extension, hsplit, cut, hcut, -, hne, hfound, -⟩ := h.exists_cut
  obtain ⟨c, -, hfile⟩ := exists_of_firstAt hfound
  have hpath : source.path = pathOf path.dir cut.base c := (fileAt_eq_some.1 hfile).1
  have hsource : path.text ≠ source.path := by
    rw [hpath]
    exact (pathOf_ne_text hsplit hcut hne).symm
  rw [h.after, Catalog.get?_insert, if_neg hsource, Catalog.get?_insert, if_pos rfl]

/-- The kept derivative is stale when all tokens of its chain are well-formed. -/
theorem stale (h : Superseded fallbacks path source chain before after kept changed)
    (hformed : ∀ token ∈ chain.tokens, Directive.isWellFormed token.raw = true) :
    ∃ doomed, stalenessIn after.look fallbacks path = .stale doomed := by
  obtain ⟨stem, extension, hsplit, cut, hcut, rfl, hne, hfound, -⟩ := h.exists_cut
  have hgenerated : cut ∈ generatedCuts stem := by
    refine mem_generatedCuts.2 ⟨hcut, hne, fun token htoken => ?_⟩
    exact hformed ⟨token⟩ (List.mem_map.2 ⟨token, htoken, rfl⟩)
  have hlevel := (mem_ancestorsIn hsplit).2 ⟨cut, hgenerated, hfound⟩
  have hkept := Catalog.fileAt_look.2 ⟨kept, h.get?_kept, rfl⟩
  exact ⟨_, stalenessIn_eq_stale.2 ⟨_, hkept, ⟨_, hlevel, h.later⟩, rfl⟩⟩

/-- The kept derivative is fresh when some token of its chain is not well-formed. -/
theorem fresh (h : Superseded fallbacks path source chain before after kept changed)
    (hformed : ¬ ∀ token ∈ chain.tokens, Directive.isWellFormed token.raw = true) :
    stalenessIn after.look fallbacks path = .fresh := by
  obtain ⟨stem, extension, hsplit, cut, hcut, rfl, hne, -, hshorter⟩ := h.exists_cut
  refine stalenessIn_eq_fresh.2 fun file _ level hlevel => ?_
  obtain ⟨other, hother, hfound⟩ := (mem_ancestorsIn hsplit).1 hlevel
  obtain ⟨hmem, htokens, hotherFormed⟩ := mem_generatedCuts.1 hother
  -- A cut that the ancestry follows has only well-formed tokens behind it.
  have hlen : other.tokens.length < cut.tokens.length := by
    refine Nat.lt_of_not_le fun hle => hformed fun token htoken => ?_
    obtain ⟨raw, hraw, rfl⟩ := List.mem_map.1 htoken
    obtain ⟨between, hsplitTokens, -⟩ := cut_split hcut hmem hle
    exact hotherFormed raw (by simp [hsplitTokens, hraw])
  rw [hshorter other hmem htokens hlen] at hfound
  cases hfound

end Superseded

/-! ### Requests for a file that is stale, and for one that is fresh -/

/-- A path whose stale file was removed is answered by a derivative of another file, which was
left. -/
theorem exists_derived_of_swept {files : Catalog StoredFile} {fallbacks : Fallbacks}
    {path : RequestPath} {doomed : List String}
    (hstale : stalenessIn files.look fallbacks path = .stale doomed) :
    ∃ source chain extension file, resolveIn (files.without doomed).look fallbacks path
        = .ok (.derived source chain extension) ∧
      source.path ≠ path.text ∧ files.get? source.path = some file ∧
      (files.without doomed).get? source.path = some file := by
  obtain ⟨stem, extension, hsplit, -⟩ := exists_generatedCut_of_stale hstale
  obtain ⟨cut, hcut, level, hlevel, hspared, -⟩ := exists_spared hsplit hstale
  obtain ⟨c, hc, hfile⟩ := exists_of_firstAt hlevel
  obtain ⟨file, hget, rfl⟩ := Catalog.fileAt_look.1 hfile
  have hleft :
      (firstAt (files.without doomed).look fallbacks path.dir cut.base extension).isSome := by
    cases hnone : firstAt (files.without doomed).look fallbacks path.dir cut.base extension with
    | some found => rfl
    | none =>
        have hgone := Catalog.fileAt_look_eq_none.1 (firstAt_eq_none.1 hnone c hc)
        rw [Catalog.get?_without, if_neg hspared, hget] at hgone
        cases hgone
  have hself : (files.without doomed).get? path.text = none := by
    rw [Catalog.get?_without, if_pos ((mem_doomed hsplit hstale).2 (Or.inl rfl))]
  obtain ⟨r, hresolve⟩ := resolveIn_ok_of_cut hsplit (mem_generatedCuts.1 hcut).1 hleft
  cases r with
  | direct found =>
      obtain ⟨file', hget', -⟩ := Catalog.fileAt_look.1 (resolveIn_eq_direct.1 hresolve)
      rw [hself] at hget'
      cases hget'
  | derived source chain ext =>
      obtain ⟨-, _, -, _, -, -, hsource, -⟩ := resolveIn_eq_derived.1 hresolve
      obtain ⟨c', -, hfile'⟩ := exists_of_firstAt hsource
      obtain ⟨file', hget', rfl⟩ := Catalog.fileAt_look.1 hfile'
      have hnotDoomed := hget'
      rw [Catalog.get?_without] at hnotDoomed
      split at hnotDoomed
      · cases hnotDoomed
      · refine ⟨_, chain, ext, file', hresolve, fun heq => ?_, hnotDoomed, hget'⟩
        rw [← heq, hget'] at hself
        cases hself

/-- A request that checks its own file and finds it stale is resolved without the doomed files. -/
theorem Settles.of_stale {files : FileSystem MemoryFiles} {fallbacks : Fallbacks}
    {path : RequestPath} {m t : MemoryFiles} {outcome : Except Error Resolution}
    {doomed : List String} (hfiles : files = MemoryFiles.fileSystem)
    (hsettle : Settles files MemoryFiles.look fallbacks path true m outcome t)
    (hstale : stalenessIn m.look fallbacks path = .stale doomed) :
    t = { m with files := m.files.without doomed } ∧
      outcome = (resolveIn t.look fallbacks path).mapError Unresolved.toError := by
  obtain ⟨found, hfound, -⟩ := stalenessIn_eq_stale.1 hstale
  rcases hsettle.of_direct hfound with ⟨-, -, hfresh⟩ | ⟨doomed', hstale', hremove⟩
  · simp [hstale] at hfresh
  · obtain rfl := Staleness.stale.inj (hstale.symm.trans hstale')
    rcases hremove with ⟨hremove, houtcome⟩ | ⟨e, hremove, -⟩
    · obtain ⟨-, rfl⟩ := MemoryFiles.removeAll_eq hfiles hremove
      exact ⟨rfl, houtcome⟩
    · cases (MemoryFiles.removeAll_eq hfiles hremove).1

section Serving

variable {γ κ η : Type} {engine : Engine MemoryFiles γ κ η} {w : World MemoryFiles γ κ}
  {raw : String} {path : RequestPath}

/-- A request is answered by carrying out a chain on a file on disk, other than the one at its own
path. -/
def Engine.Recomputes (engine : Engine MemoryFiles γ κ η) (raw : String) (path : RequestPath)
    (w : World MemoryFiles γ κ) : Prop :=
  ∃ (source : String) (file : StoredFile) (chain : Chain) (extension : String),
    source ≠ path.text ∧ w.files.files.get? source = some file ∧
    match ((engine.codec.execute file.content chain extension).run.run w.codec).1 with
    | .ok execution => ∃ served, ((engine.serve raw).run.run w).1 = .ok served ∧
        served.body = execution.result ∧ served.origin = .derived
    | .error e => ((engine.serve raw).run.run w).1 = .error (.failed e)

variable (hfiles : engine.files = MemoryFiles.fileSystem) (hdisk : engine.backend = .disk)
  (hraw : RequestPath.ofRequest raw = .ok path)

include hfiles hdisk hraw

/-- A request that finds its own file stale does not answer with it. -/
theorem recomputes_of_stale (hpicked : w.sampler.next.1 = true) {doomed : List String}
    (hstale : stalenessIn w.files.look engine.fallbacks path = .stale doomed) :
    engine.Recomputes raw path w := by
  obtain ⟨source, chain, ext, file, hresolve, hne, hget, hleft⟩ := exists_derived_of_swept hstale
  refine ⟨source.path, file, chain, ext, hne, hget, ?_⟩
  obtain ⟨outcome, files, codec, sampler, hserve, -, hrun⟩ :=
    Engine.serves hdisk (MemoryFiles.looks_stat hfiles) hraw w
  rw [hpicked] at hserve
  rw [hrun]
  cases hserve with
  | unsettled hsettle =>
      obtain ⟨rfl, houtcome⟩ := hsettle.of_stale hfiles hstale
      rw [MemoryFiles.look, hresolve] at houtcome
      cases houtcome
  | answered hsettle hanswer =>
      obtain ⟨rfl, houtcome⟩ := hsettle.of_stale hfiles hstale
      rw [MemoryFiles.look, hresolve] at houtcome
      obtain rfl := Except.ok.inj houtcome
      cases hanswer with
      | unread hread =>
          have hgone := (MemoryFiles.read_eq_error hfiles hread).2
          cases hleft.symm.trans hgone
      | undone hread hexecute =>
          obtain ⟨-, file', hget', rfl⟩ := MemoryFiles.read_eq_ok hfiles hread
          obtain rfl := Option.some.inj (hleft.symm.trans hget')
          rw [hexecute]
          rfl
      | made hread hexecute =>
          obtain ⟨-, file', hget', rfl⟩ := MemoryFiles.read_eq_ok hfiles hread
          obtain rfl := Option.some.inj (hleft.symm.trans hget')
          rw [hexecute]
          exact ⟨_, rfl, rfl, rfl⟩

/-- A request that finds its own file fresh answers with it. -/
theorem served_file_of_fresh {file : StoredFile} (hget : w.files.files.get? path.text = some file)
    (hfresh : stalenessIn w.files.look engine.fallbacks path = .fresh) :
    ∃ served, ((engine.serve raw).run.run w).1 = .ok served ∧ served.body = file.content ∧
      served.origin = .file := by
  have hfound : fileAt (MemoryFiles.look w.files) path.text = some ⟨path.text, file.stat⟩ :=
    Catalog.fileAt_look.2 ⟨file, hget, rfl⟩
  obtain ⟨outcome, files, codec, sampler, hserve, -, hrun⟩ :=
    Engine.serves hdisk (MemoryFiles.looks_stat hfiles) hraw w
  rw [hrun]
  have hdirect : ∀ {outcome : Except Error Resolution} {t : MemoryFiles},
      Settles engine.files MemoryFiles.look engine.fallbacks path w.sampler.next.1 w.files outcome
        t → outcome = .ok (.direct ⟨path.text, file.stat⟩) ∧ t = w.files := by
    intro outcome t hsettle
    rcases hsettle.of_direct hfound with ⟨houtcome, ht, -⟩ | ⟨doomed, hstale, -⟩
    · exact ⟨houtcome, ht⟩
    · rw [hfresh] at hstale
      cases hstale
  cases hserve with
  | unsettled hsettle => cases (hdirect hsettle).1
  | answered hsettle hanswer =>
      obtain ⟨hr, rfl⟩ := hdirect hsettle
      obtain rfl := Except.ok.inj hr
      cases hanswer with
      | unread hread =>
          have hgone := (MemoryFiles.read_eq_error hfiles hread).2
          cases hget.symm.trans hgone
      | file hread =>
          obtain ⟨-, file', hget', rfl⟩ := MemoryFiles.read_eq_ok hfiles hread
          obtain rfl := Option.some.inj (hget.symm.trans hget')
          exact ⟨_, rfl, rfl, rfl⟩

/-- A request that settles on a derivative by a chain that is not empty, and is answered, keeps the
derivative under its path, as the nearest file there is. -/
theorem exists_kept {source : FoundFile} {chain : Chain} {extension : String} {served : Served}
    (hsettle : ((engine.settled path).run.run w).1 = .ok (.derived source chain extension))
    (hchain : chain.isEmpty = false) (hserved : ((engine.serve raw).run.run w).1 = .ok served) :
    ∃ before : Catalog StoredFile,
      resolveIn before.look engine.fallbacks path = .ok (.derived source chain extension) ∧
      ((engine.serve raw).run.run w).2.files.files
        = before.insert path.text ⟨served.body, w.files.now, w.files.now⟩ := by
  have hstat := MemoryFiles.looks_stat hfiles
  obtain ⟨outcome, files, sampler, hsettles, -, hrun⟩ := engine.settled_cases hstat path w
  rw [hrun] at hsettle
  obtain rfl := eq_ok_of_mapError hsettle
  obtain ⟨hresolve, hleft⟩ := hsettles.ok_inv_memory hfiles
  have hnow : files.now = w.files.now := by
    rcases hleft with ⟨rfl, -⟩ | ⟨_, _, _, -, -, -, -, rfl⟩ <;> rfl
  obtain ⟨outcome, files', codec, hanswer, hrun'⟩ := engine.answer_cases hstat path
    (.derived source chain extension) { w with files := files, sampler := sampler }
  have hserve := (engine.run_serve hdisk hraw w).trans (run_bind _ _ w)
  rw [hrun] at hserve
  change _ = (engine.answer (engine.keepOnDisk path) path _).run.run _ at hserve
  rw [hrun'] at hserve
  rw [hserve] at hserved ⊢
  refine ⟨files.files, hresolve, ?_⟩
  cases hanswer with
  | unread | undone => cases hserved
  | made hread hexecute hkeep =>
      obtain rfl := Except.ok.inj hserved
      obtain ⟨rfl, -⟩ := MemoryFiles.read_eq_ok hfiles hread
      cases hkeep with
      | bare hempty => simp [hchain] at hempty
      | written _ hwrite =>
          obtain rfl := MemoryFiles.write_eq hfiles hwrite
          simp only [MemoryFiles.insert, Engine.served]
          rw [hnow]

/-- What becomes of a derivative that a request kept, when the file that it was made from is changed
later than everything on disk was stamped. If all tokens of its chain are well-formed, it is found
stale, and the next request that checks it is answered anew. If one is not, it is found fresh, and
every later request is answered with it. -/
theorem persisted_invalidated {source : FoundFile} {chain : Chain} {extension : String}
    {served : Served}
    (hsettle : ((engine.settled path).run.run w).1 = .ok (.derived source chain extension))
    (hchain : chain.isEmpty = false) (hserved : ((engine.serve raw).run.run w).1 = .ok served)
    (content : Content) {time : Timestamp}
    (hlater : ((engine.serve raw).run.run w).2.files.StampedBefore time) :
    let after := ((engine.serve raw).run.run w).2.files.files
    let edited := after.insert source.path ⟨content, time, time⟩
    after.get? path.text = some ⟨served.body, w.files.now, w.files.now⟩ ∧
    ((∀ token ∈ chain.tokens, Directive.isWellFormed token.raw = true) →
      (∃ doomed, stalenessIn edited.look engine.fallbacks path = .stale doomed) ∧
      ∀ (v : World MemoryFiles γ κ) (raw' : String), RequestPath.ofRequest raw' = .ok path →
        v.files.files = edited → v.sampler.next.1 = true → engine.Recomputes raw' path v) ∧
    ((¬ ∀ token ∈ chain.tokens, Directive.isWellFormed token.raw = true) →
      stalenessIn edited.look engine.fallbacks path = .fresh ∧
      ∀ (v : World MemoryFiles γ κ) (raw' : String), RequestPath.ofRequest raw' = .ok path →
        v.files.files = edited →
        ∃ again, ((engine.serve raw').run.run v).1 = .ok again ∧ again.body = served.body ∧
          again.origin = .file) := by
  intro after edited
  obtain ⟨before, hresolve, hafter⟩ := exists_kept hfiles hdisk hraw hsettle hchain hserved
  have hkept : after.get? path.text = some ⟨served.body, w.files.now, w.files.now⟩ := by
    simp [after, hafter]
  have hsuperseded : Superseded engine.fallbacks path source chain before edited
      ⟨served.body, w.files.now, w.files.now⟩ ⟨content, time, time⟩ := by
    refine ⟨⟨extension, hresolve⟩, hchain, by simp only [edited, after, hafter], ?_⟩
    rw [StoredFile.newest_stat]
    exact hlater.modified_lt hkept
  refine ⟨hkept, fun hformed => ?_, fun hformed => ?_⟩
  · obtain ⟨doomed, hstale⟩ := hsuperseded.stale hformed
    refine ⟨⟨doomed, hstale⟩, fun v raw' hraw' hv hpicked => ?_⟩
    rw [← hv] at hstale
    exact recomputes_of_stale hfiles hdisk hraw' hpicked hstale
  · have hfresh := hsuperseded.fresh hformed
    refine ⟨hfresh, fun v raw' hraw' hv => ?_⟩
    have hget := hsuperseded.get?_kept
    rw [← hv] at hfresh hget
    exact served_file_of_fresh hfiles hdisk hraw' hget hfresh

end Serving

/-- A derivative of a photo is kept whose directive is well-formed, and found stale when the photo
is replaced. -/
theorem persisted_invalidated_quality :
    let w := Sketching.photo ⟨0, 0⟩
    let after := ((Sketching.engine.serve "a_q50.jpg").run.run w).2.files.files
    ∃ doomed, stalenessIn (after.insert "a.jpg"
        ⟨.text "B", Sketching.instant 2, Sketching.instant 2⟩).look Sketching.engine.fallbacks
      (.single "a_q50.jpg" (by decide)) = .stale doomed := by
  intro w after
  have hsettle : ((Sketching.engine.settled (.single "a_q50.jpg" (by decide))).run.run w).1
      = .ok (.derived ⟨"a.jpg", StoredFile.stat
          ⟨.text "A", Sketching.instant 1, Sketching.instant 1⟩⟩ (Chain.ofTexts ["q50"]) "jpg") :=
    eq_ok_of_toOption (by decide +kernel)
  obtain ⟨served, hserved⟩ := exists_ok_of_isSome
    (show ((Sketching.engine.serve "a_q50.jpg").run.run w).1.toOption.isSome by decide +kernel)
  have hlater : ((Sketching.engine.serve "a_q50.jpg").run.run w).2.files.StampedBefore
      (Sketching.instant 2) := by decide +kernel
  obtain ⟨-, hformed, -⟩ := persisted_invalidated rfl rfl (RequestPath.ofRequest_single _ _)
    hsettle rfl hserved (.text "B") hlater
  exact (hformed (by decide)).1

/-- A derivative of a photo is kept whose directive is unknown. When the photo is replaced, the
derivative is found fresh, and the next request is answered with it. -/
theorem unknown_token_hides_source :
    let path := RequestPath.single "a_bad.jpg" (by decide)
    let w := Sketching.photo ⟨0, 0⟩
    let after := ((Sketching.engine.serve "a_bad.jpg").run.run w).2
    let edited := after.files.insert "a.jpg"
      ⟨.text "B", Sketching.instant 2, Sketching.instant 2⟩
    let answer := ((Sketching.engine.serve "a_bad.jpg").run.run { after with files := edited }).1
    ((Sketching.engine.settled path).run.run w).1.toOption
        = some (.derived ⟨"a.jpg", StoredFile.stat
            ⟨.text "A", Sketching.instant 1, Sketching.instant 1⟩⟩ (Chain.ofTexts ["bad"]) "jpg") ∧
      after.files.contains "a_bad.jpg" = true ∧ after.files.StampedBefore (Sketching.instant 2) ∧
      stalenessIn edited.look Sketching.engine.fallbacks path = .fresh ∧
      after.sampler.next.1 = true ∧
      answer.toOption.map (·.origin) = some .file ∧
      answer.toOption.bind (·.body.firstByte?) = some 65 := by
  decide +kernel

end Rendition
