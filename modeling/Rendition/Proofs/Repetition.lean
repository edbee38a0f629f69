import Rendition.Proofs.Making

/-!
# Rendition.Proofs.Repetition

A request that is made again. Once its derivative is kept, the request names a file, so it is
answered with that file unless a check finds it stale. It is stale when something in its ancestry is
newer, and nothing is, as long as nothing on disk was stamped later than the derivative
(`stalenessIn_eq_fresh_of_latest`). A request that is answered with its file changes nothing, so
this goes on for as long as nothing else happens (`repeated_request_hits`), and it does not matter
which of the requests are picked for a check.
-/

namespace Rendition

open Time

section Repetition

variable {γ κ η : Type}

/-- The world after a request is made a number of times, at the times that a clock shows. -/
def Engine.repeated (engine : Engine MemoryFiles γ κ η) (raw : String) (clock : Nat → Timestamp)
    (w : World MemoryFiles γ κ) : Nat → World MemoryFiles γ κ
  | 0 => w
  | n + 1 => engine.after raw (clock n) (engine.repeated raw clock w n)

variable {engine : Engine MemoryFiles γ κ η} {path : RequestPath} {raw : String} {now : Timestamp}
  {w : World MemoryFiles γ κ} {files : Catalog StoredFile} {file : StoredFile}

/-- A file that no file is newer than is fresh. -/
theorem stalenessIn_eq_fresh_of_latest {fallbacks : Fallbacks}
    (hget : files.get? path.text = some file)
    (hlatest : ∀ name other, files.get? name = some other → other.stat.newest ≤ file.modified) :
    stalenessIn files.look fallbacks path = .fresh := by
  refine stalenessIn_eq_fresh.2 fun found hfound level hlevel => ?_
  obtain ⟨file', hget', rfl⟩ := Catalog.fileAt_look.1 hfound
  obtain rfl := Option.some.inj (hget.symm.trans hget')
  obtain ⟨source, hsource, hstat⟩ := exists_of_mem_ancestorsIn hlevel
  rw [hstat]
  have hle := hlatest _ source hsource
  exact Int.not_lt.2 hle

section Request

variable (hfiles : engine.files = MemoryFiles.fileSystem) (hdisk : engine.backend = .disk)
  (hraw : RequestPath.ofRequest raw = .ok path)

include hfiles hdisk hraw

/-- A request for a file that is fresh, or that is not checked, is answered with it, and nothing but
the clock and the count of requests is changed. -/
theorem Engine.reply_eq_file (hget : w.files.files.get? path.text = some file)
    (hfresh : w.sampler.next.1 = true →
      stalenessIn w.files.look engine.fallbacks path = .fresh) (now : Timestamp) :
    engine.reply raw now w = .ok (Engine.served path file.content
        (some (sourceModified w.files.look engine.fallbacks ⟨path.text, file.stat⟩)) .file) ∧
      (engine.after raw now w).files.files = w.files.files ∧
      (engine.after raw now w).codec = w.codec := by
  obtain ⟨outcome, u, l, sampler, hserve, -, hrun⟩ :=
    Engine.serves hdisk (MemoryFiles.looks_stat hfiles) hraw
      { w with files := w.files.atTime now }
  have hget' : (w.files.atTime now).files.get? path.text = some file := hget
  obtain ⟨rfl, rfl, rfl⟩ := hserve.eq_file hfiles hget' hfresh
  rw [Engine.reply, Engine.after, hrun]
  exact ⟨rfl, rfl, rfl⟩

/-- What a request keeps, later than all that was left, answers the next one. -/
theorem Engine.Makes.reply_again {source : FoundFile} {chain : Chain} {extension : String}
    {left : Catalog StoredFile} {execution : Execution}
    (h : engine.Makes raw path now w source chain extension left file execution)
    (hchain : chain.isEmpty = false)
    (hlatest : ∀ name other, left.get? name = some other → other.stat.newest ≤ now)
    (later : Timestamp) :
    engine.reply raw later (engine.after raw now w)
      = .ok (Engine.served path execution.result
          (some (sourceModified (engine.after raw now w).files.look engine.fallbacks
            ⟨path.text, StoredFile.stat ⟨execution.result, now, now⟩⟩)) .file) := by
  have hget := h.get?_after hchain path.text
  rw [if_pos rfl] at hget
  refine (Engine.reply_eq_file hfiles hdisk hraw hget
    (fun _ => stalenessIn_eq_fresh_of_latest hget fun name other hother => ?_) later).1
  rw [h.get?_after hchain] at hother
  split at hother
  · obtain rfl := Option.some.inj hother
    rw [StoredFile.newest_stat]
    exact Int.le_refl _
  · exact hlatest name other hother

/-- A request that checks its file and is answered with it found it fresh. -/
theorem Engine.fresh_of_reply_file {served : Served}
    (hreply : engine.reply raw now w = .ok served) (horigin : served.origin = .file)
    (hpicked : w.sampler.next.1 = true) :
    stalenessIn w.files.look engine.fallbacks path = .fresh := by
  cases hstale : stalenessIn w.files.look engine.fallbacks path with
  | fresh => rfl
  | stale doomed =>
      -- Otherwise it would have been answered anew.
      obtain ⟨source, file, chain, extension, -, -, hrecomputed⟩ :=
        recomputes_of_stale (w := { w with files := w.files.atTime now }) hfiles hdisk hraw hpicked
          hstale
      split at hrecomputed
      · obtain ⟨again, hagain, -, hderived⟩ := hrecomputed
        obtain rfl := Except.ok.inj (hreply.symm.trans hagain)
        cases horigin.symm.trans hderived
      · cases hreply.symm.trans hrecomputed

/-- A request for the latest file, however often it is made, is answered with it and changes
nothing. -/
theorem Engine.repeated_eq_file (hget : w.files.files.get? path.text = some file)
    (hlatest : ∀ name other, w.files.files.get? name = some other →
      other.stat.newest ≤ file.modified) (clock : Nat → Timestamp) (n : Nat) :
    (engine.repeated raw clock w n).files.files = w.files.files ∧
      (engine.repeated raw clock w n).codec = w.codec := by
  induction n with
  | zero => exact ⟨rfl, rfl⟩
  | succ n ih =>
      obtain ⟨hsame, hcodec⟩ := ih
      rw [← hsame] at hget hlatest
      obtain ⟨-, hsame', hcodec'⟩ := Engine.reply_eq_file hfiles hdisk hraw hget
        (fun _ => stalenessIn_eq_fresh_of_latest hget hlatest) (clock n)
      exact ⟨hsame'.trans hsame, hcodec'.trans hcodec⟩

end Request

/-- A request makes a derivative and keeps it, not earlier than any file on disk was stamped. Then,
however often the same request is made after it and whatever the clock shows, each time it is
answered with the file that was kept: the same body, validator and content type, without the codec,
and nothing on disk changes. -/
theorem repeated_request_hits (hfiles : engine.files = MemoryFiles.fileSystem)
    (hdisk : engine.backend = .disk) (hraw : RequestPath.ofRequest raw = .ok path)
    {source : FoundFile} {chain : Chain} {extension : String} {served : Served}
    (hsettled : engine.settledAt path now w = .ok (.derived source chain extension))
    (hchain : chain.isEmpty = false) (hserved : engine.reply raw now w = .ok served)
    (hlatest : ∀ name file, (engine.after raw now w).files.files.get? name = some file →
      file.stat.newest ≤ now) (clock : Nat → Timestamp) (n : Nat) :
    let kept := engine.after raw now w
    let later := engine.repeated raw clock kept n
    later.files.files = kept.files.files ∧ later.codec = kept.codec ∧
      ∃ again, engine.reply raw (clock n) later = .ok again ∧ again.origin = .file ∧
        again.body = served.body ∧ again.etag? = served.etag? ∧
        again.contentType = served.contentType := by
  intro kept later
  obtain ⟨left, file, execution, hmakes⟩ :=
    Engine.exists_makes hfiles hdisk hraw hsettled hserved
  obtain rfl := Except.ok.inj (hserved.symm.trans hmakes.reply)
  have hget : kept.files.files.get? path.text = some ⟨execution.result, now, now⟩ := by
    rw [hmakes.get?_after hchain, if_pos rfl]
  obtain ⟨hsame, hcodec⟩ := Engine.repeated_eq_file hfiles hdisk hraw hget hlatest clock n
  refine ⟨hsame, hcodec, ?_⟩
  change later.files.files = _ at hsame
  rw [← hsame] at hget hlatest
  obtain ⟨hreply, -, -⟩ := Engine.reply_eq_file hfiles hdisk hraw hget
    (fun _ => stalenessIn_eq_fresh_of_latest hget hlatest) (clock n)
  exact ⟨_, hreply, rfl, rfl, rfl, rfl⟩

end Repetition

namespace Sketching

/-- A derivative of a photo is kept; every second request is checked. -/
def keeping : World MemoryFiles Unit Codec.Sketch.Record :=
  engine.after "a_q1.jpg" (instant 2) (photo ⟨1, 0⟩)

theorem settledAt_photo :
    engine.settledAt (.single "a_q1.jpg" (by decide)) (instant 2) (photo ⟨1, 0⟩)
      = .ok (.derived ⟨"a.jpg", StoredFile.stat ⟨.text "A", instant 1, instant 1⟩⟩
          (Chain.ofTexts ["q1"]) "jpg") :=
  eq_ok_of_toOption (by decide +kernel)

theorem latest_keeping (name : String) (file : StoredFile)
    (hget : (engine.after "a_q1.jpg" (instant 2) (photo ⟨1, 0⟩)).files.files.get? name
      = some file) :
    file.stat.newest ≤ instant 2 := by
  have hstamped : (engine.after "a_q1.jpg" (instant 2) (photo ⟨1, 0⟩)).files.StampedBefore
      (instant 3) := by decide +kernel
  exact Int.le_of_lt_add_one (hstamped.newest_lt hget)

end Sketching

/-- Of the next two requests for it one is not checked and one is, and both are answered with the
file. -/
theorem repeated_request_hits_photo :
    Sketching.keeping.sampler.next.1 = false ∧ Sketching.keeping.sampler.next.2.next.1 = true ∧
      ∀ n < 2, ∃ again, Sketching.engine.reply "a_q1.jpg" (Sketching.instant 3)
          (Sketching.engine.repeated "a_q1.jpg" (fun _ => Sketching.instant 3) Sketching.keeping n)
        = .ok again ∧ again.origin = .file := by
  refine ⟨by decide +kernel, by decide +kernel, fun n _ => ?_⟩
  obtain ⟨served, hserved⟩ := exists_ok_of_isSome
    (show (Sketching.engine.reply "a_q1.jpg" (Sketching.instant 2)
      (Sketching.photo ⟨1, 0⟩)).toOption.isSome by decide +kernel)
  obtain ⟨-, -, again, hagain, horigin, -⟩ := repeated_request_hits rfl rfl
    (RequestPath.ofRequest_single _ _) Sketching.settledAt_photo rfl hserved
    Sketching.latest_keeping (fun _ => Sketching.instant 3) n
  exact ⟨again, hagain, horigin⟩

end Rendition
