import Rendition.Proofs.Repetition
import Rendition.Proofs.Sampling

/-!
# Rendition.Proofs.Renewal

How long an outdated derivative is served. When its original is replaced, a derivative stays on
disk, and requests for it are answered with it until one of them is picked for a check. That one
removes the derivative together with what lies between it and the original
(`Outdated.mem_doomed_iff`), so it starts from the original itself (`Outdated.resolveIn_swept`) and
keeps the derivative anew. As many requests as the interval of checks has are enough for this to
happen, wherever the count of requests stands (`renewed_within_interval`).
-/

namespace Rendition

open Text Time

/-! ### An outdated derivative -/

/-- The paths between a rooted one and its original. -/
def Between (path : RequestPath) (base : String) (tokens : List String) (extension : String)
    (name : String) : Prop :=
  ∃ front back, tokens = front ++ back ∧ front ≠ [] ∧ back ≠ [] ∧
    name = pathOf path.dir (joined '_' (base :: front)) extension

/-- A derivative of an original is on disk, among files of one extension, and the original is
newer. -/
structure Outdated (originals : Catalog StoredFile) (extension : String) (path : RequestPath)
    (base : String) (tokens : List String) (files : Catalog StoredFile) (kept source : StoredFile) :
    Prop where
  rooted : Rooted originals extension path base tokens
  tokens_ne : tokens ≠ []
  present : ∀ name, (originals.get? name).isSome → (files.get? name).isSome
  uniform : ∀ name, (files.get? name).isSome → extensionOf name = some extension
  get?_kept : files.get? path.text = some kept
  get?_source : files.get? (pathOf path.dir base extension) = some source
  newer : kept.modified < source.stat.newest

/-- What is on disk once a derivative was made anew: the derivative, nothing between it and the
original, and everything else as it was. -/
structure Renewed (path : RequestPath) (base : String) (tokens : List String) (extension : String)
    (before after : Catalog StoredFile) (renewed : StoredFile) : Prop where
  renewed : after.get? path.text = some renewed
  gone : ∀ name, Between path base tokens extension name → after.get? name = none
  others : ∀ name, name ≠ path.text → ¬ Between path base tokens extension name →
    after.get? name = before.get? name

section Outdated

variable {originals files : Catalog StoredFile} {extension : String} {fallbacks : Fallbacks}
  {path : RequestPath} {base : String} {tokens : List String} {kept source : StoredFile}

theorem Rooted.ne_text_of_between (hp : Pristine originals extension)
    (h : Rooted originals extension path base tokens) {name : String}
    (hbetween : Between path base tokens extension name) : name ≠ path.text := by
  obtain ⟨front, back, htokens, -, hback, rfl⟩ := hbetween
  have hne := pathOf_ne_text (c := extension) (h.split hp) (h.cut_front_mem hp htokens) hback
  exact hne

/-- Behind an original no ancestry goes on. -/
theorem Rooted.length_le_of_generated (hp : Pristine originals extension)
    (h : Rooted originals extension path base tokens) {cut : Cut}
    (hcut : cut ∈ generatedCuts (joined '_' (base :: tokens))) :
    cut.tokens.length ≤ tokens.length := by
  refine Nat.le_of_not_lt fun hlt => ?_
  have hname := namesDerivative_level (h.split hp) (h.cut_mem hp) hcut hlt (h.isExtension hp)
  simp [hp.notDerivative _ h.original] at hname

/-- A derivative is outdated once its original is replaced. -/
theorem Outdated.of_replaced (hp : Pristine originals extension)
    (hrooted : Rooted originals extension path base tokens) (hne : tokens ≠ [])
    (hpresent : ∀ name, (originals.get? name).isSome → (files.get? name).isSome)
    (huniform : ∀ name, (files.get? name).isSome → extensionOf name = some extension)
    (hkept : files.get? path.text = some kept) {time : Timestamp} (hlater : kept.modified < time)
    (content : Content) :
    Outdated originals extension path base tokens
      (files.insert (pathOf path.dir base extension) ⟨content, time, time⟩) kept
      ⟨content, time, time⟩ where
  rooted := hrooted
  tokens_ne := hne
  present name hname := by
    rw [Catalog.get?_insert]
    split
    · rfl
    · exact hpresent name hname
  uniform name hname := by
    rw [Catalog.get?_insert] at hname
    split at hname
    · next heq => exact heq ▸ hp.uniform _ hrooted.original
    · exact huniform name hname
  get?_kept := by
    rw [Catalog.get?_insert, if_neg (hrooted.ne_original hp hne hrooted.original)]
    exact hkept
  get?_source := by simp
  newer := by
    rw [StoredFile.newest_stat]
    exact hlater

namespace Outdated

variable (h : Outdated originals extension path base tokens files kept source)
  (hp : Pristine originals extension) (hplain : fallbacks.Plain)

include h hp hplain

/-- A check finds the derivative stale. -/
theorem exists_stale : ∃ doomed, stalenessIn files.look fallbacks path = .stale doomed := by
  cases hstale : stalenessIn files.look fallbacks path with
  | stale doomed => exact ⟨doomed, rfl⟩
  | fresh =>
      exact absurd h.newer
        (h.rooted.not_older hp hplain h.uniform h.tokens_ne hstale h.get?_source h.get?_kept)

variable {doomed : List String} (hstale : stalenessIn files.look fallbacks path = .stale doomed)

include hstale

/-- The derivative goes with the files between it and the original, and with no others. -/
theorem mem_doomed_iff {name : String} :
    name ∈ doomed ↔ name = path.text ∨
      Between path base tokens extension name ∧ (files.get? name).isSome := by
  constructor
  · intro hmem
    rcases (mem_doomed (h.rooted.split hp) hstale).1 hmem with
      rfl | ⟨a, ha, level, hlevel, rfl, b, hb, hlen, -⟩
    · exact Or.inl rfl
    · right
      obtain ⟨hcut, hback, -⟩ := mem_generatedCuts.1 ha
      have hshort := Nat.lt_of_lt_of_le hlen (h.rooted.length_le_of_generated hp hb)
      obtain ⟨front, htokens, hbase⟩ :=
        cut_split hcut (h.rooted.cut_mem hp) (Nat.le_of_lt hshort)
      have hfront : front ≠ [] := by
        rintro rfl
        exact absurd (congrArg List.length htokens) (Nat.ne_of_gt hshort)
      rw [firstAt_eq_fileAt hplain h.uniform (h.rooted.split hp) hcut, hbase] at hlevel
      obtain ⟨file, hget, rfl⟩ := Catalog.fileAt_look.1 hlevel
      exact ⟨⟨front, a.tokens, htokens, hfront, hback, rfl⟩, Option.isSome_of_eq_some hget⟩
  · rintro (rfl | ⟨⟨front, back, rfl, hfront, hback, rfl⟩, hstored⟩)
    · exact (mem_doomed (h.rooted.split hp) hstale).2 (Or.inl rfl)
    · exact h.rooted.mem_doomed hp hplain h.present h.uniform hfront hstored hstale

/-- Once those files are gone, the path is answered from the original by all of its tokens. -/
theorem resolveIn_swept : resolveIn (files.without doomed).look fallbacks path
    = .ok (.derived ⟨pathOf path.dir base extension, source.stat⟩ (Chain.ofTexts tokens)
        extension) := by
  have hfound := Catalog.fileAt_look.2 ⟨kept, h.get?_kept, rfl⟩
  have hstart : StartsAt originals extension files path base tokens
      (.direct ⟨path.text, kept.stat⟩) path tokens [] :=
    ⟨h.rooted, rfl, rfl, Option.isSome_of_eq_some h.get?_kept, by simp, Or.inl ⟨rfl, rfl⟩, by simp⟩
  obtain ⟨found, chain, ext, file, hresolve, -, -, hleft⟩ := exists_derived_of_swept hstale
  have hpresent : ∀ name, (originals.get? name).isSome →
      ((files.without doomed).get? name).isSome := by
    intro name hname
    rw [Current.get?_without_doomed hp hplain hstale hname]
    exact h.present name hname
  obtain ⟨onDisk, front, back, hstart'⟩ := h.rooted.startsAt hp hplain hpresent
    (fun name hname => h.uniform name (Catalog.mem_of_without hname).2) hresolve
  obtain rfl := hstart.eq_nil_of_swept hp hplain h.present h.uniform hstale hstart'
  have hback : tokens = back := hstart'.split
  have htext : found.path = pathOf path.dir base extension := by
    rw [← hstart'.dir, ← hstart'.rooted.text_eq_original]
    exact hstart'.text
  rcases hstart'.todo with ⟨hdirect, -⟩ | ⟨-, hderived⟩
  · cases hdirect
  · obtain ⟨-, rfl, rfl⟩ := Resolution.derived.inj hderived
    rw [hresolve, ← hback]
    obtain ⟨-, _, -, _, -, -, hfirst, -⟩ := resolveIn_eq_derived.1 hresolve
    obtain ⟨c, -, file', hget', hfound'⟩ := Catalog.exists_of_firstAt hfirst
    have hsource : (files.without doomed).get? found.path = some source := by
      rw [htext, Current.get?_without_doomed hp hplain hstale h.rooted.original, h.get?_source]
    rw [hfound'] at hsource htext ⊢
    obtain rfl := Option.some.inj (hget'.symm.trans hsource)
    simp only at htext
    rw [htext]

/-- What a request that makes the derivative anew leaves. -/
theorem renewed (renewed : StoredFile) :
    Renewed path base tokens extension files
      ((files.without doomed).insert path.text renewed) renewed where
  renewed := by simp
  gone name hbetween := by
    rw [Catalog.get?_insert, if_neg (h.rooted.ne_text_of_between hp hbetween),
      Catalog.get?_without]
    by_cases hstored : (files.get? name).isSome
    · rw [if_pos ((h.mem_doomed_iff hp hplain hstale).2 (Or.inr ⟨hbetween, hstored⟩))]
    · rw [Option.not_isSome_iff_eq_none.1 hstored, ite_self]
  others name hne hbetween := by
    have hspared : name ∉ doomed := by
      rw [h.mem_doomed_iff hp hplain hstale]
      rintro (hself | ⟨hmem, -⟩)
      · exact hne hself
      · exact hbetween hmem
    rw [Catalog.get?_insert, if_neg hne, Catalog.get?_without, if_neg hspared]

end Outdated

end Outdated

/-! ### Requests for it -/

section Requests

variable {γ κ η : Type} {engine : Engine MemoryFiles γ κ η} {originals : Catalog StoredFile}
  {extension : String} {path : RequestPath} {raw : String} {base : String} {tokens : List String}
  {kept source : StoredFile} {w : World MemoryFiles γ κ}

variable (hs : DiskSetting engine originals extension)
  (hraw : RequestPath.ofRequest raw = .ok path)

include hs hraw

/-- A request for a file on disk is counted. -/
theorem Engine.sampler_after (hget : w.files.files.get? path.text = some kept) (now : Timestamp) :
    (engine.after raw now w).sampler = w.sampler.next.2 := by
  have hdirect : resolveIn w.files.look engine.fallbacks path = .ok (.direct ⟨_, kept.stat⟩) :=
    resolveIn_eq_direct.2 (Catalog.fileAt_look.2 ⟨kept, hget, rfl⟩)
  have hsame : engine.after raw now { w with sampler := w.sampler }
      = { engine.after raw now w with sampler := w.sampler.next.2 } :=
    Engine.after_sampler hs hraw (by rw [hdirect]; rfl) rfl
  exact congrArg World.sampler hsame

/-- A request that is not picked for a check is answered with the file that is there. -/
theorem Engine.reply_of_unpicked (hget : w.files.files.get? path.text = some kept)
    (hunpicked : w.sampler.next.1 = false) (now : Timestamp) :
    (engine.after raw now w).files.files = w.files.files ∧
      ∃ served, engine.reply raw now w = .ok served ∧ served.body = kept.content := by
  obtain ⟨hreply, hsame, -⟩ := Engine.reply_eq_file hs.files hs.disk hraw hget
    (fun hpicked => absurd hpicked (by simp [hunpicked])) now
  exact ⟨hsame, _, hreply, rfl⟩

/-- From one request to another, while none is picked for a check, all are counted and leave the
files alone. -/
theorem Engine.repeated_of_unpicked {clock : Nat → Timestamp} {m n : Nat}
    (hget : (engine.repeated raw clock w m).files.files.get? path.text = some kept)
    (hcount : (engine.repeated raw clock w m).sampler = w.sampler.counted m) (hle : m ≤ n)
    (hunpicked : ∀ i, m ≤ i → i < n → (w.sampler.counted i).next.1 = false) :
    (engine.repeated raw clock w n).files.files = (engine.repeated raw clock w m).files.files ∧
      (engine.repeated raw clock w n).sampler = w.sampler.counted n := by
  induction hle with
  | refl => exact ⟨rfl, hcount⟩
  | @step n hmn ih =>
      obtain ⟨hsame, hcounted⟩ := ih fun i hi hin => hunpicked i hi (Nat.lt_succ_of_lt hin)
      rw [← hsame] at hget
      have hpick := hunpicked n hmn (Nat.lt_succ_self n)
      rw [← hcounted] at hpick
      obtain ⟨hsame', -⟩ := Engine.reply_of_unpicked hs hraw hget hpick (clock n)
      refine ⟨hsame'.trans hsame, ?_⟩
      rw [Engine.repeated, Engine.sampler_after hs hraw hget, hcounted, Sampler.next_counted]

/-- A request that is picked for a check makes an outdated derivative anew. -/
theorem Outdated.renew
    (h : Outdated originals extension path base tokens w.files.files kept source)
    (hpicked : w.sampler.next.1 = true) {body : Content}
    (hyields : engine.codec.Yields source.content tokens extension body) (now : Timestamp) :
    Renewed path base tokens extension w.files.files (engine.after raw now w).files.files
        ⟨body, now, now⟩ ∧
      ∃ served, engine.reply raw now w = .ok served ∧ served.body = body ∧
        served.origin = .derived := by
  obtain ⟨doomed, hstale⟩ := h.exists_stale hs.pristine hs.plain
  have hsettled := Engine.settledAt_of_stale hs.files hs.disk hraw hpicked hstale
    (h.resolveIn_swept hs.pristine hs.plain hstale) now
  obtain ⟨execution, rfl, hexecution⟩ := hyields w.codec
  obtain ⟨left, file, made, hmakes⟩ := Engine.exists_makes_of_settled hs.files hs.disk hraw
    hsettled fun file hget => by
      obtain rfl := Option.some.inj (h.get?_source.symm.trans hget)
      exact ⟨execution, hexecution⟩
  obtain rfl := Option.some.inj (h.get?_source.symm.trans hmakes.get?_source)
  obtain rfl := Except.ok.inj (hexecution.symm.trans (congrArg Prod.fst hmakes.executed))
  refine ⟨?_, _, hmakes.reply, rfl, rfl⟩
  have hchain : (Chain.ofTexts tokens).isEmpty = false := by
    simp [h.tokens_ne]
  rw [hmakes.kept, if_neg (by simp [hchain]), hmakes.removed,
    Engine.removedBy_of_stale hraw hpicked hstale]
  exact h.renewed hs.pristine hs.plain hstale _

/-- In as many requests for an outdated derivative as the interval of checks has, wherever the count
of requests stands, exactly one is picked for a check. Before that one nothing on disk changes and
the answers are the derivative as it was kept. That one removes the derivative and everything
between it and the original, and makes it anew from the original as it is; it and all later ones are
answered with the result. -/
theorem renewed_within_interval
    (h : Outdated originals extension path base tokens w.files.files kept source)
    {interval : UInt64} {fresh : Sampler}
    (hinterval : Sampler.ofInterval? interval = some fresh)
    (hmask : w.sampler.mask = fresh.mask) {body : Content}
    (hyields : engine.codec.Yields source.content tokens extension body)
    (clock : Nat → Timestamp) :
    let before := engine.repeated raw clock w
    ∃ first < interval.toNat,
      (∀ n < interval.toNat, (before n).sampler.next.1 = true ↔ n = first) ∧
      (∀ n ≤ first, (before n).files.files = w.files.files) ∧
      (∀ n, first < n → n ≤ interval.toNat →
        Renewed path base tokens extension w.files.files (before n).files.files
          ⟨body, clock first, clock first⟩) ∧
      ∀ n < interval.toNat, ∃ served, engine.reply raw (clock n) (before n) = .ok served ∧
        served.body = if n < first then kept.content else body := by
  intro before
  obtain ⟨first, hfirst, hpicks⟩ := Sampler.exists_first_picked hinterval hmask
  have hunpicked : ∀ i < interval.toNat, i ≠ first → (w.sampler.counted i).next.1 = false := by
    intro i hi hne
    rw [← Bool.not_eq_true, hpicks i hi]
    exact hne
  have hearly : ∀ n ≤ first, (before n).files.files = w.files.files ∧
      (before n).sampler = w.sampler.counted n := fun n hn =>
    Engine.repeated_of_unpicked hs hraw (m := 0) h.get?_kept w.sampler.counted_zero.symm
      (Nat.zero_le n) fun i _ hi => hunpicked i (by omega) (by omega)
  -- The request that is picked finds everything as it was.
  obtain ⟨hsame, hcount⟩ := hearly first (Nat.le_refl _)
  have hpicked : (before first).sampler.next.1 = true := by
    rw [hcount]
    exact (hpicks first hfirst).2 rfl
  have houtdated := h
  rw [← hsame] at houtdated
  obtain ⟨hrenewed, hmade⟩ := houtdated.renew hs hraw hpicked hyields (clock first)
  rw [hsame] at hrenewed
  have hcount' : (before (first + 1)).sampler = w.sampler.counted (first + 1) := by
    rw [← Sampler.next_counted, ← hcount]
    exact Engine.sampler_after hs hraw houtdated.get?_kept _
  have hlate : ∀ n, first < n → n ≤ interval.toNat →
      (before n).files.files = (before (first + 1)).files.files ∧
        (before n).sampler = w.sampler.counted n := fun n hlt hn =>
    Engine.repeated_of_unpicked hs hraw hrenewed.renewed hcount' hlt fun i hi hin =>
      hunpicked i (by omega) (by omega)
  refine ⟨first, hfirst, fun n hn => ?_, fun n hn => (hearly n hn).1, fun n hlt hn => ?_,
    fun n hn => ?_⟩
  · rw [← hpicks n hn]
    rcases Nat.lt_or_ge first n with hlt | hle
    · rw [(hlate n hlt (Nat.le_of_lt hn)).2]
    · rw [(hearly n hle).2]
  · rw [(hlate n hlt hn).1]
    exact hrenewed
  · rcases Nat.lt_trichotomy n first with hlt | rfl | hlt
    · obtain ⟨hsame', hcounted⟩ := hearly n (Nat.le_of_lt hlt)
      rw [if_pos hlt]
      exact (Engine.reply_of_unpicked hs hraw (hsame' ▸ h.get?_kept)
        (hcounted ▸ hunpicked n hn (Nat.ne_of_lt hlt)) _).2
    · obtain ⟨served, hreply, hbody, -⟩ := hmade
      exact ⟨served, hreply, by rw [if_neg (Nat.lt_irrefl n), hbody]⟩
    · obtain ⟨hsame', hcounted⟩ := hlate n hlt (Nat.le_of_lt hn)
      rw [if_neg (Nat.lt_asymm hlt)]
      exact (Engine.reply_of_unpicked hs hraw (hsame' ▸ hrenewed.renewed)
        (hcounted ▸ hunpicked n hn (Nat.ne_of_gt hlt)) _).2

end Requests

/-! ### A photo with a chain of derivatives -/

namespace Sketching

/-- Two derivatives of the photo were kept, one on the way to the other. -/
def chained : Catalog StoredFile :=
  ((photo ⟨1, 3⟩).files.files.insert "a_q1.jpg" ⟨.text "A|q1", instant 2, instant 2⟩).insert
    "a_q1_q2.jpg" ⟨.text "A|q1|q2", instant 3, instant 3⟩

/-- Then the photo was replaced. Every second request is checked, and three were counted. -/
def replaced : World MemoryFiles Unit Codec.Sketch.Record :=
  { photo ⟨1, 3⟩ with
    files := ⟨chained.insert "a.jpg" ⟨.text "B", instant 4, instant 4⟩, instant 4⟩ }

theorem outdated_replaced :
    Outdated (photo ⟨1, 3⟩).files.files "jpg" (.single "a_q1_q2.jpg" (by decide)) "a" ["q1", "q2"]
      replaced.files.files ⟨.text "A|q1|q2", instant 3, instant 3⟩
      ⟨.text "B", instant 4, instant 4⟩ := by
  have hrooted : Rooted (photo ⟨1, 3⟩).files.files "jpg" (.single "a_q1_q2.jpg" (by decide)) "a"
      ["q1", "q2"] := ⟨by decide, by decide, by decide, by decide⟩
  have hpristine := (setting ⟨1, 3⟩).pristine
  have hpresent : ∀ name, ((photo ⟨1, 3⟩).files.files.get? name).isSome →
      (chained.get? name).isSome := by
    intro name hname
    simp only [chained, Catalog.get?_insert]
    split
    · rfl
    · split
      · rfl
      · exact hname
  have huniform : ∀ name, (chained.get? name).isSome → extensionOf name = some "jpg" := by
    intro name hname
    simp only [chained, Catalog.get?_insert] at hname
    split at hname
    · next hlonger => subst hlonger; decide
    · split at hname
      · next hshorter => subst hshorter; decide
      · exact hpristine.uniform name hname
  have hpath : pathOf (RequestPath.single "a_q1_q2.jpg" (by decide)).dir "a" "jpg" = "a.jpg" := by
    decide
  have houtdated := Outdated.of_replaced hpristine hrooted (by decide) hpresent huniform
    (by rw [RequestPath.text_single]; rfl) (by decide : instant 3 < instant 4) (.text "B")
  rw [hpath] at houtdated
  exact houtdated

end Sketching

/-- Of the next two requests for the longer derivative the second one is picked. Before it the files
are as they were; after it the shorter derivative is gone, and the longer one is made of the new
photo. -/
theorem renewed_within_interval_photo :
    ∃ body, Codec.Sketch.codec.Yields (.text "B") ["q1", "q2"] "jpg" body ∧
      (Sketching.engine.repeated "a_q1_q2.jpg" (fun _ => Sketching.instant 5)
        Sketching.replaced 1).files.files = Sketching.replaced.files.files ∧
      (Sketching.engine.repeated "a_q1_q2.jpg" (fun _ => Sketching.instant 5)
        Sketching.replaced 2).files.files.get? "a_q1.jpg" = none ∧
      ∃ served, Sketching.engine.reply "a_q1_q2.jpg" (Sketching.instant 5)
          (Sketching.engine.repeated "a_q1_q2.jpg" (fun _ => Sketching.instant 5)
            Sketching.replaced 1) = .ok served ∧ served.body = body := by
  obtain ⟨execution, hexecution⟩ := exists_ok_of_isSome
    (show (((Codec.Sketch.codec.execute (.text "B") (Chain.ofTexts ["q1", "q2"]) "jpg").run.run
      #[]).1).toOption.isSome by decide +kernel)
  have hyields : Codec.Sketch.codec.Yields (.text "B") ["q1", "q2"] "jpg" execution.result :=
    Codec.Sketch.deterministic_codec.yields (Prod.ext hexecution rfl)
  obtain ⟨first, hfirst, hpicks, hearly, hlate, hreplies⟩ :=
    renewed_within_interval (Sketching.setting ⟨1, 3⟩) (RequestPath.ofRequest_single _ _)
      Sketching.outdated_replaced (by decide : Sampler.ofInterval? 2 = some ⟨1, 0⟩) rfl hyields
      (fun _ => Sketching.instant 5)
  have hsecond : first = 1 := by
    have hnot : Sketching.replaced.sampler.next.1 = false := by decide
    have hne : first ≠ 0 := fun hzero => by
      have hpicked : Sketching.replaced.sampler.next.1 = true :=
        (hpicks 0 (by decide)).2 hzero.symm
      rw [hnot] at hpicked
      cases hpicked
    have htwo : first < 2 := hfirst
    omega
  subst hsecond
  have hbetween : Between (.single "a_q1_q2.jpg" (by decide)) "a" ["q1", "q2"] "jpg" "a_q1.jpg" :=
    ⟨["q1"], ["q2"], rfl, by simp, by simp, by decide⟩
  obtain ⟨served, hserved, hbody⟩ := hreplies 1 hfirst
  have hrenewed := hlate 2 (Nat.lt_succ_self 1) (Nat.le_refl 2)
  exact ⟨execution.result, hyields, hearly 1 (Nat.le_refl 1), hrenewed.gone _ hbetween, served,
    hserved, hbody⟩

end Rendition
