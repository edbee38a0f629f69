import Rendition.Proofs.Derivation
import Rendition.Proofs.Storing
import Rendition.Proofs.Tracing

/-!
# Rendition.Proofs.Confinement

No request leads out of its directory. Whatever the files, the store and the codec do, every path
that a request hands to a call on files is that of a file in the directory of the request
(`Confined`): the directory, a name without a slash behind it, and nothing in it that a file system
or a later reading could take for anything but names. The store is asked for the path of the request
and nothing else. A text that names no path ends the request before any call (`calls_confined`).
-/

namespace Rendition

open Text Time EngineM

/-! ### Errors of calls -/

section Failing

variable {κ η α β : Type} {E : Error → Prop}

/-- Every error of a call on a codec is of a kind. -/
def ErrorsIn (E : Error → Prop) (m : CodecM κ α) : Prop :=
  ∀ k, Ends E (fun _ => True) (m.run.run k).1

theorem ErrorsIn.pure (a : α) : ErrorsIn E (Pure.pure a : CodecM κ α) :=
  fun _ => trivial

theorem ErrorsIn.bind {m : CodecM κ α} {f : α → CodecM κ β} (hm : ErrorsIn E m)
    (hf : ∀ a, ErrorsIn E (f a)) : ErrorsIn E (m >>= f) := by
  intro k
  have hk := hm k
  rw [run_bind]
  rcases hrun : m.run.run k with ⟨e | a, l⟩
  · rwa [hrun] at hk
  · exact hf a l

/-- Every error of a codec is of a kind. -/
structure Codec.FailsIn (codec : Codec κ η) (E : Error → Prop) : Prop where
  decode : ∀ content, ErrorsIn E (codec.decode content)
  resize : ∀ height width picture, ErrorsIn E (codec.resize height width picture)
  crop : ∀ width height x y picture, ErrorsIn E (codec.crop width height x y picture)
  setQuality : ∀ quality picture, ErrorsIn E (codec.setQuality quality picture)
  encode : ∀ extension picture, ErrorsIn E (codec.encode extension picture)

namespace Codec.FailsIn

variable {codec : Codec κ η} (h : codec.FailsIn E)

include h

theorem applyTokens (tokens : List Token) (applied skipped : Nat) (picture : η) :
    ErrorsIn E (codec.applyTokens tokens applied skipped picture) := by
  induction tokens generalizing applied skipped picture with
  | nil => exact .pure _
  | cons token rest ih =>
      unfold Codec.applyTokens
      cases token.parse.directive? with
      | none => exact ih applied (skipped + 1) picture
      | some directive =>
          refine .bind ?_ fun picture => ih (applied + 1) skipped picture
          cases directive with
          | resize height width => exact h.resize height width picture
          | crop height width dy dx => exact h.crop width height dx dy picture
          | quality value => exact h.setQuality value picture

theorem execute (source : Content) (chain : Chain) (extension : String) :
    ErrorsIn E (codec.execute source chain extension) :=
  .bind (h.decode source) fun picture => .bind (h.applyTokens chain.tokens 0 0 picture)
    fun ⟨picture, _, _⟩ => .bind (h.encode extension picture) fun _ => .pure _

end Codec.FailsIn

end Failing

/-! ### Steps of an engine over traced parts -/

section Steps

variable {φ γ κ α : Type} {P K : String → Prop} {E : Error → Prop}

/-- A world of traced parts. The files were handed names of one kind, and the store of another. -/
structure World.Within (P K : String → Prop) (w' : World (Traced φ) (Traced γ) κ)
    (w : World φ γ κ) : Prop where
  files : w'.files.Within P w.files
  cache : w'.cache.Within K w.cache
  codec : w'.codec = w.codec
  sampler : w'.sampler = w.sampler

/-- A request fails with an error of a kind, or leaves the range of the clock. -/
def HaltsIn (E : Error → Prop) : Halt → Prop
  | .failed e => E e
  | .overflow => True

/-- A step of an engine over traced parts does what the step does. -/
abbrev FollowsStep (P K : String → Prop) (E : Error → Prop) (Q : α → Prop)
    (m' : EngineM (Traced φ) (Traced γ) κ α) (m : EngineM φ γ κ α) : Prop :=
  FollowsExcept (World.Within P K) (HaltsIn E) Q m' m

namespace FollowsExcept

theorem looking {Q : α → Prop} {m' : StateM (Traced φ) α} {m : StateM φ α}
    (h : Follows (Traced.Within P) Q m' m) :
    FollowsStep P K E Q (EngineM.looking m' : EngineM (Traced φ) (Traced γ) κ α)
      (EngineM.looking m) := by
  intro w' w hw
  obtain ⟨hvalue, hfiles, hQ⟩ := h w'.files w.files hw.files
  exact ⟨congrArg Except.ok hvalue, ⟨hfiles, hw.cache, hw.codec, hw.sampler⟩, hQ⟩

theorem filing {F : Error → Prop} {Q : α → Prop} {m' : FilesM (Traced φ) α} {m : FilesM φ α}
    (h : FollowsExcept (Traced.Within P) F Q m' m) :
    FollowsStep P K E (Ends F Q)
      (EngineM.filing m' : EngineM (Traced φ) (Traced γ) κ (Except Error α)) (EngineM.filing m) :=
  looking h

theorem caching {Q : Except Halt α → Prop} {m' : CacheM (Traced γ) α} {m : CacheM γ α}
    (h : Follows (Traced.Within K) Q m'.run m.run) :
    FollowsStep P K E Q
      (EngineM.caching m' : EngineM (Traced φ) (Traced γ) κ (Except Halt α))
      (EngineM.caching m) := by
  intro w' w hw
  obtain ⟨hvalue, hcache, hQ⟩ := h w'.cache w.cache hw.cache
  exact ⟨congrArg Except.ok hvalue, ⟨hw.files, hcache, hw.codec, hw.sampler⟩, hQ⟩

theorem coding {m : CodecM κ α} (hm : ErrorsIn E m) :
    FollowsStep P K E (Ends E fun _ => True)
      (EngineM.coding m : EngineM (Traced φ) (Traced γ) κ (Except Error α)) (EngineM.coding m) := by
  rintro ⟨files', cache', codec', sampler'⟩ w ⟨hfiles, hcache, rfl, hsampler⟩
  exact ⟨rfl, ⟨hfiles, hcache, rfl, hsampler⟩, hm w.codec⟩

theorem picked : FollowsStep P K E (fun _ => True)
    (EngineM.picked : EngineM (Traced φ) (Traced γ) κ Bool) EngineM.picked := by
  rintro ⟨files', cache', codec', sampler'⟩ w ⟨hfiles, hcache, hcodec, rfl⟩
  exact ⟨rfl, ⟨hfiles, hcache, hcodec, rfl⟩, trivial⟩

theorem orFail {Q : α → Prop} {outcome : Except Error α} (h : Ends E Q outcome) :
    FollowsStep P K E Q (EngineM.orFail outcome : EngineM (Traced φ) (Traced γ) κ α)
      (EngineM.orFail outcome) := by
  cases outcome with
  | error e => exact throw h
  | ok a => exact pure h

theorem orIgnore (outcome : Except Halt α) :
    FollowsStep P K E (fun _ => True)
      (EngineM.orIgnore outcome : EngineM (Traced φ) (Traced γ) κ (Option α))
      (EngineM.orIgnore outcome) := by
  rcases outcome with (_ | _) | _
  · exact pure trivial
  · exact throw trivial
  · exact pure trivial

end FollowsExcept

end Steps

/-! ### Requests over traced parts -/

section Requests

variable {φ γ κ η : Type}

/-- The engine over traced parts. -/
def Engine.traced (engine : Engine φ γ κ η) : Engine (Traced φ) (Traced γ) κ η where
  files := engine.files.traced
  codec := engine.codec
  fallbacks := engine.fallbacks
  backend := match engine.backend with
    | .disk => .disk
    | .store cache ttl => .store cache.traced ttl

/-- Every error of the codec and of a read is of a kind, and so are those of missing files. -/
structure Engine.FailsIn (engine : Engine φ γ κ η) (E : Error → Prop) : Prop where
  codec : engine.codec.FailsIn E
  read : ∀ name s, Ends E (fun _ => True) ((engine.files.read name).run.run s).1
  notFound : ∀ detail, E (.notFound detail)

theorem Engine.failsIn_true (engine : Engine φ γ κ η) : engine.FailsIn fun _ => True where
  codec := ⟨fun _ _ => ends_true _, fun _ _ _ _ => ends_true _, fun _ _ _ _ _ _ => ends_true _,
    fun _ _ _ => ends_true _, fun _ _ _ => ends_true _⟩
  read _ _ := ends_true _
  notFound _ := trivial

variable {E : Error → Prop} {engine : Engine φ γ κ η} {path : RequestPath}

theorem follows_stat (files : FileSystem φ) {P : String → Prop} (name : String) (hname : P name) :
    Follows (Traced.Within P) (fun _ => True) (files.traced.stat name) (files.stat name) :=
  .call hname fun _ => trivial

section Path

variable {K : String → Prop}

/-- Finding what a path is answered from. -/
theorem follows_resolved (hplain : engine.fallbacks.Plain) (hfails : engine.FailsIn E) :
    FollowsStep (Beside path.dir) K E (fun r => Beside path.dir r.file.path)
      (engine.traced.resolved path) (engine.resolved path) := by
  refine .bind (.looking (follows_resolve hplain (follows_stat engine.files)))
    fun outcome houtcome => .orFail ?_
  rcases outcome with (_ | _) | r
  · exact hfails.notFound _
  · exact hfails.notFound _
  · exact houtcome

theorem follows_trueSourceModified (hplain : engine.fallbacks.Plain) {file : String}
    (hfile : Beside path.dir file) (own : Timestamp) :
    FollowsStep (Beside path.dir) K E (fun _ => True)
      (engine.traced.trueSourceModified file own) (engine.trueSourceModified file own) := by
  obtain ⟨q, rfl, hdir⟩ := hfile
  unfold Engine.trueSourceModified
  rw [q.ofRequest_text, ← hdir]
  exact .bind (.looking (follows_ancestry hplain (follows_stat engine.files))) fun _ _ =>
    .pure trivial

theorem follows_read (hfails : engine.FailsIn E) {name : String} (hname : Beside path.dir name) :
    FollowsExcept (Traced.Within (Beside path.dir)) E (fun _ => True)
      (engine.traced.files.read name) (engine.files.read name) :=
  Follows.call hname (hfails.read name)

theorem follows_derive (hfails : engine.FailsIn E) {source : String}
    (hsource : Beside path.dir source) (chain : Chain) (extension : String) :
    FollowsStep (Beside path.dir) K E (fun _ => True)
      (engine.traced.derive source chain extension) (engine.derive source chain extension) :=
  .bind (.filing (follows_read hfails hsource)) fun _ hread => .bind (.orFail hread) fun _ _ =>
    .bind (.coding (hfails.codec.execute _ chain extension)) fun _ hexecute =>
      .bind (.orFail hexecute) fun _ _ => .pure trivial

/-- Answering a resolution, with any ways to keep a derivative of which one follows the other. -/
theorem follows_answer (hplain : engine.fallbacks.Plain) (hfails : engine.FailsIn E)
    {keep' : Chain → Content → EngineM (Traced φ) (Traced γ) κ Unit}
    {keep : Chain → Content → EngineM φ γ κ Unit}
    (hkeep : ∀ chain body, FollowsStep (Beside path.dir) K E (fun _ => True) (keep' chain body)
      (keep chain body)) {r : Resolution} (hr : Beside path.dir r.file.path) :
    FollowsStep (Beside path.dir) K E (fun _ => True) (engine.traced.answer keep' path r)
      (engine.answer keep path r) := by
  cases r with
  | direct found =>
      exact .bind (.filing (follows_read hfails hr)) fun _ hread => .bind (.orFail hread)
        fun _ _ => .bind (follows_trueSourceModified hplain hr _) fun _ _ => .pure trivial
  | derived source chain extension =>
      exact .bind (follows_derive hfails hr chain extension) fun body _ =>
        .bind (hkeep chain body) fun _ _ =>
          .bind (follows_trueSourceModified hplain hr _) fun _ _ => .pure trivial

theorem follows_keepOnDisk (path : RequestPath) (chain : Chain) (body : Content) :
    FollowsStep (Beside path.dir) K E (fun _ => True) (engine.traced.keepOnDisk path chain body)
      (engine.keepOnDisk path chain body) := by
  unfold Engine.keepOnDisk
  cases chain.isEmpty with
  | true => exact .pure trivial
  | false =>
      exact .bind (.filing (.call (beside_self path) (engine.files.write path.text body)))
        fun _ _ => .pure trivial

theorem follows_keepInStore {P : String → Prop} (path : RequestPath) (cache : Cache γ)
    (ttl : Duration) (body : Content) : FollowsStep P (· = path.text) E (fun _ => True)
      (Engine.keepInStore cache.traced ttl path body : EngineM (Traced φ) (Traced γ) κ Unit)
      (Engine.keepInStore cache ttl path body) := by
  have hkeep := (FollowsExcept.call (P := (· = path.text)) rfl (cache.set path.text body)).bind
    fun _ _ => .call (P := (· = path.text)) rfl (cache.expire path.text ttl)
  exact .bind (.caching hkeep) fun outcome _ => .bind (.orIgnore outcome) fun _ _ => .pure trivial

theorem follows_removeAll (files : FileSystem φ) {P : String → Prop} {names : List String}
    (hnames : ∀ name ∈ names, P name) :
    FollowsExcept (Traced.Within P) (fun _ => True) (fun _ => True) (removeAll files.traced names)
      (removeAll files names) := by
  induction names with
  | nil => exact .pure trivial
  | cons name rest ih =>
      exact .bind (.call (hnames name List.mem_cons_self) (files.remove name)) fun _ _ =>
        ih fun other hother => hnames other (List.mem_cons_of_mem _ hother)

theorem follows_sweep (hplain : engine.fallbacks.Plain) :
    FollowsExcept (Traced.Within (Beside path.dir)) (fun _ => True) (fun _ => True)
      (sweep engine.traced.files engine.fallbacks path)
      (sweep engine.files engine.fallbacks path) := by
  refine .bind (.lift (follows_staleness hplain (follows_stat engine.files)))
    fun verdict hverdict => ?_
  cases verdict with
  | fresh => exact .pure trivial
  | stale doomed =>
      exact .bind (follows_removeAll engine.files (hverdict doomed rfl)) fun _ _ => .pure trivial

theorem follows_refreshed (hplain : engine.fallbacks.Plain) (hfails : engine.FailsIn E)
    {r : Resolution} (hr : Beside path.dir r.file.path) :
    FollowsStep (Beside path.dir) K E (fun r => Beside path.dir r.file.path)
      (engine.traced.refreshed path r) (engine.refreshed path r) := by
  obtain ⟨q, htext, hdir⟩ := hr
  have hpath : RequestPath.ofRequest r.file.path = .ok q := htext ▸ q.ofRequest_text
  unfold Engine.refreshed
  rw [hpath]
  have hsweep : FollowsExcept (Traced.Within (Beside path.dir)) (fun _ => True) (fun _ => True)
      (sweep engine.traced.files engine.fallbacks q) (sweep engine.files engine.fallbacks q) :=
    hdir ▸ follows_sweep hplain
  refine .bind (.orFail (Q := fun onDisk => onDisk = q) rfl) fun onDisk honDisk => ?_
  subst honDisk
  refine .bind (.filing hsweep) fun outcome _ => ?_
  rcases outcome with e | _ | _
  · exact .pure ⟨onDisk, htext, hdir⟩
  · exact .pure ⟨onDisk, htext, hdir⟩
  · exact follows_resolved hplain hfails

end Path

/-- A request for a path over traced parts does what it does over the parts. -/
theorem follows_serve (hplain : engine.fallbacks.Plain) (hfails : engine.FailsIn E) {raw : String}
    (hraw : RequestPath.ofRequest raw = .ok path) :
    FollowsStep (Beside path.dir) (· = path.text) E (fun _ => True) (engine.traced.serve raw)
      (engine.serve raw) := by
  have hbackend : engine.traced.backend = match engine.backend with
      | .disk => .disk
      | .store cache ttl => .store cache.traced ttl := rfl
  unfold Engine.serve
  rw [hraw, hbackend]
  refine .bind (.orFail (Q := (· = path)) rfl) fun q hq => ?_
  subst hq
  cases engine.backend with
  | disk =>
      refine .bind (follows_resolved hplain hfails) fun r hr => .bind .picked fun picked _ => ?_
      have hanswer : ∀ r, Beside q.dir r.file.path →
          FollowsStep (Beside q.dir) (· = q.text) E (fun _ => True)
            (engine.traced.answer (engine.traced.keepOnDisk q) q r)
            (engine.answer (engine.keepOnDisk q) q r) :=
        fun r hr => follows_answer hplain hfails (follows_keepOnDisk q) hr
      cases picked with
      | false => exact .bind (.pure hr) hanswer
      | true => exact .bind (follows_refreshed hplain hfails hr) hanswer
  | store cache ttl =>
      have hget := FollowsExcept.call (P := (· = q.text)) rfl (cache.get q.text)
      refine .bind (.caching hget) fun outcome _ => .bind (.orIgnore outcome) fun found _ => ?_
      have hmissed : FollowsStep (Beside q.dir) (· = q.text) E (fun _ => True)
          (engine.traced.answered (fun _ body => Engine.keepInStore cache.traced ttl q body) q)
          (engine.answered (fun _ body => Engine.keepInStore cache ttl q body) q) :=
        .bind (follows_resolved hplain hfails) fun r hr => follows_answer hplain hfails
          (fun _ body => follows_keepInStore q cache ttl body) hr
      rcases found with _ | _ | body
      · exact hmissed
      · exact hmissed
      · exact .pure trivial

end Requests

/-! ### Where calls lead -/

/-- The path of a file in a directory, with nothing in it that could lead elsewhere. -/
structure Confined (dir name : String) : Prop where
  inside : ∃ last, last ≠ "" ∧ '/' ∉ last.toList ∧ name = dir ++ last
  no_nul : '\x00' ∉ name.toList
  no_backslash : '\\' ∉ name.toList
  segments : ∀ s ∈ pieces '/' name, s ≠ "" ∧ s ≠ "." ∧ s ≠ ".."
  relative : name.toList.head? ≠ some '/'
  /-- It is read as itself. -/
  normal : ∃ q, RequestPath.ofRequest name = .ok q ∧ q.text = name

theorem Beside.confined {dir name : String} (h : Beside dir name) : Confined dir name := by
  obtain ⟨q, rfl, rfl⟩ := h
  have hpieces : pieces '/' q.text = q.segments :=
    pieces_joined q.ne_nil fun s hs => (q.isSegment s hs).no_slash
  refine ⟨⟨q.fileName, q.isSegment_fileName.ne_empty, q.not_mem_slash_fileName, q.text_eq⟩,
    q.not_mem_nul_text, q.not_mem_backslash_text, fun s hs => ?_, q.head?_text_ne, q,
    q.ofRequest_text, rfl⟩
  have hsegment := q.isSegment s (hpieces ▸ hs)
  exact ⟨hsegment.ne_empty, hsegment.ne_dot, hsegment.ne_dots⟩

section Calls

variable {φ γ κ η : Type}

/-- The world of traced parts in which no call was made. -/
def World.traced (w : World φ γ κ) : World (Traced φ) (Traced γ) κ where
  files := ⟨w.files, []⟩
  cache := ⟨w.cache, []⟩
  codec := w.codec
  sampler := w.sampler

/-- The world of the parts that are traced. -/
def World.untraced (w : World (Traced φ) (Traced γ) κ) : World φ γ κ where
  files := w.files.state
  cache := w.cache.state
  codec := w.codec
  sampler := w.sampler

theorem World.Within.untraced_eq {P K : String → Prop} {w' : World (Traced φ) (Traced γ) κ}
    {w : World φ γ κ} (h : w'.Within P K w) : w'.untraced = w := by
  rw [untraced, h.files.state_eq, h.cache.state_eq, h.codec, h.sampler]

/-- An error that does not say that a path was refused. -/
def OtherThanBadPath (e : Error) : Prop := ∀ detail, e ≠ .badPath detail

/-- Whatever the parts do, a request that names a path hands no path to a call on files but those of
files in the directory of that path, and no key to the store but the path. A request that names none
makes no call. If the codec and reads do not report refused paths of their own, a request is refused
for its path exactly if its text is. Over traced parts it has the same outcome and leaves the parts
in the same states. -/
theorem calls_confined {engine : Engine φ γ κ η} (hplain : engine.fallbacks.Plain) (raw : String)
    (w : World φ γ κ) :
    let run := (engine.serve raw).run.run w
    let traced := (engine.traced.serve raw).run.run w.traced
    (traced.1 = run.1 ∧ traced.2.untraced = run.2) ∧
    (∀ path, RequestPath.ofRequest raw = .ok path →
      (∀ name ∈ traced.2.files.names, Confined path.dir name) ∧
        ∀ key ∈ traced.2.cache.names, key = path.text) ∧
    (∀ e, RequestPath.ofRequest raw = .error e → traced = (.error (.failed e), w.traced)) ∧
    (engine.codec.FailsIn OtherThanBadPath →
      (∀ name s e, ((engine.files.read name).run.run s).1 = .error e → OtherThanBadPath e) →
      ∀ detail, run.1 = .error (.failed (.badPath detail)) ↔
        RequestPath.ofRequest raw = .error (.badPath detail)) := by
  intro run traced
  cases hraw : RequestPath.ofRequest raw with
  | error e =>
      have hrun : run = _ := Engine.run_serve_unnamed hraw w
      have htraced : traced = _ := Engine.run_serve_unnamed hraw w.traced
      rw [hrun, htraced]
      refine ⟨⟨rfl, rfl⟩, by simp, fun e' he => ?_, fun _ _ detail => by simp⟩
      rw [Except.error.inj he]
  | ok path =>
      have hwithin : w.traced.Within (Beside path.dir) (· = path.text) w :=
        ⟨⟨rfl, by simp [World.traced]⟩, ⟨rfl, by simp [World.traced]⟩, rfl, rfl⟩
      obtain ⟨houtcome, hafter, -⟩ :=
        follows_serve hplain engine.failsIn_true hraw w.traced w hwithin
      refine ⟨⟨houtcome, hafter.untraced_eq⟩, fun path' hpath => ?_, by simp,
        fun hcodec hread detail => ?_⟩
      · obtain rfl := Except.ok.inj hpath
        exact ⟨fun name hname => (hafter.files.names name hname).confined, hafter.cache.names⟩
      · have hfails : engine.FailsIn OtherThanBadPath := by
          refine ⟨hcodec, fun name s => ?_, fun _ _ => nofun⟩
          cases hrun : ((engine.files.read name).run.run s).1 with
          | error e => exact hread name s e hrun
          | ok content => trivial
        have hends : Ends (HaltsIn OtherThanBadPath) (fun _ => True) run.1 :=
          (follows_serve hplain hfails hraw w.traced w hwithin).2.2
        refine iff_of_false (fun hbad => ?_) nofun
        rw [hbad] at hends
        exact hends detail rfl

end Calls

/-! ### Requests for a photo -/

namespace Codec.Sketch

theorem errorsIn_call {α : Type} {E : Error → Prop} (c : Call) {outcome : Except Error α}
    (h : Ends E (fun _ => True) outcome) : ErrorsIn E (call c outcome) := by
  intro k
  rwa [run_call]

/-- Sketching reports that it cannot make a picture, and nothing else. -/
theorem failsIn {E : Error → Prop} (hE : ∀ detail, E (.codec detail)) : codec.FailsIn E := by
  have hok : ∀ {α : Type} {a : α}, Ends E (fun _ => True) (.ok a) := trivial
  have herror : ∀ {α : Type} {detail}, Ends (α := α) E (fun _ => True) (.error (.codec detail)) :=
    hE _
  refine ⟨fun content => ?_, fun _ _ _ => errorsIn_call _ ?_, fun _ _ _ _ _ => errorsIn_call _ hok,
    fun _ _ => errorsIn_call _ ?_, fun _ _ => errorsIn_call _ ?_⟩
  · cases content with
    | bytes source =>
        refine errorsIn_call _ ?_
        unfold decodeBytes
        split
        · exact herror
        · split
          · exact herror
          · exact hok
    | picture => exact errorsIn_call _ herror
  · split
    · exact herror
    · exact hok
  · split
    · exact hok
    · exact herror
  · split
    · exact herror
    · exact hok

/-- So it reports no refused paths. -/
theorem failsIn_codec : codec.FailsIn OtherThanBadPath :=
  failsIn fun _ _ => nofun

end Codec.Sketch

open Sketching in
/-- A request for a derivative of the photo looks for the derivative and for its source, reads the
source and writes the derivative. A request for a path outside is refused. -/
theorem calls_confined_photo :
    ((engine.traced.serve "a_q1.jpg").run.run (photo ⟨0, 0⟩).traced).2.files.names
        = ["a_q1.jpg", "a.jpg", "a.jpg", "a.jpg", "a_q1.tiff", "a_q1.tga", "a_q1.jpeg",
            "a_q1.bmp", "a_q1.gif", "a_q1.png", "a_q1.jpg", "a_q1.jpg"] ∧
      (∀ name ∈ ((engine.traced.serve "a_q1.jpg").run.run (photo ⟨0, 0⟩).traced).2.files.names,
        Confined "" name) ∧
      ∃ detail, ((engine.serve "../a.jpg").run.run (photo ⟨0, 0⟩)).1
        = .error (.failed (.badPath detail)) := by
  have hplain : engine.fallbacks.Plain := Fallbacks.plain_builtIn
  have hread : ∀ name s e, ((engine.files.read name).run.run s).1 = .error e →
      OtherThanBadPath e := by
    intro name s e hrun
    change ((MemoryFiles.read name).run.run s).1 = _ at hrun
    rw [MemoryFiles.run_read] at hrun
    split at hrun
    · cases hrun
    · rw [← Except.error.inj hrun]
      exact nofun
  obtain ⟨-, hconfined, -, -⟩ := calls_confined hplain "a_q1.jpg" (photo ⟨0, 0⟩)
  obtain ⟨-, -, -, hrefused⟩ := calls_confined hplain "../a.jpg" (photo ⟨0, 0⟩)
  exact ⟨by decide +kernel, (hconfined _ (RequestPath.ofRequest_single _ (by decide))).1,
    ⟨_, (hrefused Codec.Sketch.failsIn_codec hread _).2 rfl⟩⟩

end Rendition
