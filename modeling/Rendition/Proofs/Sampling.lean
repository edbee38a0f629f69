import Rendition.Proofs.Cadence
import Rendition.Proofs.Freshness

/-!
# Rendition.Proofs.Sampling

What fewer checks cost. A request that is not picked for a check starts from the nearest file there
is, outdated or not, and stamps what it makes of it as new. `fresh_verdicts_sound_iff` says how far
a verdict can be trusted: in every run whose unchecked requests start from fresh files only, and in
every run at all exactly when each request is checked.

The run that shows it for longer intervals is the same for all of them, since a request looks at the
sampler only to learn whether it is picked (`Engine.run_serve_sampler`).
-/

namespace Rendition

open Time EngineM

/-! ### What does not look at the sampler -/

section IgnoresSampler

variable {φ γ κ η α β : Type}

/-- A step that neither looks at the sampler nor changes it. -/
def IgnoresSampler (m : EngineM φ γ κ α) : Prop :=
  ∀ (w : World φ γ κ) (s : Sampler), m.run.run { w with sampler := s }
    = ((m.run.run w).1, { (m.run.run w).2 with sampler := s })

namespace IgnoresSampler

theorem pure (a : α) : IgnoresSampler (Pure.pure a : EngineM φ γ κ α) :=
  fun _ _ => rfl

theorem looking (m : StateM φ α) : IgnoresSampler (EngineM.looking m : EngineM φ γ κ α) :=
  fun _ _ => rfl

theorem filing (m : FilesM φ α) :
    IgnoresSampler (EngineM.filing m : EngineM φ γ κ (Except Error α)) :=
  fun _ _ => rfl

theorem coding (m : CodecM κ α) :
    IgnoresSampler (EngineM.coding m : EngineM φ γ κ (Except Error α)) :=
  fun _ _ => rfl

theorem orFail (outcome : Except Error α) :
    IgnoresSampler (EngineM.orFail outcome : EngineM φ γ κ α) := by
  intro w s
  rw [run_orFail, run_orFail]

theorem bind {m : EngineM φ γ κ α} {k : α → EngineM φ γ κ β} (hm : IgnoresSampler m)
    (hk : ∀ a, IgnoresSampler (k a)) : IgnoresSampler (m >>= k) := by
  intro w s
  rw [run_bind, run_bind, hm w s]
  rcases m.run.run w with ⟨e | a, t⟩
  · rfl
  · exact hk a t s

end IgnoresSampler

namespace Engine

variable (engine : Engine φ γ κ η)

theorem ignoresSampler_resolved (path : RequestPath) : IgnoresSampler (engine.resolved path) :=
  (IgnoresSampler.looking _).bind fun _ => .orFail _

theorem ignoresSampler_refreshed (path : RequestPath) (r : Resolution) :
    IgnoresSampler (engine.refreshed path r) := by
  refine (IgnoresSampler.orFail _).bind fun onDisk =>
    (IgnoresSampler.filing _).bind fun outcome => ?_
  rcases outcome with e | _ | _
  · exact .pure r
  · exact .pure r
  · exact engine.ignoresSampler_resolved path

theorem ignoresSampler_trueSourceModified (file : String) (own : Timestamp) :
    IgnoresSampler (engine.trueSourceModified file own) := by
  unfold trueSourceModified
  cases RequestPath.ofRequest file with
  | error e => exact .pure own
  | ok path => exact (IgnoresSampler.looking _).bind fun _ => .pure _

theorem ignoresSampler_keepOnDisk (path : RequestPath) (chain : Chain) (body : Content) :
    IgnoresSampler (engine.keepOnDisk path chain body) := by
  unfold keepOnDisk
  cases chain.isEmpty with
  | true => exact .pure ()
  | false => exact (IgnoresSampler.filing _).bind fun _ => .pure ()

theorem ignoresSampler_derive (source : String) (chain : Chain) (extension : String) :
    IgnoresSampler (engine.derive source chain extension) :=
  (IgnoresSampler.filing _).bind fun _ => (IgnoresSampler.orFail _).bind fun _ =>
    (IgnoresSampler.coding _).bind fun _ => (IgnoresSampler.orFail _).bind fun _ => .pure _

theorem ignoresSampler_answer (path : RequestPath) (r : Resolution) :
    IgnoresSampler (engine.answer (engine.keepOnDisk path) path r) := by
  cases r with
  | direct file =>
      exact (IgnoresSampler.filing _).bind fun _ => (IgnoresSampler.orFail _).bind fun _ =>
        (engine.ignoresSampler_trueSourceModified _ _).bind fun _ => .pure _
  | derived source chain extension =>
      exact (engine.ignoresSampler_derive _ _ _).bind fun _ =>
        (engine.ignoresSampler_keepOnDisk _ _ _).bind fun _ =>
          (engine.ignoresSampler_trueSourceModified _ _).bind fun _ => .pure _

variable {engine}

/-- A resolved request comes to the same under any sampler that picks it or not alike, and is
counted. -/
theorem run_serve_sampler {lookIn : φ → String → Option FileStat} (hdisk : engine.backend = .disk)
    (hstat : ∀ path, Looks lookIn (engine.files.stat path) fun look => look path) {raw : String}
    {path : RequestPath} (hraw : RequestPath.ofRequest raw = .ok path) {w : World φ γ κ}
    {r : Resolution} (hresolve : resolveIn (lookIn w.files) engine.fallbacks path = .ok r)
    {s : Sampler} (hnext : s.next.1 = w.sampler.next.1) :
    (engine.serve raw).run.run { w with sampler := s }
      = (((engine.serve raw).run.run w).1,
          { ((engine.serve raw).run.run w).2 with sampler := s.next.2 }) := by
  have hserve : ∀ v : World φ γ κ, resolveIn (lookIn v.files) engine.fallbacks path = .ok r →
      (engine.serve raw).run.run v
        = ((if v.sampler.next.1 then engine.refreshed path r else Pure.pure r) >>=
            engine.answer (engine.keepOnDisk path) path).run.run
              { v with sampler := v.sampler.next.2 } := by
    intro v hv
    rw [engine.run_serve hdisk hraw, run_bind, run_settled hstat hv, run_bind]
  have hrest : ∀ b : Bool, IgnoresSampler
      ((if b then engine.refreshed path r else Pure.pure r) >>=
        engine.answer (engine.keepOnDisk path) path) := by
    intro b
    refine IgnoresSampler.bind ?_ fun r' => engine.ignoresSampler_answer path r'
    cases b with
    | true => exact engine.ignoresSampler_refreshed path r
    | false => exact .pure r
  rw [hserve w hresolve, hserve { w with sampler := s } hresolve, hnext,
    hrest _ w w.sampler.next.2, hrest _ w s.next.2]

/-- The same of the world after it. -/
theorem after_sampler {engine : Engine MemoryFiles γ κ η} {originals : Catalog StoredFile}
    {extension : String} (hs : DiskSetting engine originals extension) {raw : String}
    {path : RequestPath} (hraw : RequestPath.ofRequest raw = .ok path) {now : Timestamp}
    {w : World MemoryFiles γ κ} (hresolve : (resolveIn w.files.look engine.fallbacks path).isOk)
    {s : Sampler} (hnext : s.next.1 = w.sampler.next.1) :
    engine.after raw now { w with sampler := s }
      = { engine.after raw now w with sampler := s.next.2 } := by
  cases hr : resolveIn w.files.look engine.fallbacks path with
  | error u => simp [hr, Except.isOk, Except.toBool] at hresolve
  | ok r =>
      have hserve := engine.run_serve_sampler hs.disk hs.looks_stat hraw
        (w := { w with files := w.files.atTime now }) hr hnext
      rw [after, after]
      exact congrArg Prod.snd hserve

end Engine

end IgnoresSampler

/-! ### Which of the first requests are picked -/

/-- Of the first two requests only the first is picked, unless all are. -/
theorem Sampler.picks_of_ofInterval? {interval : UInt64} {s : Sampler}
    (h : Sampler.ofInterval? interval = some s) (hne : interval ≠ 1) :
    s.next.1 = true ∧ s.next.2.next.1 = false := by
  have hcount : s.count = 0 := by
    unfold ofInterval? at h
    split at h
    · rw [← Option.some.inj h]
    · cases h
  have hpicked := picked_iff h rfl (s := s)
  rw [hcount] at hpicked
  constructor
  · rw [← s.counted_zero, hpicked]
    exact Nat.zero_mod _
  · rw [← Bool.not_eq_true, ← s.counted_zero, next_counted, hpicked]
    intro hdvd
    have hone := Nat.dvd_one.1 (Nat.dvd_of_mod_eq_zero hdvd)
    exact hne (UInt64.toNat_inj.1 hone)

/-! ### Verdicts -/

/-- A rooted file that is found fresh is derived, by the tokens of its name, from the content that
its original has. -/
def VerdictsSound {γ κ η : Type} (engine : Engine MemoryFiles γ κ η)
    (originals : Catalog StoredFile) (extension : String) (m : MemoryFiles) : Prop :=
  ∀ (path : RequestPath) (base : String) (tokens : List String) (original file : StoredFile),
    Rooted originals extension path base tokens → tokens ≠ [] →
    m.files.get? (pathOf path.dir base extension) = some original →
    m.files.get? path.text = some file →
    stalenessIn m.look engine.fallbacks path = .fresh →
    DerivedFrom engine.codec extension original.content tokens file.content

/-- Where the files are current, verdicts are sound. -/
theorem Current.verdictsSound {γ κ η : Type} {engine : Engine MemoryFiles γ κ η}
    {originals : Catalog StoredFile} {extension : String} {m : MemoryFiles}
    (hs : DiskSetting engine originals extension)
    (h : Current engine.codec originals extension m.files) :
    VerdictsSound engine originals extension m := by
  intro path base tokens original file hrooted hne horiginal hfile hfresh
  have holder := hrooted.not_older hs.pristine hs.plain h.uniform hne hfresh horiginal hfile
  exact h.derived hrooted hne horiginal hfile holder

/-! ### A run that starts from an outdated file -/

namespace OutdatedBase

open Sketching

/-- A derivative of the photo is requested. -/
def requested (s : Sampler) : World MemoryFiles Unit Codec.Sketch.Record :=
  engine.after "a_q1.jpg" (instant 2) (photo s)

/-- The photo is replaced. -/
def edited (s : Sampler) : World MemoryFiles Unit Codec.Sketch.Record :=
  { requested s with
    files := (requested s).files.insert "a.jpg" ⟨.text "B", instant 3, instant 3⟩ }

/-- A derivative of the derivative is requested. -/
def reused (s : Sampler) : World MemoryFiles Unit Codec.Sketch.Record :=
  engine.after "a_q1_q2.jpg" (instant 4) (edited s)

/-- A check at every second request. -/
abbrev everySecond : Sampler := ⟨1, 0⟩

variable {s : Sampler}

theorem requested_eq (hfirst : s.next.1 = true) :
    requested s = { requested everySecond with sampler := s.next.2 } := by
  have hraw : RequestPath.ofRequest "a_q1.jpg" = .ok (.single "a_q1.jpg" (by decide)) :=
    RequestPath.ofRequest_single _ _
  have hpicked : everySecond.next.1 = true := by decide
  exact Engine.after_sampler (setting s) hraw (w := photo everySecond) (by decide +kernel)
    (hfirst.trans hpicked.symm)

theorem edited_eq (hfirst : s.next.1 = true) :
    edited s = { edited everySecond with sampler := s.next.2 } := by
  unfold edited
  rw [requested_eq hfirst]

theorem reused_eq (hfirst : s.next.1 = true) (hsecond : s.next.2.next.1 = false) :
    reused s = { reused everySecond with sampler := s.next.2.next.2 } := by
  have hraw : RequestPath.ofRequest "a_q1_q2.jpg" = .ok (.single "a_q1_q2.jpg" (by decide)) :=
    RequestPath.ofRequest_single _ _
  have hunpicked : (edited everySecond).sampler.next.1 = false := by decide +kernel
  rw [reused, edited_eq hfirst]
  exact Engine.after_sampler (setting s) hraw (w := edited everySecond) (by decide +kernel)
    (hsecond.trans hunpicked.symm)

theorem requested_files (hfirst : s.next.1 = true) :
    (requested s).files = (requested everySecond).files := by
  rw [requested_eq hfirst]

theorem edited_files (hfirst : s.next.1 = true) :
    (edited s).files = (edited everySecond).files := by
  rw [edited_eq hfirst]

theorem reused_files (hfirst : s.next.1 = true) (hsecond : s.next.2.next.1 = false) :
    (reused s).files = (reused everySecond).files := by
  rw [reused_eq hfirst hsecond]

/-- This is a run under every sampler that picks the first request. -/
theorem run (hfirst : s.next.1 = true) :
    engine.Run (fun _ _ _ => True) "jpg" (photo s) (reused s) := by
  have hraw : RequestPath.ofRequest "a_q1.jpg" = .ok (.single "a_q1.jpg" (by decide)) :=
    RequestPath.ofRequest_single _ _
  have hraw' : RequestPath.ofRequest "a_q1_q2.jpg" = .ok (.single "a_q1_q2.jpg" (by decide)) :=
    RequestPath.ofRequest_single _ _
  have hclock : (photo s).files.StampedBefore (instant 2) := by
    change (photo everySecond).files.StampedBefore (instant 2)
    decide
  have hclock' : (requested s).files.StampedBefore (instant 3) := by
    rw [requested_files hfirst]
    decide +kernel
  have hclock'' : (edited s).files.StampedBefore (instant 4) := by
    rw [edited_files hfirst]
    decide +kernel
  have hphoto : ((photo s).files.files.get? "a.jpg").isSome := by
    change ((photo everySecond).files.files.get? "a.jpg").isSome
    decide
  have hrequested : engine.Run (fun _ _ _ => True) "jpg" (photo s) (requested s) :=
    .step .start (.request hraw (by decide) trivial hclock)
  have hedited : engine.Run (fun _ _ _ => True) "jpg" (photo s) (edited s) :=
    .step hrequested (.edit hphoto hclock')
  exact .step hedited (.request hraw' (by decide) trivial hclock'')

/-- If the second request is not picked, the derivative of the derivative is found fresh in the end,
though it comes of the photo that was replaced. -/
theorem not_verdictsSound (hfirst : s.next.1 = true) (hsecond : s.next.2.next.1 = false) :
    ¬ VerdictsSound engine (photo s).files.files "jpg" (reused s).files := by
  rw [reused_files hfirst hsecond]
  intro hsound
  have hpath : pathOf (RequestPath.single "a_q1_q2.jpg" (by decide)).dir "a" "jpg" = "a.jpg" := by
    decide
  have hrooted : Rooted (photo s).files.files "jpg" (.single "a_q1_q2.jpg" (by decide)) "a"
      ["q1", "q2"] := by
    change Rooted (photo everySecond).files.files "jpg" _ "a" ["q1", "q2"]
    exact ⟨by decide, by decide, by decide, by decide⟩
  have horiginal : ((reused everySecond).files.files.get? "a.jpg").bind
      (·.content.firstByte?) = some 66 := by decide +kernel
  have hfile : ((reused everySecond).files.files.get? "a_q1_q2.jpg").bind
      (·.content.firstByte?) = some 65 := by decide +kernel
  have hfresh : stalenessIn (reused everySecond).files.look engine.fallbacks
      (.single "a_q1_q2.jpg" (by decide)) = .fresh := by decide +kernel
  obtain ⟨original, hgetOriginal, hnew⟩ := Option.bind_eq_some_iff.1 horiginal
  obtain ⟨file, hgetFile, hold⟩ := Option.bind_eq_some_iff.1 hfile
  rw [← hpath] at hgetOriginal
  rw [← RequestPath.text_single "a_q1_q2.jpg" (by decide)] at hgetFile
  have hderived := hsound _ _ _ original file hrooted (by simp) hgetOriginal hgetFile hfresh
  have hfirstByte := Codec.Sketch.firstByte_derivedFrom hderived hnew
  rw [hold] at hfirstByte
  exact absurd hfirstByte (by decide)

end OutdatedBase

/-- With one check in an interval of requests, the verdicts are sound in every run whose requests
check their file or start from a fresh one. They are sound in every run there is exactly when the
interval is one: with a longer one, a request that is not checked can start from an outdated file
and stamp the result as new. -/
theorem fresh_verdicts_sound_iff {interval : UInt64} {sampler : Sampler}
    (hsampler : Sampler.ofInterval? interval = some sampler) :
    (∀ (γ κ η : Type) (engine : Engine MemoryFiles γ κ η) (extension : String)
      (w₀ w : World MemoryFiles γ κ), DiskSetting engine w₀.files.files extension →
      w₀.sampler = sampler → engine.Run engine.Careful extension w₀ w →
      VerdictsSound engine w₀.files.files extension w.files) ∧
    ((∀ (γ κ η : Type) (engine : Engine MemoryFiles γ κ η) (extension : String)
      (w₀ w : World MemoryFiles γ κ), DiskSetting engine w₀.files.files extension →
      w₀.sampler = sampler → engine.Run (fun _ _ _ => True) extension w₀ w →
      VerdictsSound engine w₀.files.files extension w.files) ↔ interval = 1) := by
  have hcareful : ∀ (γ κ η : Type) (engine : Engine MemoryFiles γ κ η) (extension : String)
      (w₀ w : World MemoryFiles γ κ), DiskSetting engine w₀.files.files extension →
      engine.Run engine.Careful extension w₀ w →
      VerdictsSound engine w₀.files.files extension w.files :=
    fun _ _ _ _ _ _ _ hs hrun => (hrun.current hs).verdictsSound hs
  refine ⟨fun γ κ η engine extension w₀ w hs _ hrun => hcareful γ κ η engine extension w₀ w hs hrun,
    fun hsound => ?_, ?_⟩
  · by_cases hone : interval = 1
    · exact hone
    · obtain ⟨hfirst, hsecond⟩ := Sampler.picks_of_ofInterval? hsampler hone
      exact absurd (hsound Unit Codec.Sketch.Record ByteArray Sketching.engine "jpg"
        (Sketching.photo sampler) (OutdatedBase.reused sampler) (Sketching.setting sampler) rfl
        (OutdatedBase.run hfirst)) (OutdatedBase.not_verdictsSound hfirst hsecond)
  · rintro rfl γ κ η engine extension w₀ w hs rfl hrun
    have hmask : w₀.sampler.mask = 0 := by
      rw [← Option.some.inj hsampler]
      decide
    exact hcareful γ κ η engine extension w₀ w hs (hrun.careful hs hmask)

/-- With a check at every second request there are runs with a wrong verdict. -/
theorem fresh_verdicts_unsound_every_second :
    ¬ ∀ (γ κ η : Type) (engine : Engine MemoryFiles γ κ η) (extension : String)
      (w₀ w : World MemoryFiles γ κ), DiskSetting engine w₀.files.files extension →
      w₀.sampler = ⟨1, 0⟩ → engine.Run (fun _ _ _ => True) extension w₀ w →
      VerdictsSound engine w₀.files.files extension w.files := by
  have hsampler : Sampler.ofInterval? 2 = some ⟨1, 0⟩ := by decide
  intro hsound
  exact absurd ((fresh_verdicts_sound_iff hsampler).2.1 hsound) (by decide)

/-- One such run: a derivative of a photo is requested, the photo is replaced, and a derivative of
the derivative is requested without a check. -/
theorem outdated_base_found_fresh :
    Sampler.ofInterval? 2 = some OutdatedBase.everySecond ∧
      DiskSetting Sketching.engine (Sketching.photo OutdatedBase.everySecond).files.files "jpg" ∧
      Sketching.engine.Run (fun _ _ _ => True) "jpg" (Sketching.photo OutdatedBase.everySecond)
        (OutdatedBase.reused OutdatedBase.everySecond) ∧
      ¬ VerdictsSound Sketching.engine (Sketching.photo OutdatedBase.everySecond).files.files "jpg"
        (OutdatedBase.reused OutdatedBase.everySecond).files :=
  ⟨by decide, Sketching.setting _, OutdatedBase.run (by decide),
    OutdatedBase.not_verdictsSound (by decide) (by decide)⟩

end Rendition
