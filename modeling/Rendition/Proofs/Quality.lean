import Rendition.Picture.Codec
import Rendition.Proofs.Derivation
import Rendition.Proofs.Lineage

/-!
# Rendition.Proofs.Quality

The quality of a JPEG. Within one execution the last quality directive counts: each one replaces
what the one before set, and nothing else touches it (`Picture.quality_of_applyTokens`). But a
picture that is decoded again knows nothing of the quality that it was encoded with. So a request
that starts at a shorter derivative is encoded by the directives that it carries out itself, and by
the default if none of them sets a quality: the last quality directive behind the original is
honoured when it is among these (`encoded_quality_iff`).
-/

namespace Rendition

open Time

/-! ### The last quality directive -/

/-- The quality that a directive sets, if it is one that encoders know. -/
def Directive.quality? : Directive → Option UInt32
  | .quality value => if 1 ≤ value ∧ value ≤ 100 then some value else none
  | .resize _ _ | .crop _ _ _ _ => none

/-- The quality that a token sets. -/
def qualityOf? (token : String) : Option UInt32 :=
  (Directive.parse token).directive?.bind Directive.quality?

/-- The last quality that some tokens set. -/
def lastQuality? (tokens : List String) : Option UInt32 :=
  (tokens.filterMap qualityOf?).getLast?

example : lastQuality? ["q10", "r8", "q70", "q0", "qq"] = some 70 := by decide

theorem lastQuality?_append (front back : List String) :
    lastQuality? (front ++ back) = (lastQuality? back).or (lastQuality? front) := by
  rw [lastQuality?, List.filterMap_append, List.getLast?_append]
  rfl

theorem lastQuality?_cons (token : String) (rest : List String) :
    lastQuality? (token :: rest) = (lastQuality? rest).or (qualityOf? token) := by
  rw [← List.singleton_append, lastQuality?_append]
  congr 1
  cases hquality : qualityOf? token <;> simp [lastQuality?, hquality]

theorem le_of_lastQuality? {tokens : List String} {q : UInt32} (h : lastQuality? tokens = some q) :
    q ≤ 100 := by
  obtain ⟨token, -, htoken⟩ := List.mem_filterMap.1 (List.mem_of_getLast? h)
  obtain ⟨directive, -, hdirective⟩ := Option.bind_eq_some_iff.1 htoken
  cases directive with
  | resize | crop => cases hdirective
  | quality value =>
      simp only [Directive.quality?] at hdirective
      split at hdirective
      · next hknown =>
          obtain rfl := Option.some.inj hdirective
          exact hknown.2
      · cases hdirective

namespace Picture

variable {budget : UInt64} {h h' : Handle} {k l : Unit}

/-! ### What one execution comes to -/

theorem call_eq_ok {outcome : Except Refusal Unit × Handle}
    (hrun : (call outcome).run.run k = (.ok h', l)) : outcome = (.ok (), h') := by
  obtain ⟨refusal | done, after⟩ := outcome
  · cases hrun
  · cases hrun
    rfl

/-- Decoding tells nothing of a quality. -/
theorem quality_decode {source : Content} (hdecode : decode budget source = .ok h) :
    h.quality = none := by
  cases source with
  | bytes b =>
      simp only [decode, decodeBytes] at hdecode
      repeat' split at hdecode
      all_goals cases hdecode
      rfl
  | picture e =>
      simp only [decode, decodePicture] at hdecode
      repeat' split at hdecode
      all_goals cases hdecode
      rfl

theorem quality_resize (height width : UInt32) :
    (h.resize height width).2.quality = h.quality := by
  unfold Handle.resize
  split
  · rfl
  · simp only
    split <;> rfl

theorem quality_crop (width height : UInt32) (x y : Int64) :
    (h.crop width height x y).2.quality = h.quality := rfl

/-- A directive sets the quality that it names, or leaves the one that was set. -/
theorem quality_of_apply {directive : Directive}
    (hrun : ((raster budget).apply directive h).run.run k = (.ok h', l)) :
    h'.quality = (directive.quality?.map UInt32.toUInt8).or h.quality := by
  cases directive with
  | resize height width =>
      have hresize : h.resize height width = (.ok (), h') := call_eq_ok hrun
      have hkept := quality_resize (h := h) height width
      rw [hresize] at hkept
      exact hkept
  | crop height width dy dx =>
      have hcrop : h.crop width height dx dy = (.ok (), h') := call_eq_ok hrun
      have hkept := quality_crop (h := h) width height dx dy
      rw [hcrop] at hkept
      exact hkept
  | quality value =>
      have hset : h.setQuality value = (.ok (), h') := call_eq_ok hrun
      simp only [Handle.setQuality] at hset
      split at hset
      · next hknown =>
          cases hset
          simp [Directive.quality?, hknown]
      · cases hset

/-- Some tokens set the last quality among them, or leave the one that was set. -/
theorem quality_of_applyTokens {tokens : List Token} {applied skipped : Nat}
    {result : Handle × Nat × Nat}
    (hrun : ((raster budget).applyTokens tokens applied skipped h).run.run k = (.ok result, l)) :
    result.1.quality
      = ((lastQuality? (tokens.map (·.raw))).map UInt32.toUInt8).or h.quality := by
  induction tokens generalizing applied skipped h k with
  | nil =>
      cases hrun
      rfl
  | cons token rest ih =>
      unfold Codec.applyTokens at hrun
      rw [List.map_cons, lastQuality?_cons, Option.map_or, Option.or_assoc]
      cases hdirective : token.parse.directive? with
      | none =>
          have hquality : qualityOf? token.raw = none :=
            congrArg (·.bind Directive.quality?) hdirective
          rw [hdirective] at hrun
          rw [hquality]
          exact ih hrun
      | some directive =>
          have hquality : qualityOf? token.raw = directive.quality? :=
            congrArg (·.bind Directive.quality?) hdirective
          rw [hdirective] at hrun
          obtain ⟨between, k', happly, hrest⟩ := run_bind_inv hrun
          rw [hquality, ← quality_of_apply happly]
          exact ih hrest

/-- A JPEG is encoded with the quality that was set, or with the default. -/
theorem encode_eq_ok {extension : String} {e : Encoded}
    (hjpeg : Format.ofExtension? extension = some .jpeg) (hencode : h.encode extension = .ok e) :
    e.format = .jpeg ∧ e.quality = (h.quality.getD defaultQuality).toNat := by
  have hformat : h.formatFor extension = .jpeg := by rw [Handle.formatFor, hjpeg]; rfl
  simp only [Handle.encode, hformat] at hencode
  have hfirst : h.encodeFirst .jpeg = .ok e := hencode
  unfold Handle.encodeFirst at hfirst
  split at hfirst
  · cases hfirst
  · split at hfirst
    · cases hfirst
      exact ⟨rfl, rfl⟩
    · cases hfirst

/-- An execution encodes a JPEG with the last quality that its chain sets, or with the default. -/
theorem quality_of_execute {source : Content} {chain : Chain} {extension : String}
    {execution : Execution} (hjpeg : Format.ofExtension? extension = some .jpeg)
    (hrun : ((raster budget).execute source chain extension).run.run k = (.ok execution, l)) :
    ∃ e, execution.result = .picture e ∧ e.format = .jpeg ∧
      e.quality = ((lastQuality? (chain.tokens.map (·.raw))).map UInt32.toNat).getD
        defaultQuality.toNat := by
  obtain ⟨opened, k₁, hdecode, hrest⟩ := run_bind_inv hrun
  obtain ⟨⟨picture, applied, skipped⟩, k₂, htokens, hrest'⟩ := run_bind_inv hrest
  obtain ⟨result, k₃, hencode, hdone⟩ := run_bind_inv hrest'
  cases hdone
  have hopened : opened.quality = none := quality_decode (Prod.mk.inj hdecode).1
  have hquality := quality_of_applyTokens htokens
  rw [hopened, Option.or_none] at hquality
  have hmapped : (picture.encode extension).map Content.picture = .ok result :=
    (Prod.mk.inj hencode).1
  cases hencoded : picture.encode extension with
  | error e =>
      rw [hencoded] at hmapped
      cases hmapped
  | ok e =>
      rw [hencoded] at hmapped
      obtain rfl := Except.ok.inj hmapped
      obtain ⟨hformat, hset⟩ := encode_eq_ok hjpeg hencoded
      refine ⟨e, rfl, hformat, ?_⟩
      rw [hset, hquality]
      cases hlast : lastQuality? (chain.tokens.map (·.raw)) with
      | none => rfl
      | some q =>
          have hle : q.toNat ≤ 100 := UInt32.le_iff_toNat_le.1 (le_of_lastQuality? hlast)
          simp only [Option.map_some, Option.getD_some, UInt32.toNat_toUInt8]
          omega

end Picture

section Encoded

variable {γ : Type} {engine : Engine MemoryFiles γ Unit Picture.Handle} {budget : UInt64}
  {requested : RequestPath → Prop} {sourced : String → Prop} {w₀ w : World MemoryFiles γ Unit}
  {lineage : String → Lineage} {path : RequestPath} {raw : String} {now : Timestamp}

/-- Whatever happened before, a request makes a JPEG. Then it bears the name of an original with all
the tokens behind it that were carried out since, and of these the last one that sets a quality is
honoured if and only if the request itself carries out one that does, or if it sets the default. -/
theorem encoded_quality_iff (hfiles : engine.files = MemoryFiles.fileSystem)
    (hdisk : engine.backend = .disk) (hcodec : engine.codec = Picture.raster budget)
    (hplain : engine.fallbacks.Plain) (h : engine.Chronicle requested sourced w₀ lineage w)
    (hraw : RequestPath.ofRequest raw = .ok path) {source : FoundFile} {chain : Chain}
    {extension : String}
    (hsettled : engine.settledAt path now w = .ok (.derived source chain extension))
    {served : Served} (hserved : engine.reply raw now w = .ok served)
    (hjpeg : Picture.Format.ofExtension? extension = some .jpeg) :
    let whole := (lineage source.path).extend chain
    whole.Names path.text ∧ ∃ e, served.body = .picture e ∧ e.format = .jpeg ∧
      ∀ q, lastQuality? whole.tokens = some q →
        (e.quality = q.toNat ↔
          (lastQuality? (chain.tokens.map (·.raw))).isSome ∨ q = Picture.defaultQuality.toUInt32) := by
  intro whole
  obtain ⟨left, file, execution, hmakes⟩ := Engine.exists_makes hfiles hdisk hraw hsettled hserved
  obtain rfl := Except.ok.inj (hserved.symm.trans hmakes.reply)
  have hsource : (lineage source.path).Names source.path :=
    h.names hfiles hdisk hplain (Option.isSome_of_eq_some hmakes.get?_source)
  obtain ⟨stem, cut, x, hsplit, hcut, hx, hwhole⟩ :=
    exists_cut_of_names hplain hmakes.resolved hsource
  have hexecuted := hmakes.executed
  rw [hcodec] at hexecuted
  obtain ⟨e, hresult, hformat, hquality⟩ := Picture.quality_of_execute hjpeg hexecuted
  refine ⟨?_, e, hresult, hformat, fun q hlast => ?_⟩
  · change ((lineage source.path).extend chain).Names path.text
    rw [hwhole]
    exact .derivative hsplit hcut hx
  · change lastQuality? ((lineage source.path).tokens ++ chain.tokens.map (·.raw)) = _ at hlast
    rw [lastQuality?_append] at hlast
    rw [hquality]
    cases hown : lastQuality? (chain.tokens.map (·.raw)) with
    | some q' =>
        rw [hown] at hlast
        obtain rfl := Option.some.inj hlast
        exact iff_of_true rfl (Or.inl rfl)
    | none =>
        have hdefault : Picture.defaultQuality.toUInt32.toNat = Picture.defaultQuality.toNat :=
          rfl
        simp only [Option.map_none, Option.getD_none, Option.isSome_none, Bool.false_eq_true,
          false_or]
        rw [← hdefault, UInt32.toNat_inj, eq_comm]

end Encoded

namespace Painting

open Sketching (instant)

/-- Pictures in memory. -/
def engine : Engine MemoryFiles Unit Unit Picture.Handle where
  files := MemoryFiles.fileSystem
  codec := Picture.raster Picture.defaultBudget
  fallbacks := .builtIn
  backend := .disk

/-- A png of 16 by 16 pixels. -/
def square : Picture.Encoded where
  format := .png
  color := .rgba
  frames := [⟨.unknown 16 16, 0⟩]

/-- The png, and a check at every request. -/
def photo : World MemoryFiles Unit Unit where
  files := ⟨Catalog.empty.insert "a.png" ⟨.picture square, instant 1, instant 1⟩, instant 1⟩
  cache := ()
  codec := ()
  sampler := ⟨0, 0⟩

/-- A JPEG of low quality was made of it. -/
def requested : World MemoryFiles Unit Unit :=
  engine.after "a_q10.jpg" (instant 2) photo

/-- The quality that an answer was encoded with. -/
def encodedQuality? (served : Served) : Option Nat :=
  match served.body with
  | .picture e => some e.quality
  | .bytes _ => none

theorem chronicle_requested : engine.Chronicle (fun _ => True) (fun _ => True) photo
    (engine.lineagesAfter "a_q10.jpg" (instant 2) photo Lineage.root) requested :=
  Engine.Chronicle.start.request "a_q10.jpg" (instant 2) fun _ _ => trivial

theorem lineage_requested :
    engine.lineagesAfter "a_q10.jpg" (instant 2) photo Lineage.root "a_q10.jpg"
      = ⟨"a.png", ["q10"]⟩ := by
  have hsettled : engine.settledAt (.single "a_q10.jpg" (by decide)) (instant 2) photo
      = .ok (.derived ⟨"a.png", ⟨instant 1, instant 1, none, true⟩⟩ (Chain.ofTexts ["q10"])
          "jpg") :=
    eq_ok_of_toOption (by decide +kernel)
  rw [Engine.lineagesAfter_of_derived (RequestPath.ofRequest_single _ _) hsettled]
  rfl

end Painting

/-- Of the JPEG of low quality another one is made, with a quality of its own. -/
theorem encoded_quality_iff_own :
    ∃ served e, Painting.engine.reply "a_q10_q20.jpg" (Sketching.instant 3) Painting.requested
        = .ok served ∧ served.body = .picture e ∧ e.quality = 20 := by
  have hsettled : Painting.engine.settledAt (.single "a_q10_q20.jpg" (by decide))
      (Sketching.instant 3) Painting.requested
      = .ok (.derived ⟨"a_q10.jpg", ⟨Sketching.instant 2, Sketching.instant 2, none, true⟩⟩
          (Chain.ofTexts ["q20"]) "jpg") :=
    eq_ok_of_toOption (by decide +kernel)
  obtain ⟨served, hserved⟩ := exists_ok_of_isSome
    (show (Painting.engine.reply "a_q10_q20.jpg" (Sketching.instant 3)
      Painting.requested).toOption.isSome by decide +kernel)
  obtain ⟨-, e, hbody, -, hquality⟩ := encoded_quality_iff rfl rfl rfl Fallbacks.plain_builtIn
    Painting.chronicle_requested (RequestPath.ofRequest_single _ _) hsettled hserved (by decide)
  refine ⟨served, e, hserved, hbody, (hquality 20 ?_).2 (Or.inl (by decide))⟩
  rw [Painting.lineage_requested]
  decide

/-- A resize of the JPEG of low quality is encoded with the default. The same request would be
encoded with the low quality if it started at the png. -/
theorem low_quality_lost :
    let path := RequestPath.single "a_q10_r8.jpg" (by decide)
    let fromJpeg := Painting.engine.reply path.text (Sketching.instant 3) Painting.requested
    let fromPng := Painting.engine.reply path.text (Sketching.instant 3) Painting.photo
    lastQuality? ["q10", "r8"] = some 10 ∧
      (Painting.engine.settledAt path (Sketching.instant 3) Painting.requested).toOption.map
        (·.file.path) = some "a_q10.jpg" ∧
      fromJpeg.toOption.map (·.origin) = some .derived ∧
      fromJpeg.toOption.bind Painting.encodedQuality? = some 90 ∧
      fromPng.toOption.map (·.origin) = some .derived ∧
      fromPng.toOption.bind Painting.encodedQuality? = some 10 := by
  intro path fromJpeg fromPng
  exact ⟨by decide, by decide +kernel, by decide +kernel, by decide +kernel, by decide +kernel,
    by decide +kernel⟩

end Rendition
