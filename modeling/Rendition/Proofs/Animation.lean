import Rendition.Proofs.PixelBudget

/-!
# Rendition.Proofs.Animation

What becomes of the frames of a picture over a run of calls. A crop replaces frames one by one and
can end in between, so that it is the frames that keep a refused crop from leaving a picture half
cropped: as long as all of them have one size, a region that has a place in common with one of them
has the same places in common with all (`Frame.IsPart.same_size`), and a crop is refused at the first
frame or not at all (`Cuts.eq_of_error`).

`Handle.Regular` is this invariant. A call that is carried out keeps it (`Handle.Regular.performs`),
one that is refused changes nothing (`Handle.Regular.eq_of_error`), and `regular_run` says what
follows for any run of calls on a picture whose frames have one size when it is opened, as those that
are read from bytes do (`regular_of_decode`).
-/

namespace Rendition.Picture

variable {budget : UInt64} {source : Content} {h : Handle} {width height : UInt32}

/-! ### Frames of one size -/

/-- Frames have a size, each of them. -/
def HaveSize (frames : List Frame) (width height : UInt32) : Prop :=
  ∀ f ∈ frames, f.canvas.width = width ∧ f.canvas.height = height

/-- A picture has frames, all of one size, which is not empty. -/
structure Handle.Regular (h : Handle) (width height : UInt32) : Prop where
  frames_ne_nil : h.frames ≠ []
  width_pos : 0 < width
  height_pos : 0 < height
  haveSize : HaveSize h.frames width height

namespace Frame.IsPart

variable {r : Region} {f g part other : Frame}

theorem delay_eq (hpart : f.IsPart r part) : part.delay = f.delay := by
  obtain ⟨columns, rows, -, -, -, rfl⟩ := hpart
  rfl

theorem size_pos (hpart : f.IsPart r part) :
    0 < part.canvas.width ∧ 0 < part.canvas.height := by
  obtain ⟨columns, rows, hx, hy, -, rfl⟩ := hpart
  exact ⟨hx.pos, hy.pos⟩

/-- Frames of one size have parts of one size. -/
theorem same_size (hpart : f.IsPart r part) (hother : g.IsPart r other)
    (hwidth : f.canvas.width = g.canvas.width) (hheight : f.canvas.height = g.canvas.height) :
    part.canvas.width = other.canvas.width ∧ part.canvas.height = other.canvas.height := by
  obtain ⟨columns, rows, hx, hy, -, rfl⟩ := hpart
  obtain ⟨columns', rows', hx', hy', -, rfl⟩ := hother
  rw [← hwidth] at hx'
  rw [← hheight] at hy'
  exact ⟨congrArg Extent.length (hx.unique hx'), congrArg Extent.length (hy.unique hy')⟩

end Frame.IsPart

namespace Cuts

variable {r : Region} {frames left : List Frame} {outcome : Except Refusal Unit}

theorem delays_eq (hcuts : Cuts r frames outcome left) :
    left.map (·.delay) = frames.map (·.delay) := by
  induction hcuts with
  | done | missed => rfl
  | kept hpart _ ih => exact congrArg₂ List.cons hpart.delay_eq ih

/-- Among frames of one size a crop is refused at the first frame. -/
theorem eq_of_error {refusal : Refusal} (hcuts : Cuts r frames (.error refusal) left)
    (hsize : HaveSize frames width height) : left = frames := by
  obtain ⟨front, f, rest, parts, rfl, rfl, hparts, hempty, -⟩ := hcuts.of_error
  cases hparts with
  | nil => rfl
  | @cons g part front parts hpart hparts =>
      obtain ⟨hwidth, hheight⟩ := hsize f (by simp)
      obtain ⟨hwidth', hheight'⟩ := hsize g (by simp)
      have hplaces : g.canvas.places = f.canvas.places := by
        rw [Canvas.places, Canvas.places, hwidth, hheight, hwidth', hheight']
      have hmeets := hpart.inter_nonempty
      rw [hplaces, hempty] at hmeets
      exact absurd rfl hmeets.ne_empty

/-- Frames of one size are replaced by frames of one size. -/
theorem exists_size (hcuts : Cuts r frames (.ok ()) left) (hne : frames ≠ [])
    (hsize : HaveSize frames width height) :
    ∃ width' height', 0 < width' ∧ 0 < height' ∧ HaveSize left width' height' := by
  obtain ⟨f, rest, rfl⟩ := List.exists_cons_of_ne_nil hne
  obtain ⟨first, parts, hfirst, -, rfl⟩ := List.forall₂_cons_left_iff.1 hcuts.forall₂
  obtain ⟨hwidth, hheight⟩ := hsize f List.mem_cons_self
  refine ⟨first.canvas.width, first.canvas.height, hfirst.size_pos.1, hfirst.size_pos.2,
    fun part hpart => ?_⟩
  obtain ⟨i, hi, rfl⟩ := List.mem_iff_getElem.1 hpart
  have hi' : i < (f :: rest).length := hcuts.length_eq ▸ hi
  obtain ⟨hwidth', hheight'⟩ := hsize _ (List.getElem_mem hi')
  have hother := hcuts.forall₂.get hi' hi
  exact hother.same_size hfirst (hwidth'.trans hwidth.symm) (hheight'.trans hheight.symm)

end Cuts

/-! ### Opening -/

theorem exists_size_of_readAnimation {bytes : ByteArray} {e : Encoded}
    (hread : readAnimation bytes = .ok e) :
    e.frames ≠ [] ∧ ∃ width height, HaveSize e.frames width height := by
  unfold readAnimation at hread
  split at hread
  · cases hread
  · next screen blocks hscreen =>
      split at hread
      · cases hread
      · cases hread
      · next frames hne hframes =>
          cases hread
          refine ⟨fun hnil => hne (hnil ▸ rfl), UInt32.ofNat screen.width,
            UInt32.ofNat screen.height, ?_⟩
          unfold Gif.frames? at hframes
          simp only at hframes
          split at hframes
          · cases hframes
          · obtain ⟨drawings, -, hsome⟩ := Option.bind_eq_some_iff.1 hframes
            obtain rfl := Option.some.inj hsome
            exact Gif.size_of_mem_framesOn screen _ drawings

theorem exists_size_of_read {format : Format} {bytes : ByteArray} {e : Encoded}
    (hread : read format bytes = .ok e) :
    e.frames ≠ [] ∧ ∃ width height, HaveSize e.frames width height := by
  have hstill : ∀ {format : Format} {picture : Option (Color × Canvas)},
      still format picture = .ok e →
        e.frames ≠ [] ∧ ∃ width height, HaveSize e.frames width height := by
    intro format picture h
    unfold still at h
    split at h
    · cases h
    · next color canvas =>
        cases h
        refine ⟨List.cons_ne_nil _ _, canvas.width, canvas.height, fun f hf => ?_⟩
        obtain rfl := List.mem_singleton.1 hf
        exact ⟨rfl, rfl⟩
  cases format with
  | gif => exact exists_size_of_readAnimation hread
  | pnm | png | jpeg | bmp | qoi | farbfeld => exact hstill hread
  | webp | tiff | tga | dds | ico | hdr | openExr | avif => cases hread

/-- The frames of bytes that were opened have one size: those of an animation all have that of its
screen. -/
theorem regular_of_decode {bytes : ByteArray} (hopen : decode budget (.bytes bytes) = .ok h)
    (hpos : ∀ f ∈ h.frames, 0 < f.canvas.area) : ∃ width height, h.Regular width height := by
  obtain ⟨format, e, hread, rfl, -⟩ := exists_of_decodeBytes hopen
  obtain ⟨hne, width, height, hsize⟩ := exists_size_of_read hread
  obtain ⟨f, rest, hframes⟩ := List.exists_cons_of_ne_nil hne
  have hfirst : f ∈ e.frames := hframes ▸ List.mem_cons_self
  have harea : 0 < width.toNat * height.toNat := by
    have h := hpos f hfirst
    rwa [Canvas.area, (hsize f hfirst).1, (hsize f hfirst).2] at h
  exact ⟨width, height, hne, UInt32.lt_iff_toNat_lt.2 (Nat.pos_of_mul_pos_right harea),
    UInt32.lt_iff_toNat_lt.2 (Nat.pos_of_mul_pos_left harea), hsize⟩

/-! ### One call -/

namespace Handle

variable {call : Directive} {outcome : Except Refusal Unit} {left : Handle}

/-- The delays of the frames. -/
def delays (h : Handle) : List ℕ :=
  h.frames.map (·.delay)

theorem Performs.delays_eq (hcall : h.Performs call outcome left) : left.delays = h.delays := by
  cases hcall with
  | resized =>
      rw [delays, List.map_map]
      rfl
  | cropped hcuts => exact hcuts.delays_eq
  | oversized | set | unknown => rfl

/-- A call that is refused changes nothing. -/
theorem Regular.eq_of_error (hregular : h.Regular width height) {refusal : Refusal}
    (hcall : h.Performs call (.error refusal) left) : left = h := by
  cases hcall with
  | cropped hcuts => rw [hcuts.eq_of_error hregular.haveSize]
  | oversized | unknown => rfl

/-- After a call the frames still have one size, which can be another one. -/
theorem Regular.performs (hregular : h.Regular width height)
    (hcall : h.Performs call outcome left) :
    ∃ width' height', left.Regular width' height' := by
  cases outcome with
  | error refusal =>
      rw [hregular.eq_of_error hcall]
      exact ⟨width, height, hregular⟩
  | ok =>
      have hne : left.frames ≠ [] := by
        rw [← List.length_pos_iff, hcall.length_eq, List.length_pos_iff]
        exact hregular.frames_ne_nil
      cases hcall with
      | @resized height' width' haffords =>
          refine ⟨width', height', hne, haffords.2.1, haffords.1, fun f hf => ?_⟩
          obtain ⟨original, -, rfl⟩ := List.mem_map.1 hf
          exact ⟨rfl, rfl⟩
      | cropped hcuts =>
          obtain ⟨width', height', hwidth, hheight, hsize⟩ :=
            hcuts.exists_size hregular.frames_ne_nil hregular.haveSize
          exact ⟨width', height', hne, hwidth, hheight, hsize⟩
      | set => exact ⟨width, height, hne, hregular.width_pos, hregular.height_pos, hregular.haveSize⟩

/-- The quality that a call sets, if it is carried out. -/
def setBy? : Directive → Except Refusal Unit → Option UInt32
  | .quality value, .ok () => some value
  | _, _ => none

theorem Performs.quality_eq (hcall : h.Performs call outcome left) :
    left.quality.map UInt8.toUInt32 = (setBy? call outcome).or (h.quality.map UInt8.toUInt32) := by
  cases hcall with
  | set hknown =>
      have hle := UInt32.le_iff_toNat_le.1 hknown.2
      refine congrArg some (UInt32.toNat_inj.1 ?_)
      rw [UInt8.toNat_toUInt32, UInt32.toNat_toUInt8]
      exact Nat.mod_eq_of_lt (Nat.lt_of_le_of_lt hle (by decide))
  | resized | oversized | cropped | unknown => rfl

/-- Only a quality that encoders know is ever set. -/
theorem Performs.range_of_setBy? (hcall : h.Performs call outcome left) {value : UInt32}
    (hset : setBy? call outcome = some value) : 1 ≤ value ∧ value ≤ 100 := by
  cases hcall with
  | set hknown =>
      obtain rfl := Option.some.inj hset
      exact hknown
  | resized | oversized | cropped | unknown => cases hset

/-! ### A run of calls -/

/-- The quality that was set last by some calls, one after the other. -/
def lastSet? : Handle → List Directive → Option UInt32
  | _, [] => none
  | h, call :: rest => ((h.perform call).2.lastSet? rest).or (setBy? call (h.perform call).1)

theorem quality_after (h : Handle) (calls : List Directive) :
    (h.after calls).quality.map UInt8.toUInt32
      = (h.lastSet? calls).or (h.quality.map UInt8.toUInt32) := by
  induction calls generalizing h with
  | nil => rfl
  | cons call rest ih =>
      have hrest : h.after (call :: rest) = (h.perform call).2.after rest := rfl
      rw [hrest, ih, (h.performs call).quality_eq, lastSet?, Option.or_assoc]

theorem range_of_lastSet? {calls : List Directive} {value : UInt32}
    (hset : h.lastSet? calls = some value) : 1 ≤ value ∧ value ≤ 100 := by
  induction calls generalizing h with
  | nil => cases hset
  | cons call rest ih =>
      rcases Option.or_eq_some_iff.1 hset with hlater | ⟨-, hfirst⟩
      · exact ih hlater
      · exact (h.performs call).range_of_setBy? hfirst

theorem delays_after (h : Handle) (calls : List Directive) :
    (h.after calls).delays = h.delays := by
  induction calls generalizing h with
  | nil => rfl
  | cons call rest ih => exact (ih (h.perform call).2).trans (h.performs call).delays_eq

theorem Regular.after (hregular : h.Regular width height) (calls : List Directive) :
    ∃ width' height', (h.after calls).Regular width' height' := by
  induction calls generalizing h width height with
  | nil => exact ⟨width, height, hregular⟩
  | cons call rest ih =>
      obtain ⟨width', height', hnext⟩ := hregular.performs (h.performs call)
      exact ih hnext

/-- A picture with frames is not refused for the lack of them. -/
theorem encode_ne_error (hne : h.frames ≠ []) (extension : String) :
    h.encode extension ≠ .error (.codec "image has no frames") := by
  obtain ⟨first, rest, hframes⟩ := List.exists_cons_of_ne_nil hne
  have hreason : ∀ stage, unencodable stage ≠ .codec "image has no frames" := by
    intro stage heq
    have hnone : some "the format cannot hold the picture" = none :=
      congrArg (·.detail.reason) heq
    cases hnone
  unfold encode
  simp only
  split
  · intro herror
    have htext : "cannot encode " ++ (h.formatFor extension).name = "image has no frames" :=
      congrArg (·.detail.text) (Except.error.inj herror)
    revert htext
    cases h.formatFor extension <;> decide
  · split
    · unfold encodeAnimation
      split
      · nofun
      · exact fun herror => hreason _ (Except.error.inj herror)
    · unfold encodeFirst
      rw [hframes]
      simp only
      split
      · nofun
      · exact fun herror => hreason _ (Except.error.inj herror)

end Handle

/-- A picture was opened, and its frames have one size. Then after any calls, carried out or refused,
there are as many frames with the same delays, again of one size; the quality is the last one that a
call set, and one that encoders know; a call that is refused leaves all as it is; and encoding does
not fail for the lack of frames. -/
theorem regular_run (hopen : decode budget source = .ok h) (hregular : h.Regular width height)
    (calls : List Directive) :
    let left := h.after calls
    left.frames.length = h.frames.length ∧ left.delays = h.delays ∧
    (∃ width' height', left.Regular width' height') ∧
    left.quality.map UInt8.toUInt32 = h.lastSet? calls ∧
    (∀ value, h.lastSet? calls = some value → 1 ≤ value ∧ value ≤ 100) ∧
    (∀ call refusal, (left.perform call).1 = .error refusal → (left.perform call).2 = left) ∧
    ∀ extension, left.encode extension ≠ .error (.codec "image has no frames") := by
  intro left
  have hunset : h.quality = none := by
    obtain ⟨e, hhandle, -⟩ := exists_of_decode hopen
    rw [hhandle]
    rfl
  have hdelays : left.delays = h.delays := h.delays_after calls
  obtain ⟨width', height', hleft⟩ := hregular.after calls
  refine ⟨?_, hdelays, ⟨width', height', hleft⟩, ?_, fun _ => Handle.range_of_lastSet?,
    fun call refusal hrefused => ?_, Handle.encode_ne_error hleft.frames_ne_nil⟩
  · simpa [Handle.delays] using congrArg List.length hdelays
  · rw [h.quality_after calls, hunset, Option.map_none, Option.or_none]
  · have hcall := left.performs call
    rw [hrefused] at hcall
    exact hleft.eq_of_error hcall

/-- Of an animation, a crop that misses it and two qualities of which no encoder knows the second. -/
theorem regular_run_flickering :
    ∃ h, decode 16384 (.picture (flickering 64)) = .ok h ∧ h.Regular 64 64 ∧
      let calls := [.crop 8 8 64 0, .quality 70, .resize 5 9, .quality 0]
      let left := h.after calls
      left.delays = [100, 100, 100] ∧ left.quality.map UInt8.toUInt32 = some 70 ∧
        (left.perform (.quality 101)).2 = left := by
  have hopen : decode 16384 (.picture (flickering 64))
      = .ok (handleOn 16384 .gif .rgba (flickering 64).frames) := rfl
  have hregular : (handleOn 16384 .gif .rgba (flickering 64).frames).Regular 64 64 :=
    { frames_ne_nil := List.cons_ne_nil _ _
      width_pos := by decide
      height_pos := by decide
      haveSize := fun f hf => by
        obtain rfl := List.eq_of_mem_replicate hf
        exact ⟨rfl, rfl⟩ }
  obtain ⟨-, hdelays, -, hquality, -, hrefused, -⟩ :=
    regular_run hopen hregular [.crop 8 8 64 0, .quality 70, .resize 5 9, .quality 0]
  exact ⟨_, hopen, hregular, hdelays, hquality.trans (by decide), hrefused _ (.badQuality 101) rfl⟩

end Rendition.Picture
