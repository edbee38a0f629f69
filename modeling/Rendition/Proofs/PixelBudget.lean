import Mathlib.Order.MinMax
import Rendition.Picture.Codec
import Rendition.Proofs.Cropping
import Rendition.Proofs.Files

/-!
# Rendition.Proofs.PixelBudget

How many pixels a picture under transformation can have. The product that a resize compares with the
budget stops at the largest word, so the comparison is that of the exact product unless the budget
is the largest word itself, which nothing exceeds (`resize_succeeds_iff`).

Opening a picture compares bytes: as many as the widest pixels of the budget take, and never fewer
than `leastMemory`, for the first frame alone. So a picture that was opened can have more pixels than
its budget. Of the calls that follow only a resize can add pixels, and none beyond the budget. Hence
a picture stays within its budget whatever calls follow if and only if it was opened within it
(`stays_within_budget_iff`).

A resize that passes the budget has no answer where a frame of that size takes more memory than one
piece can have (`Handle.answerResize_eq_none_iff`). With an ordinary picture and budget there is
memory for what any calls leave (`Handle.hasRoom_after`), and every resize is answered.
-/

namespace Rendition.Picture

open Word

variable {budget : UInt64} {source : Content} {h : Handle}

/-! ### Resizing -/

/-- The pixels that the frames of a picture have together at a size. -/
def Handle.areaAt (h : Handle) (width height : UInt32) : ℕ :=
  width.toNat * height.toNat * h.frames.length

/-- A size that a resize takes: it is not empty, and at it the frames do not have more pixels than
the budget, or the budget is the largest word. -/
def Handle.Affords (h : Handle) (width height : UInt32) : Prop :=
  0 < height ∧ 0 < width ∧
    (h.areaAt width height ≤ h.budget.toNat ∨ h.budget.toNat = UInt64.size - 1)

theorem toNat_mul_toNat_le (width height : UInt32) :
    width.toNat * height.toNat ≤ (2 ^ 32 - 1) * (2 ^ 32 - 1) := by
  have hwidth := width.toNat_lt
  have hheight := height.toNat_lt
  exact Nat.mul_le_mul (by omega) (by omega)

/-- Stopping at the largest word in both products is stopping there once. -/
theorem toNat_pixels (width height : UInt32) (frames : ℕ) :
    (saturatingMul (saturatingMul width.toUInt64 height.toUInt64) (saturated frames)).toNat
      = min (UInt64.size - 1) (width.toNat * height.toNat * frames) := by
  have hsize : UInt64.size = 2 ^ 64 := rfl
  have hside : width.toNat * height.toNat < UInt64.size := by
    have hle := toNat_mul_toNat_le width height
    omega
  rw [toNat_saturatingMul, toNat_saturatingMul, toNat_saturated, UInt32.toNat_toUInt64,
    UInt32.toNat_toUInt64, min_eq_right (Nat.le_sub_one_of_lt hside)]
  rcases Nat.le_total frames (UInt64.size - 1) with hframes | hframes
  · rw [min_eq_right hframes]
  · rw [min_eq_left hframes]
    rcases Nat.eq_zero_or_pos (width.toNat * height.toNat) with hzero | hpos
    · rw [hzero, Nat.zero_mul, Nat.zero_mul]
    · rw [min_eq_left (Nat.le_mul_of_pos_left _ hpos),
        min_eq_left (hframes.trans (Nat.le_mul_of_pos_left _ hpos))]

/-- The check of the budget is exact below the largest word. -/
theorem not_budget_lt_iff (width height : UInt32) (h : Handle) :
    ¬ h.budget < saturatingMul (saturatingMul width.toUInt64 height.toUInt64)
        (saturated h.frames.length) ↔
      h.areaAt width height ≤ h.budget.toNat ∨ h.budget.toNat = UInt64.size - 1 := by
  have hbudget := h.budget.toNat_lt
  have hsize : UInt64.size = 2 ^ 64 := rfl
  rw [UInt64.lt_iff_toNat_lt, toNat_pixels, Handle.areaAt]
  omega

/-- What a resize does: it resamples all frames, or it changes nothing. -/
theorem resize_cases (height width : UInt32) (h : Handle) :
    (h.Affords width height ∧ h.resize height width
        = (.ok (), { h with frames := h.frames.map (Frame.resized width height) })) ∨
      (¬ h.Affords width height ∧ h.resize height width
        = (.error (if height = 0 ∨ width = 0 then .emptySize width height
            else .overBudget width height h.frames.length h.budget), h)) := by
  unfold Handle.resize Handle.Affords
  rw [← not_budget_lt_iff, UInt32.pos_iff_ne_zero, UInt32.pos_iff_ne_zero]
  by_cases hempty : height = 0 ∨ width = 0
  · refine Or.inr ⟨by tauto, ?_⟩
    rw [if_pos hempty, if_pos hempty]
  · rw [if_neg hempty, if_neg hempty]
    by_cases hover : h.budget < saturatingMul (saturatingMul width.toUInt64 height.toUInt64)
        (saturated h.frames.length)
    · exact Or.inr ⟨by tauto, if_pos hover⟩
    · exact Or.inl ⟨by tauto, if_neg hover⟩

/-- A resize succeeds exactly when the size is not empty and the frames do not have more pixels at it
than the budget, or when the budget is the largest word. Then every frame has the size, and nothing
else changes; otherwise nothing changes at all. -/
theorem resize_succeeds_iff (height width : UInt32) (h : Handle) :
    let outcome := (h.resize height width).1
    let left := (h.resize height width).2
    (outcome = .ok () ↔ 0 < height ∧ 0 < width ∧
      (width.toNat * height.toNat * h.frames.length ≤ h.budget.toNat ∨
        h.budget.toNat = UInt64.size - 1)) ∧
    (outcome = .ok () → (∀ f ∈ left.frames, f.canvas.width = width ∧ f.canvas.height = height) ∧
      left.frames.map (·.delay) = h.frames.map (·.delay) ∧
      left = { h with frames := left.frames }) ∧
    ∀ refusal, outcome = .error refusal → left = h ∧
      refusal = if height = 0 ∨ width = 0 then .emptySize width height
        else .overBudget width height h.frames.length h.budget := by
  intro outcome left
  change (outcome = .ok () ↔ h.Affords width height) ∧ _
  rcases resize_cases height width h with ⟨haffords, hresize⟩ | ⟨hrefused, hresize⟩
  · have houtcome : outcome = .ok () := congrArg Prod.fst hresize
    have hleft : left = { h with frames := h.frames.map (Frame.resized width height) } :=
      congrArg Prod.snd hresize
    rw [houtcome, hleft]
    refine ⟨iff_of_true rfl haffords, fun _ => ⟨fun f hf => ?_, ?_, rfl⟩, fun _ hrefusal => ?_⟩
    · obtain ⟨original, -, rfl⟩ := List.mem_map.1 hf
      exact ⟨rfl, rfl⟩
    · rw [List.map_map]
      rfl
    · cases hrefusal
  · have houtcome : outcome = .error _ := congrArg Prod.fst hresize
    have hleft : left = h := congrArg Prod.snd hresize
    rw [houtcome, hleft]
    refine ⟨iff_of_false nofun hrefused, nofun, fun refusal hrefusal => ⟨rfl, ?_⟩⟩
    exact (Except.error.inj hrefusal).symm

/-- An animation of two frames without pixels. -/
def blinking : ByteArray :=
  ⟨#[0x47, 0x49, 0x46, 0x38, 0x39, 0x61, 0, 0, 0, 0, 0x80, 0, 0, 0, 0, 0, 0xff, 0xff, 0xff,
    0x2c, 0, 0, 0, 0, 1, 0, 1, 0, 0, 2, 2, 0x44, 1, 0,
    0x2c, 0, 0, 0, 0, 1, 0, 1, 0, 0, 2, 2, 0x44, 1, 0, 0x3b]⟩

/-- The largest budget lets a resize pass that has more pixels than it. -/
theorem largest_budget_exceeded :
    ∃ h, decode 18446744073709551615 (.bytes blinking) = .ok h ∧
      (h.resize 4294967295 4294967295).1 = .ok () ∧
      ¬ (4294967295 * 4294967295 * h.frames.length ≤ h.budget.toNat) := by
  have hopens : ((decode 18446744073709551615 (.bytes blinking)).toOption.map fun h =>
      (h.frames.length, h.budget)) = some (2, 18446744073709551615) := by decide +kernel
  obtain ⟨h, hopen, hfields⟩ := Option.map_eq_some_iff.1 hopens
  obtain ⟨hlength, hbudget⟩ := Prod.mk.inj hfields
  have haffords : h.Affords 4294967295 4294967295 :=
    ⟨by decide, by decide, Or.inr (by rw [hbudget]; rfl)⟩
  refine ⟨h, eq_ok_of_toOption hopen, ?_, ?_⟩
  · rcases resize_cases 4294967295 4294967295 h with ⟨-, hresize⟩ | ⟨hrefused, -⟩
    · exact congrArg Prod.fst hresize
    · exact absurd haffords hrefused
  · rw [hlength, hbudget]
    decide

/-! ### Calls one after the other -/

namespace Handle

/-- Carries out a directive. -/
def perform (h : Handle) : Directive → Except Refusal Unit × Handle
  | .resize height width => h.resize height width
  | .crop height width dy dx => h.crop width height dx dy
  | .quality value => h.setQuality value

/-- The picture after some calls, carried out or refused. -/
def after (h : Handle) (calls : List Directive) : Handle :=
  calls.foldl (fun h call => (h.perform call).2) h

/-- What a call can do. A crop is the only one that can change frames though it is refused. -/
inductive Performs (h : Handle) : Directive → Except Refusal Unit → Handle → Prop
  /-- All frames were resampled. -/
  | resized {height width : UInt32} (haffords : h.Affords width height) :
      Performs h (.resize height width) (.ok ())
        { h with frames := h.frames.map (Frame.resized width height) }
  /-- A size that is empty, or beyond the budget. -/
  | oversized {height width : UInt32} {refusal : Refusal} (hrefused : ¬ h.Affords width height) :
      Performs h (.resize height width) (.error refusal) h
  /-- Frames were replaced by their parts, all or up to the first without one. -/
  | cropped {height width : UInt32} {dy dx : Int64} {outcome : Except Refusal Unit}
      {frames : List Frame} (hcuts : Cuts ⟨width, height, dx, dy⟩ h.frames outcome frames) :
      Performs h (.crop height width dy dx) outcome { h with frames }
  /-- The quality was set. -/
  | set {value : UInt32} (hknown : 1 ≤ value ∧ value ≤ 100) :
      Performs h (.quality value) (.ok ()) { h with quality := some value.toUInt8 }
  /-- A quality that no encoder knows. -/
  | unknown {value : UInt32} {refusal : Refusal} (hunknown : ¬ (1 ≤ value ∧ value ≤ 100)) :
      Performs h (.quality value) (.error refusal) h

theorem performs (h : Handle) (call : Directive) :
    h.Performs call (h.perform call).1 (h.perform call).2 := by
  cases call with
  | resize height width =>
      rcases resize_cases height width h with ⟨haffords, hresize⟩ | ⟨hrefused, hresize⟩
      · rw [perform, hresize]
        exact .resized haffords
      · rw [perform, hresize]
        exact .oversized hrefused
  | crop height width dy dx => exact .cropped (cuts_cutFrames ⟨width, height, dx, dy⟩ h.frames)
  | quality value =>
      by_cases hknown : 1 ≤ value ∧ value ≤ 100
      · rw [perform, setQuality, if_pos hknown]
        exact .set hknown
      · rw [perform, setQuality, if_neg hknown]
        exact .unknown hknown

end Handle

/-- This is what the codec does with a directive, except that it drops the picture of a call that was
refused. -/
theorem apply_raster (directive : Directive) :
    (raster budget).apply directive h = call (h.perform directive) := by
  cases directive <;> rfl

theorem totalArea_resized (width height : UInt32) (frames : List Frame) :
    totalArea (frames.map (Frame.resized width height))
      = width.toNat * height.toNat * frames.length := by
  induction frames with
  | nil => rfl
  | cons f rest ih =>
      have hfirst : (f.resized width height).canvas.area = width.toNat * height.toNat := rfl
      simp only [totalArea, List.map_cons, List.sum_cons, List.length_cons] at ih ⊢
      rw [ih, hfirst, Nat.mul_add_one, Nat.add_comm]

theorem Cuts.length_eq {r : Region} {frames left : List Frame} {outcome : Except Refusal Unit}
    (hcuts : Cuts r frames outcome left) : left.length = frames.length := by
  induction hcuts with
  | done | missed => rfl
  | kept _ _ ih => exact congrArg (· + 1) ih

namespace Handle

variable {call : Directive} {outcome : Except Refusal Unit} {left : Handle}

/-- The budget is no bound for the frames. -/
def Boundless (h : Handle) : Prop :=
  h.budget.toNat = UInt64.size - 1 ∧ 1 < h.frames.length

theorem Performs.length_eq (hcall : h.Performs call outcome left) :
    left.frames.length = h.frames.length := by
  cases hcall with
  | resized => exact List.length_map _
  | cropped hcuts => exact hcuts.length_eq
  | oversized | set | unknown => rfl

theorem Performs.budget_eq (hcall : h.Performs call outcome left) : left.budget = h.budget := by
  cases hcall <;> rfl

/-- A size that is taken is within the budget, also for one frame with the largest one. -/
theorem Affords.areaAt_le {height width : UInt32} (haffords : h.Affords width height)
    (hbound : ¬ h.Boundless) : h.areaAt width height ≤ h.budget.toNat := by
  rcases haffords.2.2 with hle | hlargest
  · exact hle
  · have hlength : h.frames.length ≤ 1 := by
      by_contra hmore
      exact hbound ⟨hlargest, by omega⟩
    have hsize : UInt64.size = 2 ^ 64 := rfl
    have harea := Nat.mul_le_mul (toNat_mul_toNat_le width height) hlength
    rw [areaAt]
    omega

/-- No call adds pixels beyond the budget. -/
theorem Performs.area_le (hcall : h.Performs call outcome left) (hbound : ¬ h.Boundless) :
    left.area ≤ max h.area h.budget.toNat := by
  cases hcall with
  | resized haffords =>
      rw [area_eq, totalArea_resized]
      exact le_max_of_le_right (haffords.areaAt_le hbound)
  | cropped hcuts =>
      rw [area_eq, h.area_eq]
      exact le_max_of_le_left hcuts.totalArea_le
  | oversized | set | unknown => exact le_max_left _ _

theorem area_after_le (hbound : ¬ h.Boundless) (calls : List Directive) :
    (h.after calls).area ≤ max h.area h.budget.toNat := by
  induction calls generalizing h with
  | nil => exact le_max_left _ _
  | cons call rest ih =>
      have hcall := h.performs call
      have hbound' : ¬ (h.perform call).2.Boundless := by
        rw [Boundless, hcall.budget_eq, hcall.length_eq]
        exact hbound
      calc (h.after (call :: rest)).area
          ≤ max (h.perform call).2.area (h.perform call).2.budget.toNat := ih hbound'
        _ = max (h.perform call).2.area h.budget.toNat := by rw [hcall.budget_eq]
        _ ≤ max h.area h.budget.toNat := max_le (hcall.area_le hbound) (le_max_right _ _)

theorem hasRoom_of_area_le (hfew : 8 * h.area ≤ largestPiece) : h.hasRoom := by
  refine List.all_eq_true.2 fun f hf => decide_eq_true ?_
  have hbytes : h.color.bytes ≤ 8 := by cases h.color <;> decide
  have harea : f.canvas.area ≤ h.area := by
    obtain ⟨front, rest, hframes⟩ := List.append_of_mem hf
    rw [area_eq, totalArea, hframes, List.map_append, List.sum_append_nat, List.map_cons,
      List.sum_cons]
    omega
  exact (Nat.mul_le_mul hbytes harea).trans hfew

/-- Unless picture or budget are enormous, there is memory for what any calls leave. -/
theorem hasRoom_after (hfew : 8 * max h.area h.budget.toNat ≤ largestPiece)
    (calls : List Directive) : (h.after calls).hasRoom := by
  have hlargest : largestPiece = 0x7fffffffffffffff := rfl
  have hsize : UInt64.size = 2 ^ 64 := rfl
  have hbound : ¬ h.Boundless := fun hboundless => by
    have hbudget := hboundless.1
    omega
  exact hasRoom_of_area_le ((Nat.mul_le_mul_left 8 (area_after_le hbound calls)).trans hfew)

/-- A size at which a frame has more bytes than one piece of memory. -/
def Outgrows (h : Handle) (width height : UInt32) : Prop :=
  h.frames ≠ [] ∧ largestPiece < h.color.bytes * (width.toNat * height.toNat)

theorem hasRoom_resized (width height : UInt32) (h : Handle) :
    ({ h with frames := h.frames.map (Frame.resized width height) } : Handle).hasRoom = true ↔
      ¬ h.Outgrows width height := by
  -- All frames have the same size then, so any one of them decides.
  have hall : ({ h with frames := h.frames.map (Frame.resized width height) } : Handle).hasRoom
        = true ↔
      ∀ f ∈ h.frames, h.color.bytes * (width.toNat * height.toNat) ≤ largestPiece := by
    rw [hasRoom, List.all_map, List.all_eq_true]
    exact forall₂_congr fun f _ => decide_eq_true_iff
  rw [hall, Outgrows, not_and, not_lt]
  constructor
  · intro hroom hne
    obtain ⟨f, hf⟩ := List.exists_mem_of_ne_nil _ hne
    exact hroom f hf
  · exact fun hroom f hf => hroom (List.ne_nil_of_mem hf)

/-- A resize is answered with what it comes to, unless it passes to a size that outgrows the memory.
Then it is not answered, and the picture stays as it was. -/
theorem answerResize_cases (height width : UInt32) (h : Handle) :
    (h.Affords width height ∧ h.Outgrows width height ∧
        h.answerResize height width = (none, h)) ∨
      (¬ (h.Affords width height ∧ h.Outgrows width height) ∧
        h.answerResize height width
          = (some (h.resize height width).1, (h.resize height width).2)) := by
  unfold answerResize
  rcases resize_cases height width h with ⟨haffords, hresize⟩ | ⟨hrefused, hresize⟩
  · rw [hresize]
    by_cases houtgrows : h.Outgrows width height
    · exact Or.inl ⟨haffords, houtgrows,
        if_neg fun hroom => (hasRoom_resized width height h).1 hroom houtgrows⟩
    · exact Or.inr ⟨fun hboth => houtgrows hboth.2,
        if_pos ((hasRoom_resized width height h).2 houtgrows)⟩
  · rw [hresize]
    exact Or.inr ⟨fun hboth => hrefused hboth.1, rfl⟩

/-- No answer is given exactly where the check of the budget lets a size pass that outgrows the
memory. -/
theorem answerResize_eq_none_iff {height width : UInt32} :
    (h.answerResize height width).1 = none ↔ h.Affords width height ∧ h.Outgrows width height := by
  rcases answerResize_cases height width h with ⟨haffords, houtgrows, hanswer⟩ | ⟨hnot, hanswer⟩
  · rw [hanswer]
    exact iff_of_true rfl ⟨haffords, houtgrows⟩
  · rw [hanswer]
    exact iff_of_false nofun hnot

/-- Unless picture or budget are enormous, every resize is answered, whatever calls came before. -/
theorem answerResize_after (hfew : 8 * max h.area h.budget.toNat ≤ largestPiece)
    (calls : List Directive) (height width : UInt32) :
    (h.after calls).answerResize height width
      = (some ((h.after calls).resize height width).1,
          ((h.after calls).resize height width).2) := by
  rcases answerResize_cases height width (h.after calls) with
    ⟨haffords, houtgrows, -⟩ | ⟨-, hanswer⟩
  · -- The resize is one more call, and there is memory for what it leaves.
    have hroom : ((h.after calls).resize height width).2.hasRoom = true := by
      have hrun := hasRoom_after hfew (calls ++ [.resize height width])
      rwa [after, List.foldl_append] at hrun
    rcases resize_cases height width (h.after calls) with ⟨-, hresize⟩ | ⟨hrefused, -⟩
    · rw [hresize] at hroom
      exact absurd houtgrows ((hasRoom_resized width height _).1 hroom)
    · exact absurd haffords hrefused
  · exact hanswer

/-- Where the budget is no bound, the largest size goes beyond it. -/
theorem Boundless.exceeded (hbound : h.Boundless) :
    h.budget.toNat < (h.after [.resize 4294967295 4294967295]).area := by
  rcases resize_cases 4294967295 4294967295 h with ⟨-, hresize⟩ | ⟨hrefused, -⟩
  · have hleft : h.after [.resize 4294967295 4294967295]
        = { h with frames := h.frames.map (Frame.resized 4294967295 4294967295) } :=
      congrArg Prod.snd hresize
    have harea := Nat.mul_le_mul_left (4294967295 * 4294967295) hbound.2
    have hsize : UInt64.size = 2 ^ 64 := rfl
    have hside : (4294967295 : UInt32).toNat = 4294967295 := rfl
    rw [hleft, area_eq, totalArea_resized, hbound.1, hside]
    omega
  · exact absurd ⟨by decide, by decide, Or.inr hbound.1⟩ hrefused

end Handle

/-! ### Opening -/

/-- The bytes for each pixel of the first frame that opening a picture takes: the frames of an
animation are composed on a second canvas. -/
def openingBytes (source : Format) (color : Color) : ℕ :=
  match source with
  | .gif => 2 * Color.rgba.bytes
  | _ => color.bytes

theorem decodedBytes_eq {e : Encoded} {f : Frame} {rest : List Frame} (color : Color)
    (hframes : e.frames = f :: rest) :
    e.decodedBytes color = openingBytes e.format color * f.canvas.area := by
  rw [Encoded.decodedBytes, hframes]
  cases e.format <;> rfl

theorem format_read {format : Format} {bytes : ByteArray} {e : Encoded}
    (hread : read format bytes = .ok e) : e.format = format := by
  have hstill : ∀ {format : Format} {picture : Option (Color × Canvas)},
      still format picture = .ok e → e.format = format := by
    intro format picture h
    unfold still at h
    split at h
    · cases h
    · cases h
      rfl
  cases format with
  | gif =>
      change readAnimation bytes = .ok e at hread
      unfold readAnimation at hread
      repeat' split at hread
      all_goals cases hread
      rfl
  | pnm | png | jpeg | bmp | qoi | farbfeld => exact hstill hread
  | webp | tiff | tga | dds | ico | hdr | openExr | avif => cases hread

/-- Bytes that were opened were read as a picture that takes no more memory than the budget allows. -/
theorem exists_of_decodeBytes {b : ByteArray} (hopen : decodeBytes budget b = .ok h) :
    ∃ format e, read format b = .ok e ∧ h = handleOn budget format e.color e.frames ∧
      e.decodedBytes e.color ≤ memoryLimit budget := by
  unfold decodeBytes at hopen
  split at hopen
  · cases hopen
  · next format hformat =>
      split at hopen
      · cases hopen
      · cases hopen
      · next e hread =>
          split at hopen
          · cases hopen
          · next hfits =>
              cases hopen
              exact ⟨format, e, hread, rfl, not_lt.1 hfits⟩

/-- A picture that was opened has the frames of the source, and opening it took no more memory than
its budget allows. -/
theorem exists_of_decode (hopen : decode budget source = .ok h) :
    ∃ e : Encoded, h = handleOn budget e.format h.color e.frames ∧
      e.decodedBytes h.color ≤ memoryLimit budget := by
  cases source with
  | bytes b =>
      obtain ⟨format, e, hread, rfl, hfits⟩ := exists_of_decodeBytes hopen
      obtain rfl := format_read hread
      exact ⟨e, rfl, hfits⟩
  | picture e =>
      simp only [decode, decodePicture] at hopen
      split at hopen
      · cases hopen
      · split at hopen
        · cases hopen
        · split at hopen
          · cases hopen
          · split at hopen
            · cases hopen
            · next hfits =>
                cases hopen
                exact ⟨e, rfl, not_lt.1 hfits⟩

theorem memoryLimit_le (budget : UInt64) :
    memoryLimit budget ≤ max (8 * budget.toNat) leastMemory := by
  rw [memoryLimit, toNat_saturatingMul, Nat.mul_comm 8]
  exact max_le_max_right _ (min_le_right _ _)

theorem budget_of_decode (hopen : decode budget source = .ok h) : h.budget = budget := by
  obtain ⟨e, hhandle, -⟩ := exists_of_decode hopen
  rw [hhandle]
  rfl

/-- Of what a picture is opened with, only the first frame is compared with the budget, by its
bytes. -/
theorem openingBytes_le (hopen : decode budget source = .ok h) :
    ∀ f ∈ h.frames.head?,
      openingBytes h.source h.color * f.canvas.area ≤ max (8 * budget.toNat) leastMemory := by
  intro f hf
  obtain ⟨e, hhandle, hmemory⟩ := exists_of_decode hopen
  obtain ⟨rest, hframes⟩ := List.head?_eq_some_iff.1 hf
  have hencoded : e.frames = f :: rest := by rw [← hframes, hhandle]; rfl
  have hsource : h.source = e.format := by rw [hhandle]; rfl
  rw [hsource, ← decodedBytes_eq h.color hencoded]
  exact hmemory.trans (memoryLimit_le budget)

/-- That is enough for a picture of one frame whose pixels take eight bytes. -/
theorem area_le_of_wide (hopen : decode budget source = .ok h) (hone : h.frames.length ≤ 1)
    (hwide : 8 ≤ openingBytes h.source h.color) (hlarge : leastMemory ≤ 8 * budget.toNat) :
    h.area ≤ budget.toNat := by
  rw [h.area_eq, totalArea]
  cases hframes : h.frames with
  | nil => exact Nat.zero_le _
  | cons f rest =>
      rw [hframes, List.length_cons] at hone
      obtain rfl : rest = [] := List.length_eq_zero_iff.1 (by omega)
      have hbytes := openingBytes_le hopen f (by rw [hframes]; rfl)
      rw [max_eq_left hlarge] at hbytes
      have hwidest := Nat.mul_le_mul_right f.canvas.area hwide
      simp only [List.map_cons, List.map_nil, List.sum_cons, List.sum_nil]
      omega

/-- Whatever calls follow, a picture that was opened stays within its budget if and only if it was
within it when opened, and has one frame if the budget is the largest word. Of what it was opened
with, only the first frame was compared with the budget, by its bytes: that is enough for a picture
of one frame whose pixels take eight bytes, unless the budget is so small that `leastMemory` counts
in its place. -/
theorem stays_within_budget_iff (hopen : decode budget source = .ok h) :
    ((∀ calls, (h.after calls).area ≤ budget.toNat) ↔
      h.area ≤ budget.toNat ∧ (budget.toNat = UInt64.size - 1 → h.frames.length ≤ 1)) ∧
    ((budget.toNat = UInt64.size - 1 → h.frames.length ≤ 1) →
      ∀ calls, (h.after calls).area ≤ max h.area budget.toNat) ∧
    (∀ f ∈ h.frames.head?,
      openingBytes h.source h.color * f.canvas.area ≤ max (8 * budget.toNat) leastMemory) ∧
    (h.frames.length ≤ 1 → 8 ≤ openingBytes h.source h.color → leastMemory ≤ 8 * budget.toNat →
      h.area ≤ budget.toNat) := by
  have hbudget : h.budget = budget := budget_of_decode hopen
  have hbound : ¬ h.Boundless ↔ (budget.toNat = UInt64.size - 1 → h.frames.length ≤ 1) := by
    rw [Handle.Boundless, hbudget, not_and, not_lt]
  have hrun (hone : budget.toNat = UInt64.size - 1 → h.frames.length ≤ 1) (calls) :
      (h.after calls).area ≤ max h.area budget.toNat := by
    have hle := Handle.area_after_le (hbound.2 hone) calls
    rwa [hbudget] at hle
  refine ⟨⟨fun hstays => ⟨hstays [], ?_⟩, fun ⟨hopened, hone⟩ calls => ?_⟩, hrun,
    openingBytes_le hopen, area_le_of_wide hopen⟩
  · rw [← hbound]
    intro hboundless
    have hover := hboundless.exceeded
    rw [hbudget] at hover
    exact absurd (hstays _) (not_le.2 hover)
  · have hle := hrun hone calls
    rwa [max_eq_right hopened] at hle

/-- An animation of three frames. -/
def flickering (side : UInt32) : Encoded where
  format := .gif
  color := .rgba
  frames := List.replicate 3 ⟨.unknown side side, 100⟩

/-- Three frames of 64 by 64 pixels. -/
theorem stays_within_budget_iff_flickering :
    ∃ h, decode 16384 (.picture (flickering 64)) = .ok h ∧ h.frames.length = 3 ∧
      ∀ calls, (h.after calls).area ≤ 16384 := by
  have hopen : decode 16384 (.picture (flickering 64))
      = .ok (handleOn 16384 .gif .rgba (flickering 64).frames) := rfl
  exact ⟨_, hopen, rfl, (stays_within_budget_iff hopen).1.2 ⟨by decide, by decide⟩⟩

/-- Three frames of 100 by 100 pixels are opened, any two of which are beyond the budget. -/
theorem opened_beyond_budget :
    ∃ h, decode 16384 (.picture (flickering 100)) = .ok h ∧ 16384 < h.area :=
  ⟨handleOn 16384 .gif .rgba (flickering 100).frames, rfl, by decide⟩

end Rendition.Picture
