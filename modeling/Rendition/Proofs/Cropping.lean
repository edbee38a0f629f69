import Mathlib.Algebra.Ring.Nat
import Mathlib.Data.List.Forall2
import Mathlib.Data.Set.Prod
import Rendition.Picture.Handle

/-!
# Rendition.Proofs.Cropping

What a crop keeps. A region is asked for by words, whose sums stop at the largest word and whose
differences are narrowed. Here it is a set of places, pairs of integers without any bounds, and so
is a canvas. `crop_keeps_intersection` says that a frame is replaced by the part of it at the places
that it has in common with the region, and that the crop is refused at the first frame that has
none.

The two axes do not concern each other. `Extent.Exact` says of one of them what is computed for it:
the places in common, and that no word on the way there lost anything (`Extent.cut?_cases`). `Cuts`
is the loop over the frames, one constructor for each way that it can go on.
-/

namespace Rendition.Picture

open Word

/-! ### Places -/

/-- The integers from `first` on, as many as `length`. -/
def stretch (first : ℤ) (length : UInt32) : Set ℤ :=
  {i | first ≤ i ∧ i < first + length.toNat}

/-- The columns and rows of a canvas. -/
def Canvas.places (c : Canvas) : Set (ℤ × ℤ) :=
  stretch 0 c.width ×ˢ stretch 0 c.height

/-- What a crop asks for: a size, and the column and row where it starts. -/
structure Region where
  width : UInt32
  height : UInt32
  x : Int64
  y : Int64

/-- The columns and rows of a region. -/
def Region.places (r : Region) : Set (ℤ × ℤ) :=
  stretch r.x.toInt r.width ×ˢ stretch r.y.toInt r.height

@[simp] theorem mem_stretch {i first : ℤ} {length : UInt32} :
    i ∈ stretch first length ↔ first ≤ i ∧ i < first + length.toNat := Iff.rfl

/-- A length from an integer on misses a side: it ends before it or starts behind it, or there is no
side. -/
def Misses (first : ℤ) (length whole : UInt32) : Prop :=
  first + length.toNat ≤ 0 ∨ (whole.toNat : ℤ) ≤ first ∨ whole = 0

theorem stretch_inter_eq_empty_iff (first : ℤ) (length whole : UInt32) :
    stretch first length ∩ stretch 0 whole = ∅ ↔ length = 0 ∨ Misses first length whole := by
  rw [Misses, ← UInt32.toNat_inj, ← UInt32.toNat_inj, UInt32.toNat_zero]
  constructor
  · intro hempty
    by_contra hmeets
    have hmem : max first 0 ∈ stretch first length ∩ stretch 0 whole := by
      simp only [Set.mem_inter_iff, mem_stretch]
      omega
    rw [hempty] at hmem
    exact hmem
  · intro hmisses
    refine Set.eq_empty_iff_forall_notMem.2 fun i hi => ?_
    simp only [Set.mem_inter_iff, mem_stretch] at hi
    omega

theorem Region.inter_places (r : Region) (c : Canvas) :
    r.places ∩ c.places
      = (stretch r.x.toInt r.width ∩ stretch 0 c.width) ×ˢ
        (stretch r.y.toInt r.height ∩ stretch 0 c.height) :=
  Set.prod_inter_prod

/-- A region and a canvas have no place in common if the region is empty or misses a side. -/
theorem Region.inter_places_eq_empty_iff (r : Region) (c : Canvas) :
    r.places ∩ c.places = ∅ ↔ r.width = 0 ∨ r.height = 0 ∨
      Misses r.x.toInt r.width c.width ∨ Misses r.y.toInt r.height c.height := by
  rw [r.inter_places, Set.prod_eq_empty_iff, stretch_inter_eq_empty_iff,
    stretch_inter_eq_empty_iff]
  tauto

/-! ### One axis -/

namespace Extent

variable {offset : Int64} {length whole : UInt32}

/-- An extent is what a side has in common with a length from an offset on, and its words are those
that were computed for it, with nothing cut off. -/
structure Exact (offset : Int64) (length whole : UInt32) (e : Extent) : Prop where
  inter_eq : stretch offset.toInt length ∩ stretch 0 whole = stretch e.start.toNat e.length
  pos : 0 < e.length
  within : e.start.toNat + e.length.toNat ≤ whole.toNat
  signed_start : signed e.start = max offset 0
  signed_length :
    signed e.length = min (saturatingAdd offset (signed length)) (signed whole) - max offset 0

/-- The end of an extent is what it would be if words had no bounds: where a sum stops short at the
largest word, the side ends before. -/
theorem toInt_past (offset : Int64) (length whole : UInt32) :
    (min (saturatingAdd offset (signed length)) (signed whole)).toInt
      = min (offset.toInt + length.toNat) whole.toNat := by
  have hmin : Int64.minValue.toInt = -2 ^ 63 := rfl
  have hmax : Int64.maxValue.toInt = 2 ^ 63 - 1 := rfl
  have hle := offset.toInt_lt
  have hge := offset.le_toInt
  have hlength := length.toNat_lt
  have hwhole := whole.toNat_lt
  rw [toInt_min, toInt_saturatingAdd, toInt_signed, toInt_signed]
  omega

/-- Where a side and a length begin to have something in common before that ends, both words fit:
the extent starts and ends on the side. -/
theorem exact_of_lt {first past : Int64} (hfirst : max offset 0 = first)
    (hpast : min (saturatingAdd offset (signed length)) (signed whole) = past)
    (hlt : first.toInt < past.toInt) :
    Exact offset length whole ⟨low first, low (past - first)⟩ := by
  have hfirst' : first.toInt = max offset.toInt 0 := by
    rw [← hfirst]
    exact toInt_max offset 0
  have hpast' : past.toInt = min (offset.toInt + length.toNat) whole.toNat := by
    rw [← hpast]
    exact toInt_past offset length whole
  have hsize : UInt32.size = 2 ^ 32 := rfl
  have hwhole := whole.toNat_lt
  have hlong : (past - first).toInt = past.toInt - first.toInt :=
    Int64.toInt_sub_of_le past first (Int64.le_iff_toInt_le.2 (by simp; omega))
      (Int64.le_iff_toInt_le.2 (by omega))
  have hstart : ((low first).toNat : ℤ) = first.toInt := toNat_low (by omega) (by omega)
  have hlength : ((low (past - first)).toNat : ℤ) = past.toInt - first.toInt := by
    rw [toNat_low (by omega) (by omega), hlong]
  exact
    { inter_eq := by
        ext i
        simp only [Set.mem_inter_iff, mem_stretch]
        omega
      pos := by
        change 0 < low (past - first)
        rw [UInt32.lt_iff_toNat_lt, UInt32.toNat_zero]
        omega
      within := by
        change (low first).toNat + (low (past - first)).toNat ≤ whole.toNat
        omega
      signed_start := by
        rw [← Int64.toInt_inj, toInt_signed, hfirst, hstart]
      signed_length := by
        rw [← Int64.toInt_inj, toInt_signed, hfirst, hpast, hlong, hlength] }

/-- What a side has in common with a length from an offset on, or that it is nothing. -/
theorem cut?_cases (offset : Int64) (length whole : UInt32) :
    (cut? offset length whole = none ∧ stretch offset.toInt length ∩ stretch 0 whole = ∅) ∨
      ∃ e, cut? offset length whole = some e ∧ e.Exact offset length whole := by
  unfold cut?
  generalize hfirst : max offset 0 = first
  generalize hpast : min (saturatingAdd offset (signed length)) (signed whole) = past
  by_cases hle : past ≤ first
  · refine Or.inl ⟨if_pos hle, Set.eq_empty_iff_forall_notMem.2 fun i hi => ?_⟩
    have hzero : (0 : Int64).toInt = 0 := rfl
    rw [Int64.le_iff_toInt_le, ← hfirst, ← hpast, toInt_max, toInt_past, hzero] at hle
    simp only [Set.mem_inter_iff, mem_stretch] at hi
    omega
  · refine Or.inr ⟨_, if_neg hle, exact_of_lt hfirst hpast ?_⟩
    rwa [Int64.le_iff_toInt_le, not_le] at hle

/-- There is one such extent. -/
theorem Exact.unique {e e' : Extent} (h : e.Exact offset length whole)
    (h' : e'.Exact offset length whole) : e = e' := by
  have hstart : e.start = e'.start := signed_injective (h.signed_start.trans h'.signed_start.symm)
  have hlength : e.length = e'.length :=
    signed_injective (h.signed_length.trans h'.signed_length.symm)
  cases e
  cases e'
  exact congrArg₂ Extent.mk hstart hlength

theorem Exact.inter_nonempty {e : Extent} (h : e.Exact offset length whole) :
    (stretch offset.toInt length ∩ stretch 0 whole).Nonempty := by
  have hpos : 0 < e.length.toNat := UInt32.lt_iff_toNat_lt.1 h.pos
  rw [h.inter_eq]
  exact ⟨e.start.toNat, by simp only [mem_stretch]; omega⟩

theorem Exact.length_le {e : Extent} (h : e.Exact offset length whole) :
    e.length.toNat ≤ whole.toNat := by
  have hwithin := h.within
  omega

end Extent

/-! ### One frame -/

namespace Frame

variable {r : Region} {f part : Frame}

/-- A frame is replaced by its part within a region: the rectangle from a corner on that has exactly
the places in common. -/
def IsPart (r : Region) (f part : Frame) : Prop :=
  ∃ columns rows : Extent,
    columns.Exact r.x r.width f.canvas.width ∧ rows.Exact r.y r.height f.canvas.height ∧
      r.places ∩ f.canvas.places
        = stretch columns.start.toNat columns.length ×ˢ stretch rows.start.toNat rows.length ∧
      part = { f with
        canvas := f.canvas.window columns.start rows.start columns.length rows.length }

theorem cut?_cases (r : Region) (f : Frame) :
    (f.cut? r.width r.height r.x r.y = none ∧ r.places ∩ f.canvas.places = ∅) ∨
      ∃ part, f.cut? r.width r.height r.x r.y = some part ∧ f.IsPart r part := by
  simp only [cut?]
  rcases Extent.cut?_cases r.x r.width f.canvas.width with ⟨hnone, hempty⟩ | ⟨columns, hsome, hx⟩
  · refine Or.inl ⟨by rw [hnone]; rfl, ?_⟩
    rw [r.inter_places, hempty, Set.empty_prod]
  · rcases Extent.cut?_cases r.y r.height f.canvas.height with ⟨hnone, hempty⟩ | ⟨rows, hsome', hy⟩
    · refine Or.inl ⟨by rw [hsome, hnone]; rfl, ?_⟩
      rw [r.inter_places, hempty, Set.prod_empty]
    · refine Or.inr ⟨_, by rw [hsome, hsome']; rfl, columns, rows, hx, hy, ?_, rfl⟩
      rw [r.inter_places, hx.inter_eq, hy.inter_eq]

theorem IsPart.inter_nonempty (h : f.IsPart r part) :
    (r.places ∩ f.canvas.places).Nonempty := by
  obtain ⟨columns, rows, hx, hy, -, -⟩ := h
  rw [r.inter_places]
  exact hx.inter_nonempty.prod hy.inter_nonempty

theorem IsPart.area_le (h : f.IsPart r part) : part.canvas.area ≤ f.canvas.area := by
  obtain ⟨columns, rows, hx, hy, -, rfl⟩ := h
  exact Nat.mul_le_mul hx.length_le hy.length_le

end Frame

/-! ### All frames -/

/-- The pixels of some frames. -/
def totalArea (frames : List Frame) : ℕ :=
  (frames.map (·.canvas.area)).sum

/-- Frames are replaced by their parts one after the other, up to the first that has none. -/
inductive Cuts (r : Region) : List Frame → Except Refusal Unit → List Frame → Prop
  /-- All were replaced. -/
  | done : Cuts r [] (.ok ()) []
  /-- This one has no place within the region. -/
  | missed {f : Frame} {rest : List Frame} (hempty : r.places ∩ f.canvas.places = ∅) :
      Cuts r (f :: rest)
        (.error (.outside r.width r.height r.x r.y f.canvas.width f.canvas.height)) (f :: rest)
  /-- This one was replaced, and the others are up next. -/
  | kept {f part : Frame} {rest parts : List Frame} {outcome : Except Refusal Unit}
      (hpart : f.IsPart r part) (hrest : Cuts r rest outcome parts) :
      Cuts r (f :: rest) outcome (part :: parts)

theorem cuts_cutFrames (r : Region) (frames : List Frame) :
    Cuts r frames (cutFrames r.width r.height r.x r.y frames).1
      (cutFrames r.width r.height r.x r.y frames).2 := by
  induction frames with
  | nil => exact .done
  | cons f rest ih =>
      rw [cutFrames]
      rcases f.cut?_cases r with ⟨hnone, hempty⟩ | ⟨part, hsome, hpart⟩
      · rw [hnone]
        exact .missed hempty
      · rw [hsome]
        exact .kept hpart ih

namespace Cuts

variable {r : Region} {frames left : List Frame} {outcome : Except Refusal Unit}

theorem eq_ok_iff (h : Cuts r frames outcome left) :
    outcome = .ok () ↔ ∀ f ∈ frames, (r.places ∩ f.canvas.places).Nonempty := by
  induction h with
  | done => simp
  | missed hempty => simp [hempty]
  | kept hpart hrest ih => simp [ih, hpart.inter_nonempty]

theorem forall₂ (h : Cuts r frames (.ok ()) left) : List.Forall₂ (Frame.IsPart r) frames left := by
  generalize hok : Except.ok () = outcome at h
  induction h with
  | done => exact .nil
  | missed => cases hok
  | kept hpart hrest ih => exact .cons hpart (ih hok)

/-- A refusal names the first frame without a part. The frames before it are replaced. -/
theorem of_error {refusal : Refusal} (h : Cuts r frames (.error refusal) left) :
    ∃ front f rest parts, frames = front ++ f :: rest ∧ left = parts ++ f :: rest ∧
      List.Forall₂ (Frame.IsPart r) front parts ∧ r.places ∩ f.canvas.places = ∅ ∧
      refusal = .outside r.width r.height r.x r.y f.canvas.width f.canvas.height := by
  generalize herror : Except.error refusal = outcome at h
  induction h with
  | done => cases herror
  | @missed f rest hempty => exact ⟨[], f, rest, [], rfl, rfl, .nil, hempty, Except.error.inj herror⟩
  | kept hpart hrest ih =>
      obtain ⟨front, f, rest, parts, rfl, rfl, hparts, hempty, rfl⟩ := ih herror
      exact ⟨_ :: front, f, rest, _ :: parts, rfl, rfl, .cons hpart hparts, hempty, rfl⟩

theorem totalArea_le (h : Cuts r frames outcome left) : totalArea left ≤ totalArea frames := by
  induction h with
  | done | missed => exact le_rfl
  | kept hpart hrest ih =>
      simp only [totalArea, List.map_cons, List.sum_cons] at ih ⊢
      exact Nat.add_le_add hpart.area_le ih

end Cuts

theorem Handle.area_eq (h : Handle) : h.area = totalArea h.frames := by
  rw [area, totalArea, List.sum_eq_foldl, List.foldl_map]

/-- A crop replaces every frame by its part within the region, in integers that have no bounds. It is
refused exactly when a frame has no place within the region, because the region is empty or misses
a side of the frame. Then the first such frame is named, and only the frames before it were
replaced. Nothing but the frames changes, none of them grows, and no sum that stopped at the largest
word makes a difference. -/
theorem crop_keeps_intersection (r : Region) (h : Handle) :
    let outcome := (h.crop r.width r.height r.x r.y).1
    let left := (h.crop r.width r.height r.x r.y).2
    (outcome = .ok () ↔ ∀ f ∈ h.frames, (r.places ∩ f.canvas.places).Nonempty) ∧
    (outcome = .ok () → List.Forall₂ (Frame.IsPart r) h.frames left.frames) ∧
    (∀ refusal, outcome = .error refusal →
      ∃ front f rest parts, h.frames = front ++ f :: rest ∧ left.frames = parts ++ f :: rest ∧
        List.Forall₂ (Frame.IsPart r) front parts ∧ r.places ∩ f.canvas.places = ∅ ∧
        refusal = .outside r.width r.height r.x r.y f.canvas.width f.canvas.height) ∧
    left = { h with frames := left.frames } ∧ left.area ≤ h.area ∧
    ∀ f ∈ h.frames,
      (r.places ∩ f.canvas.places = ∅ ↔ r.width = 0 ∨ r.height = 0 ∨
        Misses r.x.toInt r.width f.canvas.width ∨ Misses r.y.toInt r.height f.canvas.height) ∧
      (min (saturatingAdd r.x (signed r.width)) (signed f.canvas.width)).toInt
        = min (r.x.toInt + r.width.toNat) f.canvas.width.toNat ∧
      (min (saturatingAdd r.y (signed r.height)) (signed f.canvas.height)).toInt
        = min (r.y.toInt + r.height.toNat) f.canvas.height.toNat := by
  intro outcome left
  have hcuts : Cuts r h.frames outcome left.frames := cuts_cutFrames r h.frames
  refine ⟨hcuts.eq_ok_iff, fun hok => ?_, fun refusal herror => ?_, rfl, ?_, fun f _ => ?_⟩
  · rw [hok] at hcuts
    exact hcuts.forall₂
  · rw [herror] at hcuts
    exact hcuts.of_error
  · rw [h.area_eq, left.area_eq]
    exact hcuts.totalArea_le
  · exact ⟨r.inter_places_eq_empty_iff f.canvas, Extent.toInt_past _ _ _, Extent.toInt_past _ _ _⟩

end Rendition.Picture
