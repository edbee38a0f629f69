import Mathlib.Algebra.Group.Nat.Defs
import Mathlib.Data.List.Nodup
import Rendition.Sampler

/-!
# Rendition.Proofs.Cadence

How often a sampler picks a request. Its interval is a power of two, so the bits that must be clear
in the count of a request are those of the remainder by the interval (`picked_iff`). The count wraps
at a higher power of two, which the interval divides, so this holds across the wrap, and of as many
requests in a row as the interval has, one is picked, wherever the count starts
(`exists_first_picked`). Of the first requests those at the multiples of the interval are picked,
which makes one for each interval begun (`picks_one_in_interval`).
-/

namespace Rendition.Sampler

/-- The sampler after it has counted some requests. -/
def counted (s : Sampler) (n : Nat) : Sampler :=
  { s with count := s.count + UInt64.ofNat n }

@[simp] theorem counted_zero (s : Sampler) : s.counted 0 = s := by
  simp [counted]

theorem next_counted (s : Sampler) (n : Nat) : (s.counted n).next.2 = s.counted (n + 1) := by
  simp [counted, next, UInt64.ofNat_add, UInt64.add_assoc]

/-- Which of some requests are picked, each by its place behind the first. -/
theorem picks_eq_map (n : Nat) (s : Sampler) :
    picks n s = (List.range n).map fun i => (s.counted i).next.1 := by
  induction n generalizing s with
  | zero => rfl
  | succ n ih =>
      have hlater : ∀ i, s.next.2.counted i = s.counted (i + 1) := by
        intro i
        simp [counted, next, Nat.add_comm i 1, UInt64.ofNat_add, UInt64.add_assoc]
      rw [picks, ih, List.range_succ_eq_map, List.map_cons, List.map_map, counted_zero]
      simp only [hlater, Function.comp_def]

/-! ### Intervals -/

variable {interval : UInt64} {s₀ s : Sampler}

theorem isPowerOfTwo_iff : isPowerOfTwo interval = true ↔ ∃ k ≤ 63, interval.toNat = 2 ^ k := by
  have hsplit : isPowerOfTwo interval = true ↔
      interval.toNat ≠ 0 ∧ (interval &&& (interval - 1)).toNat = 0 := by
    simp only [isPowerOfTwo, Bool.and_eq_true, bne_iff_ne, beq_iff_eq, ne_eq, ← UInt64.toNat_inj]
    rfl
  have hpred : interval.toNat ≠ 0 → (interval - 1).toNat = interval.toNat - 1 := fun hne =>
    UInt64.toNat_sub_of_le _ _ (UInt64.le_iff_toNat_le.2 (Nat.one_le_iff_ne_zero.2 hne))
  rw [hsplit, UInt64.toNat_and]
  constructor
  · rintro ⟨hne, hclear⟩
    rw [hpred hne] at hclear
    obtain ⟨k, hk⟩ := (Nat.and_sub_one_eq_zero_iff_isPowerOfTwo hne).1 hclear
    have hlt : 2 ^ k < 2 ^ 64 := hk ▸ interval.toNat_lt
    exact ⟨k, Nat.le_of_lt_succ ((Nat.pow_lt_pow_iff_right Nat.one_lt_two).1 hlt), hk⟩
  · rintro ⟨k, -, hk⟩
    have hne : interval.toNat ≠ 0 := hk ▸ Nat.ne_of_gt (Nat.two_pow_pos k)
    rw [hpred hne]
    exact ⟨hne, (Nat.and_sub_one_eq_zero_iff_isPowerOfTwo hne).2 ⟨k, hk⟩⟩

theorem ofInterval?_eq_some_iff :
    ofInterval? interval = some s ↔ isPowerOfTwo interval = true ∧ s = ⟨interval - 1, 0⟩ := by
  unfold ofInterval?
  split
  · next hpower => simp [hpower, eq_comm]
  · next hpower => simp [hpower]

theorem ofInterval_eq_ok_iff : ofInterval interval = .ok s ↔ ofInterval? interval = some s := by
  unfold ofInterval
  split <;> simp_all

/-- The interval of a sampler is a power of two, and its mask has the bits below that. -/
theorem exists_pow_of_ofInterval? (h : ofInterval? interval = some s₀) :
    ∃ k, k < 64 ∧ interval.toNat = 2 ^ k ∧ s₀.mask.toNat = 2 ^ k - 1 := by
  obtain ⟨hpower, rfl⟩ := ofInterval?_eq_some_iff.1 h
  obtain ⟨k, hk, hinterval⟩ := isPowerOfTwo_iff.1 hpower
  have hone : (1 : UInt64) ≤ interval := by
    rw [UInt64.le_iff_toNat_le, hinterval]
    exact Nat.two_pow_pos k
  have hpred : (interval - 1).toNat = interval.toNat - 1 := UInt64.toNat_sub_of_le _ _ hone
  exact ⟨k, Nat.lt_succ_of_le hk, hinterval, by rw [hpred, hinterval]⟩

/-- A request is picked if the interval divides its count. -/
theorem picked_iff (h : ofInterval? interval = some s₀) (hmask : s.mask = s₀.mask) (n : Nat) :
    (s.counted n).next.1 = true ↔ (s.count.toNat + n) % interval.toNat = 0 := by
  obtain ⟨k, hk, hinterval, hbits⟩ := exists_pow_of_ofInterval? h
  have hwrap : 2 ^ k ∣ 2 ^ 64 := Nat.pow_dvd_pow 2 (Nat.le_of_lt hk)
  have hcount : (s.count + UInt64.ofNat n).toNat = (s.count.toNat + n) % 2 ^ 64 := by
    rw [UInt64.toNat_add, UInt64.toNat_ofNat', Nat.add_mod_mod]
  simp only [counted, next, beq_iff_eq, hmask]
  rw [← UInt64.toNat_inj, UInt64.toNat_and, hcount, hbits, Nat.and_two_pow_sub_one_eq_mod,
    Nat.mod_mod_of_dvd _ hwrap, hinterval]
  rfl

/-- Of as many requests in a row as the interval has, exactly one is picked. -/
theorem exists_first_picked (h : ofInterval? interval = some s₀) (hmask : s.mask = s₀.mask) :
    ∃ first < interval.toNat, ∀ n < interval.toNat,
      ((s.counted n).next.1 = true ↔ n = first) := by
  obtain ⟨k, -, hinterval, -⟩ := exists_pow_of_ofInterval? h
  have hpos : 0 < interval.toNat := hinterval ▸ Nat.two_pow_pos k
  have hrest := Nat.mod_lt s.count.toNat hpos
  -- What is missing to the next multiple of the interval.
  refine ⟨(interval.toNat - s.count.toNat % interval.toNat) % interval.toNat,
    Nat.mod_lt _ hpos, fun n hn => ?_⟩
  rw [picked_iff h hmask, ← Nat.mod_add_mod]
  generalize s.count.toNat % interval.toNat = rest at hrest
  by_cases hzero : rest = 0
  · subst hzero
    rw [Nat.zero_add, Nat.mod_eq_of_lt hn, Nat.sub_zero, Nat.mod_self]
  · rw [Nat.mod_eq_of_lt (by omega : interval.toNat - rest < interval.toNat)]
    by_cases hlt : rest + n < interval.toNat
    · rw [Nat.mod_eq_of_lt hlt]
      omega
    · rw [Nat.mod_eq_sub_mod (Nat.le_of_not_lt hlt), Nat.mod_eq_of_lt (by omega)]
      omega

/-! ### Counts -/

theorem count_picks_eq (n : Nat) (s : Sampler) :
    (picks n s).count true = (List.range n).countP fun i => (s.counted i).next.1 := by
  rw [picks_eq_map, List.count, List.countP_map]
  exact List.countP_congr fun i _ => by simp

/-- Of as many requests in a row as the interval has, one is picked. -/
theorem count_picks_interval (h : ofInterval? interval = some s₀) (hmask : s.mask = s₀.mask) :
    (picks interval.toNat s).count true = 1 := by
  obtain ⟨first, hfirst, hpicked⟩ := exists_first_picked h hmask
  calc (picks interval.toNat s).count true
      = (List.range interval.toNat).countP fun i => (s.counted i).next.1 := count_picks_eq _ _
    _ = (List.range interval.toNat).count first :=
        List.countP_congr fun i hi => by simpa using hpicked i (List.mem_range.1 hi)
    _ = 1 := List.count_eq_one_of_mem List.nodup_range (List.mem_range.2 hfirst)

/-- From the start those requests are picked whose place is a multiple of the interval. -/
theorem picks_of_start (h : ofInterval? interval = some s₀) (m : Nat) :
    picks m s₀ = (List.range m).map fun i => decide (interval.toNat ∣ i) := by
  have hcount : s₀.count = 0 := by rw [(ofInterval?_eq_some_iff.1 h).2]
  rw [picks_eq_map]
  refine List.map_congr_left fun i _ => ?_
  rw [Bool.eq_iff_iff, picked_iff h rfl, hcount, decide_eq_true_eq, Nat.dvd_iff_mod_eq_zero,
    UInt64.toNat_zero, Nat.zero_add]

/-- Of the numbers below another one, the multiples of `n` are as many as the quotient, rounded
up. -/
theorem countP_dvd_range {n : Nat} (hpos : 0 < n) (m : Nat) :
    (List.range m).countP (fun i => decide (n ∣ i)) = (m + n - 1) / n := by
  induction m with
  | zero => simp [Nat.div_eq_of_lt (Nat.sub_lt hpos Nat.one_pos)]
  | succ m ih =>
      have hnext : m + 1 + n - 1 = m + n - 1 + 1 := by omega
      have hdvd : n ∣ m + n - 1 + 1 ↔ n ∣ m := by
        rw [Nat.sub_add_cancel (by omega), Nat.dvd_add_left (Nat.dvd_refl n)]
      rw [List.range_succ, List.countP_append, ih, hnext, Nat.succ_div]
      simp only [hdvd, List.countP_singleton, decide_eq_true_eq]

/-- An interval makes a sampler if and only if it is a power of two that fits a word. Of as many
requests in a row as such an interval has one is picked, whatever was counted before, also where the
count wraps. From the start the requests at the multiples of the interval are picked, so their
number is that of the intervals begun. -/
theorem picks_one_in_interval (interval : UInt64) :
    ((∃ s, ofInterval interval = .ok s) ↔ ∃ k ≤ 63, interval.toNat = 2 ^ k) ∧
    ∀ s, ofInterval interval = .ok s →
      (∀ count, (picks interval.toNat { s with count }).count true = 1) ∧
      ∀ m, picks m s = (List.range m).map (fun i => decide (interval.toNat ∣ i)) ∧
        (picks m s).count true = (m + interval.toNat - 1) / interval.toNat := by
  simp only [ofInterval_eq_ok_iff]
  constructor
  · rw [← isPowerOfTwo_iff]
    simp [ofInterval?_eq_some_iff]
  · intro s h
    obtain ⟨k, -, hinterval, -⟩ := exists_pow_of_ofInterval? h
    have hpos : 0 < interval.toNat := hinterval ▸ Nat.two_pow_pos k
    refine ⟨fun count => count_picks_interval h rfl, fun m => ⟨picks_of_start h m, ?_⟩⟩
    rw [picks_of_start h m, List.count, List.countP_map, ← countP_dvd_range hpos m]
    exact List.countP_congr fun i _ => by simp

/-- Of four requests in a row one is picked, here of the last two before the count wraps and the
first two behind it. -/
theorem picks_one_in_interval_four :
    ofInterval 4 = .ok ⟨3, 0⟩ ∧ (picks 4 ⟨3, 18446744073709551614⟩).count true = 1 ∧
      picks 5 ⟨3, 0⟩ = [true, false, false, false, true] := by
  obtain ⟨hwindow, hstart⟩ := (picks_one_in_interval 4).2 ⟨3, 0⟩ rfl
  exact ⟨rfl, hwindow 18446744073709551614, (hstart 5).1⟩

end Rendition.Sampler
