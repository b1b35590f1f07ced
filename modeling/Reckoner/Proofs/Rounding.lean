import Mathlib.Tactic
import Reckoner.Proofs.Magnitudes

/-!
# Rounding

A fraction is rounded to the closest pattern, which is found from its leading bits. From the
midpoint between the greatest finite magnitude and the next one on, that is no finite pattern any
more, and the fraction is infinite.
-/

namespace Reckoner.Binary64

/-- How many units there are in one. -/
def perOne : ℚ := 2 ^ 1074

lemma perOne_pos : 0 < perOne := by
  unfold perOne
  positivity

/-! ### Whole numbers -/

/-- Rounding goes no further than a half, and less far to an odd number. -/
lemma roundDiv_bounds (a : ℕ) {b : ℕ} (hb : 0 < b) :
    2 * (roundDiv a b * b) ≤ 2 * a + b ∧ 2 * a ≤ 2 * (roundDiv a b * b) + b ∧
      (¬Even (roundDiv a b) →
        2 * (roundDiv a b * b) < 2 * a + b ∧ 2 * a < 2 * (roundDiv a b * b) + b) := by
  have hsplit := Nat.div_add_mod' a b
  have hmod := Nat.mod_lt a hb
  simp only [roundDiv, Nat.even_iff]
  split_ifs with hup
  · simp only [Nat.add_mul, one_mul]
    generalize a / b * b = whole at *
    omega
  · generalize a / b * b = whole at *
    omega

/-- The same for the quotient. -/
lemma roundDiv_near (a : ℕ) {b : ℕ} (hb : 0 < b) :
    (2 * roundDiv a b - 1 : ℚ) ≤ 2 * (a / b) ∧ (2 * (a / b) : ℚ) ≤ 2 * roundDiv a b + 1 ∧
      (¬Even (roundDiv a b) →
        (2 * roundDiv a b - 1 : ℚ) < 2 * (a / b) ∧ (2 * (a / b) : ℚ) < 2 * roundDiv a b + 1) := by
  have hb' : (0 : ℚ) < b := Nat.cast_pos.mpr hb
  obtain ⟨hlower, hupper, hodd⟩ := roundDiv_bounds a hb
  generalize roundDiv a b = m at *
  rw [← mul_div_assoc, le_div_iff₀ hb', div_le_iff₀ hb', lt_div_iff₀ hb', div_lt_iff₀ hb']
  have hlower' : (2 * (m * b) : ℚ) ≤ 2 * a + b := by exact_mod_cast hlower
  have hupper' : (2 * a : ℚ) ≤ 2 * (m * b) + b := by exact_mod_cast hupper
  refine ⟨by linarith, by linarith, fun hm => ?_⟩
  obtain ⟨hlower, hupper⟩ := hodd hm
  have hlower' : (2 * (m * b) : ℚ) < 2 * a + b := by exact_mod_cast hlower
  have hupper' : (2 * a : ℚ) < 2 * (m * b) + b := by exact_mod_cast hupper
  exact ⟨by linarith, by linarith⟩

lemma le_of_near_of_lt {m n : ℕ} {x : ℚ} (h : 2 * m - 1 ≤ 2 * x) (hx : x < n) : m ≤ n := by
  have hlt : (m : ℚ) < (n + 1 : ℕ) := by
    push_cast
    linarith
  exact Nat.le_of_lt_succ (Nat.cast_lt.mp hlt)

lemma le_of_le_of_near {m n : ℕ} {x : ℚ} (h : 2 * x ≤ 2 * m + 1) (hx : n ≤ x) : n ≤ m := by
  have hlt : (n : ℚ) < (m + 1 : ℕ) := by
    push_cast
    linarith
  exact Nat.le_of_lt_succ (Nat.cast_lt.mp hlt)

/-! ### Fractions -/

lemma cast_shiftLeft (a s : ℕ) : ((a <<< s : ℕ) : ℚ) = a * 2 ^ s := by
  rw [Nat.shiftLeft_eq, Nat.cast_mul, Nat.cast_pow, Nat.cast_ofNat]

/-- The shift leaves 53 bits above the point, and none is missing unless the shift is zero. -/
lemma shifted_bounds (n : ℕ) {den : ℕ} (hden : 0 < den) :
    let s := (n / den).log2 - 52
    ((n / den : ℚ) < 2 ^ 53 * 2 ^ s) ∧ (0 < s → (2 ^ 52 * 2 ^ s : ℚ) ≤ n / den) := by
  intro s
  have hden' : (0 : ℚ) < den := Nat.cast_pos.mpr hden
  rw [div_lt_iff₀ hden', le_div_iff₀ hden']
  constructor
  · have hlog : n / den < 2 ^ ((n / den).log2 + 1) := Nat.lt_log2_self
    have hpow : 2 ^ ((n / den).log2 + 1) ≤ 2 ^ 53 * 2 ^ s := by
      rw [← pow_add]
      exact Nat.pow_le_pow_right (by decide) (by omega)
    have hlt := (Nat.div_lt_iff_lt_mul hden).mp (hlog.trans_le hpow)
    exact_mod_cast hlt
  · intro hs
    have hne : n / den ≠ 0 := by
      intro hzero
      simp [s, hzero] at hs
    have hlog := Nat.log2_self_le hne
    have hpow : 2 ^ 52 * 2 ^ s = 2 ^ (n / den).log2 := by
      rw [← pow_add]
      congr 1
      omega
    rw [← hpow, Nat.le_div_iff_mul_le hden] at hlog
    exact_mod_cast hlog

section

variable {s m : ℕ}

lemma cast_units_of_shift (hm : m ≤ 2 ^ 53) (h : s = 0 ∨ 2 ^ 52 ≤ m) :
    (units (s * 2 ^ 52 + m) : ℚ) = m * 2 ^ s := by
  exact_mod_cast units_of_shift hm h

/-- The significands next to one belong to the patterns next to its own, but for a power of two. -/
lemma units_before {k : ℕ} (hm : m ≤ 2 ^ 53) (h : s = 0 ∨ 2 ^ 52 ≤ m)
    (hk : k + 1 = s * 2 ^ 52 + m) :
    (units k : ℚ) = (m - 1) * 2 ^ s ∨ 0 < s ∧ m = 2 ^ 52 := by
  refine or_iff_not_imp_right.mpr fun hpower => ?_
  obtain ⟨m, rfl⟩ : ∃ n, m = n + 1 := ⟨m - 1, by omega⟩
  have hk' : k = s * 2 ^ 52 + m := by omega
  rw [hk', cast_units_of_shift (by omega) (by omega), Nat.cast_succ, add_sub_cancel_right]

lemma units_after (hm : m ≤ 2 ^ 53) (h : s = 0 ∨ 2 ^ 52 ≤ m) :
    (units (s * 2 ^ 52 + m + 1) : ℚ) = (m + 1) * 2 ^ s ∨ m = 2 ^ 53 := by
  refine or_iff_not_imp_right.mpr fun hcarry => ?_
  rw [add_assoc, cast_units_of_shift (by omega) (by omega), Nat.cast_succ]

/-- Rounding to a significand finds the closest pattern. At a power of two the neighbours are not
the significands next to it, but there the fraction lies on the other side. -/
lemma closest_of_significand {u : ℚ} (hm : m ≤ 2 ^ 53) (h : s = 0 ∨ 2 ^ 52 ≤ m)
    (hlt : u < 2 ^ 53 * 2 ^ s) (hle : 0 < s → 2 ^ 52 * 2 ^ s ≤ u)
    (hlower : (2 * m - 1) * 2 ^ s ≤ 2 * u) (hupper : 2 * u ≤ (2 * m + 1) * 2 ^ s)
    (hodd : ¬Even m → (2 * m - 1) * 2 ^ s < 2 * u ∧ 2 * u < (2 * m + 1) * 2 ^ s) :
    Closest u (s * 2 ^ 52 + m) := by
  have hunits := cast_units_of_shift hm h
  have hless : ∀ k, k + 1 = s * 2 ^ 52 + m → (units k : ℚ) < m * 2 ^ s := fun k hk =>
    hunits ▸ units_cast_lt (by omega)
  have hgreater : (m * 2 ^ s : ℚ) < units (s * 2 ^ 52 + m + 1) :=
    hunits ▸ units_cast_lt (Nat.lt_succ_self _)
  have heven : Even (s * 2 ^ 52 + m) ↔ Even m := by
    rw [Nat.even_iff, Nat.even_iff]
    omega
  rw [← heven] at hodd
  refine closest_of_neighbours (fun k hk => ?_) ?_ fun hp => ⟨fun k hk => ?_, ?_⟩
  · rcases units_before hm h hk with hbefore | ⟨hs, rfl⟩
    · linarith
    · have hpower := hle hs
      have hsmall := hless k hk
      push_cast at *
      linarith
  · rcases units_after hm h with hafter | rfl
    · linarith
    · push_cast at *
      linarith
  · rcases units_before hm h hk with hbefore | ⟨_, rfl⟩
    · linarith [(hodd hp).1]
    · exact (hp (heven.mpr (by decide))).elim
  · rcases units_after hm h with hafter | rfl
    · linarith [(hodd hp).2]
    · exact (hp (heven.mpr (by decide))).elim

end

/-- The leading bits give the closest pattern, and what is not finite is cut off. -/
lemma exists_closest (num : ℕ) {den : ℕ} (hden : 0 < den) :
    ∃ p, Closest (num / den * perOne) p ∧ nearestPattern num den = min infinitePattern p := by
  refine ⟨_, ?_, rfl⟩
  set n := num <<< 1074 with hn
  set s := (n / den).log2 - 52 with hs
  have hu : (num / den * perOne : ℚ) = n / den := by
    rw [hn, cast_shiftLeft, perOne, div_mul_eq_mul_div]
  obtain ⟨hlt, hle⟩ := shifted_bounds n hden
  have hpos : 0 < den <<< s := by
    rw [Nat.shiftLeft_eq]
    positivity
  have hshifted : (n / den : ℚ) = n / (den <<< s : ℕ) * 2 ^ s := by
    rw [cast_shiftLeft den s, ← div_div, div_mul_cancel₀ _ (by positivity)]
  have hpow : (0 : ℚ) < 2 ^ s := by positivity
  obtain ⟨hlower, hupper, hodd⟩ := roundDiv_near n hpos
  rw [hu, Nat.shiftLeft_eq]
  rw [← hs] at hlt hle
  rw [hshifted] at hlt hle ⊢
  generalize roundDiv n (den <<< s) = m at *
  generalize (n / (den <<< s : ℕ) : ℚ) = x at *
  have hltx : x < 2 ^ 53 := lt_of_mul_lt_mul_right hlt hpow.le
  have hm : m ≤ 2 ^ 53 := le_of_near_of_lt hlower (by exact_mod_cast hltx)
  have hnormal : s = 0 ∨ 2 ^ 52 ≤ m := by
    refine (Nat.eq_zero_or_pos s).imp_right fun hs => ?_
    have hlex : 2 ^ 52 ≤ x := le_of_mul_le_mul_right (hle hs) hpow
    exact le_of_le_of_near hupper (by exact_mod_cast hlex)
  apply closest_of_significand hm hnormal hlt hle
  · rw [← mul_assoc]
    exact mul_le_mul_of_nonneg_right hlower hpow.le
  · rw [← mul_assoc]
    exact mul_le_mul_of_nonneg_right hupper hpow.le
  · intro hm
    obtain ⟨hlower, hupper⟩ := hodd hm
    rw [← mul_assoc]
    exact ⟨mul_lt_mul_of_pos_right hlower hpow, mul_lt_mul_of_pos_right hupper hpow⟩

/-! ### Infinity -/

lemma units_infinite : units infinitePattern = 2 ^ 53 * 2 ^ 2045 := by
  have hpattern : infinitePattern = 2045 * 2 ^ 52 + 2 ^ 53 := by decide
  rw [hpattern, units_of_shift le_rfl (.inr (by decide))]

lemma units_greatest : units (infinitePattern - 1) = (2 ^ 53 - 1) * 2 ^ 2045 := by
  have hpattern : infinitePattern - 1 = 2045 * 2 ^ 52 + (2 ^ 53 - 1) := by decide
  rw [hpattern, units_of_shift (by decide) (.inr (by decide))]

lemma midpoint_infinite : (units (infinitePattern - 1) + units infinitePattern : ℚ) =
    2 * ((2 ^ 1024 - 2 ^ 970) * perOne) := by
  have hupper : (2 ^ 1024 : ℚ) = 2 ^ 54 * 2 ^ 970 := by rw [← pow_add]
  have hscale : (2 ^ 2045 : ℚ) = 2 * (2 ^ 970 * perOne) := by
    rw [perOne, ← pow_add, ← pow_succ']
  have hpow : ∀ n : ℕ, ((2 ^ n : ℕ) : ℚ) = 2 ^ n := fun n => by push_cast; rfl
  rw [units_infinite, units_greatest, Nat.cast_mul, Nat.cast_mul, hpow 2045, hupper, hscale]
  generalize (2 ^ 970 : ℚ) = a
  generalize perOne = b
  push_cast
  ring

/-- What would need a larger exponent is infinite, and so is the midpoint in front of it. -/
lemma infinite_iff {r : ℚ} {p : ℕ} (h : Closest (r * perOne) p) :
    infinitePattern ≤ p ↔ 2 ^ 1024 - 2 ^ 970 ≤ r := by
  have hmidpoint := midpoint_infinite
  rw [← mul_le_mul_iff_left₀ perOne_pos]
  generalize (2 ^ 1024 - 2 ^ 970) * perOne = limit at *
  constructor
  · intro hp
    have hbelow := h.below (Nat.sub_one_lt_of_le (by decide) hp)
    have hle := units_cast_le hp
    linarith
  · intro hlimit
    refine Closest.mono (closest_of_neighbours (fun k hk => ?_) ?_ fun hodd => ?_) h hlimit
    · rw [← hmidpoint, ← hk, Nat.add_sub_cancel]
    · have hnext := units_cast_le (Nat.le_succ infinitePattern)
      have hgreatest := units_cast_le (Nat.sub_le infinitePattern 1)
      rw [Nat.succ_eq_add_one] at hnext
      linarith
    · exact (hodd (by decide)).elim

/-! ### Numbers -/

/-- The number is neither infinite nor not a number. -/
def IsFinite (x : Binary64) : Prop :=
  x.pattern < infinitePattern

/-- What a finite number stands for. The patterns of all others go on from `2 ^ 1024`. -/
def toRat (x : Binary64) : ℚ :=
  if x.isNegative then -(units x.pattern / perOne) else units x.pattern / perOne

/-- The number is what a fraction that is not negative is rounded to: the nearest finite number, or
the one with the even significand if two are equally near, and infinity from the midpoint between
the greatest finite number and the power of two above it. -/
structure RoundsTo (r : ℚ) (x : Binary64) : Prop where
  positive : x.isNegative = false
  infinite : x.isInfinite ↔ 2 ^ 1024 - 2 ^ 970 ≤ r
  finite : x.IsFinite ↔ r < 2 ^ 1024 - 2 ^ 970
  nearest : x.IsFinite → ∀ y : Binary64, y.IsFinite → |x.toRat - r| ≤ |y.toRat - r|
  even : x.IsFinite → ∀ y : Binary64, y.IsFinite → y.toRat ≠ x.toRat →
    |y.toRat - r| = |x.toRat - r| → Even (Magnitude.ofPattern x.pattern).significand

/-- One number is at most another one, which is not negative. -/
def AtMost (x y : Binary64) : Prop :=
  y.isInfinite ∨ x.IsFinite ∧ y.IsFinite ∧ x.toRat ≤ y.toRat

/-- The number with the pattern, or infinity where no finite number has it. -/
def clamp (p : ℕ) : Binary64 :=
  ⟨UInt64.ofNat (min infinitePattern p)⟩

lemma clamp_bits (p : ℕ) : (clamp p).bits.toNat = min infinitePattern p := by
  have hle : min infinitePattern p < 2 ^ 64 := (Nat.min_le_left _ _).trans_lt (by decide)
  exact UInt64.toNat_ofNat_of_lt' hle

@[simp]
lemma clamp_isNegative (p : ℕ) : (clamp p).isNegative = false := by
  have hle : min infinitePattern p < 1 <<< 63 := (Nat.min_le_left _ _).trans_lt (by decide)
  rw [isNegative, clamp_bits]
  exact decide_eq_false hle.not_ge

@[simp]
lemma clamp_pattern (p : ℕ) : (clamp p).pattern = min infinitePattern p := by
  have hle : min infinitePattern p < 1 <<< 63 := (Nat.min_le_left _ _).trans_lt (by decide)
  rw [pattern, clamp_bits, Nat.mod_eq_of_lt hle]

lemma clamp_isFinite_iff {p : ℕ} : (clamp p).IsFinite ↔ p < infinitePattern := by
  rw [IsFinite, clamp_pattern]
  omega

lemma clamp_isInfinite_iff {p : ℕ} : (clamp p).isInfinite ↔ infinitePattern ≤ p := by
  rw [isInfinite, beq_iff_eq, clamp_pattern]
  omega

lemma clamp_toRat {p : ℕ} (h : p < infinitePattern) : (clamp p).toRat = units p / perOne := by
  rw [toRat, clamp_isNegative, clamp_pattern, Nat.min_eq_right h.le]
  rfl

lemma clamp_mono {p q : ℕ} (h : p ≤ q) : AtMost (clamp p) (clamp q) := by
  rw [AtMost, clamp_isInfinite_iff, clamp_isFinite_iff, clamp_isFinite_iff]
  refine (le_or_gt infinitePattern q).imp_right fun hq => ⟨h.trans_lt hq, hq, ?_⟩
  rw [clamp_toRat hq, clamp_toRat (h.trans_lt hq)]
  exact div_le_div_of_nonneg_right (units_cast_le h) perOne_pos.le

/-- The nearest number has the closest pattern, unless that is not finite. -/
lemma exists_closest_nearest (num : ℕ) {den : ℕ} (hden : 0 < den) :
    ∃ p, Closest (num / den * perOne) p ∧ nearest num den = clamp p := by
  obtain ⟨p, hclosest, hpattern⟩ := exists_closest num hden
  exact ⟨p, hclosest, by rw [nearest, hpattern, clamp]⟩

lemma abs_div_sub {t : ℚ} (ht : 0 < t) (a r : ℚ) : |a / t - r| = |a - r * t| / t := by
  rw [div_sub' ht.ne', abs_div, abs_of_pos ht, mul_comm]

/-- A number with the sign is no nearer than the one without it. -/
lemma abs_units_sub_le {r : ℚ} (hr : 0 ≤ r) (y : Binary64) :
    |units y.pattern / perOne - r| ≤ |y.toRat - r| := by
  have hy : 0 ≤ units y.pattern / perOne := div_nonneg (Nat.cast_nonneg _) perOne_pos.le
  unfold toRat
  generalize (units y.pattern / perOne : ℚ) = a at *
  split_ifs
  · rw [← abs_neg (-a - r), abs_of_nonneg (by linarith : 0 ≤ -(-a - r))]
    exact abs_le.mpr ⟨by linarith, by linarith⟩
  · exact le_rfl

section

variable {r : ℚ} {p : ℕ}

lemma Closest.abs_sub_le (h : Closest (r * perOne) p) (k : ℕ) :
    |units p / perOne - r| ≤ |units k / perOne - r| := by
  rw [abs_div_sub perOne_pos, abs_div_sub perOne_pos]
  exact div_le_div_of_nonneg_right (h.nearest k) perOne_pos.le

lemma Closest.even_of_tie (hr : 0 ≤ r) (h : Closest (r * perOne) p) {y : Binary64}
    (hne : y.toRat ≠ units p / perOne) (htie : |y.toRat - r| = |units p / perOne - r|) :
    Even p := by
  have hle := abs_units_sub_le hr y
  by_cases hy : y.pattern = p
  · -- Only the sign tells the two apart, so that neither is nearer than zero.
    have hneg : y.toRat = -(units p / perOne) := by
      unfold toRat at hne ⊢
      rw [hy] at hne ⊢
      split_ifs at hne ⊢
      · rfl
      · exact (hne rfl).elim
    have hzero : |units p / perOne - r| ≤ r := by
      have hzero := h.abs_sub_le 0
      rwa [units_zero, Nat.cast_zero, zero_div, zero_sub, abs_neg, abs_of_nonneg hr] at hzero
    have hfar := neg_le_abs (y.toRat - r)
    have hunits : 0 ≤ units p / perOne := div_nonneg (Nat.cast_nonneg _) perOne_pos.le
    rw [htie, hneg] at hfar
    exact (hne (by linarith)).elim
  · have heq := le_antisymm (hle.trans_eq htie) (h.abs_sub_le y.pattern)
    rw [abs_div_sub perOne_pos, abs_div_sub perOne_pos] at heq
    exact h.even _ hy ((div_left_inj' perOne_pos.ne').mp heq)

lemma Closest.roundsTo (hr : 0 ≤ r) (h : Closest (r * perOne) p) : RoundsTo r (clamp p) where
  positive := clamp_isNegative p
  infinite := by rw [clamp_isInfinite_iff, infinite_iff h]
  finite := by rw [clamp_isFinite_iff, ← not_le, infinite_iff h, not_le]
  nearest := by
    intro hfinite y _
    rw [clamp_toRat (clamp_isFinite_iff.mp hfinite)]
    exact (h.abs_sub_le _).trans (abs_units_sub_le hr y)
  even := by
    intro hfinite y _ hne htie
    rw [clamp_isFinite_iff] at hfinite
    rw [clamp_toRat hfinite] at hne htie
    rw [clamp_pattern, Nat.min_eq_right hfinite.le, even_significand_iff]
    exact h.even_of_tie hr hne htie

end

end Reckoner.Binary64
