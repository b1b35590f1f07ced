import Mathlib.Tactic
import Reckoner.Number.Binary

/-!
# Magnitudes

Bit patterns in the order of the magnitudes that they stand for, all counted in units of
`2 ^ -1074`. Nothing ends the sequence of patterns here: those from that of infinity on go on as if
there were larger exponents. A pattern is closest to some number of units if its magnitude is the
nearest one, and of two patterns that are equally near it is the even one. There is only one such
pattern, and it grows with the number.
-/

namespace Reckoner.Binary64

namespace Magnitude

/-- What the last bit of the significand counts, in units. -/
def lastBit (m : Magnitude) : ℕ :=
  2 ^ m.shift

def units (m : Magnitude) : ℕ :=
  m.significand * m.lastBit

/-- How far below the magnitude the midpoint to the next smaller one lies, in quarters of the last
bit. Below a power of two the neighbour is twice as near. -/
def quartersBelow (m : Magnitude) : ℕ :=
  if m.significand = 1 <<< 52 ∧ 0 < m.shift then 1 else 2

end Magnitude

/-- The magnitude of a pattern in units. -/
def units (p : ℕ) : ℕ :=
  (Magnitude.ofPattern p).units

/-- The magnitude of the pattern is nearest to `u` units, and the significand is even if the
magnitude of another pattern is as near. -/
structure Closest (u : ℚ) (p : ℕ) : Prop where
  nearest : ∀ k, |(units p : ℚ) - u| ≤ |(units k : ℚ) - u|
  even : ∀ k ≠ p, |(units k : ℚ) - u| = |(units p : ℚ) - u| → Even p

/-! ### The sequence of magnitudes -/

@[simp]
lemma units_zero : units 0 = 0 := rfl

lemma units_of_lt {p : ℕ} (h : p < 2 ^ 52) : units p = p := by
  have hsmall : Magnitude.ofPattern p = ⟨p, 0⟩ := if_pos (by rwa [Nat.one_shiftLeft])
  rw [units, hsmall]
  exact mul_one p

lemma units_of_le {p : ℕ} (h : 2 ^ 52 ≤ p) :
    units p = (2 ^ 52 + p % 2 ^ 52) * 2 ^ (p / 2 ^ 52 - 1) := by
  have hnormal : Magnitude.ofPattern p = ⟨2 ^ 52 + p % 2 ^ 52, p / 2 ^ 52 - 1⟩ := by
    rw [Magnitude.ofPattern, Nat.one_shiftLeft, if_neg h.not_gt, Nat.shiftRight_eq_div_pow]
  rw [units, hnormal]
  rfl

/-- A significand that is out by one carries into the shift. -/
lemma units_of_shift {s m : ℕ} (hm : m ≤ 2 ^ 53) (h : s = 0 ∨ 2 ^ 52 ≤ m) :
    units (s * 2 ^ 52 + m) = m * 2 ^ s := by
  by_cases hsmall : s * 2 ^ 52 + m < 2 ^ 52
  · have hs : s = 0 := by omega
    rw [hs, zero_mul, zero_add] at hsmall ⊢
    rw [units_of_lt hsmall, pow_zero, mul_one]
  · rw [units_of_le (not_lt.mp hsmall)]
    by_cases hcarry : m = 2 ^ 53
    · have hmod : (s * 2 ^ 52 + m) % 2 ^ 52 = 0 := by omega
      have hdiv : (s * 2 ^ 52 + m) / 2 ^ 52 - 1 = s + 1 := by omega
      rw [hmod, hdiv, hcarry, pow_succ' 2 s]
      omega
    · have hmod : 2 ^ 52 + (s * 2 ^ 52 + m) % 2 ^ 52 = m := by omega
      have hdiv : (s * 2 ^ 52 + m) / 2 ^ 52 - 1 = s := by omega
      rw [hmod, hdiv]

lemma significand_bounds (p : ℕ) : (Magnitude.ofPattern p).significand < 2 ^ 53 ∧
    ((Magnitude.ofPattern p).shift = 0 ∨ 2 ^ 52 ≤ (Magnitude.ofPattern p).significand) := by
  unfold Magnitude.ofPattern
  rw [Nat.one_shiftLeft]
  split_ifs with h
  · exact ⟨h.trans (by decide), .inl rfl⟩
  · exact ⟨by dsimp only; omega, .inr (Nat.le_add_right _ _)⟩

lemma shift_add_significand (p : ℕ) :
    (Magnitude.ofPattern p).shift * 2 ^ 52 + (Magnitude.ofPattern p).significand = p := by
  have h := toPattern_ofPattern p
  rwa [Magnitude.toPattern, Nat.shiftLeft_eq] at h

lemma significand_pos {p : ℕ} (hp : 0 < p) : 0 < (Magnitude.ofPattern p).significand := by
  have hsum := shift_add_significand p
  have hnormal := (significand_bounds p).2
  omega

lemma even_significand_iff (p : ℕ) : Even (Magnitude.ofPattern p).significand ↔ Even p := by
  have h := shift_add_significand p
  rw [Nat.even_iff, Nat.even_iff]
  omega

lemma units_succ (p : ℕ) : units (p + 1) = units p + (Magnitude.ofPattern p).lastBit := by
  obtain ⟨hm, hnormal⟩ := significand_bounds p
  have hp := shift_add_significand p
  have hnext := units_of_shift (Nat.succ_le_of_lt hm) (hnormal.imp_right fun h => by omega)
  rw [Nat.add_succ, hp] at hnext
  rw [hnext, Nat.succ_mul]
  rfl

lemma units_pred {p k : ℕ} (h : k + 1 = p) : 2 * (units k + units p) +
    (Magnitude.ofPattern p).quartersBelow * (Magnitude.ofPattern p).lastBit = 4 * units p := by
  obtain ⟨hm, hnormal⟩ := significand_bounds p
  have hp := shift_add_significand p
  have hunits : units p = (Magnitude.ofPattern p).units := rfl
  rw [hunits]
  generalize Magnitude.ofPattern p = m at *
  rw [Magnitude.quartersBelow, Nat.one_shiftLeft, Magnitude.units, Magnitude.lastBit]
  obtain ⟨m, s⟩ := m
  dsimp only at *
  split_ifs with hpower
  · obtain ⟨rfl, hs⟩ := hpower
    obtain ⟨s, rfl⟩ := Nat.exists_eq_succ_of_ne_zero hs.ne'
    have hk : k = s * 2 ^ 52 + (2 ^ 53 - 1) := by omega
    rw [hk, units_of_shift (by decide) (.inr (by decide)), pow_succ' 2 s]
    omega
  · obtain ⟨m, rfl⟩ : ∃ n, m = n + 1 := ⟨m - 1, by omega⟩
    have hk : k = s * 2 ^ 52 + m := by omega
    rw [hk, units_of_shift (by omega) (by omega)]
    ring

lemma units_strictMono : StrictMono units :=
  strictMono_nat_of_lt_succ fun p => by
    rw [units_succ]
    exact Nat.lt_add_of_pos_right (Nat.pow_pos (by decide))

lemma units_cast_lt {p q : ℕ} (h : p < q) : (units p : ℚ) < units q :=
  Nat.cast_lt.mpr (units_strictMono h)

lemma units_cast_le {p q : ℕ} (h : p ≤ q) : (units p : ℚ) ≤ units q :=
  Nat.cast_le.mpr (units_strictMono.monotone h)

/-! ### The closest pattern -/

lemma abs_sub_le_iff_of_lt {a b u : ℚ} (h : a < b) : |a - u| ≤ |b - u| ↔ 2 * u ≤ a + b := by
  rw [← sq_le_sq]
  constructor
  · intro hle
    nlinarith
  · intro hle
    nlinarith

lemma abs_sub_ge_iff_of_lt {a b u : ℚ} (h : a < b) : |b - u| ≤ |a - u| ↔ a + b ≤ 2 * u := by
  rw [← sq_le_sq]
  constructor
  · intro hle
    nlinarith
  · intro hle
    nlinarith

section

variable {u u' : ℚ} {p p' k : ℕ}

lemma Closest.below (h : Closest u p) (hk : k < p) : (units k + units p : ℚ) ≤ 2 * u :=
  (abs_sub_ge_iff_of_lt (units_cast_lt hk)).mp (h.nearest k)

lemma Closest.above (h : Closest u p) (hk : p < k) : 2 * u ≤ (units p + units k : ℚ) :=
  (abs_sub_le_iff_of_lt (units_cast_lt hk)).mp (h.nearest k)

/-- A pattern is closest already if no midpoint to one of its two neighbours lies in between. -/
lemma closest_of_neighbours (hbelow : ∀ k, k + 1 = p → (units k + units p : ℚ) ≤ 2 * u)
    (habove : 2 * u ≤ units p + units (p + 1))
    (hodd : ¬Even p → (∀ k, k + 1 = p → (units k + units p : ℚ) < 2 * u) ∧
      2 * u < units p + units (p + 1)) : Closest u p := by
  have hsmaller : ∀ k < p, ∃ l, l + 1 = p ∧ (units k : ℚ) ≤ units l := fun k hk =>
    ⟨p - 1, by omega, units_cast_le (by omega)⟩
  have hgreater : ∀ k, p < k → (units (p + 1) : ℚ) ≤ units k := fun k hk => units_cast_le hk
  constructor
  · intro k
    rcases lt_trichotomy k p with hk | rfl | hk
    · obtain ⟨l, hl, hle⟩ := hsmaller k hk
      have hmid := hbelow l hl
      exact (abs_sub_ge_iff_of_lt (units_cast_lt hk)).mpr (by linarith)
    · exact le_rfl
    · have hle := hgreater k hk
      exact (abs_sub_le_iff_of_lt (units_cast_lt hk)).mpr (by linarith)
  · intro k hne htie
    by_contra hp
    obtain ⟨hstrict, hstrict'⟩ := hodd hp
    rcases hne.lt_or_gt with hk | hk
    · obtain ⟨l, hl, hle⟩ := hsmaller k hk
      have hmid := hstrict l hl
      have hfar := (abs_sub_le_iff_of_lt (units_cast_lt hk)).mp htie.le
      linarith
    · have hle := hgreater k hk
      have hfar := (abs_sub_ge_iff_of_lt (units_cast_lt hk)).mp htie.le
      linarith

lemma closest_units (p : ℕ) : Closest (units p) p := by
  refine ⟨fun k => by simp, fun k hne htie => ?_⟩
  rw [sub_self, abs_zero, abs_eq_zero, sub_eq_zero, Nat.cast_inj] at htie
  exact (hne (units_strictMono.injective htie)).elim

/-- Of two patterns in the wrong order both would be closest to their midpoint, and so both even.
But then there is a pattern in between. -/
lemma Closest.mono (h : Closest u p) (h' : Closest u' p') (hle : u ≤ u') : p ≤ p' := by
  by_contra hlt
  rw [not_le] at hlt
  have hbelow := h.below hlt
  have habove := h'.above hlt
  have hu : u' = u := by linarith
  subst hu
  have hnear := h.nearest p'
  have hnear' := h'.nearest p
  have heven := h.even p' hlt.ne (le_antisymm hnear' hnear)
  have heven' := h'.even p hlt.ne' (le_antisymm hnear hnear')
  have hbetween : p' + 1 < p := by
    rw [Nat.even_iff] at heven heven'
    omega
  have hnext := h.below hbetween
  have hgrow := units_cast_lt (Nat.lt_succ_self p')
  rw [Nat.succ_eq_add_one] at hgrow
  linarith

lemma Closest.unique (h : Closest u p) (h' : Closest u p') : p = p' :=
  le_antisymm (h.mono h' le_rfl) (h'.mono h le_rfl)

end

end Reckoner.Binary64
