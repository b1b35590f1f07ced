import Mathlib.Tactic
import Reckoner.Number.Layout
import Reckoner.Proofs.Literals

/-!
# Shortest decimals

Whatever the window of a magnitude contains has the magnitude's pattern as the closest one: the
bounds are the midpoints to the neighbours, and they belong to the window if the pattern is even.
The shortest decimal lies in the window, so it is read back as the number that it was made from.
-/

namespace Reckoner.Decimal
open Binary64 Literal Proofs

/-- How many steps of the finest decimal grid there are in one. -/
def finest : ℚ := Nat.pow 10 340

lemma cast_ten_pow (k : ℕ) : ((Nat.pow 10 k : ℕ) : ℚ) = 10 ^ k := by
  rw [Nat.pow_eq, Nat.cast_pow, Nat.cast_ofNat]

lemma finest_eq : finest = 10 ^ 340 := by
  -- The exponent is a variable here, so that no power is computed.
  have hcast : ∀ k, k = 340 → ((Nat.pow 10 k : ℕ) : ℚ) = 10 ^ k := fun k _ => cast_ten_pow k
  exact hcast 340 rfl

lemma finest_pos : 0 < finest := by
  rw [finest_eq]
  exact pow_pos (by norm_num) 340

/-- What a decimal stands for. -/
def Digits.value (d : Digits) : ℚ :=
  digitsValue d.digits * 10 ^ (d.exponent + 1 - d.digits.length)

/-- A decimal with its first digit at the place of the exponent, to which the pattern is closest. -/
structure Digits.Writes (d : Digits) (p : ℕ) : Prop where
  ne_nil : d.digits ≠ []
  isDigit : ∀ c ∈ d.digits, c.isDigit
  lower : 10 ^ d.exponent ≤ d.value
  upper : d.value < 10 ^ (d.exponent + 1)
  closest : Closest (d.value * perOne) p

/-! ### Windows -/

section

variable {m : Magnitude} {n p : ℕ}

lemma window_value (m : Magnitude) : ((Window.of m).value : ℚ) = 4 * m.units * finest := by
  have hvalue : (Window.of m).value = 4 * m.significand * (Nat.pow 10 340 <<< m.shift) := rfl
  rw [hvalue, Nat.cast_mul, cast_shiftLeft, ← finest, Magnitude.units, Magnitude.lastBit]
  push_cast
  ring

lemma window_unit (m : Magnitude) : ((Window.of m).unit : ℚ) = 4 * perOne :=
  cast_shiftLeft 4 1074

lemma cast_quarter (m : Magnitude) :
    ((Nat.pow 10 340 <<< m.shift : ℕ) : ℚ) = m.lastBit * finest := by
  rw [cast_shiftLeft, ← finest, Magnitude.lastBit, mul_comm]
  push_cast
  rfl

lemma window_upper (m : Magnitude) :
    ((Window.of m).upper : ℚ) = (4 * m.units + 2 * m.lastBit) * finest := by
  have hupper : (Window.of m).upper = (Window.of m).value + 2 * (Nat.pow 10 340 <<< m.shift) := rfl
  rw [hupper, Nat.cast_add, Nat.cast_mul, window_value, cast_quarter]
  push_cast
  ring

/-- No subtraction is cut off at zero. -/
lemma window_lower_add (hm : 0 < m.significand) :
    (Window.of m).lower + m.quartersBelow * (Nat.pow 10 340 <<< m.shift) = (Window.of m).value := by
  refine Nat.sub_add_cancel (Nat.mul_le_mul_right _ ?_)
  split_ifs <;> omega

lemma window_lower (hm : 0 < m.significand) :
    ((Window.of m).lower : ℚ) = (4 * m.units - m.quartersBelow * m.lastBit) * finest := by
  have hvalue := window_value m
  rw [← window_lower_add hm, Nat.cast_add, Nat.cast_mul, cast_quarter] at hvalue
  linarith

lemma contains_iff {w : Window} : w.contains n ↔
    (w.lower : ℚ) ≤ n * w.unit ∧ (n * w.unit : ℚ) ≤ w.upper ∧
      (w.closed = false → (w.lower : ℚ) < n * w.unit ∧ (n * w.unit : ℚ) < w.upper) := by
  have hcast : (n * w.unit : ℚ) = (n * w.unit : ℕ) := (Nat.cast_mul _ _).symm
  simp only [hcast, Nat.cast_le, Nat.cast_lt]
  unfold Window.contains
  cases w.closed with
  | true => simp
  | false =>
    simp only [Bool.false_eq_true, if_false, Bool.and_eq_true, decide_eq_true_eq]
    exact ⟨fun h => ⟨h.1.le, h.2.le, fun _ => h⟩, fun h => h.2.2 trivial⟩

/-- The bounds of the window are the midpoints to the pattern's neighbours. -/
lemma closest_of_contains (hp : 0 < p) (h : (Window.of (.ofPattern p)).contains n) :
    Closest (n / finest * perOne) p := by
  have hclosed : (Window.of (.ofPattern p)).closed = false ↔ ¬Even p := by
    rw [← even_significand_iff, Nat.even_iff]
    exact beq_eq_false_iff_ne
  have hscale : (n * (4 * perOne) : ℚ) = 4 * (n / finest * perOne) * finest := by
    have hfinest := finest_pos.ne'
    field_simp
  rw [contains_iff, hclosed, window_lower (significand_pos hp), window_upper, window_unit, hscale,
    mul_le_mul_iff_left₀ finest_pos, mul_le_mul_iff_left₀ finest_pos,
    mul_lt_mul_iff_left₀ finest_pos, mul_lt_mul_iff_left₀ finest_pos] at h
  obtain ⟨hlower, hupper, hopen⟩ := h
  have hunits : (Magnitude.ofPattern p).units = units p := rfl
  rw [hunits] at hlower hupper hopen
  have hnext : (units (p + 1) : ℚ) = units p + (Magnitude.ofPattern p).lastBit := by
    exact_mod_cast units_succ p
  have hbefore : ∀ k, k + 1 = p → (2 * (units k + units p) +
      (Magnitude.ofPattern p).quartersBelow * (Magnitude.ofPattern p).lastBit : ℚ) = 4 * units p :=
    fun k hk => by exact_mod_cast units_pred hk
  refine closest_of_neighbours (fun k hk => ?_) ?_ fun hodd => ⟨fun k hk => ?_, ?_⟩
  · have hmid := hbefore k hk
    linarith
  · rw [hnext]
    linarith
  · have hmid := hbefore k hk
    linarith [(hopen hodd).1]
  · rw [hnext]
    linarith [(hopen hodd).2]

lemma not_contains_zero (hp : 0 < p) : (Window.of (.ofPattern p)).contains 0 = false := by
  rw [← Bool.not_eq_true]
  intro h
  have hclosest := closest_of_contains hp h
  rw [Nat.cast_zero, zero_div, zero_mul] at hclosest
  exact hp.ne (Closest.unique (by simpa using closest_units 0) hclosest)

/-! ### Which decimal is taken -/

lemma contains_of_onGrid? {w : Window} {tie : Tie} {step n : ℕ} (h : w.onGrid? tie step = some n) :
    w.contains (n * step) := by
  have hnearer : ∀ c, w.nearer tie step c = c ∨ w.nearer tie step c = c + 1 := by
    intro c
    unfold Window.nearer
    dsimp only
    split_ifs
    all_goals first | exact .inl rfl | exact .inr rfl
  simp only [Window.onGrid?] at h
  split at h
  all_goals rename_i hbelow habove
  · obtain rfl := Option.some.inj h
    rcases hnearer (w.value / w.unit / step) with hn | hn <;> rw [hn] <;> assumption
  · obtain rfl := Option.some.inj h
    exact hbelow
  · obtain rfl := Option.some.inj h
    exact habove
  · cases h

/-- The finest grid is finer than a quarter of the last bit. -/
lemma contains_finest (hm : 0 < m.significand) :
    (Window.of m).contains ((Window.of m).value / (Window.of m).unit) := by
  have hquarter : (Window.of m).unit ≤ Nat.pow 10 340 <<< m.shift :=
    (by decide +kernel : 4 <<< 1074 ≤ Nat.pow 10 340).trans Nat.le_shiftLeft
  have hbelow : 1 ≤ m.quartersBelow := by
    unfold Magnitude.quartersBelow
    split_ifs <;> decide
  have hlower := window_lower_add hm
  have hupper : (Window.of m).upper = (Window.of m).value + 2 * (Nat.pow 10 340 <<< m.shift) := rfl
  have hunit : 0 < (Window.of m).unit := (by decide : 0 < 4).trans_le Nat.le_shiftLeft
  have hfloor := Nat.div_mul_le_self (Window.of m).value (Window.of m).unit
  have hnext := Nat.lt_div_mul_add hunit (a := (Window.of m).value)
  have hstep := Nat.mul_le_mul_right (Nat.pow 10 340 <<< m.shift) hbelow
  generalize Nat.pow 10 340 <<< m.shift = quarter at *
  generalize Window.of m = w at *
  have hinside : w.lower < w.value / w.unit * w.unit ∧ w.value / w.unit * w.unit < w.upper := by
    omega
  unfold Window.contains
  split_ifs
  · simp [hinside.1.le, hinside.2.le]
  · simp [hinside.1, hinside.2]

lemma exists_shortest_contained (tie : Tie) (hp : 0 < p) :
    ∃ n place, shortest tie (.ofPattern p) = Digits.of n place ∧
      (Window.of (.ofPattern p)).contains (n * 10 ^ place) := by
  simp only [shortest]
  generalize hfound : List.findSome? _ (List.range 17) = found
  cases found with
  | none =>
    refine ⟨_, 0, rfl, ?_⟩
    rw [pow_zero, mul_one]
    exact contains_finest (significand_pos hp)
  | some d =>
    obtain ⟨i, _, hd⟩ := List.exists_of_findSome?_eq_some hfound
    obtain ⟨n, hn, rfl⟩ := Option.map_eq_some_iff.mp hd
    exact ⟨n, _, rfl, contains_of_onGrid? hn⟩

/-! ### Its digits -/

lemma exists_trailing_zeros (digits : List Char) :
    ∃ k, digits = dropTrailingZeros digits ++ List.replicate k '0' := by
  refine ⟨(digits.reverse.takeWhile (· == '0')).length, ?_⟩
  have hzeros : digits.reverse.takeWhile (· == '0') =
      List.replicate (digits.reverse.takeWhile (· == '0')).length '0' :=
    List.eq_replicate_of_mem fun c hc => by simpa using List.mem_takeWhile_imp hc
  have hsplit := congrArg List.reverse
    (List.takeWhile_append_dropWhile (p := fun c => c == '0') (l := digits.reverse))
  rw [List.reverse_append, List.reverse_reverse, hzeros, List.reverse_replicate] at hsplit
  exact hsplit.symm

/-- The digits of a whole number, some zeros that are left off, and what the digits come to. -/
lemma exists_digits (n place : ℕ) : ∃ k,
    Nat.toDigits 10 n = (Digits.of n place).digits ++ List.replicate k '0' ∧
      n = digitsValue (Digits.of n place).digits * 10 ^ k ∧
      (Digits.of n place).exponent + 1 = (Digits.of n place).digits.length + k + place - 340 := by
  obtain ⟨k, hk⟩ := exists_trailing_zeros (Nat.toDigits 10 n)
  have hdigits : (Digits.of n place).digits = dropTrailingZeros (Nat.toDigits 10 n) := rfl
  have hexponent : (Digits.of n place).exponent =
    ((Nat.toDigits 10 n).length - 1 + place : ℕ) - 340 := rfl
  have hvalue : digitsValue (Nat.toDigits 10 n) = n :=
    Nat.ofDigitChars_toDigits (by decide) (by decide)
  have hpos := Nat.length_toDigits_pos (b := 10) (n := n)
  have hlength := congrArg List.length hk
  rw [List.length_append, List.length_replicate] at hlength
  rw [← hdigits] at hk hlength
  refine ⟨k, hk, ?_, ?_⟩
  · rw [← digitsValue_trailing_zeros, ← hk, hvalue]
  · rw [hexponent]
    omega

lemma isDigit_of_zeros {k : ℕ} {c : Char} (hc : c ∈ List.replicate k '0') : c.isDigit := by
  rw [List.eq_of_mem_replicate hc]
  rfl

lemma isDigit_of_mem_digits {n place : ℕ} : ∀ c ∈ (Digits.of n place).digits, c.isDigit := by
  intro c hc
  obtain ⟨k, hk, _⟩ := exists_digits n place
  exact Nat.isDigit_of_mem_toDigits (by decide) (by decide) (hk ▸ List.mem_append_left _ hc)

lemma digits_ne_nil {n : ℕ} (hn : 0 < n) (place : ℕ) : (Digits.of n place).digits ≠ [] := by
  intro hnil
  obtain ⟨k, _, hvalue, _⟩ := exists_digits n place
  rw [hnil] at hvalue
  simp [digitsValue] at hvalue
  omega

lemma ten_zpow (k place : ℕ) :
    (10 : ℚ) ^ ((k + place : ℕ) - 340 : ℤ) = 10 ^ k * 10 ^ place / finest := by
  rw [zpow_sub₀ (by norm_num), zpow_natCast, zpow_ofNat, ← finest_eq, pow_add]

lemma digits_value (n place : ℕ) : (Digits.of n place).value = (n * 10 ^ place : ℕ) / finest := by
  obtain ⟨k, _, hvalue, hexponent⟩ := exists_digits n place
  have hpower : (Digits.of n place).exponent + 1 - (Digits.of n place).digits.length =
      (k + place : ℕ) - 340 := by
    push_cast
    omega
  have hcast : (n : ℚ) = digitsValue (Digits.of n place).digits * 10 ^ k := by exact_mod_cast hvalue
  rw [Digits.value, hpower, ten_zpow, Nat.cast_mul, hcast]
  push_cast
  ring

/-- The exponent is the place of the first digit. -/
lemma exponent_bounds {n : ℕ} (hn : 0 < n) (place : ℕ) :
    10 ^ (Digits.of n place).exponent ≤ (Digits.of n place).value ∧
      (Digits.of n place).value < 10 ^ ((Digits.of n place).exponent + 1) := by
  obtain ⟨length, hlength⟩ : ∃ length, (Nat.toDigits 10 n).length = length + 1 :=
    Nat.exists_eq_succ_of_ne_zero Nat.length_toDigits_pos.ne'
  have hexponent : (Digits.of n place).exponent = (length + place : ℕ) - 340 := by
    change ((Nat.toDigits 10 n).length - 1 + place : ℕ) - 340 = ((length + place : ℕ) : ℤ) - 340
    rw [hlength, Nat.add_sub_cancel]
  have hnext : (Digits.of n place).exponent + 1 = (length + 1 + place : ℕ) - 340 := by
    rw [hexponent]
    push_cast
    ring
  have hupper : n < 10 ^ (length + 1) :=
    (Nat.length_toDigits_le_iff (by decide) (Nat.succ_pos _)).mp hlength.le
  have hlower : 10 ^ length ≤ n := by
    rcases Nat.eq_zero_or_pos length with rfl | hpos
    · exact hn
    · rw [← not_lt, ← Nat.length_toDigits_le_iff (by decide) hpos]
      omega
  have hlower' : (10 ^ length : ℚ) ≤ n := by exact_mod_cast hlower
  have hupper' : (n : ℚ) < 10 ^ (length + 1) := by exact_mod_cast hupper
  have hplace : (0 : ℚ) < 10 ^ place := by positivity
  rw [digits_value, hnext, hexponent, ten_zpow, ten_zpow, Nat.cast_mul, Nat.cast_pow,
    Nat.cast_ofNat]
  exact ⟨div_le_div_of_nonneg_right (mul_le_mul_of_nonneg_right hlower' hplace.le) finest_pos.le,
    div_lt_div_of_pos_right (mul_lt_mul_of_pos_right hupper' hplace) finest_pos⟩

/-- The shortest decimal of a magnitude is read back as its pattern. -/
theorem shortest_writes (tie : Tie) (hp : 0 < p) : (shortest tie (.ofPattern p)).Writes p := by
  obtain ⟨n, place, hshortest, hcontains⟩ := exists_shortest_contained tie hp
  have hn : 0 < n := by
    rw [Nat.pos_iff_ne_zero]
    rintro rfl
    rw [zero_mul, not_contains_zero hp] at hcontains
    cases hcontains
  obtain ⟨hlower, hupper⟩ := exponent_bounds hn place
  rw [hshortest]
  refine ⟨digits_ne_nil hn place, isDigit_of_mem_digits, hlower, hupper, ?_⟩
  rw [digits_value]
  exact closest_of_contains hp hcontains

end

end Reckoner.Decimal
