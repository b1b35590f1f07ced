import Mathlib.Tactic
import Reckoner.Number.Literal
import Reckoner.Operator

/-!
# Operands that are not numbers

A pattern that is not a number is handed on by most operations, the left one first, so
two evaluations that meet different patterns of this kind go on with different patterns.
This file shows that they never differ in anything else: no operation tells apart two
patterns that are not numbers, as long as neither of them signals, and no operation gives
one that signals. Multiplication gives the same number in either order.
-/

namespace Reckoner.Proofs
open Float.Model (Format UnpackedFloat)
open Float.Model.UnpackedFloat (Sign)
open Binary64

lemma sign_mul_comm (s t : Sign) : s * t = t * s := by
  cases s <;> cases t <;> rfl

lemma unpacked_mul_comm (spec : Format) (a b : UnpackedFloat) :
    UnpackedFloat.mul spec a b = UnpackedFloat.mul spec b a := by
  cases a with
  | notANumber => cases b <;> rfl
  | infinity s =>
    cases b with
    | notANumber | zero => rfl
    | infinity t | finite t => exact congrArg UnpackedFloat.infinity (sign_mul_comm s t)
  | zero s =>
    cases b with
    | notANumber | infinity => rfl
    | zero t | finite t => exact congrArg UnpackedFloat.zero (sign_mul_comm s t)
  | finite s m e hm =>
    cases b with
    | notANumber => rfl
    | infinity t => exact congrArg UnpackedFloat.infinity (sign_mul_comm s t)
    | zero t => exact congrArg UnpackedFloat.zero (sign_mul_comm s t)
    | finite t n f hn =>
      change UnpackedFloat.roundWithAccuracy spec (s * t) (m * n) (e + f) .exact =
        UnpackedFloat.roundWithAccuracy spec (t * s) (n * m) (f + e) .exact
      rw [sign_mul_comm, Nat.mul_comm, Int.add_comm]

theorem float_mul_comm (f g : Float) : f * g = g * f := by
  change Float.ofModel (.pack _) = Float.ofModel (.pack _)
  rw [unpacked_mul_comm]

lemma isNaN_iff (x : Binary64) : x.isNaN ↔ infinitePattern < x.bits.toNat % 2 ^ 63 :=
  decide_eq_true_iff

lemma nearest_isNaN (num den : Nat) : (nearest num den).isNaN = false := by
  have h : nearestPattern num den ≤ infinitePattern := Nat.min_le_left _ _
  rw [← Bool.not_eq_true, isNaN_iff, not_lt]
  simp only [nearest, UInt64.toNat_ofNat']
  exact (Nat.mod_le _ _).trans ((Nat.mod_le _ _).trans h)

theorem literal_isNaN (literal : List Char) : (Literal.value literal).isNaN = false :=
  nearest_isNaN _ _

/-! ### Patterns without a signal -/

lemma quiet_quiet (x : Binary64) : x.quiet.quiet = x.quiet := by
  simp [quiet, UInt64.or_assoc]

lemma quiet_isNaN {x : Binary64} (h : x.isNaN) : x.quiet.isNaN := by
  rw [isNaN_iff] at h ⊢
  refine lt_of_lt_of_le h ?_
  simp only [quiet, UInt64.toNat_or, Nat.or_mod_two_pow]
  exact Nat.left_le_or

lemma neg_isNaN (x : Binary64) : (-x).isNaN = x.isNaN := by
  rw [Bool.eq_iff_iff, isNaN_iff, isNaN_iff]
  change _ < (x.bits.toNat ^^^ 2 ^ 63) % 2 ^ 63 ↔ _
  rw [Nat.xor_mod_two_pow, Nat.mod_self, Nat.xor_zero]

lemma quiet_neg (x : Binary64) : (-x).quiet = -x.quiet := by
  change Binary64.mk _ = Binary64.mk _
  congr 1
  apply UInt64.toBitVec_inj.mp
  change (x.bits.toBitVec ^^^ 0x8000000000000000#64) ||| 0x0008000000000000#64 =
    (x.bits.toBitVec ||| 0x0008000000000000#64) ^^^ 0x8000000000000000#64
  generalize x.bits.toBitVec = v
  apply BitVec.eq_of_getLsbD_eq
  intro i hi
  simp only [BitVec.getLsbD_or, BitVec.getLsbD_xor]
  interval_cases i <;> simp

lemma isSignaling_of_number {x : Binary64} (h : x.isNaN = false) : x.isSignaling = false := by
  simp [isSignaling, h]

lemma quiet_isSignaling (x : Binary64) : x.quiet.isSignaling = false := by
  simp [isSignaling, quiet_quiet]

lemma neg_isSignaling {x : Binary64} (h : x.isSignaling = false) : (-x).isSignaling = false := by
  by_cases hx : x.isNaN
  · have hq : x.quiet = x := by simpa [isSignaling, hx] using h
    simp [isSignaling, quiet_neg, hq]
  · exact isSignaling_of_number (by rw [neg_isNaN]; simpa using hx)

/-- The only pattern of a native number that is not a number is the one whose sign is clear
and whose signal is off. -/
lemma toBits_of_isNaN {f : Float} (h : Binary64.isNaN ⟨f.toBits⟩) :
    f.toBits = 0x7FF8000000000000 := by
  rw [isNaN_iff] at h
  have hlt : f.toBits.toNat < 2 ^ 64 := f.toBits.toNat_lt
  simp only [infinitePattern] at h
  apply UInt64.toBitVec_inj.mp
  apply f.toModel.valid.eq_packedNaN
  · apply BitVec.eq_of_toNat_eq
    change (f.toBits.toNat >>> 52) % 2 ^ 11 = 2047
    rw [Nat.shiftRight_eq_div_pow]
    omega
  · intro hm
    have h0 : f.toBits.toNat >>> 0 % 2 ^ 52 = 0 := congrArg BitVec.toNat hm
    rw [Nat.shiftRight_zero] at h0
    omega

lemma ofFloat_isSignaling (f : Float) : (ofFloat f).isSignaling = false := by
  unfold ofFloat
  split
  · decide
  · by_cases hn : Binary64.isNaN ⟨f.toBits⟩
    · rw [toBits_of_isNaN hn]
      decide
    · simp [isSignaling, hn]

lemma combine_isSignaling (f : Float → Float → Float) (x y : Binary64) :
    (combine f x y).isSignaling = false := by
  unfold combine
  split_ifs
  · exact quiet_isSignaling x
  · exact quiet_isSignaling y
  · exact ofFloat_isSignaling _

lemma combine_isNaN (f : Float → Float → Float) {x y : Binary64} (h : x.isNaN ∨ y.isNaN) :
    (combine f x y).isNaN := by
  unfold combine
  split_ifs with hx hy
  · exact quiet_isNaN hx
  · exact quiet_isNaN hy
  · simp_all

lemma log_isSignaling (x : Binary64) : x.log.isSignaling = false := by
  unfold Binary64.log
  split_ifs
  · exact quiet_isSignaling x
  · exact ofFloat_isSignaling _

lemma powNaN_isSignaling (x y : Binary64) : (powNaN x y).isSignaling = false := by
  unfold powNaN
  split_ifs
  · exact neg_isSignaling (quiet_isSignaling x)
  · exact quiet_isSignaling x

lemma powNaN_isNaN {x : Binary64} (y : Binary64) (h : x.isNaN) : (powNaN x y).isNaN := by
  unfold powNaN
  split_ifs
  · exact (neg_isNaN x.quiet).trans (quiet_isNaN h)
  · exact quiet_isNaN h

lemma one_isSignaling : one.isSignaling = false :=
  isSignaling_of_number (nearest_isNaN 1 1)

lemma pow_isSignaling (x y : Binary64) : (x.pow y).isSignaling = false := by
  unfold Binary64.pow
  split_ifs
  · exact ofFloat_isSignaling _
  · exact quiet_isSignaling x
  · exact one_isSignaling
  · exact quiet_isSignaling y
  · exact one_isSignaling
  · exact quiet_isSignaling y
  · exact quiet_isSignaling x
  · exact powNaN_isSignaling x y

lemma pattern_ne_zero {x : Binary64} (h : x.isNaN) : x.pattern ≠ 0 := by
  rw [isNaN_iff] at h
  exact Nat.ne_of_gt (Nat.zero_lt_of_lt h)

lemma ne_one_of_isNaN {x : Binary64} (h : x.isNaN) : x ≠ one := by
  rintro rfl
  simp [one, nearest_isNaN] at h

lemma pow_of_pattern_zero {x y : Binary64} (hs : x.isSignaling = false) (hx : x.isNaN)
    (hy : y.pattern = 0) : x.pow y = one := by
  simp [Binary64.pow, hx, hy, hs]

lemma one_pow_of_isNaN {y : Binary64} (hs : y.isSignaling = false) (hy : y.isNaN) :
    one.pow y = one := by
  simp [Binary64.pow, hy, hs, pattern_ne_zero hy]

lemma pow_isNaN_left {x y : Binary64} (hx : x.isNaN) (hy : y.pattern ≠ 0) : (x.pow y).isNaN := by
  by_cases hyn : y.isNaN
  · simpa [Binary64.pow, hx, hy, hyn, ne_one_of_isNaN hx] using quiet_isNaN hx
  · simpa [Binary64.pow, hx, hy, hyn, ne_one_of_isNaN hx] using powNaN_isNaN y hx

lemma pow_isNaN_right {x y : Binary64} (hx : x ≠ one) (hy : y.isNaN) : (x.pow y).isNaN := by
  by_cases hxn : x.isNaN
  · exact pow_isNaN_left hxn (pattern_ne_zero hy)
  · simpa [Binary64.pow, hxn, hx, hy, pattern_ne_zero hy] using quiet_isNaN hy

/-- No operation gives a pattern that signals. -/
theorem apply_isSignaling (op : Operator) (x y : Binary64) :
    (op.apply x y).isSignaling = false := by
  cases op with
  | pow => exact pow_isSignaling x y
  | add | sub | mul | div | log => exact combine_isSignaling _ _ _

/-! ### Numbers up to the patterns that are not numbers -/

/-- Equality of numbers with all patterns that are not numbers identified. -/
def SameNumber (x y : Binary64) : Prop :=
  x = y ∨ x.isNaN ∧ y.isNaN

/-- The same number on both sides, without a signal on either. -/
structure Alike (x y : Binary64) : Prop where
  same : SameNumber x y
  left : x.isSignaling = false
  right : y.isSignaling = false

namespace Alike

variable {x x' y y' : Binary64}

lemma refl_of (h : x.isSignaling = false) : Alike x x :=
  ⟨.inl rfl, h, h⟩

lemma isNaN_iff (h : Alike x y) : x.isNaN ↔ y.isNaN := by
  rcases h.same with rfl | ⟨hx, hy⟩
  · rfl
  · simp [hx, hy]

lemma eq_of_number (h : Alike x y) (hx : ¬x.isNaN) : x = y := by
  rcases h.same with rfl | ⟨hn, _⟩
  · rfl
  · exact (hx hn).elim

lemma trans {z : Binary64} (h : Alike x y) (h' : Alike y z) : Alike x z := by
  refine ⟨?_, h.left, h'.right⟩
  by_cases hy : y.isNaN
  · exact .inr ⟨h.isNaN_iff.mpr hy, h'.isNaN_iff.mp hy⟩
  · rw [← h'.eq_of_number hy]
    exact h.same

lemma neg (h : Alike x y) : Alike (-x) (-y) := by
  refine ⟨?_, neg_isSignaling h.left, neg_isSignaling h.right⟩
  rcases h.same with rfl | ⟨hx, hy⟩
  · exact .inl rfl
  · exact .inr ⟨(neg_isNaN x).trans hx, (neg_isNaN y).trans hy⟩

lemma combine (f : Float → Float → Float) (hx : Alike x x') (hy : Alike y y') :
    Alike (combine f x y) (combine f x' y') := by
  refine ⟨?_, combine_isSignaling f x y, combine_isSignaling f x' y'⟩
  by_cases h : x.isNaN ∨ y.isNaN
  · have h' : x'.isNaN ∨ y'.isNaN := by rwa [← hx.isNaN_iff, ← hy.isNaN_iff]
    exact .inr ⟨combine_isNaN f h, combine_isNaN f h'⟩
  · rw [not_or] at h
    rw [hx.eq_of_number h.1, hy.eq_of_number h.2]
    exact .inl rfl

lemma log (h : Alike x y) : Alike x.log y.log := by
  refine ⟨?_, log_isSignaling x, log_isSignaling y⟩
  by_cases hx : x.isNaN
  · have hy := h.isNaN_iff.mp hx
    simp only [Binary64.log, hx, hy, if_true]
    exact .inr ⟨quiet_isNaN hx, quiet_isNaN hy⟩
  · rw [h.eq_of_number hx]
    exact .inl rfl

lemma pow (hx : Alike x x') (hy : Alike y y') : Alike (x.pow y) (x'.pow y') := by
  refine ⟨?_, pow_isSignaling x y, pow_isSignaling x' y'⟩
  by_cases hxn : x.isNaN
  · have hxn' := hx.isNaN_iff.mp hxn
    by_cases hyn : y.isNaN
    · have hyn' := hy.isNaN_iff.mp hyn
      exact .inr ⟨pow_isNaN_right (ne_one_of_isNaN hxn) hyn,
        pow_isNaN_right (ne_one_of_isNaN hxn') hyn'⟩
    · obtain rfl := hy.eq_of_number hyn
      by_cases h0 : y.pattern = 0
      · rw [pow_of_pattern_zero hx.left hxn h0, pow_of_pattern_zero hx.right hxn' h0]
        exact .inl rfl
      · exact .inr ⟨pow_isNaN_left hxn h0, pow_isNaN_left hxn' h0⟩
  · obtain rfl := hx.eq_of_number hxn
    by_cases hyn : y.isNaN
    · have hyn' := hy.isNaN_iff.mp hyn
      by_cases h1 : x = one
      · rw [h1, one_pow_of_isNaN hy.left hyn, one_pow_of_isNaN hy.right hyn']
        exact .inl rfl
      · exact .inr ⟨pow_isNaN_right h1 hyn, pow_isNaN_right h1 hyn'⟩
    · rw [hy.eq_of_number hyn]
      exact .inl rfl

/-- No operation tells apart two patterns that are not numbers. -/
theorem apply (op : Operator) (hx : Alike x x') (hy : Alike y y') :
    Alike (op.apply x y) (op.apply x' y') := by
  cases op with
  | add | sub | mul | div => exact hx.combine _ hy
  | pow => exact hx.pow hy
  | log => exact hy.log.combine _ hx.log

end Alike

/-! ### Multiplication in either order -/

lemma isCommutative_iff (op : Operator) : op.isCommutative = true ↔ op = .mul := by
  cases op <;> simp [Operator.isCommutative]

/-- Multiplication is the same in either order unless neither operand is a number. -/
theorem mul_comm_of_number {x y : Binary64} (h : ¬x.isNaN ∨ ¬y.isNaN) : x * y = y * x := by
  change combine _ x y = combine _ y x
  unfold combine
  by_cases hx : x.isNaN
  · have hy : y.isNaN = false := by simpa [hx] using h
    simp [hx, hy]
  · by_cases hy : y.isNaN
    · simp [hx, hy]
    · simp [hx, hy, float_mul_comm]

theorem mul_alike_comm (x y : Binary64) : Alike (x * y) (y * x) := by
  refine ⟨?_, combine_isSignaling _ x y, combine_isSignaling _ y x⟩
  by_cases h : x.isNaN
  · exact .inr ⟨combine_isNaN _ (.inl h), combine_isNaN _ (.inr h)⟩
  · exact .inl (mul_comm_of_number (.inl h))

end Reckoner.Proofs
