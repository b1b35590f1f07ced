import Mathlib.Tactic
import Reckoner.Proofs.PlainEvaluation
import Reckoner.Proofs.ShortestDecimals

/-!
# Texts of numbers

From `0.0001` to below `10 ^ 16` the text of a number is a literal behind at most one sign, and the
literal denotes the shortest decimal. It is read as one number, and evaluated to the number that was
written, down to the sign of zero.
-/

namespace Reckoner.Proofs
open Binary64 Decimal Literal

/-! ### Positional texts -/

/-- The point stands between digits, and these come to what the decimal stands for. -/
structure Pointed (d : Digits) (text : List Char) (whole fraction : List Char) : Prop where
  text_eq : text = whole ++ '.' :: fraction
  ne_nil : whole ≠ []
  isDigit : ∀ c ∈ whole ++ fraction, c.isDigit
  value : wholeValue whole + fractionValue fraction = d.value

section

variable {d : Digits}

lemma value_of_cut {more : ℕ} (h : d.exponent + 1 + more = d.digits.length) :
    d.value = digitsValue d.digits / 10 ^ more := by
  have hpower : d.exponent + 1 - d.digits.length = -(more : ℤ) := by omega
  rw [Digits.value, hpower, zpow_neg, zpow_natCast, div_eq_mul_inv]

lemma value_of_padded {zeros : ℕ} (h : d.exponent + 1 = d.digits.length + zeros) :
    d.value = digitsValue d.digits * 10 ^ zeros := by
  have hpower : d.exponent + 1 - d.digits.length = (zeros : ℤ) := by omega
  rw [Digits.value, hpower, zpow_natCast]

/-- The digits stand behind the point, after some zeros. -/
lemma pointed_of_negative (hdigits : ∀ c ∈ d.digits, c.isDigit) (he : d.exponent < 0) :
    ∃ whole fraction, Pointed d (positional d) whole fraction := by
  obtain ⟨zeros, hzeros⟩ : ∃ zeros : ℕ, d.exponent + 1 = -zeros :=
    ⟨(-d.exponent).toNat - 1, by omega⟩
  have hcount : (-d.exponent).toNat - 1 = zeros := by omega
  have hvalue := value_of_cut
    (by omega : d.exponent + 1 + (zeros + d.digits.length : ℕ) = d.digits.length)
  refine ⟨['0'], List.replicate zeros '0' ++ d.digits, ?_, List.cons_ne_nil _ _, fun c hc => ?_, ?_⟩
  · rw [positional, if_pos he, hcount]
    rfl
  · rcases List.mem_append.mp hc with hc | hc
    · exact isDigit_of_zeros (k := 1) hc
    · exact (List.mem_append.mp hc).elim isDigit_of_zeros (hdigits c)
  · rw [fractionValue_eq, digitsValue_leading_zeros, List.length_append, List.length_replicate,
      hvalue]
    simp [wholeValue, digitValue]

lemma positional_eq {e : ℕ} (he : d.exponent = e) : positional d =
    d.digits.take (e + 1) ++ List.replicate (e + 1 - d.digits.length) '0' ++
      '.' :: (if (d.digits.drop (e + 1)).isEmpty then ['0'] else d.digits.drop (e + 1)) := by
  rw [positional, if_neg (by omega), he]
  rfl

/-- The point stands between two of the digits. -/
lemma pointed_of_cut {e more : ℕ} (hdigits : ∀ c ∈ d.digits, c.isDigit) (he : d.exponent = e)
    (hlength : d.digits.length = e + 1 + (more + 1)) :
    Pointed d (positional d) (d.digits.take (e + 1)) (d.digits.drop (e + 1)) := by
  have hsplit := List.take_append_drop (e + 1) d.digits
  have hdrop : (d.digits.drop (e + 1)).length = more + 1 := by
    rw [List.length_drop, hlength, Nat.add_sub_cancel_left]
  have hvalue := digitsValue_append (d.digits.take (e + 1)) (d.digits.drop (e + 1))
  rw [hsplit, hdrop] at hvalue
  refine ⟨?_, ?_, by rwa [hsplit], ?_⟩
  · have hne : (d.digits.drop (e + 1)).isEmpty = false := by
      rw [List.isEmpty_eq_false_iff, ← List.length_pos_iff, hdrop]
      exact Nat.succ_pos more
    rw [positional_eq he, hne, Nat.sub_eq_zero_of_le (by omega)]
    simp
  · rw [← List.length_pos_iff, List.length_take, hlength]
    omega
  · rw [wholeValue_eq, fractionValue_eq, hdrop,
      value_of_cut (by omega : d.exponent + 1 + (more + 1 : ℕ) = d.digits.length), hvalue]
    push_cast
    field_simp

/-- The digits stand in front of the point, before some zeros. -/
lemma pointed_of_padded {e zeros : ℕ} (hne : d.digits ≠ []) (hdigits : ∀ c ∈ d.digits, c.isDigit)
    (he : d.exponent = e) (hlength : e + 1 = d.digits.length + zeros) :
    Pointed d (positional d) (d.digits ++ List.replicate zeros '0') ['0'] := by
  have hle : d.digits.length ≤ e + 1 := by omega
  have hvalue := value_of_padded (by omega : d.exponent + 1 = d.digits.length + (zeros : ℕ))
  refine ⟨?_, by simp [hne], fun c hc => ?_, ?_⟩
  · rw [positional_eq he, List.take_of_length_le hle, List.drop_of_length_le hle]
    simp [hlength]
  · rcases List.mem_append.mp hc with hc | hc
    · exact (List.mem_append.mp hc).elim (hdigits c) isDigit_of_zeros
    · exact isDigit_of_zeros (k := 1) hc
  · rw [wholeValue_eq, digitsValue_trailing_zeros, hvalue]
    simp [fractionValue, digitValue]

lemma exists_pointed (hne : d.digits ≠ []) (hdigits : ∀ c ∈ d.digits, c.isDigit) :
    ∃ whole fraction, Pointed d (positional d) whole fraction := by
  rcases lt_or_ge d.exponent 0 with hneg | hnonneg
  · exact pointed_of_negative hdigits hneg
  · obtain ⟨e, he⟩ : ∃ e : ℕ, d.exponent = e := ⟨d.exponent.toNat, by omega⟩
    rcases Nat.lt_or_ge (e + 1) d.digits.length with hlt | hge
    · obtain ⟨more, hmore⟩ := Nat.exists_eq_add_of_lt hlt
      exact ⟨_, _, pointed_of_cut hdigits he hmore⟩
    · obtain ⟨zeros, hzeros⟩ := Nat.exists_eq_add_of_le hge
      exact ⟨_, _, pointed_of_padded hne hdigits he hzeros⟩

end

/-! ### Which exponents there are -/

section

variable {p : ℕ}

lemma perOne_eq : perOne = (1 <<< 1074 : ℕ) := by
  rw [cast_shiftLeft, Nat.cast_one, one_mul, perOne]

/-- The pattern of `10 ^ 16`, from which on texts are not positional. -/
def leastScientific : ℕ := 1075 * 2 ^ 52 + 5 * 10 ^ 15

lemma units_leastScientific : (units leastScientific : ℚ) = 10 ^ 16 * perOne := by
  have hnat : units leastScientific = 10 ^ 16 * (1 <<< 1074) := by decide +kernel
  rw [hnat, perOne_eq, Nat.cast_mul, Nat.cast_pow, Nat.cast_ofNat]

lemma lt_leastScientific (h : units p / perOne < 10 ^ 16) : p < leastScientific := by
  by_contra hge
  have hle := units_cast_le (not_lt.mp hge)
  rw [units_leastScientific] at hle
  rw [div_lt_iff₀ perOne_pos] at h
  linarith

/-- As `10 ^ 16` is a number itself, nothing below it is written with a larger exponent. -/
lemma exponent_lt (hp : 0 < p) (h : units p / perOne < 10 ^ 16) (tie : Tie) :
    (shortest tie (.ofPattern p)).exponent < 16 := by
  have hwrites := shortest_writes tie hp
  generalize shortest tie (.ofPattern p) = d at *
  by_contra hge
  rw [not_lt] at hge
  have hpower : (10 ^ 16 : ℚ) ≤ d.value := by
    have hle : (10 : ℚ) ^ (16 : ℤ) ≤ 10 ^ d.exponent := zpow_le_zpow_right₀ (by norm_num) hge
    exact_mod_cast hle.trans hwrites.lower
  have hmono := (closest_units leastScientific).mono hwrites.closest
    (units_leastScientific ▸ mul_le_mul_of_nonneg_right hpower perOne_pos.le)
  exact hmono.not_gt (lt_leastScientific h)

/-- The pattern of the least number that is not below `0.0001`. -/
def leastPositional : ℕ := 0x3F1A36E2EB1C432D

lemma closest_leastPositional : Closest (1 / 10 ^ 4 * perOne) leastPositional := by
  obtain ⟨p, hclosest, hpattern⟩ := exists_closest 1 (by decide : 0 < 10000)
  have hnearest : nearestPattern 1 10000 = leastPositional := by decide +kernel
  have hfinite : leastPositional < infinitePattern := by decide
  obtain rfl : p = leastPositional := by omega
  convert hclosest using 2
  norm_num

lemma leastPositional_le (h : 1 / 10 ^ 4 ≤ units p / perOne) : leastPositional ≤ p := by
  by_contra hlt
  have hle := units_cast_le (by omega : p ≤ leastPositional - 1)
  have hnat : 10 ^ 4 * units (leastPositional - 1) < 1 <<< 1074 := by decide +kernel
  have hless : (10 ^ 4 * units (leastPositional - 1) : ℚ) < perOne := by
    rw [perOne_eq]
    exact_mod_cast hnat
  rw [le_div_iff₀ perOne_pos] at h
  linarith

/-- Nothing but the number nearest to `0.0001` could be written below that, and it is not. -/
lemma le_exponent (hp : 0 < p) (h : 1 / 10 ^ 4 ≤ units p / perOne) :
    -4 ≤ (shortest .up (.ofPattern p)).exponent := by
  have hwrites := shortest_writes .up hp
  by_contra hlt
  rw [not_le] at hlt
  have hpower : (shortest .up (.ofPattern p)).value ≤ 1 / 10 ^ 4 := by
    have hle : (10 : ℚ) ^ ((shortest .up (.ofPattern p)).exponent + 1) ≤ 10 ^ (-4 : ℤ) :=
      zpow_le_zpow_right₀ (by norm_num) (by omega)
    have heq : (10 : ℚ) ^ (-4 : ℤ) = 1 / 10 ^ 4 := by norm_num
    exact heq ▸ hwrites.upper.le.trans hle
  have hupper := hwrites.closest.mono closest_leastPositional
    (mul_le_mul_of_nonneg_right hpower perOne_pos.le)
  obtain rfl : p = leastPositional := le_antisymm hupper (leastPositional_le h)
  have hexponent : (shortest .up (.ofPattern leastPositional)).exponent = -4 := by decide +kernel
  omega

end

/-! ### Reading texts back -/

section

variable {p : ℕ}

/-- Zero, or a magnitude that is written positionally. -/
def IsPositional (p : ℕ) : Prop :=
  p = 0 ∨ 1 / 10 ^ 4 ≤ units p / perOne ∧ units p / perOne < 10 ^ 16

lemma IsPositional.finite (h : IsPositional p) : p < infinitePattern := by
  rcases h with rfl | ⟨_, hlt⟩
  · decide
  · exact (lt_leastScientific hlt).trans (by decide)

lemma magnitude_text (h : IsPositional p) : Numeric (Layout.result.magnitude p) ∧
    (Layout.result.magnitude p).count '.' ≤ 1 ∧
      Literal.value (Layout.result.magnitude p) = clamp p := by
  by_cases hzero : p = 0
  · subst hzero
    refine ⟨?_, by decide, by decide +kernel⟩
    exact .dot (.digits (List.cons_ne_nil '0' []) (by simp)) (by simp)
  · obtain ⟨hlower, hupper⟩ := h.resolve_left hzero
    have hp := Nat.pos_of_ne_zero hzero
    have hwrites := shortest_writes .up hp
    have htext : Layout.result.magnitude p = positional (shortest .up (.ofPattern p)) := by
      rw [Layout.magnitude, if_neg hzero, Layout.digits, if_pos]
      · rfl
      · exact ⟨le_exponent hp hlower, Int.le_of_lt_add_one (exponent_lt hp hupper .up)⟩
    obtain ⟨whole, fraction, htext', hne, hdigits, hvalue⟩ :=
      exists_pointed hwrites.ne_nil hwrites.isDigit
    rw [List.forall_mem_append] at hdigits
    have hdot : ∀ {digits : List Char}, (∀ c ∈ digits, c.isDigit) → '.' ∉ digits :=
      fun hdigits hmem => absurd (hdigits _ hmem) (by decide)
    rw [htext, htext']
    refine ⟨.dot (.digits hne hdigits.1) hdigits.2, ?_, ?_⟩
    · rw [List.count_append, List.count_cons_self, List.count_eq_zero.mpr (hdot hdigits.1),
        List.count_eq_zero.mpr (hdot hdigits.2)]
    · obtain ⟨q, hclosest, hread⟩ := exists_closest_denoted (whole ++ '.' :: fraction)
      rw [denoted_dot (hdot hdigits.1), hvalue] at hclosest
      rw [hread, hclosest.unique hwrites.closest]

end

/-! ### Signs -/

lemma isNegative_eq (x : Binary64) : x.isNegative = x.bits.toBitVec.msb := by
  rw [BitVec.msb_eq_decide]
  rfl

lemma neg_isNegative (x : Binary64) : (-x).isNegative = !x.isNegative := by
  rw [isNegative_eq, isNegative_eq]
  change (x.bits.toBitVec ^^^ 0x8000000000000000#64).msb = _
  rw [BitVec.msb_xor]
  exact Bool.xor_true _

lemma neg_pattern (x : Binary64) : (-x).pattern = x.pattern := by
  change (x.bits.toNat ^^^ 2 ^ 63) % 2 ^ 63 = x.bits.toNat % 2 ^ 63
  rw [Nat.xor_mod_two_pow, Nat.mod_self, Nat.xor_zero]

lemma neg_neg_eq (x : Binary64) : - -x = x := by
  change Binary64.mk (x.bits ^^^ 0x8000000000000000 ^^^ 0x8000000000000000) = x
  rw [UInt64.xor_assoc, UInt64.xor_self, UInt64.xor_zero]

lemma eq_clamp {x : Binary64} (hx : x.isNegative = false) (hfinite : x.pattern < infinitePattern) :
    x = clamp x.pattern := by
  have hbits : x.bits.toNat = x.pattern :=
    (Nat.mod_eq_of_lt (not_le.mp (of_decide_eq_false hx))).symm
  have heq : x.bits = (clamp x.pattern).bits :=
    UInt64.toNat_inj.mp (by rw [clamp_bits, hbits, Nat.min_eq_right hfinite.le])
  exact congrArg Binary64.mk heq

/-- With its sign a number is the clamped pattern or the opposite of that. -/
lemma eq_clamp_or_neg {x : Binary64} (hfinite : x.pattern < infinitePattern) :
    x = if x.isNegative then -clamp x.pattern else clamp x.pattern := by
  split_ifs with hx
  · have hneg := eq_clamp (x := -x) (by rw [neg_isNegative, hx]; rfl) (by rwa [neg_pattern])
    rw [neg_pattern] at hneg
    rw [← hneg, neg_neg_eq]
  · exact eq_clamp (by simpa using hx) hfinite

/-! ### Reading number texts -/

lemma numberText_eq {x : Binary64} (h : IsPositional x.pattern) : numberText x =
    String.ofList ((if x.isNegative then ['-'] else []) ++ Layout.result.magnitude x.pattern) := by
  have hnan : x.isNaN = false := decide_eq_false h.finite.not_gt
  have hinfinite : x.isInfinite = false := beq_eq_false_iff_ne.mpr h.finite.ne
  simp only [numberText, Layout.text, hnan, hinfinite, Bool.false_eq_true, if_false]

lemma Numeral.tokenize_negative (n : Numeral) :
    Reckoner.tokenize (String.ofList ('-' :: n.head :: n.rest)) =
      .ok [.operator .sub .unary, .number n.value] := by
  refine tokenize_spaced (.last [⟨.sub, rfl⟩] (.number n)) ⟨Nat.le_refl 1, trivial⟩ ?_
  have hspaced : Spaced [(Sign.joint ⟨.sub, rfl⟩).mark, n.piece]
      ([] ++ '-' :: [] ++ ([] ++ n.head :: n.rest ++ [])) :=
    .cons [] (by simp) (.cons [] (by simp) (.nil [] (by simp)))
  rw [String.toList_ofList]
  simpa [Infix.pieces, Atom.pieces, Sign.joint] using hspaced

lemma sequence_of_tokenize {text : String} {tokens ordered : List Token}
    (h : tokenize text = .ok tokens) (hordered : toPostfixOrder tokens = .ok ordered) :
    sequence text = .ok ordered := by
  simp only [sequence, h, hordered]
  rfl

/-- Operations that need no memory come to the same with any. -/
lemma runOn_of_sequence {text : String} {tokens : List Token} {result : Evaluation}
    (h : sequence text = .ok tokens) (hrun : ∀ world, ((evaluate tokens).run world).1 = .ok result)
    (memory : Memory) : ((Expression.evaluate text).runOn memory).1 = .ok result := by
  obtain ⟨records, heq⟩ := evaluate_eq text
  simp only [Job.runOn, heq, run_bind, h, hrun]
  rfl

lemma abs_toRat (x : Binary64) : |x.toRat| = units x.pattern / perOne := by
  have hunits : 0 ≤ units x.pattern / perOne := div_nonneg (Nat.cast_nonneg _) perOne_pos.le
  unfold toRat
  split_ifs
  · rw [abs_neg, abs_of_nonneg hunits]
  · exact abs_of_nonneg hunits

lemma isPositional_of_toRat {x : Binary64}
    (hx : x.toRat = 0 ∨ 1 / 10 ^ 4 ≤ |x.toRat| ∧ |x.toRat| < 10 ^ 16) : IsPositional x.pattern := by
  rw [← abs_eq_zero, abs_toRat, div_eq_zero_iff, Nat.cast_eq_zero, or_iff_left perOne_pos.ne'] at hx
  exact hx.imp_left fun hzero => units_strictMono.injective (hzero.trans units_zero.symm)

/-- The text of a number is read back as the number, down to the sign of zero, and as one token
unless there is a sign. -/
theorem numberText_read_back (x : Binary64)
    (hx : x.toRat = 0 ∨ 1 / 10 ^ 4 ≤ |x.toRat| ∧ |x.toRat| < 10 ^ 16) :
    (∀ memory, ∃ tree, ((Expression.evaluate (numberText x)).runOn memory).1 = .ok ⟨x, tree⟩) ∧
      (x.isNegative = false → tokenize (numberText x) = .ok [.number x]) := by
  have hpositional := isPositional_of_toRat hx
  obtain ⟨hnumeric, hdots, hvalue⟩ := magnitude_text hpositional
  have heq := eq_clamp_or_neg hpositional.finite
  rw [numberText_eq hpositional]
  cases hsign : x.isNegative with
  | true =>
    obtain ⟨n, hn, hread⟩ := hnumeric.exists_numeral hdots
    rw [hsign, if_pos rfl] at heq
    have htokens := n.tokenize_negative
    rw [← hn, hread, hvalue] at htokens
    refine ⟨fun memory => ?_, fun hpositive => (Bool.false_ne_true hpositive.symm).elim⟩
    have hrun := runOn_of_sequence (sequence_of_tokenize htokens rfl) (fun _ => rfl) memory
    rw [← heq] at hrun
    exact ⟨_, hrun⟩
  | false =>
    rw [hsign, if_neg Bool.false_ne_true] at heq
    have htokens := (readsAs_value hnumeric hdots).alone
    rw [hvalue, ← heq] at htokens
    refine ⟨fun memory => ⟨.number x, ?_⟩, fun _ => htokens⟩
    exact runOn_of_sequence (sequence_of_tokenize htokens rfl) (fun _ => rfl) memory

/-- The number next above `0.3`, which takes seventeen digits. -/
def aboveThreeTenths : Binary64 := ⟨0x3FD3333333333334⟩

theorem aboveThreeTenths_read_back :
    1 / 10 ^ 4 ≤ |aboveThreeTenths.toRat| ∧ |aboveThreeTenths.toRat| < 10 ^ 16 ∧
      tokenize "0.30000000000000004" = .ok [.number aboveThreeTenths] ∧
      ∀ memory, ∃ tree, ((Expression.evaluate "0.30000000000000004").runOn memory).1 =
        .ok ⟨aboveThreeTenths, tree⟩ := by
  have hlower : 1 <<< 1074 ≤ units aboveThreeTenths.pattern * 10 ^ 4 := by decide +kernel
  have hupper : units aboveThreeTenths.pattern < 10 ^ 16 * 1 <<< 1074 := by decide +kernel
  have hrange : 1 / 10 ^ 4 ≤ |aboveThreeTenths.toRat| ∧ |aboveThreeTenths.toRat| < 10 ^ 16 := by
    rw [abs_toRat, div_lt_iff₀ perOne_pos, div_le_div_iff₀ (by norm_num) perOne_pos, one_mul,
      perOne_eq]
    exact ⟨by exact_mod_cast hlower, by exact_mod_cast hupper⟩
  have htext : numberText aboveThreeTenths = "0.30000000000000004" := by decide +kernel
  obtain ⟨hread, htokens⟩ := numberText_read_back aboveThreeTenths (.inr hrange)
  rw [htext] at hread htokens
  exact ⟨hrange.1, hrange.2, htokens rfl, hread⟩

end Reckoner.Proofs
