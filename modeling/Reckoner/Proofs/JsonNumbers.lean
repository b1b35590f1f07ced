import Mathlib.Tactic
import Reckoner.Proofs.JsonGrammar
import Reckoner.Proofs.ShortestDecimals

/-!
# Numbers as JSON has them

The text of a finite number has the form that JSON asks of numbers, in every layout: positional
texts have digits on both sides of the point, and the first digit of a decimal is never a zero that
another one follows.
-/

namespace Reckoner.Proofs
open Decimal Literal

section

variable {d : Digits} {p : ℕ}

lemma digitsValue_lt {digits : List Char} (h : ∀ c ∈ digits, c.isDigit) :
    digitsValue digits < 10 ^ digits.length := by
  induction digits with
  | nil => exact Nat.zero_lt_one
  | cons c rest ih =>
    obtain ⟨hc, hrest⟩ := List.forall_mem_cons.mp h
    have hdigit : digitValue c ≤ 9 := by
      simp only [Char.isDigit, Bool.and_eq_true, decide_eq_true_eq] at hc
      have hle : c.toNat ≤ 57 := UInt32.le_iff_toNat_le.mp hc.2
      change c.toNat - 48 ≤ 9
      omega
    calc digitsValue (c :: rest)
        = digitValue c * 10 ^ rest.length + digitsValue rest := digitsValue_cons c rest
      _ < digitValue c * 10 ^ rest.length + 10 ^ rest.length := Nat.add_lt_add_left (ih hrest) _
      _ = (digitValue c + 1) * 10 ^ rest.length := by ring
      _ ≤ 10 * 10 ^ rest.length := Nat.mul_le_mul_right _ (Nat.succ_le_succ hdigit)
      _ = 10 ^ (c :: rest).length := by rw [List.length_cons, pow_succ, mul_comm]

/-- A decimal does not start with a zero, as its first digit is at the place of the exponent. -/
lemma exists_first_digit (h : d.Writes p) : ∃ c rest, d.digits = c :: rest ∧ c ≠ '0' := by
  obtain ⟨c, rest, hdigits⟩ := List.exists_cons_of_ne_nil h.ne_nil
  refine ⟨c, rest, hdigits, ?_⟩
  rintro rfl
  have hrest : ∀ c ∈ rest, c.isDigit := fun c hc => h.isDigit c (by simp [hdigits, hc])
  have hlt : (digitsValue rest : ℚ) < 10 ^ (rest.length : ℤ) := by
    exact_mod_cast digitsValue_lt hrest
  have hzero : digitsValue d.digits = digitsValue rest := by
    rw [hdigits]
    exact digitsValue_leading_zeros 1 rest
  have hpower : d.exponent + 1 - d.digits.length = d.exponent - rest.length := by
    rw [hdigits, List.length_cons]
    push_cast
    ring
  have hbelow : d.value < 10 ^ d.exponent := by
    rw [Digits.value, hzero, hpower]
    calc (digitsValue rest : ℚ) * 10 ^ (d.exponent - rest.length)
        < 10 ^ (rest.length : ℤ) * 10 ^ (d.exponent - rest.length) :=
          mul_lt_mul_of_pos_right hlt (zpow_pos (by norm_num) _)
      _ = 10 ^ d.exponent := by
          rw [← zpow_add₀ (by norm_num)]
          congr 1
          ring
  exact hbelow.not_ge h.lower

lemma isWhole_cons {first : Char} {rest : List Char} (hfirst : first ≠ '0')
    (h : ∀ c ∈ first :: rest, c.isDigit) : IsWhole (first :: rest) :=
  ⟨⟨List.cons_ne_nil first rest, h⟩, fun hzero => absurd (Option.some.inj hzero) hfirst⟩

lemma isMagnitude_positional (h : d.Writes p) : IsMagnitude (positional d) := by
  obtain ⟨first, rest, hdigits, hfirst⟩ := exists_first_digit h
  unfold positional
  split_ifs with he
  · refine ⟨['0'], '.' :: (List.replicate ((-d.exponent).toNat - 1) '0' ++ d.digits), [], ?_, ?_,
      .inr ⟨_, rfl, ?_⟩, .inl rfl⟩
    · rw [List.append_nil]
      rfl
    · exact ⟨⟨by simp, by simp⟩, fun _ => rfl⟩
    · have hzeros : ∀ c ∈ List.replicate ((-d.exponent).toNat - 1) '0', c.isDigit :=
        fun c hc => isDigit_of_zeros hc
      exact ⟨by simp [h.ne_nil], List.forall_mem_append.mpr ⟨hzeros, h.isDigit⟩⟩
  · dsimp only
    generalize d.exponent.toNat = e
    refine ⟨d.digits.take (e + 1) ++ List.replicate (e + 1 - d.digits.length) '0',
      '.' :: (if (d.digits.drop (e + 1)).isEmpty then ['0'] else d.digits.drop (e + 1)), [], ?_, ?_,
      .inr ⟨_, rfl, ?_⟩, .inl rfl⟩
    · rw [List.append_nil]
    · have htake : ∀ c ∈ d.digits.take (e + 1), c.isDigit :=
        fun c hc => h.isDigit c (List.mem_of_mem_take hc)
      have hzeros : ∀ c ∈ List.replicate (e + 1 - d.digits.length) '0', c.isDigit :=
        fun c hc => isDigit_of_zeros hc
      have hwhole := List.forall_mem_append.mpr ⟨htake, hzeros⟩
      rw [hdigits, List.take_succ_cons, List.cons_append] at hwhole ⊢
      exact isWhole_cons hfirst hwhole
    · split_ifs with hempty
      · exact ⟨by simp, by simp⟩
      · exact ⟨by simpa using hempty, fun c hc => h.isDigit c (List.mem_of_mem_drop hc)⟩

/-- An exponent has a sign or none before its digits. -/
lemma exists_signed (plus : Bool) (e : ℤ) : ∃ sign digits,
    (if plus && 0 ≤ e then ['+'] else []) ++ (toString e).toList = sign ++ digits ∧
      sign ∈ [[], ['+'], ['-']] ∧ IsDigits digits := by
  have hnat : ∀ n : ℕ, IsDigits (toString n).toList := by
    intro n
    rw [Nat.toString_eq_ofList_toDigits, String.toList_ofList]
    exact ⟨Nat.toDigits_ne_nil, fun c => Nat.isDigit_of_mem_toDigits (by decide) (by decide)⟩
  rcases lt_or_ge e 0 with hneg | hnonneg
  · refine ⟨['-'], (toString (-e).toNat).toList, ?_, by simp, hnat _⟩
    rw [Int.toString_eq_repr, Int.repr_eq_if, if_neg hneg.not_ge, decide_eq_false hneg.not_ge,
      Bool.and_false, String.toList_append]
    rfl
  · refine ⟨if plus then ['+'] else [], (toString e.toNat).toList, ?_, by split_ifs <;> simp,
      hnat _⟩
    rw [Int.toString_eq_repr, Int.repr_eq_if, if_pos hnonneg, decide_eq_true hnonneg, Bool.and_true]
    rfl

lemma isMagnitude_scientific (plus : Bool) (h : d.Writes p) : IsMagnitude (scientific plus d) := by
  obtain ⟨first, rest, hdigits, hfirst⟩ := exists_first_digit h
  obtain ⟨sign, digits, hexponent, hsign, hisDigits⟩ := exists_signed plus d.exponent
  have hall : ∀ c ∈ first :: rest, c.isDigit := hdigits ▸ h.isDigit
  refine ⟨[first], if rest.isEmpty then [] else '.' :: rest, 'e' :: (sign ++ digits), ?_, ?_, ?_,
    .inr ⟨'e', sign, digits, rfl, by simp, hsign, hisDigits⟩⟩
  · rw [← hexponent, scientific, hdigits]
    simp
  · exact isWhole_cons hfirst (List.forall_mem_singleton.mpr (hall first List.mem_cons_self))
  · split_ifs with hempty
    · exact .inl rfl
    · exact .inr ⟨rest, rfl, by simpa using hempty, fun c hc => hall c (List.mem_cons_of_mem _ hc)⟩

lemma isMagnitude_magnitude (l : Layout) (p : ℕ) : IsMagnitude (l.magnitude p) := by
  rcases Nat.eq_zero_or_pos p with rfl | hp
  · exact ⟨['0'], ['.', '0'], [], rfl, ⟨⟨by simp, by simp⟩, fun _ => rfl⟩,
      .inr ⟨['0'], rfl, by simp, by simp⟩, .inl rfl⟩
  · rw [Layout.magnitude, if_neg hp.ne', Layout.digits]
    split_ifs
    · exact isMagnitude_positional (shortest_writes l.tie hp)
    · exact isMagnitude_scientific l.plus (shortest_writes l.tie hp)

/-- The text of a finite number is a number. -/
theorem isNumber_text (l : Layout) {x : Binary64} (hnan : x.isNaN = false)
    (hinfinite : x.isInfinite = false) : IsNumber (l.text x).toList := by
  refine ⟨if x.isNegative then ['-'] else [], l.magnitude x.pattern, ?_, ?_,
    isMagnitude_magnitude l x.pattern⟩
  · simp only [Layout.text, hnan, hinfinite, Bool.false_eq_true, if_false, String.toList_ofList]
  · split_ifs <;> simp

end

end Reckoner.Proofs
