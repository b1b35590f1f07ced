import Mathlib.Tactic
import Reckoner.Proofs.ReadingSentences
import Reckoner.Proofs.Rounding
import Reckoner.Proofs.Stretches

/-!
# Literals

A literal denotes a decimal number, by the places of its digits. It is read as what this number is
rounded to, however many digits it has, so that zeros in front of it, zeros behind its fraction and
a dot behind it make no difference.
-/

namespace Reckoner.Proofs
open Binary64 Lexeme Literal Text

/-- Each digit counts ten times as much as the one behind it, and the last one is whole. -/
def wholeValue : List Char → ℚ
  | [] => 0
  | c :: rest => digitValue c * 10 ^ rest.length + wholeValue rest

/-- Each digit counts a tenth of the one before it, and the first one is a tenth. -/
def fractionValue : List Char → ℚ
  | [] => 0
  | c :: rest => (digitValue c + fractionValue rest) / 10

/-- The decimal number that a literal denotes. -/
def denoted (own : List Char) : ℚ :=
  wholeValue (own.takeWhile (· != '.')) + fractionValue ((own.dropWhile (· != '.')).drop 1)

/-- The literal is one token with the value: by itself, and wherever it is a lexeme of a text. -/
structure ReadsAs (own : List Char) (value : Binary64) : Prop where
  alone : tokenize (String.ofList own) = .ok [.number value]
  anywhere : ∀ (text : String) (x : Item) (s : Stretch text), x ∈ scan text → x.Covers s →
    s.own = own → ∀ last r, Reading.item last r x = .ok (r.push (.number value))

/-! ### Places -/

lemma digitsValue_append (digits digits' : List Char) : digitsValue (digits ++ digits') =
    digitsValue digits * 10 ^ digits'.length + digitsValue digits' := by
  induction digits' using List.reverseRecOn with
  | nil => simp [digitsValue]
  | append_singleton digits' c ih =>
    have hsnoc : ∀ front : List Char,
        digitsValue (front ++ [c]) = 10 * digitsValue front + digitValue c :=
      fun front => List.foldl_concat _ _ _ _
    rw [← List.append_assoc, hsnoc, hsnoc, ih, List.length_append, List.length_singleton, pow_succ]
    ring

lemma digitsValue_cons (c : Char) (rest : List Char) :
    digitsValue (c :: rest) = digitValue c * 10 ^ rest.length + digitsValue rest := by
  rw [← List.singleton_append, digitsValue_append]
  simp [digitsValue]

lemma wholeValue_eq (digits : List Char) : wholeValue digits = digitsValue digits := by
  induction digits with
  | nil => rfl
  | cons c rest ih =>
    rw [wholeValue, ih, digitsValue_cons]
    push_cast
    rfl

lemma fractionValue_eq (digits : List Char) :
    fractionValue digits = digitsValue digits / 10 ^ digits.length := by
  induction digits with
  | nil => simp [fractionValue, digitsValue]
  | cons c rest ih =>
    rw [fractionValue, ih, digitsValue_cons, List.length_cons, pow_succ]
    push_cast
    field_simp

lemma digitsValue_leading_zeros (k : ℕ) (digits : List Char) :
    digitsValue (List.replicate k '0' ++ digits) = digitsValue digits := by
  induction k with
  | zero => rfl
  | succ k ih =>
    rw [List.replicate_succ, List.cons_append, digitsValue_cons, ih]
    simp [digitValue]

lemma digitsValue_trailing_zeros (digits : List Char) (k : ℕ) :
    digitsValue (digits ++ List.replicate k '0') = digitsValue digits * 10 ^ k := by
  have hzeros : digitsValue (List.replicate k '0') = 0 := by
    simpa [digitsValue] using digitsValue_leading_zeros k []
  rw [digitsValue_append, hzeros, List.length_replicate, add_zero]

lemma wholeValue_zeros (k : ℕ) (digits : List Char) :
    wholeValue (List.replicate k '0' ++ digits) = wholeValue digits := by
  rw [wholeValue_eq, wholeValue_eq, digitsValue_leading_zeros]

lemma fractionValue_zeros (k : ℕ) (digits : List Char) :
    fractionValue (digits ++ List.replicate k '0') = fractionValue digits := by
  rw [fractionValue_eq, fractionValue_eq, digitsValue_trailing_zeros, List.length_append,
    List.length_replicate, pow_add]
  push_cast
  field_simp

/-! ### The value of a literal -/

section

variable {own other : List Char}

lemma denoted_whole (h : '.' ∉ own) : denoted own = wholeValue own := by
  have hwhole : ∀ c ∈ own, (c != '.') = true := fun c hc => by
    rw [bne_iff_ne]
    rintro rfl
    exact h hc
  rw [denoted, List.takeWhile_eq_self_iff.mpr hwhole, List.dropWhile_eq_nil_iff.mpr hwhole]
  exact add_zero _

lemma denoted_dot {whole fraction : List Char} (h : '.' ∉ whole) :
    denoted (whole ++ '.' :: fraction) = wholeValue whole + fractionValue fraction := by
  have hwhole : ∀ c ∈ whole, (c != '.') = true := fun c hc => by
    rw [bne_iff_ne]
    rintro rfl
    exact h hc
  rw [denoted, List.takeWhile_append_of_pos hwhole, List.dropWhile_append_of_pos hwhole]
  simp

lemma denoted_eq (own : List Char) :
    denoted own = digitsValue (own.takeWhile (· != '.') ++ (own.dropWhile (· != '.')).drop 1) /
      (10 ^ ((own.dropWhile (· != '.')).drop 1).length : ℕ) := by
  rw [denoted, wholeValue_eq, fractionValue_eq, digitsValue_append]
  push_cast
  field_simp

lemma denoted_nonneg (own : List Char) : 0 ≤ denoted own := by
  rw [denoted_eq]
  positivity

lemma exists_closest_denoted (own : List Char) :
    ∃ p, Closest (denoted own * perOne) p ∧ Literal.value own = clamp p := by
  rw [denoted_eq]
  exact exists_closest_nearest _ (Nat.pow_pos (by decide))

lemma value_roundsTo (own : List Char) : RoundsTo (denoted own) (Literal.value own) := by
  obtain ⟨p, hclosest, hvalue⟩ := exists_closest_denoted own
  rw [hvalue]
  exact hclosest.roundsTo (denoted_nonneg own)

lemma value_mono (h : denoted own ≤ denoted other) :
    AtMost (Literal.value own) (Literal.value other) := by
  obtain ⟨p, hclosest, hvalue⟩ := exists_closest_denoted own
  obtain ⟨p', hclosest', hvalue'⟩ := exists_closest_denoted other
  rw [hvalue, hvalue']
  exact clamp_mono (hclosest.mono hclosest' (mul_le_mul_of_nonneg_right h perOne_pos.le))

lemma value_congr (h : denoted own = denoted other) : Literal.value own = Literal.value other := by
  obtain ⟨p, hclosest, hvalue⟩ := exists_closest_denoted own
  obtain ⟨p', hclosest', hvalue'⟩ := exists_closest_denoted other
  rw [hvalue, hvalue', hclosest.unique (h ▸ hclosest')]

/-! ### Zeros and dots that make no difference -/

lemma denoted_leading_zeros (k : ℕ) (own : List Char) :
    denoted (List.replicate k '0' ++ own) = denoted own := by
  by_cases hdot : '.' ∈ own
  · obtain ⟨whole, fraction, rfl, hwhole⟩ := List.eq_append_cons_of_mem hdot
    rw [← List.append_assoc, denoted_dot (by simp [hwhole]), denoted_dot hwhole, wholeValue_zeros]
  · rw [denoted_whole (by simp [hdot]), denoted_whole hdot, wholeValue_zeros]

lemma denoted_trailing_zeros (hdot : '.' ∈ own) (k : ℕ) :
    denoted (own ++ List.replicate k '0') = denoted own := by
  obtain ⟨whole, fraction, rfl, hwhole⟩ := List.eq_append_cons_of_mem hdot
  rw [List.append_assoc, List.cons_append, denoted_dot hwhole, denoted_dot hwhole,
    fractionValue_zeros]

lemma denoted_trailing_dot (hdot : '.' ∉ own) : denoted (own ++ ['.']) = denoted own := by
  rw [denoted_dot hdot, denoted_whole hdot]
  exact add_zero _

lemma Numeric.leading_zeros (h : Numeric own) (k : ℕ) : Numeric (List.replicate k '0' ++ own) := by
  induction k with
  | zero => exact h
  | succ k ih => exact numeric_cons_iff.mpr ⟨rfl, ih.continues⟩

lemma Numeric.trailing_zeros (h : Numeric own) (k : ℕ) : Numeric (own ++ List.replicate k '0') := by
  induction k with
  | zero => rwa [List.replicate_zero, List.append_nil]
  | succ k ih =>
    rw [List.replicate_succ', ← List.append_assoc]
    exact ih.concat_digit rfl

/-! ### How a literal is read -/

/-- With one dot at most, a number is a numeral. -/
lemma Numeric.exists_numeral (h : Numeric own) (hdots : own.count '.' ≤ 1) :
    ∃ n : Numeral, own = n.head :: n.rest ∧ n.value = Literal.value own := by
  have hvalue : ∀ n : Numeral, own = n.head :: n.rest → n.value = Literal.value own := by
    rintro n rfl
    have hread := n.ofNumber_text
    rw [ofNumber, if_neg (not_lt.mpr hdots)] at hread
    exact (Lexeme.number.inj (Except.ok.inj hread)).symm
  suffices hnumeral : ∃ n : Numeral, own = n.head :: n.rest by
    obtain ⟨n, hn⟩ := hnumeral
    exact ⟨n, hn, hvalue n hn⟩
  cases h with
  | digits hne hwhole =>
    obtain ⟨c, rest, rfl⟩ := List.exists_cons_of_ne_nil hne
    exact ⟨⟨c, rest, none, by simpa using hwhole⟩, by simp [Numeral.rest]⟩
  | @dot number fraction hnumber hfraction =>
    obtain ⟨c, rest, rfl⟩ := List.exists_cons_of_ne_nil hnumber.ne_nil
    have hwhole : ∀ d ∈ c :: rest, d.isDigit := by
      intro d hd
      have hne : d ≠ '.' := by
        rintro rfl
        have hpos := List.count_pos_iff.mpr hd
        rw [List.count_append, List.count_cons_self] at hdots
        omega
      simpa [continuesNumber, hne] using hnumber.continues d hd
    refine ⟨⟨c, rest, some fraction, ?_⟩, by simp [Numeral.rest]⟩
    intro d hd
    rcases List.mem_append.mp hd with hd | hd
    · exact hwhole d hd
    · exact hfraction d hd

lemma Numeral.tokenize (n : Numeral) :
    Reckoner.tokenize (String.ofList (n.head :: n.rest)) = .ok [.number n.value] := by
  refine tokenize_spaced (.last [] (.number n)) ⟨Nat.zero_le _, trivial⟩ ?_
  have hspaced : Spaced [n.piece] ([] ++ n.head :: n.rest ++ []) :=
    .cons [] (by simp) (.nil [] (by simp))
  rw [String.toList_ofList]
  simpa [Infix.pieces, Atom.pieces] using hspaced

lemma readsAs_value (h : Numeric own) (hdots : own.count '.' ≤ 1) :
    ReadsAs own (Literal.value own) where
  alone := by
    obtain ⟨n, rfl, hvalue⟩ := h.exists_numeral hdots
    rw [n.tokenize, hvalue]
  anywhere := by
    intro text x s hx hcovers hown last r
    have hcontent : x.content = .ok (.number (Literal.value own)) := by
      obtain ⟨d, rest, rfl⟩ := List.exists_cons_of_ne_nil h.ne_nil
      obtain ⟨hd, _⟩ := numeric_cons_iff.mp h
      cases longestMatch_of_covers hx hcovers with
      | lexeme hpattern _ =>
        rw [hown, pattern_of_digit hd, ofNumber, if_neg (not_lt.mpr hdots)] at hpattern
        exact hpattern.2
      | @invalid c hc _ hnone =>
        rw [hown] at hc
        cases hc
        exact (hnone _ _ (.number h hdots)).elim
    rw [Reading.item, hcontent]
    rfl

lemma ReadsAs.unique {value value' : Binary64} (h : ReadsAs own value) (h' : ReadsAs own value') :
    value = value' := by
  have heq := h.alone.symm.trans h'.alone
  simpa using heq

/-- A literal with one dot at most is read as the number that is nearest to what it denotes. The
values of literals are in the order of what they denote, and neither zeros at the ends nor a dot
behind the literal change the value. -/
theorem literals_correctly_rounded (hown : Numeric own) (hdots : own.count '.' ≤ 1) :
    ∃ value, ReadsAs own value ∧ RoundsTo (denoted own) value ∧
      (∀ other value', Numeric other → other.count '.' ≤ 1 → ReadsAs other value' →
        denoted own ≤ denoted other → AtMost value value') ∧
      (∀ k, ReadsAs (List.replicate k '0' ++ own) value) ∧
      ('.' ∈ own → ∀ k, ReadsAs (own ++ List.replicate k '0') value) ∧
      ('.' ∉ own → ReadsAs (own ++ ['.']) value) := by
  refine ⟨Literal.value own, readsAs_value hown hdots, value_roundsTo own, ?_, fun k => ?_,
    fun hdot k => ?_, fun hdot => ?_⟩
  · intro other value' hother hdots' hread hle
    rw [hread.unique (readsAs_value hother hdots')]
    exact value_mono hle
  · rw [← value_congr (denoted_leading_zeros k own)]
    exact readsAs_value (hown.leading_zeros k) (by simpa [List.count_replicate] using hdots)
  · rw [← value_congr (denoted_trailing_zeros hdot k)]
    exact readsAs_value (hown.trailing_zeros k) (by simpa [List.count_replicate] using hdots)
  · rw [← value_congr (denoted_trailing_dot hdot)]
    refine readsAs_value (.dot hown (by simp)) ?_
    rw [List.count_append, List.count_eq_zero.mpr hdot]
    decide

end

/-- The literal `9007199254740993`, which is halfway between two numbers. -/
def halfway : List Char :=
  ['9', '0', '0', '7', '1', '9', '9', '2', '5', '4', '7', '4', '0', '9', '9', '3']

theorem halfway_to_even :
    Numeric (halfway ++ ['.']) ∧ (halfway ++ ['.']).count '.' ≤ 1 ∧
      RoundsTo 9007199254740993 ⟨0x4340000000000000⟩ ∧
      ∀ k, ReadsAs (halfway ++ ['.'] ++ List.replicate k '0') ⟨0x4340000000000000⟩ := by
  have hdigits : halfway.all Char.isDigit := by decide
  have hown : Numeric (halfway ++ ['.']) :=
    .dot (.digits (List.cons_ne_nil _ _) (List.all_eq_true.mp hdigits)) (by simp)
  have hdots : (halfway ++ ['.']).count '.' ≤ 1 := by decide
  obtain ⟨value, hread, hround, _, _, hzeros, _⟩ := literals_correctly_rounded hown hdots
  have halone : tokenize (String.ofList (halfway ++ ['.'])) =
    .ok [.number ⟨0x4340000000000000⟩] := by decide +kernel
  have hvalue : value = ⟨0x4340000000000000⟩ := by
    have heq := hread.alone.symm.trans halone
    simpa using heq
  have hdenoted : denoted (halfway ++ ['.']) = 9007199254740993 := by
    have hdecimal : digitsValue halfway = 9007199254740993 := by decide
    rw [denoted_trailing_dot (by decide), denoted_whole (by decide), wholeValue_eq, hdecimal]
    norm_num
  rw [hvalue, hdenoted] at hround
  rw [hvalue] at hzeros
  exact ⟨hown, hdots, hround, hzeros (by decide)⟩

end Reckoner.Proofs
