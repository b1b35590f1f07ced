import Mathlib.Tactic
import Reckoner.Proofs.Spelling

/-!
# Patterns

The patterns of the raw lexemes, said without the scanner, and what a match of each is read as. A
number takes in any number of dots, so that a number with too many of them is still one lexeme. The
scanner finds a longest match of a pattern, or none where there is none.
-/

namespace Reckoner.Proofs
open Lexeme

/-- Digits, and then any number of dots, with or without digits behind each. -/
inductive Numeric : List Char → Prop
  | digits {whole : List Char} (hne : whole ≠ []) (h : ∀ c ∈ whole, c.isDigit) : Numeric whole
  | dot {number fraction : List Char} (hnumber : Numeric number) (h : ∀ c ∈ fraction, c.isDigit) :
    Numeric (number ++ '.' :: fraction)

/-- The lexemes of one character, but for the letter. -/
def symbol? : Char → Option Lexeme
  | '+' => some .plus
  | '-' => some .minus
  | '*' => some .star
  | '/' => some .slash
  | '^' => some .caret
  | '(' => some .leftParen
  | ')' => some .rightParen
  | ',' => some .comma
  | _ => none

/-- The patterns of lexemes, with what a match of each is read as. -/
inductive Pattern : List Char → Except LexErrorKind Lexeme → Prop
  | symbol {c : Char} {found : Lexeme} (h : symbol? c = some found) : Pattern [c] (.ok found)
  | logOpen : Pattern ['l', 'o', 'g', '('] (.ok .logOpen)
  | strayLetter : Pattern ['l'] (.ok .strayLetter)
  | number {own : List Char} (h : Numeric own) (hdots : own.count '.' ≤ 1) :
    Pattern own (.ok (.number (Literal.value own)))
  | invalidFloat {own : List Char} (h : Numeric own) (hdots : 1 < own.count '.') :
    Pattern own (.error .invalidFloat)

/-- No lexeme starts with the character. -/
def StartsNothing (c : Char) : Prop :=
  ∀ rest content, ¬Pattern (c :: rest) content

lemma Numeric.ne_nil {own : List Char} (h : Numeric own) : own ≠ [] := by
  cases h with
  | digits hne _ => exact hne
  | dot => simp

lemma Numeric.concat_digit {own : List Char} (h : Numeric own) {c : Char} (hc : c.isDigit) :
    Numeric (own ++ [c]) := by
  have hsnoc : ∀ {digits : List Char}, (∀ d ∈ digits, d.isDigit) →
      ∀ d ∈ digits ++ [c], d.isDigit := by
    intro digits hdigits d hd
    rcases List.mem_append.mp hd with hd | hd
    · exact hdigits d hd
    · rwa [List.mem_singleton.mp hd]
  cases h with
  | digits hne hwhole => exact .digits (by simp) (hsnoc hwhole)
  | dot hnumber hfraction =>
    rw [List.append_assoc, List.cons_append]
    exact .dot hnumber (hsnoc hfraction)

lemma numeric_cons_iff {c : Char} {rest : List Char} :
    Numeric (c :: rest) ↔ c.isDigit ∧ ∀ d ∈ rest, continuesNumber d := by
  constructor
  · intro h
    generalize hown : c :: rest = own at h
    induction h generalizing rest with
    | digits hne hwhole =>
      rw [← hown, List.forall_mem_cons] at hwhole
      exact ⟨hwhole.1, fun d hd => by simp [continuesNumber, hwhole.2 d hd]⟩
    | @dot number fraction hnumber hfraction ih =>
      rcases List.cons_eq_append_iff.mp hown with ⟨rfl, _⟩ | ⟨tail, rfl, rfl⟩
      · exact (hnumber.ne_nil rfl).elim
      · obtain ⟨hc, htail⟩ := ih rfl
        refine ⟨hc, fun d hd => ?_⟩
        rcases List.mem_append.mp hd with hd | hd
        · exact htail d hd
        · rcases List.mem_cons.mp hd with rfl | hd
          · rfl
          · simp [continuesNumber, hfraction d hd]
  · rintro ⟨hc, hrest⟩
    induction rest using List.reverseRecOn with
    | nil => exact .digits (by simp) (by simpa using hc)
    | append_singleton rest d ih =>
      have hnumeric := ih fun e he => hrest e (List.mem_append_left _ he)
      rw [← List.cons_append]
      by_cases hd : d.isDigit
      · exact hnumeric.concat_digit hd
      · have hdot : d = '.' := by simpa [continuesNumber, hd] using hrest d (by simp)
        rw [hdot]
        exact .dot hnumeric (by simp)

lemma Numeric.continues {own : List Char} (h : Numeric own) : ∀ c ∈ own, continuesNumber c := by
  obtain ⟨d, rest, rfl⟩ := List.exists_cons_of_ne_nil h.ne_nil
  obtain ⟨hd, hrest⟩ := numeric_cons_iff.mp h
  exact List.forall_mem_cons.mpr ⟨by simp [continuesNumber, hd], hrest⟩

/-! ### Which patterns start with a character -/

lemma symbol?_eq_some {c : Char} {found : Lexeme} (h : symbol? c = some found) :
    c.isDigit = false ∧ isSkipped c = false ∧ c ≠ 'l' ∧ ∀ rest, first c rest = (.ok found, 0) := by
  unfold symbol? at h
  split at h
  iterate 8 exact ⟨rfl, rfl, by decide, fun _ => by cases h; rfl⟩
  cases h

section

variable {c : Char} {rest : List Char} {content : Except LexErrorKind Lexeme}

lemma first_of_nothing (hsymbol : symbol? c = none) (hletter : c ≠ 'l') (hdigit : ¬c.isDigit) :
    first c rest = (.error .invalidInput, 0) := by
  unfold symbol? at hsymbol
  split at hsymbol
  iterate 8 cases hsymbol
  simp_all [first]

lemma pattern_of_symbol {found : Lexeme} (hc : symbol? c = some found) :
    Pattern (c :: rest) content ↔ rest = [] ∧ content = .ok found := by
  obtain ⟨hdigit, _, hletter, _⟩ := symbol?_eq_some hc
  constructor
  · intro h
    cases h with
    | symbol hsymbol =>
      rw [hc] at hsymbol
      cases hsymbol
      exact ⟨rfl, rfl⟩
    | logOpen | strayLetter => exact (hletter rfl).elim
    | number hnumeric | invalidFloat hnumeric => simp [numeric_cons_iff, hdigit] at hnumeric
  · rintro ⟨rfl, rfl⟩
    exact .symbol hc

lemma pattern_of_letter : Pattern ('l' :: rest) content ↔
    rest = ['o', 'g', '('] ∧ content = .ok .logOpen ∨ rest = [] ∧ content = .ok .strayLetter := by
  constructor
  · intro h
    cases h with
    | symbol hsymbol => cases hsymbol
    | logOpen => exact .inl ⟨rfl, rfl⟩
    | strayLetter => exact .inr ⟨rfl, rfl⟩
    | number hnumeric | invalidFloat hnumeric => cases (numeric_cons_iff.mp hnumeric).1
  · rintro (⟨rfl, rfl⟩ | ⟨rfl, rfl⟩)
    · exact .logOpen
    · exact .strayLetter

lemma pattern_of_digit (hc : c.isDigit) : Pattern (c :: rest) content ↔
    (∀ d ∈ rest, continuesNumber d) ∧ content = ofNumber (c :: rest) := by
  constructor
  · intro h
    cases h with
    | symbol hsymbol => simp [(symbol?_eq_some hsymbol).1] at hc
    | logOpen | strayLetter => cases hc
    | number hnumeric hdots =>
      exact ⟨(numeric_cons_iff.mp hnumeric).2, by rw [ofNumber, if_neg (not_lt.mpr hdots)]⟩
    | invalidFloat hnumeric hdots =>
      exact ⟨(numeric_cons_iff.mp hnumeric).2, by rw [ofNumber, if_pos hdots]⟩
  · rintro ⟨hrest, rfl⟩
    have hnumeric : Numeric (c :: rest) := numeric_cons_iff.mpr ⟨hc, hrest⟩
    unfold ofNumber
    split_ifs with hdots
    · exact .invalidFloat hnumeric hdots
    · exact .number hnumeric (not_lt.mp hdots)

lemma startsNothing_of_nothing (hsymbol : symbol? c = none) (hletter : c ≠ 'l')
    (hdigit : ¬c.isDigit) : StartsNothing c := by
  intro rest content h
  cases h with
  | symbol h => simp [hsymbol] at h
  | logOpen | strayLetter => exact hletter rfl
  | number hnumeric | invalidFloat hnumeric => exact hdigit (numeric_cons_iff.mp hnumeric).1

/-- The scanner finds a longest match. -/
lemma first_longest (c : Char) (rest : List Char) :
    (Pattern (c :: rest.take (first c rest).2) (first c rest).1 ∧
      ∀ longer content, longer <+: rest → Pattern (c :: longer) content →
        longer <+: rest.take (first c rest).2) ∨
    first c rest = (.error .invalidInput, 0) ∧ StartsNothing c := by
  cases hsymbol : symbol? c with
  | some found =>
    left
    rw [(symbol?_eq_some hsymbol).2.2.2 rest]
    refine ⟨.symbol hsymbol, fun longer content _ h => ?_⟩
    rw [((pattern_of_symbol hsymbol).mp h).1]
    exact List.nil_prefix
  | none =>
    by_cases hletter : c = 'l'
    · subst hletter
      left
      by_cases hlog : ['o', 'g', '('] <+: rest
      · obtain ⟨later, rfl⟩ := hlog
        refine ⟨.logOpen, fun longer content _ h => ?_⟩
        rcases pattern_of_letter.mp h with ⟨rfl, _⟩ | ⟨rfl, _⟩
        · exact List.prefix_refl _
        · exact List.nil_prefix
      · have hfirst : first 'l' rest = (.ok .strayLetter, 0) := by simp [first, hlog]
        rw [hfirst]
        refine ⟨.strayLetter, fun longer content hp h => ?_⟩
        rcases pattern_of_letter.mp h with ⟨rfl, _⟩ | ⟨rfl, _⟩
        · exact (hlog hp).elim
        · exact List.nil_prefix
    by_cases hdigit : c.isDigit
    · left
      rw [first_digit hdigit]
      have htake : rest.take (rest.takeWhile continuesNumber).length =
          rest.takeWhile continuesNumber :=
        (List.prefix_iff_eq_take.mp (List.takeWhile_prefix _)).symm
      simp only [htake]
      refine ⟨(pattern_of_digit hdigit).mpr ⟨fun d => List.mem_takeWhile_imp, rfl⟩, ?_⟩
      rintro longer content ⟨later, rfl⟩ h
      rw [List.takeWhile_append_of_pos ((pattern_of_digit hdigit).mp h).1]
      exact List.prefix_append _ _
    · exact .inr ⟨first_of_nothing hsymbol hletter hdigit,
        startsNothing_of_nothing hsymbol hletter hdigit⟩

end

/-! ### Characters of patterns -/

lemma Pattern.visible {own : List Char} {content : Except LexErrorKind Lexeme}
    (h : Pattern own content) : ∀ c ∈ own, isSkipped c = false := by
  have hnumeric : Numeric own → ∀ c ∈ own, isSkipped c = false := by
    intro h c hc
    obtain ⟨d, rest, rfl⟩ := List.exists_cons_of_ne_nil h.ne_nil
    obtain ⟨hd, hrest⟩ := numeric_cons_iff.mp h
    have hcontinues : continuesNumber c := by
      rcases List.mem_cons.mp hc with rfl | hc
      · simp [continuesNumber, hd]
      · exact hrest c hc
    by_contra hskipped
    simp [skipped_not_continues (by simpa using hskipped)] at hcontinues
  cases h with
  | symbol hsymbol => simpa using (symbol?_eq_some hsymbol).2.1
  | logOpen | strayLetter => simp [isSkipped]
  | number hown _ | invalidFloat hown _ => exact hnumeric hown

lemma Pattern.letter_not_mem {c : Char} {rest : List Char} {content : Except LexErrorKind Lexeme}
    (h : Pattern (c :: rest) content) : 'l' ∉ rest := by
  cases h with
  | symbol | strayLetter => exact List.not_mem_nil
  | logOpen => decide
  | number hnumeric _ | invalidFloat hnumeric _ =>
    intro hl
    cases (numeric_cons_iff.mp hnumeric).2 'l' hl

/-- How a lexeme is spelled, unless it is a number. -/
def spelling : Lexeme → List Char
  | .plus => ['+']
  | .minus => ['-']
  | .star => ['*']
  | .slash => ['/']
  | .caret => ['^']
  | .leftParen => ['(']
  | .rightParen => [')']
  | .comma => [',']
  | .logOpen => ['l', 'o', 'g', '(']
  | .strayLetter => ['l']
  | .number _ => []

lemma Pattern.spelled {own : List Char} {found : Lexeme} (h : Pattern own (.ok found))
    (hnumber : ∀ value, found ≠ .number value) : own = spelling found := by
  cases h with
  | symbol hsymbol =>
    unfold symbol? at hsymbol
    split at hsymbol
    iterate 8 cases hsymbol; rfl
    cases hsymbol
  | logOpen | strayLetter => rfl
  | number => exact (hnumber _ rfl).elim

lemma Pattern.of_number {own : List Char} {value : Binary64}
    (h : Pattern own (.ok (.number value))) :
    Numeric own ∧ own.count '.' ≤ 1 ∧ value = Literal.value own := by
  generalize hcontent : (Except.ok (.number value) : Except LexErrorKind Lexeme) = content at h
  cases h with
  | symbol hsymbol =>
    cases hcontent
    unfold symbol? at hsymbol
    split at hsymbol <;> cases hsymbol
  | logOpen | strayLetter => cases hcontent
  | number hnumeric hdots =>
    simp only [Except.ok.injEq, Lexeme.number.injEq] at hcontent
    exact ⟨hnumeric, hdots, hcontent⟩
  | invalidFloat => cases hcontent

lemma Pattern.kind_eq {own : List Char} {kind : LexErrorKind} (h : Pattern own (.error kind)) :
    kind = .invalidFloat ∧ Numeric own ∧ 1 < own.count '.' := by
  cases h with
  | invalidFloat hnumeric hdots => exact ⟨rfl, hnumeric, hdots⟩

end Reckoner.Proofs
