import Mathlib.Tactic
import Mathlib.Data.List.TakeWhile
import Reckoner.Lexeme
import Reckoner.Proofs.Sentences

/-!
# Spelling

How a sentence is written: each of its lexemes is a piece of text, and blanks may stand before,
between and after the pieces. A piece knows that the scanner takes it as one lexeme in front of
whatever may follow it, which is anything at all unless the piece is a number.
-/

namespace Reckoner.Proofs
open Lexeme

/-- What may follow a piece of text that is a number. -/
def EndsNumber (rest : List Char) : Prop :=
  ∀ c ∈ rest.head?, continuesNumber c = false

/-- The text of one lexeme. -/
structure Piece where
  head : Char
  tail : List Char
  lexeme : Lexeme
  isNumber : Bool
  visible : Text.isBlank head = false
  apart : isNumber = false → continuesNumber head = false
  scanned : ∀ rest, (isNumber → EndsNumber rest) →
    first head (tail ++ rest) = (.ok lexeme, tail.length)

/-- Digits, and possibly a dot with digits after it. -/
structure Numeral where
  head : Char
  tail : List Char
  fraction : Option (List Char)
  digits : ∀ c ∈ head :: tail ++ fraction.getD [], c.isDigit

namespace Numeral

def rest (n : Numeral) : List Char :=
  n.tail ++ match n.fraction with
    | none => []
    | some digits => '.' :: digits

/-- The number nearest to what the digits say. -/
def value (n : Numeral) : Binary64 :=
  let fraction := n.fraction.getD []
  Binary64.nearest (Literal.digitsValue (n.head :: n.tail ++ fraction)) (10 ^ fraction.length)

end Numeral

/-! ### Characters of numbers -/

lemma isDigit_ne {c d : Char} (hc : c.isDigit) (hd : d.isDigit = false) : (c == d) = false := by
  rw [beq_eq_false_iff_ne]
  rintro rfl
  rw [hc] at hd
  cases hd

lemma isDigit_not_blank {c : Char} (hc : c.isDigit) : Text.isBlank c = false := by
  simp only [Char.isDigit, Bool.and_eq_true, decide_eq_true_eq, UInt32.le_iff_toNat_le] at hc
  have h0 : '0'.val.toNat = 48 := rfl
  have h9 : '9'.val.toNat = 57 := rfl
  simp only [Text.isBlank, Bool.or_eq_false_iff, Bool.and_eq_false_iff, decide_eq_false_iff_not,
    beq_eq_false_iff_ne, Char.toNat]
  omega

lemma skipped_not_continues {c : Char} (hc : isSkipped c) : continuesNumber c = false := by
  simp only [isSkipped, Bool.or_eq_true, beq_iff_eq] at hc
  rcases hc with (((rfl | rfl) | rfl) | rfl) | rfl <;> decide

lemma skipped_blank {c : Char} (hc : isSkipped c) : Text.isBlank c := by
  simp only [isSkipped, Bool.or_eq_true, beq_iff_eq] at hc
  rcases hc with (((rfl | rfl) | rfl) | rfl) | rfl <;> decide

lemma first_digit {c : Char} (hc : c.isDigit) (rest : List Char) :
    first c rest = (ofNumber (c :: rest.takeWhile continuesNumber),
      (rest.takeWhile continuesNumber).length) := by
  have hne : ∀ d : Char, d.isDigit = false → (c == d) = false := fun d => isDigit_ne hc
  unfold first
  simp only [hne '+' rfl, hne '-' rfl, hne '*' rfl, hne '/' rfl, hne '^' rfl, hne '(' rfl,
    hne ')' rfl, hne ',' rfl, hne 'l' rfl, hc, Bool.false_eq_true, if_false, if_true]

lemma takeWhile_number {tail rest : List Char} (htail : ∀ c ∈ tail, continuesNumber c)
    (hrest : EndsNumber rest) : (tail ++ rest).takeWhile continuesNumber = tail := by
  have hnone : rest.takeWhile continuesNumber = [] := by
    cases rest with
    | nil => rfl
    | cons c rest => simp [hrest c rfl]
  rw [List.takeWhile_append_of_pos htail, hnone, List.append_nil]

lemma Numeral.rest_continues (n : Numeral) : ∀ c ∈ n.rest, continuesNumber c := by
  intro c hc
  unfold Numeral.rest at hc
  have hdigits := n.digits c
  cases hf : n.fraction with
  | none =>
    simp only [hf, Option.getD_none, List.append_nil] at hc hdigits
    simp [continuesNumber, hdigits (List.mem_cons_of_mem _ hc)]
  | some digits =>
    simp only [hf, Option.getD_some, List.mem_append, List.mem_cons] at hc hdigits
    rcases hc with hc | rfl | hc
    · simp [continuesNumber, hdigits (.inl (.inr hc))]
    · decide
    · simp [continuesNumber, hdigits (.inr hc)]

lemma Numeral.ofNumber_text (n : Numeral) :
    ofNumber (n.head :: n.rest) = .ok (.number n.value) := by
  have hwhole : ∀ c ∈ n.head :: n.tail, (c != '.') = true := by
    intro c hc
    have hd := n.digits c (List.mem_append_left _ hc)
    simp [bne, isDigit_ne hd (d := '.') rfl]
  have hcount : (n.head :: n.tail).count '.' = 0 := by
    rw [List.count_eq_zero]
    intro hdot
    exact absurd (hwhole '.' hdot) (by decide)
  cases hf : n.fraction with
  | none =>
    have htext : n.head :: n.rest = n.head :: n.tail := by simp [rest, hf]
    have hle : ¬1 < (n.head :: n.tail).count '.' := by omega
    rw [htext]
    unfold ofNumber
    rw [if_neg hle]
    unfold Literal.value value
    rw [List.takeWhile_eq_self_iff.mpr hwhole, List.dropWhile_eq_nil_iff.mpr hwhole]
    simp [hf]
  | some digits =>
    have hfraction : digits.count '.' = 0 := by
      rw [List.count_eq_zero]
      intro hdot
      exact absurd (n.digits '.' (by simp [hf, hdot])) (by decide)
    have htext : n.head :: n.rest = (n.head :: n.tail) ++ '.' :: digits := by simp [rest, hf]
    rw [htext]
    have hle : ¬1 < ((n.head :: n.tail) ++ '.' :: digits).count '.' := by
      rw [List.count_append, List.count_cons_self, hcount, hfraction]
      decide
    unfold ofNumber
    rw [if_neg hle]
    unfold Literal.value value
    rw [List.takeWhile_append_of_pos hwhole, List.dropWhile_append_of_pos hwhole]
    simp [hf]

/-! ### The pieces of a sentence -/

def Numeral.piece (n : Numeral) : Piece where
  head := n.head
  tail := n.rest
  lexeme := .number n.value
  isNumber := true
  visible := isDigit_not_blank (n.digits _ (by simp))
  apart := nofun
  scanned := by
    intro rest hrest
    rw [first_digit (n.digits _ (by simp)), takeWhile_number n.rest_continues (hrest rfl),
      n.ofNumber_text]

def Piece.single (c : Char) (lexeme : Lexeme) (hvisible : Text.isBlank c = false)
    (hapart : continuesNumber c = false) (h : ∀ rest, first c rest = (.ok lexeme, 0)) : Piece where
  head := c
  tail := []
  lexeme := lexeme
  isNumber := false
  visible := hvisible
  apart := fun _ => hapart
  scanned := fun rest _ => h rest

def openMark : Piece := .single '(' .leftParen rfl rfl fun _ => rfl

def closeMark : Piece := .single ')' .rightParen rfl rfl fun _ => rfl

def commaMark : Piece := .single ',' .comma rfl rfl fun _ => rfl

def logMark : Piece where
  head := 'l'
  tail := ['o', 'g', '(']
  lexeme := .logOpen
  isNumber := false
  visible := rfl
  apart := fun _ => rfl
  scanned := fun rest _ => by simp [first]

def Joint.mark : Joint → Piece
  | ⟨.add, _⟩ => .single '+' .plus rfl rfl fun _ => rfl
  | ⟨.sub, _⟩ => .single '-' .minus rfl rfl fun _ => rfl
  | ⟨.mul, _⟩ => .single '*' .star rfl rfl fun _ => rfl
  | ⟨.div, _⟩ => .single '/' .slash rfl rfl fun _ => rfl
  | ⟨.pow, _⟩ => .single '^' .caret rfl rfl fun _ => rfl
  | ⟨.log, h⟩ => (h rfl).elim

def Sign.joint (sign : Sign) : Joint :=
  ⟨sign.1, fun h => absurd sign.2 (by rw [h]; decide)⟩

mutual

def Atom.pieces : Atom Numeral → List Piece
  | .number n => [n.piece]
  | .group e => openMark :: (e.pieces ++ [closeMark])
  | .log base argument =>
    logMark :: (base.pieces ++ commaMark :: (argument.pieces ++ [closeMark]))

def Infix.pieces : Infix Numeral → List Piece
  | .last signs atom => signs.map (·.joint.mark) ++ atom.pieces
  | .join signs atom op rest => signs.map (·.joint.mark) ++ atom.pieces ++ op.mark :: rest.pieces

end

/-- Blanks before, between and after pieces of text. -/
inductive Spaced : List Piece → List Char → Prop
  | nil (blanks : List Char) (hblanks : ∀ c ∈ blanks, isSkipped c) : Spaced [] blanks
  | cons (blanks : List Char) {text : List Char} {piece : Piece} {pieces : List Piece}
    (hblanks : ∀ c ∈ blanks, isSkipped c) (htext : Spaced pieces text) :
    Spaced (piece :: pieces) (blanks ++ piece.head :: piece.tail ++ text)

def Infix.signs {N : Type} : Infix N → List Sign
  | .last signs _ => signs
  | .join signs _ _ _ => signs

mutual

/-- There is at most one sign in front of an operand, and none at the start of the argument of a
logarithm. -/
def Atom.Writable {N : Type} : Atom N → Prop
  | .number _ => True
  | .group e => e.Writable
  | .log base argument => base.Writable ∧ argument.Writable ∧ argument.signs = []

def Infix.Writable {N : Type} : Infix N → Prop
  | .last signs atom => signs.length ≤ 1 ∧ atom.Writable
  | .join signs atom _ rest => signs.length ≤ 1 ∧ atom.Writable ∧ rest.Writable

end

end Reckoner.Proofs
