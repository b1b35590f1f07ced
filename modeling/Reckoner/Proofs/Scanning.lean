import Mathlib.Tactic
import Mathlib.Data.List.Chain
import Reckoner.Proofs.Spelling
import Reckoner.Token.Reading

/-!
# Scanning what is spelled

The scanner finds the pieces of a spelled text again, whatever blanks stand around them. It also
says where each piece lies, and later stages look at that: pieces do not overlap, and none lies
after the last visible character of the text.
-/

namespace Reckoner.Proofs
open Lexeme Text

/-- Items that are the given pieces, each at least a byte long, from `offset` on and in order. None
starts after the last visible character. -/
inductive Laid (last : Option Nat) : Nat → List Piece → List Item → Prop
  | nil {offset : Nat} : Laid last offset [] []
  | cons {offset start stop : Nat} {piece : Piece} {pieces : List Piece} {items : List Item}
    (hstart : offset ≤ start) (hstop : start < stop) (hlast : ∃ l ∈ last, start ≤ l)
    (hrest : Laid last stop pieces items) :
    Laid last offset (piece :: pieces) (⟨.ok piece.lexeme, start, stop⟩ :: items)

lemma scanFrom_blanks {blanks : List Char} (h : ∀ c ∈ blanks, isSkipped c) (offset : Nat)
    (text : List Char) :
    scanFrom offset (blanks ++ text) = scanFrom (offset + byteLength blanks) text := by
  induction blanks generalizing offset with
  | nil => simp
  | cons c rest ih =>
    have hc := h c List.mem_cons_self
    rw [List.cons_append, scanFrom, if_pos hc, ih fun d hd => h d (List.mem_cons_of_mem _ hd),
      byteLength_cons, Nat.add_assoc]

lemma scanFrom_piece (piece : Piece) {rest : List Char} (h : piece.isNumber → EndsNumber rest)
    (offset : Nat) :
    scanFrom offset (piece.head :: piece.tail ++ rest) =
      ⟨.ok piece.lexeme, offset, offset + byteLength (piece.head :: piece.tail)⟩ ::
        scanFrom (offset + byteLength (piece.head :: piece.tail)) rest := by
  have hskip : isSkipped piece.head = false := by
    cases hs : isSkipped piece.head with
    | false => rfl
    | true =>
      have hvisible := piece.visible
      rw [skipped_blank hs] at hvisible
      cases hvisible
  rw [List.cons_append, scanFrom, hskip, piece.scanned rest h]
  simp only [Bool.false_eq_true, if_false, List.take_left, List.drop_left, byteLength_cons,
    Nat.add_assoc]

lemma endsNumber_of_spaced {pieces : List Piece} {text : List Char} (h : Spaced pieces text)
    (hhead : ∀ piece ∈ pieces.head?, piece.isNumber = false) : EndsNumber text := by
  intro c hc
  have hblank : ∀ {blanks : List Char} (text : List Char), (∀ c ∈ blanks, isSkipped c) →
      c ∈ (blanks ++ text).head? → c ∈ text.head? ∨ isSkipped c := by
    intro blanks text hblanks hc
    cases blanks with
    | nil => exact .inl hc
    | cons d blanks =>
      cases hc
      exact .inr (hblanks _ List.mem_cons_self)
  cases h with
  | nil blanks hblanks =>
    rcases hblank [] hblanks (by simpa using hc) with hc | hc
    · cases hc
    · exact skipped_not_continues hc
  | @cons blanks text piece pieces hblanks htext =>
    rw [List.append_assoc] at hc
    rcases hblank _ hblanks hc with hc | hc
    · cases hc
      exact piece.apart (hhead piece rfl)
    · exact skipped_not_continues hc

lemma byteLength_reverse (text : List Char) : byteLength text.reverse = byteLength text := by
  induction text with
  | nil => rfl
  | cons c text ih =>
    rw [List.reverse_cons, byteLength_append, ih, byteLength_cons, byteLength_cons, byteLength_nil]
    omega

lemma dropWhile_blank {c : Char} (hc : isBlank c = false) (before after : List Char) :
    ∃ kept, (before ++ c :: after).dropWhile isBlank = kept ++ c :: after := by
  induction before with
  | nil => exact ⟨[], by simp [hc]⟩
  | cons d before ih =>
    cases hd : isBlank d with
    | true =>
      obtain ⟨kept, hkept⟩ := ih
      exact ⟨kept, by simp only [List.cons_append, List.dropWhile_cons, hd, if_true, hkept]⟩
    | false => exact ⟨d :: before, by simp [hd]⟩

lemma le_lastVisible {c : Char} (hc : isBlank c = false) (before after : List Char) :
    ∃ l ∈ lastVisible? (before ++ c :: after), byteLength before ≤ l := by
  obtain ⟨kept, hkept⟩ := dropWhile_blank hc after.reverse before.reverse
  have hrev : (before ++ c :: after).reverse = after.reverse ++ c :: before.reverse := by simp
  unfold lastVisible?
  rw [hrev, hkept]
  cases kept with
  | nil => exact ⟨_, rfl, (byteLength_reverse before).ge⟩
  | cons d kept =>
    refine ⟨byteLength (kept ++ c :: before.reverse), rfl, ?_⟩
    rw [byteLength_append, byteLength_cons, byteLength_reverse]
    omega

/-- No number follows a number at once. -/
abbrev Apart : List Piece → Prop :=
  List.IsChain fun a b => a.isNumber → b.isNumber = false

/-- What is spelled is scanned as the same pieces, laid out in order. -/
theorem laid_of_spaced {pieces : List Piece} {text : List Char} (h : Spaced pieces text)
    (hapart : Apart pieces) (before : List Char) :
    Laid (lastVisible? (before ++ text)) (byteLength before) pieces
      (scanFrom (byteLength before) text) := by
  induction h generalizing before with
  | nil blanks hblanks =>
    have hscan := scanFrom_blanks hblanks (byteLength before) []
    rw [List.append_nil, scanFrom] at hscan
    rw [hscan]
    exact .nil
  | @cons blanks text piece pieces hblanks htext ih =>
    obtain ⟨hnext, hrest⟩ := List.isChain_cons.mp hapart
    have hends : piece.isNumber → EndsNumber text :=
      fun hnumber => endsNumber_of_spaced htext fun next hmem => hnext next hmem hnumber
    have hlater := ih hrest (before ++ blanks ++ piece.head :: piece.tail)
    have hlast := le_lastVisible piece.visible (before ++ blanks) (piece.tail ++ text)
    have hsize : 0 < piece.head.utf8Size := Char.utf8Size_pos _
    rw [List.append_assoc blanks, scanFrom_blanks hblanks, scanFrom_piece piece hends]
    simp only [List.append_assoc, List.cons_append, byteLength_append, byteLength_cons,
      ← Nat.add_assoc] at hlater hlast ⊢
    exact .cons (by omega) (by omega) hlast hlater

end Reckoner.Proofs
