import Mathlib.Tactic
import Reckoner.Proofs.ReadingSteps
import Reckoner.Proofs.Scanning

/-!
# Reading what is spelled

Whether `+` is a sign, whether a bracket belongs to a logarithm and whether an operator has operands
is decided by the token before it, by the groups that are open and by offsets. On the pieces of a
sentence all these decisions come out as the sentence has it.
-/

namespace Reckoner.Proofs
open Lexeme

/-! ### Pieces next to each other -/

lemma Joint.mark_isNumber (op : Joint) : op.mark.isNumber = false := by
  match op with
  | ⟨.add, _⟩ | ⟨.sub, _⟩ | ⟨.mul, _⟩ | ⟨.div, _⟩ | ⟨.pow, _⟩ => rfl
  | ⟨.log, h⟩ => exact (h rfl).elim

lemma Apart.cons {pieces : List Piece} (h : Apart pieces) (piece : Piece)
    (hpiece : piece.isNumber = false) : Apart (piece :: pieces) := by
  refine List.isChain_cons.mpr ⟨fun _ _ hnumber => ?_, h⟩
  rw [hpiece] at hnumber
  cases hnumber

lemma Apart.signs {pieces : List Piece} (h : Apart pieces) (signs : List Sign) :
    Apart (signs.map (·.joint.mark) ++ pieces) := by
  induction signs with
  | nil => exact h
  | cons sign rest ih => exact ih.cons _ sign.joint.mark_isNumber

mutual

theorem Atom.apart (a : Atom Numeral) {after : List Piece} (h : Apart after)
    (hhead : ∀ piece ∈ after.head?, piece.isNumber = false) : Apart (a.pieces ++ after) :=
  match a with
  | .number n => List.isChain_cons.mpr ⟨fun piece hpiece _ => hhead piece hpiece, h⟩
  | .group e => by
    have he := e.apart (h.cons closeMark rfl) (by simp [closeMark, Piece.single])
    simp only [Atom.pieces, List.cons_append, List.append_assoc, List.nil_append]
    exact he.cons openMark rfl
  | .log base argument => by
    have hargument := argument.apart (h.cons closeMark rfl)
      (by simp [closeMark, Piece.single])
    have hbase := base.apart (hargument.cons commaMark rfl)
      (by simp [commaMark, Piece.single])
    simp only [Atom.pieces, List.cons_append, List.append_assoc, List.nil_append]
    exact hbase.cons logMark rfl

theorem Infix.apart (e : Infix Numeral) {after : List Piece} (h : Apart after)
    (hhead : ∀ piece ∈ after.head?, piece.isNumber = false) : Apart (e.pieces ++ after) :=
  match e with
  | .last signs atom => by
    rw [Infix.pieces, List.append_assoc]
    exact (atom.apart h hhead).signs signs
  | .join signs atom op rest => by
    have hrest := (rest.apart h hhead).cons _ op.mark_isNumber
    rw [Infix.pieces, List.append_assoc, List.append_assoc]
    exact (atom.apart hrest (by simp [op.mark_isNumber])).signs signs

end

/-! ### Steps over pieces -/

def pushAll (r : Reading) (tokens : List Token) : Reading :=
  { r with tokens := tokens.reverse ++ r.tokens }

lemma pushAll_pushAll (r : Reading) (tokens tokens' : List Token) :
    pushAll (pushAll r tokens) tokens' = pushAll r (tokens ++ tokens') := by
  simp only [pushAll, List.reverse_append, List.append_assoc]

/-- An operand without a sign may start here. -/
def Ready (r : Reading) : Prop :=
  r.tokens.head?.any Token.endsOperand = false

/-- A sign may stand here. -/
def Signable (r : Reading) : Prop :=
  expectant r = true ∧ r.tokens.head?.any Token.isUnary = false

/-- Some operand has just ended. -/
def Complete (r : Reading) : Prop :=
  r.tokens.head?.any Token.endsOperand = true

lemma Complete.not_expectant {r : Reading} (h : Complete r) :
    expectant r = false ∧ r.tokens.head?.any Token.isOperator = false := by
  unfold Complete at h
  unfold expectant
  cases ht : r.tokens.head? with
  | none => simp [ht] at h
  | some t =>
    simp only [ht, Option.any_some, Option.all_some] at h ⊢
    cases t with
    | number _ | closeParen | closeLog => exact ⟨rfl, rfl⟩
    | operator _ _ | openParen | openLog | separator => cases h

/-- The pieces, in front of any others, are read and lead from one reading to the other. -/
def Takes (last : Option Nat) (r : Reading) (pieces : List Piece) (r' : Reading) : Prop :=
  ∀ offset after items, Laid last offset (pieces ++ after) items →
    ∃ offset' items', offset < offset' ∧ Laid last offset' after items' ∧
      items.foldlM (Reading.item last) r = items'.foldlM (Reading.item last) r'

section

variable {last : Option Nat} {r r' : Reading} {offset start stop : Nat} {piece : Piece}
  {pieces pieces' : List Piece} {items : List Item}

lemma Laid.uncons (h : Laid last offset (piece :: pieces) items) :
    ∃ start stop later, offset ≤ start ∧ start < stop ∧ Laid last stop pieces later ∧
      items = ⟨.ok piece.lexeme, start, stop⟩ :: later := by
  cases h with
  | cons hstart hstop _ hrest => exact ⟨_, _, _, hstart, hstop, hrest, rfl⟩

lemma Laid.le_last (h : Laid last offset pieces items) (hne : pieces ≠ []) :
    ∃ l ∈ last, offset ≤ l := by
  cases h with
  | nil => exact (hne rfl).elim
  | cons hstart _ hlast _ =>
    obtain ⟨l, hl, hle⟩ := hlast
    exact ⟨l, hl, hstart.trans hle⟩

lemma foldlM_item_cons {found : Lexeme} (h : r.lexeme last found start stop = .ok r') :
    List.foldlM (Reading.item last) r (⟨.ok found, start, stop⟩ :: items) =
      items.foldlM (Reading.item last) r' := by
  rw [List.foldlM_cons]
  simp only [Reading.item, h]
  rfl

lemma Takes.single (h : ∀ start stop, r.lexeme last piece.lexeme start stop = .ok r') :
    Takes last r [piece] r' := by
  intro offset after items hlaid
  obtain ⟨start, stop, later, hstart, hstop, hrest, rfl⟩ := hlaid.uncons
  exact ⟨stop, later, by omega, hrest, foldlM_item_cons (h start stop)⟩

lemma Takes.append {r'' : Reading} (h : Takes last r pieces r') (h' : Takes last r' pieces' r'') :
    Takes last r (pieces ++ pieces') r'' := by
  intro offset after items hlaid
  rw [List.append_assoc] at hlaid
  obtain ⟨mid, items', hmid, hlaid', hrun⟩ := h _ _ _ hlaid
  obtain ⟨stop, items'', hstop, hlaid'', hrun'⟩ := h' _ _ _ hlaid'
  exact ⟨stop, items'', hmid.trans hstop, hlaid'', hrun.trans hrun'⟩

lemma lexeme_sign (sign : Sign) (h : Signable r) (start stop : Nat) :
    r.lexeme last sign.joint.mark.lexeme start stop =
      .ok (r.push (.operator sign.1 .unary)) := by
  match sign with
  | ⟨.add, _⟩ | ⟨.sub, _⟩ => exact plusMinus_eq_ok_iff.mpr (.inl ⟨h.1, h.2, rfl⟩)
  | ⟨.mul, h⟩ | ⟨.div, h⟩ | ⟨.pow, h⟩ | ⟨.log, h⟩ => exact absurd h (by decide)

lemma lexeme_joint (op : Joint) (h : expectant r = false) (hzero : start ≠ 0)
    (hlast : some start ≠ last) (stop : Nat) :
    r.lexeme last op.mark.lexeme start stop = .ok (r.push (.operator op.1 .binary)) := by
  match op with
  | ⟨.add, _⟩ | ⟨.sub, _⟩ => exact plusMinus_eq_ok_iff.mpr (.inr ⟨h, rfl⟩)
  | ⟨.mul, _⟩ | ⟨.div, _⟩ | ⟨.pow, _⟩ =>
    exact binaryOnly_eq_ok_iff.mpr ⟨hzero, hlast, h, rfl⟩
  | ⟨.log, h⟩ => exact (h rfl).elim

end

/-! ### Sentences -/

lemma Atom.complete (a : Atom Numeral) (r : Reading) :
    Complete (pushAll r (a.tokens Numeral.value)) := by
  cases a <;> simp [Complete, pushAll, Atom.tokens, Token.endsOperand]

lemma Infix.complete (e : Infix Numeral) (r : Reading) :
    Complete (pushAll r (e.tokens Numeral.value)) :=
  match e with
  | .last signs atom => by
    rw [Infix.tokens, ← pushAll_pushAll]
    exact atom.complete _
  | .join signs atom op rest => by
    rw [Infix.tokens, List.append_cons, ← pushAll_pushAll]
    exact rest.complete _

lemma Infix.pieces_ne_nil (e : Infix Numeral) : e.pieces ≠ [] := by
  have hatom : ∀ a : Atom Numeral, a.pieces ≠ [] := by
    intro a
    cases a <;> simp [Atom.pieces]
  cases e with
  | last signs atom => simp [Infix.pieces, hatom]
  | join signs atom op rest => simp [Infix.pieces]

lemma takes_signs {last : Option Nat} {r r' : Reading} {signs : List Sign} {pieces : List Piece}
    (hlen : signs.length ≤ 1) (hready : Ready r) (hsigns : signs ≠ [] → Signable r)
    (h : Ready (pushAll r (signTokens (operators signs))) →
      Takes last (pushAll r (signTokens (operators signs))) pieces r') :
    Takes last r (signs.map (·.joint.mark) ++ pieces) r' := by
  match signs with
  | [] => exact h hready
  | [sign] =>
    have hsign : Takes last r [sign.joint.mark] (pushAll r [.operator sign.1 .unary]) :=
      .single fun start stop => lexeme_sign sign (hsigns nofun) start stop
    exact hsign.append (h rfl)
  | _ :: _ :: _ => simp at hlen

mutual

theorem Atom.takes (last : Option Nat) (a : Atom Numeral) (ha : a.Writable) {r : Reading}
    (hr : Ready r) : Takes last r a.pieces (pushAll r (a.tokens Numeral.value)) :=
  match a, ha with
  | .number n, _ => .single fun _ _ => rfl
  | .group e, ha => by
    intro offset after items h
    simp only [Atom.pieces, List.cons_append, List.append_assoc, List.nil_append] at h
    obtain ⟨opened, inside, items₁, _, hinside, h₁, rfl⟩ := h.uncons
    let r₁ : Reading := { tokens := .openParen :: r.tokens, groups := .plain opened :: r.groups }
    have hopen : r.lexeme last .leftParen opened inside = .ok r₁ :=
      leftParen_eq_ok_iff.mpr ⟨hr, rfl⟩
    obtain ⟨closed, items₂, hclosed, h₂, hrun⟩ :=
      e.takes last ha (r := r₁) rfl (fun _ => ⟨rfl, rfl⟩) _ _ _ h₁
    obtain ⟨start, stop, items₃, hstart, hstop, h₃, rfl⟩ := h₂.uncons
    have hclose : (pushAll r₁ (e.tokens Numeral.value)).lexeme last .rightParen start stop =
        .ok (pushAll r ((Atom.group e).tokens Numeral.value)) := by
      -- The bracket does not close at once, because the group holds a piece at least.
      refine rightParen_eq_ok_iff.mpr ⟨_, _, _, rfl, (e.complete r₁).not_expectant.2, ?_, rfl, ?_⟩
      · simp only [Group.openedAt]
        omega
      · simp [pushAll, Atom.tokens, r₁]
    refine ⟨stop, items₃, by omega, h₃, ?_⟩
    rw [← foldlM_item_cons hclose]
    exact (foldlM_item_cons hopen).trans hrun
  | .log base argument, ha => by
    intro offset after items h
    simp only [Atom.pieces, List.cons_append, List.append_assoc, List.nil_append] at h
    obtain ⟨opened, inside, items₁, _, hinside, h₁, rfl⟩ := h.uncons
    let r₁ : Reading := r.logOpen (inside - 1)
    obtain ⟨offset₂, items₂, hoffset₂, h₂, hrun⟩ :=
      base.takes last ha.1 (r := r₁) rfl (fun _ => ⟨rfl, rfl⟩) _ _ _ h₁
    obtain ⟨start₂, stop₂, items₃, hstart₂, hstop₂, h₃, rfl⟩ := h₂.uncons
    let r₂ : Reading :=
      { tokens := .separator :: (pushAll r₁ (base.tokens Numeral.value)).tokens
        groups := .logarithm (inside - 1) true :: r.groups }
    have hcomma : (pushAll r₁ (base.tokens Numeral.value)).lexeme last .comma start₂ stop₂ =
        .ok r₂ := rfl
    obtain ⟨closed, items₄, hclosed, h₄, hrun'⟩ :=
      argument.takes last ha.2.1 (r := r₂) rfl (fun hne => (hne ha.2.2).elim) _ _ _ h₃
    obtain ⟨start, stop, items₅, hstart, hstop, h₅, rfl⟩ := h₄.uncons
    have hclose : (pushAll r₂ (argument.tokens Numeral.value)).lexeme last .rightParen start stop =
        .ok (pushAll r ((Atom.log base argument).tokens Numeral.value)) := by
      refine rightParen_eq_ok_iff.mpr
        ⟨_, _, _, rfl, (argument.complete r₂).not_expectant.2, ?_, rfl, ?_⟩
      · simp only [Group.openedAt]
        omega
      · simp [pushAll, Atom.tokens, r₁, r₂, Reading.logOpen]
    refine ⟨stop, items₅, by omega, h₅, ?_⟩
    rw [← foldlM_item_cons hclose]
    have hopen : r.lexeme last .logOpen opened inside = .ok r₁ := rfl
    refine (foldlM_item_cons hopen).trans (hrun.trans ?_)
    exact (foldlM_item_cons hcomma).trans hrun'

/-- The pieces of a sentence are read as its tokens, if a sign may stand where it has one. -/
theorem Infix.takes (last : Option Nat) (e : Infix Numeral) (he : e.Writable) {r : Reading}
    (hr : Ready r) (hsigns : e.signs ≠ [] → Signable r) :
    Takes last r e.pieces (pushAll r (e.tokens Numeral.value)) :=
  match e, he, hsigns with
  | .last signs atom, he, hsigns => by
    rw [Infix.pieces, Infix.tokens, ← pushAll_pushAll]
    exact takes_signs he.1 hr hsigns fun hready => atom.takes last he.2 hready
  | .join signs atom op rest, he, hsigns => by
    rw [Infix.pieces, Infix.tokens, List.append_assoc, List.append_assoc, ← pushAll_pushAll]
    apply takes_signs he.1 hr hsigns
    intro hready offset after items h
    rw [List.append_assoc] at h
    obtain ⟨mid, items₁, hmid, h₁, hrun⟩ := atom.takes last he.2.1 hready _ _ _ h
    have hcomplete := atom.complete (pushAll r (signTokens (operators signs)))
    obtain ⟨start, stop, items₂, hstart, hstop, h₂, rfl⟩ := h₁.uncons
    obtain ⟨l, hl, hle⟩ := h₂.le_last (by simp [rest.pieces_ne_nil])
    -- What follows the operator is visible, so the operator is not the last visible character.
    have hlast : some start ≠ last := by
      intro heq
      rw [← heq] at hl
      cases hl
      omega
    have hzero : start ≠ 0 := by omega
    have hjoint := lexeme_joint op hcomplete.not_expectant.1 hzero hlast stop
    let r₁ :=
      pushAll (pushAll (pushAll r (signTokens (operators signs))) (atom.tokens Numeral.value))
      [.operator op.1 .binary]
    have hsignable : Signable r₁ := ⟨rfl, rfl⟩
    obtain ⟨offset', items₃, hoffset', h₃, hrun'⟩ :=
      rest.takes last he.2.2 (r := r₁) rfl (fun _ => hsignable) _ _ _ h₂
    refine ⟨offset', items₃, by omega, h₃, ?_⟩
    have hall : pushAll r₁ (rest.tokens Numeral.value) =
        pushAll (pushAll r (signTokens (operators signs)))
          (atom.tokens Numeral.value ++ .operator op.1 .binary :: rest.tokens Numeral.value) := by
      rw [pushAll_pushAll, pushAll_pushAll]
      rfl
    rw [← hall, ← hrun', hrun]
    exact foldlM_item_cons hjoint

end

/-- A sentence that is spelled with any blanks has the sentence's tokens. -/
theorem tokenize_spaced (e : Infix Numeral) (he : e.Writable) {text : String}
    (h : Spaced e.pieces text.toList) : tokenize text = .ok (e.tokens Numeral.value) := by
  have hapart : Apart e.pieces := by
    have happend : Apart (e.pieces ++ []) := e.apart .nil (by simp)
    rwa [List.append_nil] at happend
  have hlaid : Laid (Text.lastVisible? text.toList) 0 (e.pieces ++ []) (scan text) := by
    rw [List.append_nil]
    exact laid_of_spaced h hapart []
  obtain ⟨_, items, _, hnil, hrun⟩ :=
    e.takes _ he (r := {}) rfl (fun _ => ⟨rfl, rfl⟩) _ _ _ hlaid
  cases hnil
  have hne : ((e.tokens Numeral.value).reverse ++ []).isEmpty = false := by
    have hcomplete := e.complete {}
    unfold Complete pushAll at hcomplete
    cases hr : (e.tokens Numeral.value).reverse ++ [] with
    | nil => simp [hr] at hcomplete
    | cons t rest => rfl
  unfold tokenize
  simp only [hrun]
  change Reading.finish (pushAll {} (e.tokens Numeral.value)) = _
  simp only [Reading.finish, pushAll, hne, Bool.false_eq_true, if_false]
  rw [List.append_nil, List.reverse_reverse]

end Reckoner.Proofs
