import Mathlib.Tactic
import Reckoner.Proofs.Climbing
import Reckoner.Proofs.YardSteps

/-!
# The yard beside the recursive parser

A yard comes to the postfix sequence of whatever formula the recursive parser reads. At all times
the operators that wait, put after the output, complete the operands that were read. They wait above
a base that no operator of the current level makes yield, and they all yield to what follows.
-/

namespace Reckoner.Proofs
open Yard

/-! ### What waits -/

/-- No operator that binds at least as tightly as `minimum` makes the top of the stack yield. -/
def Shields (minimum : Nat) (stack : List Token) : Prop :=
  ∀ op, op ≠ .log → minimum ≤ op.entry.binaryPrecedence → ∀ t ∈ stack.head?, yields op t = false

/-- Waiting operators that all yield to the operator that follows, if any does. -/
def Settled (waiting rest : List Token) : Prop :=
  (∀ t ∈ waiting, t.isOperator) ∧ ∀ op ∈ joint? rest, ∀ t ∈ waiting, yields op t

lemma shields_joint {op : Operator} (hop : op ≠ .log) (stack : List Token) :
    Shields (rightMinimum op) (.operator op .binary :: stack) := by
  intro next hnext hmin t ht
  cases ht
  revert hop hnext hmin
  cases op <;> cases next <;> decide

lemma shields_unary {op : Operator} {precedence : Nat}
    (hop : op.entry.unaryPrecedence = some precedence) (stack : List Token) :
    Shields (precedence + 1) (.operator op .unary :: stack) := by
  intro next hnext hmin t ht
  cases ht
  have hlt : ¬next.entry.binaryPrecedence ≤ precedence := by omega
  simp only [yields, Operator.executesBefore, Operator.precedence?, hop]
  split_ifs
  · simp only [decide_eq_false_iff_not]
    omega
  · simpa using hmin

lemma shields_bracket {t : Token} (ht : t.isOperator = false) (minimum : Nat) (stack : List Token) :
    Shields minimum (t :: stack) := by
  intro next _ _ s hs
  cases hs
  cases t with
  | operator _ _ => cases ht
  | number _ | openParen | closeParen | openLog | closeLog | separator => rfl

lemma yields_of_lt_rightMinimum {op next : Operator} (hop : op ≠ .log) (hnext : next ≠ .log)
    (h : next.entry.binaryPrecedence < rightMinimum op) : yields next (.operator op .binary) := by
  revert hop hnext h
  cases op <;> cases next <;> decide

lemma yields_of_lt_unary {op next : Operator} {precedence : Nat}
    (hop : op.entry.unaryPrecedence = some precedence)
    (h : next.entry.binaryPrecedence < precedence + 1) : yields next (.operator op .unary) := by
  revert h
  cases op with
  | add | sub =>
    cases hop
    cases next <;> decide
  | mul | div | pow | log => cases hop

lemma Settled.nil (rest : List Token) : Settled [] rest := by
  simp [Settled]

lemma Settled.append {waiting waiting' rest : List Token} (h : Settled waiting rest)
    (h' : Settled waiting' rest) : Settled (waiting ++ waiting') rest := by
  constructor
  · intro t ht
    rcases List.mem_append.mp ht with ht | ht
    · exact h.1 t ht
    · exact h'.1 t ht
  · intro op hop t ht
    rcases List.mem_append.mp ht with ht | ht
    · exact h.2 op hop t ht
    · exact h'.2 op hop t ht

lemma settled_joint {op : Operator} {rest : List Token} (hop : op ≠ .log)
    (hstop : Stops (rightMinimum op) rest) : Settled [.operator op .binary] rest := by
  constructor
  · simp [Token.isOperator]
  · intro next hnext t ht
    obtain rfl := List.mem_singleton.mp ht
    exact yields_of_lt_rightMinimum hop (joint?_ne_log hnext) (hstop next hnext)

lemma settled_unary {op : Operator} {precedence : Nat} {rest : List Token}
    (hop : op.entry.unaryPrecedence = some precedence) (hstop : Stops (precedence + 1) rest) :
    Settled [.operator op .unary] rest := by
  constructor
  · simp [Token.isOperator]
  · intro next hnext t ht
    obtain rfl := List.mem_singleton.mp ht
    exact yields_of_lt_unary hop (hstop next hnext)

lemma Settled.not_bracket {waiting rest : List Token} (h : Settled waiting rest) :
    (∀ t ∈ waiting, t.isOpenParen = false) ∧ ∀ t ∈ waiting, t.isOpenLog = false := by
  have hop : ∀ t : Token, t.isOperator → t.isOpenParen = false ∧ t.isOpenLog = false := by
    intro t ht
    cases t with
    | operator _ _ => exact ⟨rfl, rfl⟩
    | number _ | openParen | closeParen | openLog | closeLog | separator => cases ht
  exact ⟨fun t ht => (hop t (h.1 t ht)).1, fun t ht => (hop t (h.1 t ht)).2⟩

/-! ### The yard beside the parser -/

/-- The yard takes the tokens before `rest`. Its output, with the operators that wait above `base`,
is then `done`. -/
def Brings (y : Yard) (tokens done base rest : List Token) : Prop :=
  ∃ output waiting,
    tokens.foldlM Yard.token y = rest.foldlM Yard.token ⟨output, waiting ++ base⟩ ∧
      output.reverse ++ waiting = done ∧ Settled waiting rest

section

variable {output base tokens done rest : List Token}

lemma Brings.cons {y y' : Yard} {t : Token} (ht : y.token t = .ok y')
    (h : Brings y' tokens done base rest) : Brings y (t :: tokens) done base rest := by
  obtain ⟨out, waiting, hrun, hdone⟩ := h
  exact ⟨out, waiting, (foldlM_token_cons ht tokens).trans hrun, hdone⟩

lemma brings_number (value : Binary64) :
    Brings ⟨output, base⟩ (.number value :: rest)
      (output.reverse ++ [.number value]) base rest := by
  refine ⟨.number value :: output, [], ?_, by simp, .nil rest⟩
  exact foldlM_token_cons rfl rest

lemma brings_unary {op : Operator} {precedence : Nat}
    (hop : op.entry.unaryPrecedence = some precedence)
    (h : Brings ⟨output, .operator op .unary :: base⟩ tokens done
      (.operator op .unary :: base) rest)
    (hstop : Stops (precedence + 1) rest) :
    Brings ⟨output, base⟩ (.operator op .unary :: tokens)
      (done ++ [.operator op .unary]) base rest := by
  apply Brings.cons (unary_waits _ op)
  obtain ⟨out, waiting, hrun, rfl, hsettled⟩ := h
  refine ⟨out, waiting ++ [.operator op .unary], ?_, ?_, hsettled.append (settled_unary hop hstop)⟩
  · rw [hrun, List.append_assoc]
    rfl
  · rw [List.append_assoc]

lemma brings_group
    (h : Brings ⟨output, .openParen :: base⟩ tokens done (.openParen :: base)
      (.closeParen :: rest)) :
    Brings ⟨output, base⟩ (.openParen :: tokens) done base rest := by
  apply Brings.cons rfl
  obtain ⟨out, waiting, hrun, rfl, hsettled⟩ := h
  refine ⟨waiting.reverse ++ out, [], ?_, by simp, .nil rest⟩
  rw [Yard.wait, hrun]
  exact foldlM_token_cons (closeParen_above hsettled.not_bracket.1) rest

lemma brings_log {between done' : List Token}
    (hbase : Brings ⟨output, .openLog :: .operator .log .binary :: base⟩ tokens done
      (.openLog :: .operator .log .binary :: base) (.separator :: between))
    (hargument : ∀ out, out.reverse = done →
      Brings ⟨out, .openLog :: .operator .log .binary :: base⟩ between done'
        (.openLog :: .operator .log .binary :: base) (.closeLog :: rest)) :
    Brings ⟨output, base⟩ (.operator .log .binary :: .openLog :: tokens)
      (done' ++ [.operator .log .binary]) base rest := by
  apply Brings.cons rfl
  apply Brings.cons rfl
  obtain ⟨out, waiting, hrun, rfl, hsettled⟩ := hbase
  obtain ⟨out', waiting', hrun', rfl, hsettled'⟩ := hargument (waiting.reverse ++ out) (by simp)
  refine ⟨.operator .log .binary :: (waiting'.reverse ++ out'), [], ?_, by simp, .nil rest⟩
  simp only [Yard.wait]
  rw [hrun, foldlM_token_cons (separator_above hsettled.not_bracket.2), hrun']
  exact foldlM_token_cons (closeLog_above hsettled'.not_bracket.2 .binary) rest

lemma brings_joint {op : Operator} {waiting after : List Token} (hop : op ≠ .log)
    (hsettled : Settled waiting (.operator op .binary :: tokens))
    (hbase : ∀ t ∈ base.head?, yields op t = false) (hdone : output.reverse ++ waiting = done)
    (hrhs : ∀ out, out.reverse = done →
      Brings ⟨out, .operator op .binary :: base⟩ tokens after (.operator op .binary :: base) rest)
    (hstop : Stops (rightMinimum op) rest) :
    Brings ⟨output, waiting ++ base⟩ (.operator op .binary :: tokens)
      (after ++ [.operator op .binary]) base rest := by
  have hjoint : op ∈ joint? (.operator op .binary :: tokens) := by simp [joint?, hop]
  apply Brings.cons (binary_above hop (hsettled.2 op hjoint) hbase)
  obtain ⟨out, waiting', hrun, rfl, hsettled'⟩ := hrhs (waiting.reverse ++ output) (by simp [hdone])
  refine ⟨out, waiting' ++ [.operator op .binary], ?_, ?_,
    hsettled'.append (settled_joint hop hstop)⟩
  · rw [hrun, List.append_assoc]
    rfl
  · rw [List.append_assoc]

lemma Brings.trans {y y' : Yard} {between : List Token}
    (hrun : tokens.foldlM Yard.token y = between.foldlM Yard.token y')
    (h : Brings y' between done base rest) : Brings y tokens done base rest := by
  obtain ⟨out, waiting, hrun', hdone⟩ := h
  exact ⟨out, waiting, hrun.trans hrun', hdone⟩

end

/-- The yard before the parser is asked: what was read so far is `done`, and a formula that is to be
extended comes after it. -/
def Poised : Ask → Yard → List Token → List Token → List Token → Prop
  | .operand, y, done, base, _ => y.output.reverse = done ∧ y.stack = base
  | .climb minimum, y, done, base, _ =>
    y.output.reverse = done ∧ y.stack = base ∧ Shields minimum base
  | .extend minimum lhs, y, done, base, tokens =>
    Shields minimum base ∧ ∃ waiting, y.stack = waiting ++ base ∧
      y.output.reverse ++ waiting = done ++ lhs.postorder ∧ Settled waiting tokens

/-- Whatever the parser reads, a yard takes the same tokens, and has the formula's postfix sequence
after what was there. -/
theorem Reads.brings {ask : Ask} {tokens rest : List Token} {t : Formula}
    (h : Reads ask tokens t rest) {y : Yard} {done base : List Token}
    (hy : Poised ask y done base tokens) :
    Brings y tokens (done ++ t.postorder) base rest := by
  induction h generalizing y done base with
  | number value rest =>
    obtain ⟨rfl, rfl⟩ := hy
    exact brings_number value
  | sign hop h ih =>
    obtain ⟨rfl, rfl⟩ := hy
    rw [Formula.postorder, ← List.append_assoc]
    exact brings_unary hop (ih ⟨rfl, rfl, shields_unary hop _⟩) (h.stops _ rfl)
  | group _ ih =>
    obtain ⟨rfl, rfl⟩ := hy
    exact brings_group (ih ⟨rfl, rfl, shields_bracket rfl 0 _⟩)
  | log _ _ ihbase ihargument =>
    obtain ⟨rfl, rfl⟩ := hy
    rw [Formula.postorder, ← List.append_assoc, ← List.append_assoc]
    apply brings_log (ihbase ⟨rfl, rfl, shields_bracket rfl 0 _⟩)
    intro out hout
    exact ihargument ⟨hout, rfl, shields_bracket rfl 0 _⟩
  | climb _ _ ih ihmore =>
    obtain ⟨rfl, rfl, hshields⟩ := hy
    obtain ⟨out, waiting, hrun, hdone, hsettled⟩ := ih ⟨rfl, rfl⟩
    exact .trans hrun (ihmore ⟨hshields, waiting, rfl, hdone, hsettled⟩)
  | stay =>
    obtain ⟨_, waiting, hstack, hdone, hsettled⟩ := hy
    exact ⟨y.output, waiting, by rw [← hstack], hdone, hsettled⟩
  | join hop hminimum hrhs _ ihrhs ihmore =>
    obtain ⟨hshields, waiting, hstack, hdone, hsettled⟩ := hy
    obtain ⟨output, stack⟩ := y
    obtain rfl : stack = waiting ++ base := hstack
    -- All that waits yields and the base does not, so the operator comes to stand right above it.
    have hjoint := brings_joint hop hsettled (hshields _ hop hminimum) hdone
      (fun out hout => ihrhs ⟨hout, rfl, shields_joint hop base⟩) (hrhs.stops _ rfl)
    obtain ⟨out, waiting', hrun, hdone', hsettled'⟩ := hjoint
    refine .trans hrun (ihmore ⟨hshields, waiting', rfl, ?_, hsettled'⟩)
    rw [hdone', Formula.postorder]
    simp only [List.append_assoc]

/-- A token sequence that has a formula is reordered to the formula's postfix sequence. -/
theorem toPostfixOrder_of_climb {tokens : List Token} {t : Formula} (h : climb? tokens = some t) :
    toPostfixOrder tokens = .ok t.postorder := by
  have hempty : Shields 0 [] := by
    intro op _ _ s hs
    cases hs
  have hstart : Poised (.climb 0) {} [] [] tokens := ⟨rfl, rfl, hempty⟩
  obtain ⟨output, waiting, hrun, hdone, _⟩ := (reads_of_climb? h).brings hstart
  rw [List.append_nil] at hrun
  unfold toPostfixOrder
  rw [hrun]
  exact congrArg Except.ok hdone

end Reckoner.Proofs
