import Mathlib.Tactic
import Reckoner.Proofs.AnyMemory
import Reckoner.Proofs.PrecedenceTree
import Reckoner.Proofs.ReadingSteps
import Reckoner.Proofs.YardSteps

/-!
# The yard in step with the reading

The open groups of a reading and the brackets that wait in a yard are the same at every token, so
whatever is read can be put in postfix order, however ill-formed it is. Nothing but numbers, signs
and operators between operands gets into the order, and an evaluation of these fails only by the
number of its operands.
-/

namespace Reckoner.Proofs
open Yard

/-- A number, an operator between operands or a sign. -/
def Computes : Token → Prop
  | .number _ | .operator _ .binary => True
  | .operator op .unary => isSum op
  | _ => False

/-- An operator that waits above the innermost bracket. -/
def Waits : Token → Prop
  | .operator op .binary => op ≠ .log
  | .operator op .unary => isSum op
  | _ => False

lemma Waits.computes {t : Token} (h : Waits t) : Computes t := by
  match t, h with
  | .operator _ .binary, _ => trivial
  | .operator _ .unary, h => exact h

lemma Waits.not_bracket {t : Token} (h : Waits t) :
    t.isOpenParen = false ∧ t.isOpenLog = false := by
  match t, h with
  | .operator _ _, _ => exact ⟨rfl, rfl⟩

/-- The brackets on a stack are those of the open groups, with operators above each of them. -/
inductive Mirrors : List Group → List Token → Prop
  | empty : Mirrors [] []
  | wait {groups : List Group} {stack : List Token} {t : Token} (ht : Waits t)
    (h : Mirrors groups stack) : Mirrors groups (t :: stack)
  | plain {groups : List Group} {stack : List Token} (offset : Nat) (h : Mirrors groups stack) :
    Mirrors (.plain offset :: groups) (.openParen :: stack)
  | logarithm {groups : List Group} {stack : List Token} (offset : Nat) (separated : Bool)
    (h : Mirrors groups stack) :
    Mirrors (.logarithm offset separated :: groups) (.openLog :: .operator .log .binary :: stack)

namespace Mirrors

variable {groups : List Group} {stack : List Token}

lemma waits_of_outermost (h : Mirrors [] stack) : ∀ t ∈ stack, Waits t := by
  generalize hg : ([] : List Group) = gs at h
  induction h with
  | empty => simp
  | wait ht _ ih => exact List.forall_mem_cons.mpr ⟨ht, ih hg⟩
  | plain | logarithm => cases hg

lemma exists_plain {offset : Nat} (h : Mirrors (.plain offset :: groups) stack) :
    ∃ waiting below, stack = waiting ++ .openParen :: below ∧ (∀ t ∈ waiting, Waits t) ∧
      Mirrors groups below := by
  generalize hg : Group.plain offset :: groups = gs at h
  induction h with
  | empty => cases hg
  | @wait _ _ t ht _ ih =>
    obtain ⟨waiting, below, rfl, hwaiting, hbelow⟩ := ih hg
    exact ⟨t :: waiting, below, rfl, List.forall_mem_cons.mpr ⟨ht, hwaiting⟩, hbelow⟩
  | plain _ h =>
    cases hg
    exact ⟨[], _, rfl, by simp, h⟩
  | logarithm => cases hg

lemma exists_logarithm {offset : Nat} {separated : Bool}
    (h : Mirrors (.logarithm offset separated :: groups) stack) :
    ∃ waiting below, stack = waiting ++ .openLog :: .operator .log .binary :: below ∧
      (∀ t ∈ waiting, Waits t) ∧ Mirrors groups below := by
  generalize hg : Group.logarithm offset separated :: groups = gs at h
  induction h with
  | empty => cases hg
  | @wait _ _ t ht _ ih =>
    obtain ⟨waiting, below, rfl, hwaiting, hbelow⟩ := ih hg
    exact ⟨t :: waiting, below, rfl, List.forall_mem_cons.mpr ⟨ht, hwaiting⟩, hbelow⟩
  | plain => cases hg
  | logarithm _ _ h =>
    cases hg
    exact ⟨[], _, rfl, by simp, h⟩

/-- An operator takes only operators off the stack, because no bracket yields to it. -/
lemma dropWhile_yields (op : Operator) (h : Mirrors groups stack) :
    Mirrors groups (stack.dropWhile (yields op)) ∧ ∀ t ∈ stack.takeWhile (yields op), Waits t := by
  induction h with
  | empty => exact ⟨.empty, by simp⟩
  | @wait _ stack t ht h ih =>
    cases hy : yields op t with
    | true =>
      simp only [List.dropWhile_cons, List.takeWhile_cons, hy, if_true]
      exact ⟨ih.1, List.forall_mem_cons.mpr ⟨ht, ih.2⟩⟩
    | false =>
      simp only [List.dropWhile_cons, List.takeWhile_cons, hy, Bool.false_eq_true, if_false]
      exact ⟨.wait ht h, by simp⟩
  | plain offset h => exact ⟨.plain offset h, by simp [yields]⟩
  | logarithm offset separated h => exact ⟨.logarithm offset separated h, by simp [yields]⟩

end Mirrors

/-- A yard that has taken the tokens of a reading. -/
structure InStep (r : Reading) (y : Yard) : Prop where
  run : r.tokens.reverse.foldlM Yard.token {} = .ok y
  mirrors : Mirrors r.groups y.stack
  computes : ∀ t ∈ y.output, Computes t

namespace InStep

variable {r r' : Reading} {y y' : Yard}

lemma take {added : List Token} {groups : List Group} (h : InStep r y)
    (ht : added.foldlM Yard.token y = .ok y') (hmirrors : Mirrors groups y'.stack)
    (hcomputes : ∀ t ∈ y'.output, Computes t) : InStep ⟨added.reverse ++ r.tokens, groups⟩ y' := by
  refine ⟨?_, hmirrors, hcomputes⟩
  rw [List.reverse_append, List.reverse_reverse, List.foldlM_append, h.run]
  exact ht

lemma computes_append {waiting : List Token} (h : InStep r y) (hwaiting : ∀ t ∈ waiting, Waits t) :
    ∀ t ∈ waiting.reverse ++ y.output, Computes t := by
  intro t ht
  rcases List.mem_append.mp ht with ht | ht
  · exact (hwaiting t (List.mem_reverse.mp ht)).computes
  · exact h.computes t ht

lemma number (h : InStep r y) (value : Binary64) : ∃ y', InStep (r.push (.number value)) y' := by
  have ht : y.token (.number value) = .ok { y with output := .number value :: y.output } := rfl
  have hcomputes : ∀ t ∈ .number value :: y.output, Computes t :=
    List.forall_mem_cons.mpr ⟨trivial, h.computes⟩
  exact ⟨_, h.take (foldlM_token_cons ht []) h.mirrors hcomputes⟩

lemma unary {op : Operator} (h : InStep r y) (hop : isSum op) :
    ∃ y', InStep (r.push (.operator op .unary)) y' :=
  ⟨_, h.take (foldlM_token_cons (unary_waits y op) []) (.wait hop h.mirrors) h.computes⟩

lemma binary {op : Operator} (h : InStep r y) (hop : op ≠ .log) :
    ∃ y', InStep (r.push (.operator op .binary)) y' := by
  obtain ⟨hmirrors, hwaits⟩ := h.mirrors.dropWhile_yields op
  exact ⟨_, h.take (foldlM_token_cons (token_binary hop y) []) (.wait hop hmirrors)
    (h.computes_append hwaits)⟩

lemma openParen (h : InStep r y) (offset : Nat) :
    ∃ y', InStep ⟨.openParen :: r.tokens, .plain offset :: r.groups⟩ y' := by
  have ht : y.token .openParen = .ok (y.wait .openParen) := rfl
  exact ⟨_, h.take (foldlM_token_cons ht []) (.plain offset h.mirrors) h.computes⟩

lemma logOpen (h : InStep r y) (offset : Nat) : ∃ y', InStep (r.logOpen offset) y' := by
  have ht : [Token.operator .log .binary, .openLog].foldlM Yard.token y =
      .ok ((y.wait (.operator .log .binary)).wait .openLog) := rfl
  exact ⟨_, h.take ht (.logarithm offset false h.mirrors) h.computes⟩

lemma comma {offset : Nat} {outer : List Group} (h : InStep r y)
    (hg : r.groups = .logarithm offset false :: outer) :
    ∃ y', InStep ⟨.separator :: r.tokens, .logarithm offset true :: outer⟩ y' := by
  obtain ⟨waiting, below, hstack, hwaiting, hbelow⟩ := (hg ▸ h.mirrors).exists_logarithm
  have ht : y.token .separator =
      .ok ⟨waiting.reverse ++ y.output, .openLog :: .operator .log .binary :: below⟩ := by
    rw [← separator_above fun t ht => (hwaiting t ht).not_bracket.2, ← hstack]
  exact ⟨_, h.take (foldlM_token_cons ht []) (.logarithm offset true hbelow)
    (h.computes_append hwaiting)⟩

lemma close {group : Group} {outer : List Group} {token : Token} (h : InStep r y)
    (hg : r.groups = group :: outer) (hclosing : closing? group = some token) :
    ∃ y', InStep ⟨token :: r.tokens, outer⟩ y' := by
  match group with
  | .plain offset =>
    cases hclosing
    obtain ⟨waiting, below, hstack, hwaiting, hbelow⟩ := (hg ▸ h.mirrors).exists_plain
    have ht : y.token .closeParen = .ok ⟨waiting.reverse ++ y.output, below⟩ := by
      rw [← closeParen_above fun t ht => (hwaiting t ht).not_bracket.1, ← hstack]
    exact ⟨_, h.take (foldlM_token_cons ht []) hbelow (h.computes_append hwaiting)⟩
  | .logarithm offset true =>
    cases hclosing
    obtain ⟨waiting, below, hstack, hwaiting, hbelow⟩ := (hg ▸ h.mirrors).exists_logarithm
    have ht : y.token .closeLog =
        .ok ⟨.operator .log .binary :: (waiting.reverse ++ y.output), below⟩ := by
      rw [← closeLog_above (fun t ht => (hwaiting t ht).not_bracket.2) .binary, ← hstack]
    have hlog : Computes (.operator .log .binary) := trivial
    have hcomputes := List.forall_mem_cons.mpr ⟨hlog, h.computes_append hwaiting⟩
    exact ⟨_, h.take (foldlM_token_cons ht []) hbelow hcomputes⟩
  | .logarithm offset false => cases hclosing

/-- Whatever lexeme a reading accepts, the yard takes its tokens. -/
theorem lexeme {last : Option Nat} {found : Lexeme} {start stop : Nat} (h : InStep r y)
    (hr : r.lexeme last found start stop = .ok r') : ∃ y', InStep r' y' := by
  cases found with
  | plus | minus =>
    rcases plusMinus_eq_ok_iff.mp hr with ⟨_, _, rfl⟩ | ⟨_, rfl⟩
    · exact h.unary rfl
    · exact h.binary nofun
  | star | slash | caret =>
    obtain ⟨_, _, _, rfl⟩ := binaryOnly_eq_ok_iff.mp hr
    exact h.binary nofun
  | leftParen =>
    obtain ⟨_, rfl⟩ := leftParen_eq_ok_iff.mp hr
    exact h.openParen start
  | rightParen =>
    obtain ⟨group, outer, token, hg, _, _, hclosing, rfl⟩ := rightParen_eq_ok_iff.mp hr
    exact h.close hg hclosing
  | comma =>
    obtain ⟨_, outer, hg, rfl⟩ := comma_eq_ok_iff.mp hr
    exact h.comma hg
  | logOpen =>
    cases hr
    exact h.logOpen _
  | strayLetter => cases hr
  | number value =>
    cases hr
    exact h.number value

end InStep

/-- The tokens of a text have a postfix order, of numbers, signs and operators between operands. -/
theorem exists_postfixOrder {text : String} {tokens : List Token} (h : tokenize text = .ok tokens) :
    ∃ sequence, toPostfixOrder tokens = .ok sequence ∧ ∀ t ∈ sequence, Computes t := by
  obtain ⟨r, hr, hgroups, _, rfl⟩ := tokenize_eq_ok_iff.mp h
  have hstart : InStep {} {} := ⟨rfl, .empty, by simp⟩
  obtain ⟨y, hy⟩ : ∃ y, InStep r y :=
    foldlM_item_induction (P := fun r => ∃ y, InStep r y)
      (fun _ _ _ _ _ _ ⟨_, hs⟩ hlexeme => hs.lexeme hlexeme) ⟨{}, hstart⟩ hr
  have hstack : ∀ t ∈ y.stack, Waits t := (hgroups ▸ hy.mirrors).waits_of_outermost
  refine ⟨y.finish, ?_, ?_⟩
  · unfold toPostfixOrder
    rw [hy.run]
    rfl
  · intro t ht
    rcases List.mem_append.mp ht with ht | ht
    · exact hy.computes t (List.mem_reverse.mp ht)
    · exact (hstack t ht).computes

/-! ### Evaluation errors -/

/-- There are too few operands, or too many. -/
def Miscounts : EvalError → Prop
  | .insufficientOperands _ _ _ | .leftoverOperands _ | .emptyExpression => True
  | .unsupportedUnary _ | .unexpectedToken _ => False

lemma miscounts_of_refuses {stack : List Evaluation} {t : Token} {e : EvalError} (ht : Computes t)
    (h : Refuses stack t e) : Miscounts e := by
  cases h with
  | unaryShort | binaryShort => trivial
  | @unsupported op operand below hnone =>
    have hsome := (applyUnary?_isSome operand.value).mpr ht
    rw [hnone] at hsome
    cases hsome
  | unexpected _ hnumber hoperator =>
    cases t with
    | number value => exact (hnumber value rfl).elim
    | operator => cases hoperator
    | openParen | closeParen | openLog | closeLog | separator => cases ht

lemma miscounts_of_compute {stack : List Evaluation} {tokens : List Token} {e : EvalError}
    (htokens : ∀ t ∈ tokens, Computes t) (h : compute stack tokens = .error e) : Miscounts e := by
  induction tokens generalizing stack with
  | nil =>
    cases stack with
    | nil =>
      cases h
      trivial
    | cons operand below =>
      cases below with
      | nil => cases h
      | cons =>
        cases h
        trivial
  | cons t rest ih =>
    obtain ⟨ht, hrest⟩ := List.forall_mem_cons.mp htokens
    rcases compute_cons_cases stack t rest with ⟨next, _, heq⟩ | ⟨e', hrefuses, heq⟩
    · exact ih hrest (heq.symm.trans h)
    · have hsame : e' = e := Except.error.inj (heq.symm.trans h)
      exact hsame ▸ miscounts_of_refuses ht hrefuses

/-- The stages agree on what an expression is made of. What is tokenized has a postfix order of
numbers, signs and operators between operands; so whatever the memory answers, a text fails in the
tokenizer, or else because it has too few operands or too many. -/
theorem stages_agree (text : String) :
    (∀ tokens, tokenize text = .ok tokens →
      ∃ sequence, toPostfixOrder tokens = .ok sequence ∧ ∀ t ∈ sequence, Computes t) ∧
    ∀ fault, Yields (Expression.evaluate text) (.error fault) →
      (∃ e, tokenize text = .error e ∧ fault = .lex e) ∨ ∃ e, fault = .eval e ∧ Miscounts e := by
  refine ⟨fun _ h => exists_postfixOrder h, fun fault h => ?_⟩
  have huncached : uncached text = .error fault := h.matches_uncached.eq_error
  rcases uncached_cases text with ⟨e, ht, heq⟩ | ⟨tokens, ht, hstages⟩
  · rw [huncached] at heq
    exact .inl ⟨e, ht, Except.error.inj heq⟩
  · obtain ⟨ordered, hordered, hcomputes⟩ := exists_postfixOrder ht
    rcases hstages with ⟨e, hs, _⟩ | ⟨ordered', hs, heq⟩
    · rw [hordered] at hs
      cases hs
    · rw [hordered] at hs
      cases hs
      rw [huncached] at heq
      cases hc : compute [] ordered with
      | ok result => simp [hc, Except.mapError] at heq
      | error e =>
        have hfault : fault = .eval e := by simpa [hc, Except.mapError] using heq
        exact .inr ⟨e, hfault, miscounts_of_compute hcomputes hc⟩

end Reckoner.Proofs
