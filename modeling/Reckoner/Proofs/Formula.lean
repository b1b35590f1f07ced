import Mathlib.Tactic
import Reckoner.Proofs.PlainEvaluation

/-!
# Formulas

A formula is what an expression means: numbers, signs in front of operands and operators
between operands. It has a postfix sequence, a drawn tree and a value, and evaluating the
postfix sequence gives the other two.
-/

namespace Reckoner.Proofs

inductive Formula where
  | number (value : Binary64)
  | unary (op : Operator) (operand : Formula)
  | binary (op : Operator) (l r : Formula)
deriving DecidableEq, Repr

namespace Formula

def postorder : Formula → List Token
  | number value => [.number value]
  | unary op t => t.postorder ++ [.operator op .unary]
  | binary op l r => l.postorder ++ r.postorder ++ [.operator op .binary]

/-- The tree in which leaves are labelled with numbers and other nodes with operators. -/
def tree : Formula → Tree
  | number value => .number value
  | unary op t => .right op.symbol t.tree
  | binary op l r => .both op.symbol l.tree r.tree

/-- The value, unless some operator has no unary form. -/
def value? : Formula → Option Binary64
  | number value => some value
  | unary op t => t.value?.bind op.applyUnary?
  | binary op l r => l.value?.bind fun x => r.value?.map fun y => op.apply x y

/-- A formula that has a value is computed from its postfix sequence on top of any stack. -/
theorem compute_postorder {t : Formula} {v : Binary64} (h : t.value? = some v)
    (stack : List Evaluation) (rest : List Token) :
    compute stack (t.postorder ++ rest) = compute (⟨v, t.tree⟩ :: stack) rest := by
  induction t generalizing v stack rest with
  | number value =>
    cases h
    rfl
  | unary op t ih =>
    simp only [value?, Option.bind_eq_some_iff] at h
    obtain ⟨x, hx, hv⟩ := h
    rw [postorder, List.append_assoc, ih hx]
    simp only [List.singleton_append, compute, hv, tree]
  | binary op l r ihl ihr =>
    simp only [value?, Option.bind_eq_some_iff, Option.map_eq_some_iff] at h
    obtain ⟨x, hx, y, hy, rfl⟩ := h
    rw [postorder, List.append_assoc, List.append_assoc, ihl hx, ihr hy]
    simp only [List.singleton_append, compute, tree]

end Formula

end Reckoner.Proofs
