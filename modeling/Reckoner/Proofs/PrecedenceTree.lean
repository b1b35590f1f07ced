import Mathlib.Tactic
import Reckoner.Proofs.Formula

/-!
# Precedence trees

What an unparenthesized chain of operands means, said layer by layer and without the table of
operators. The chain is cut at `+` and `-`, and grouped to the left. In each piece the first sign
takes everything that follows it as its operand. What is left is cut at `*` and `/`, and grouped to
the left, and the pieces of that are joined by `^`, which groups to the right.
-/

namespace Reckoner.Proofs

variable {α β : Type}

/-- One item or more, with an operator between each two. -/
structure Chain (α : Type) where
  first : α
  rest : List (Operator × α)

namespace Chain

def map (f : α → β) (c : Chain α) : Chain β :=
  ⟨f c.first, c.rest.map fun x => (x.1, f x.2)⟩

/-- Puts a piece in front of the first item of the first piece. -/
def glue (x : α) (op : Operator) (c : Chain (Chain α)) : Chain (Chain α) :=
  ⟨⟨x, (op, c.first.first) :: c.first.rest⟩, c.rest⟩

def cutFrom (p : Operator → Bool) (x : α) : List (Operator × α) → Chain (Chain α)
  | [] => ⟨⟨x, []⟩, []⟩
  | (op, y) :: rest =>
    if p op then ⟨⟨x, []⟩, (op, (cutFrom p y rest).first) :: (cutFrom p y rest).rest⟩
    else glue x op (cutFrom p y rest)

/-- Cuts a chain at the operators that satisfy `p`. -/
def cut (p : Operator → Bool) (c : Chain α) : Chain (Chain α) :=
  cutFrom p c.first c.rest

def groupLeft (c : Chain Formula) : Formula :=
  c.rest.foldl (fun t x => .binary x.1 t x.2) c.first

def groupRightFrom (t : Formula) : List (Operator × Formula) → Formula
  | [] => t
  | (op, u) :: rest => .binary op t (groupRightFrom u rest)

def groupRight (c : Chain Formula) : Formula :=
  groupRightFrom c.first c.rest

end Chain

def isSum (op : Operator) : Bool :=
  op = .add || op = .sub

def isProduct (op : Operator) : Bool :=
  op = .mul || op = .div

lemma applyUnary?_isSome {op : Operator} (x : Binary64) : (op.applyUnary? x).isSome ↔ isSum op := by
  cases op <;> simp [Operator.applyUnary?, isSum]

/-- Products of powers. -/
def product (c : Chain Formula) : Formula :=
  ((c.cut isProduct).map Chain.groupRight).groupLeft

/-- An operand with the signs in front of it. -/
structure Signed where
  signs : List Operator
  formula : Formula

def behind (signs : List Operator) (t : Formula) : Formula :=
  signs.foldr Formula.unary t

/-- Makes the first operand with a sign the last one: it takes in all that follows. -/
def collapse : List (Operator × Signed) → List (Operator × Formula)
  | [] => []
  | (op, x) :: rest =>
    if x.signs = [] then (op, x.formula) :: collapse rest
    else [(op, behind x.signs (product ⟨x.formula, collapse rest⟩))]

/-- Signs in front of a product. -/
def term (c : Chain Signed) : Formula :=
  behind c.first.signs (product ⟨c.first.formula, collapse c.rest⟩)

/-- Sums of terms. -/
def sum (c : Chain Signed) : Formula :=
  ((c.cut isSum).map term).groupLeft

/-- `a ^ -b * c ^ d + e` -/
example (a b c d e : Formula) :
    sum ⟨⟨[], a⟩, [(.pow, ⟨[.sub], b⟩), (.mul, ⟨[], c⟩), (.pow, ⟨[], d⟩), (.add, ⟨[], e⟩)]⟩ =
      .binary .add
        (.binary .pow a (.unary .sub (.binary .mul b (.binary .pow c d)))) e := rfl

end Reckoner.Proofs
