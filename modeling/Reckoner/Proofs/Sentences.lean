import Mathlib.Tactic
import Reckoner.Proofs.Layers
import Reckoner.Proofs.YardSimulation

/-!
# Sentences

The expressions of the language as syntax: operands behind any number of signs, joined by
operators, where an operand is a number, a group or a logarithm. Numbers are left open, so that the
same syntax serves token sequences and texts. Every sentence is read by the recursive parser, as its
precedence tree, and put in postfix order by the yard.
-/

namespace Reckoner.Proofs

abbrev Sign := {op : Operator // isSum op}

abbrev Joint := {op : Operator // op ≠ .log}

mutual

inductive Atom (N : Type) where
  | number (n : N)
  | group (e : Infix N)
  | log (base argument : Infix N)

/-- Operands behind their signs, with an operator between each two. -/
inductive Infix (N : Type) where
  | last (signs : List Sign) (atom : Atom N)
  | join (signs : List Sign) (atom : Atom N) (op : Joint) (rest : Infix N)

end

def operators (signs : List Sign) : List Operator :=
  signs.map Subtype.val

lemma operators_isSum (signs : List Sign) : ∀ op ∈ operators signs, isSum op := by
  intro op hop
  obtain ⟨sign, _, rfl⟩ := List.mem_map.mp hop
  exact sign.2

variable {N : Type} (value : N → Binary64)

mutual

def Atom.tokens : Atom N → List Token
  | .number n => [.number (value n)]
  | .group e => .openParen :: (e.tokens ++ [.closeParen])
  | .log base argument =>
    .operator .log .binary :: .openLog ::
      (base.tokens ++ .separator :: (argument.tokens ++ [.closeLog]))

def Infix.tokens : Infix N → List Token
  | .last signs atom => signTokens (operators signs) ++ atom.tokens
  | .join signs atom op rest =>
    signTokens (operators signs) ++ atom.tokens ++ .operator op.1 .binary :: rest.tokens

end

mutual

/-- The formula of an operand, which nothing around it can break up. -/
def Atom.formula : Atom N → Formula
  | .number n => .number (value n)
  | .group e => sum e.chain
  | .log base argument => .binary .log (sum base.chain) (sum argument.chain)

def Infix.chain : Infix N → Chain Signed
  | .last signs atom => ⟨⟨operators signs, atom.formula⟩, []⟩
  | .join signs atom op rest =>
    ⟨⟨operators signs, atom.formula⟩, (op.1, rest.chain.first) :: rest.chain.rest⟩

end

/-- The precedence tree of a sentence. -/
def Infix.formula (e : Infix N) : Formula :=
  sum (e.chain value)

/-! ### Reading sentences -/

lemma stops_of_joint? {rest : List Token} (h : joint? rest = none) : Stops 0 rest := by
  intro op hop
  rw [h] at hop
  cases hop

mutual

theorem Atom.operates (a : Atom N) (rest : List Token) :
    Operates (a.tokens value ++ rest) (a.formula value) rest :=
  match a with
  | .number n => operand_number (value n) rest
  | .group e => by
    have he := (e.climbs (.closeParen :: rest) rfl).climb
    simp only [Atom.tokens, List.cons_append, List.append_assoc, List.nil_append]
    exact operand_group he
  | .log base argument => by
    have hbase :=
      (base.climbs (.separator :: (argument.tokens value ++ .closeLog :: rest)) rfl).climb
    have hargument := (argument.climbs (.closeLog :: rest) rfl).climb
    simp only [Atom.tokens, List.cons_append, List.append_assoc, List.nil_append]
    exact operand_log hbase hargument

theorem Infix.climbs (e : Infix N) (rest : List Token) (hrest : joint? rest = none) :
    Climbs 0 (e.tokens value ++ rest) (e.formula value) rest :=
  sum_climbs (e.legible rest) (stops_of_joint? hrest)

theorem Infix.legible (e : Infix N) (rest : List Token) :
    Legible (· ≠ .log) OperatesBehind rest (e.chain value) (e.tokens value ++ rest) :=
  match e with
  | .last signs atom => by
    refine .last ⟨operators_isSum signs, atom.tokens value ++ rest, ?_, atom.operates rest⟩
    rw [Infix.tokens, List.append_assoc]
  | .join signs atom op later => by
    refine .cons ⟨operators_isSum signs, _, ?_, atom.operates _⟩ op.2 (later.legible rest)
    simp only [Infix.tokens, List.append_assoc, List.cons_append]

end

theorem Infix.climb?_tokens (e : Infix N) : climb? (e.tokens value) = some (e.formula value) := by
  have h := (e.climbs value [] rfl).climb
  rw [List.append_nil] at h
  exact climb?_eq_some_iff.mpr h

/-- The yard puts every sentence in the order of the formula that the recursive parser reads. -/
theorem toPostfixOrder_eq_climbed (e : Infix N) :
    ∃ t, climb? (e.tokens value) = some t ∧
      toPostfixOrder (e.tokens value) = .ok t.postorder := by
  have h := e.climb?_tokens value
  exact ⟨e.formula value, h, toPostfixOrder_of_climb h⟩

end Reckoner.Proofs
