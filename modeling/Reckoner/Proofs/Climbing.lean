import Mathlib.Tactic
import Reckoner.Proofs.Formula

/-!
# Precedence climbing

A recursive parser that reads everything it needs to know about operators from their table.
It reads an operand, and then goes on for as long as the operators bind at least as tightly as
asked for. What it reads always has a value.
-/

namespace Reckoner.Proofs

/-- How tightly an operator has to bind to stand in the right operand of another one. -/
def rightMinimum (op : Operator) : Nat :=
  if op.entry.rightAssociative then op.entry.binaryPrecedence else op.entry.binaryPrecedence + 1

/-- A formula that was read, and what follows it: fewer than `n` tokens. -/
structure Parsed (n : Nat) where
  formula : Formula
  rest : List Token
  shorter : rest.length < n

namespace Parsed

variable {n : Nat}

def before (t : Formula) (rest : List Token) : Parsed (rest.length + 1) :=
  ⟨t, rest, Nat.lt_succ_self _⟩

def withFormula (p : Parsed n) (t : Formula) : Parsed n :=
  ⟨t, p.rest, p.shorter⟩

/-- The same behind one more token. -/
def behind (p : Parsed n) : Parsed (n + 1) :=
  ⟨p.formula, p.rest, p.shorter.trans (Nat.lt_succ_self n)⟩

def andThen (p : Parsed n) (q : Parsed (p.rest.length + 1)) : Parsed n :=
  ⟨q.formula, q.rest, q.shorter.trans_le p.shorter⟩

/-- The same in front of a token, which has to follow. -/
def upTo (token : Token) : Parsed n → Option (Parsed n)
  | ⟨t, next :: rest, h⟩ =>
    if next = token then some ⟨t, rest, (Nat.lt_succ_self rest.length).trans h⟩ else none
  | ⟨_, [], _⟩ => none

def toPair (p : Parsed n) : Formula × List Token :=
  (p.formula, p.rest)

lemma upTo_eq_some_iff {token : Token} {p q : Parsed n} :
    p.upTo token = some q ↔ p.formula = q.formula ∧ p.rest = token :: q.rest := by
  obtain ⟨t, rest, h⟩ := p
  obtain ⟨u, later, h'⟩ := q
  cases rest with
  | nil => simp [upTo]
  | cons next rest =>
    simp only [upTo]
    split_ifs with hnext
    · simp [hnext]
    · simp [hnext]

end Parsed

mutual

/-- A number, an operand behind a sign, a group or a logarithm. -/
def readOperand (tokens : List Token) : Option (Parsed tokens.length) :=
  match tokens with
  | .number value :: rest => some (.before (.number value) rest)
  | .operator op .unary :: rest => do
    let precedence ← op.entry.unaryPrecedence
    let p ← readFormula (precedence + 1) rest
    return (p.withFormula (.unary op p.formula)).behind
  | .openParen :: rest => do
    let p ← readFormula 0 rest
    let p ← p.upTo .closeParen
    return p.behind
  | .operator .log .binary :: .openLog :: rest => do
    let p ← readFormula 0 rest
    let p ← p.upTo .separator
    let q ← readFormula 0 p.rest
    let q ← q.upTo .closeLog
    let q := q.withFormula (.binary .log p.formula q.formula)
    return (p.andThen q.behind).behind.behind
  | _ => none
termination_by (tokens.length, 0)
decreasing_by all_goals grind [Parsed]

/-- An operand, extended by the operators that bind at least as tightly as `minimum`. -/
def readFormula (minimum : Nat) (tokens : List Token) : Option (Parsed tokens.length) := do
  let p ← readOperand tokens
  let more ← readMore minimum p.formula p.rest
  return p.andThen more
termination_by (tokens.length, 1)
decreasing_by all_goals grind [Parsed]

def readMore (minimum : Nat) (lhs : Formula) (tokens : List Token) :
    Option (Parsed (tokens.length + 1)) :=
  match tokens with
  | .operator op .binary :: rest =>
    if op ≠ .log ∧ minimum ≤ op.entry.binaryPrecedence then do
      let rhs ← readFormula (rightMinimum op) rest
      let more ← readMore minimum (.binary op lhs rhs.formula) rhs.rest
      return (rhs.andThen more).behind.behind
    else some (.before lhs (.operator op .binary :: rest))
  | rest => some (.before lhs rest)
termination_by (tokens.length, 0)
decreasing_by all_goals grind [Parsed]

end

def operand (tokens : List Token) : Option (Formula × List Token) :=
  (readOperand tokens).map Parsed.toPair

def climb (minimum : Nat) (tokens : List Token) : Option (Formula × List Token) :=
  (readFormula minimum tokens).map Parsed.toPair

def extend (minimum : Nat) (lhs : Formula) (tokens : List Token) :
    Option (Formula × List Token) :=
  (readMore minimum lhs tokens).map Parsed.toPair

/-- The formula of a whole token sequence. -/
def climb? (tokens : List Token) : Option Formula :=
  match climb 0 tokens with
  | some (t, []) => some t
  | _ => none

/-! ### What follows -/

/-- The operator between operands that a token sequence starts with. -/
def joint? : List Token → Option Operator
  | .operator op .binary :: _ => if op = .log then none else some op
  | _ => none

/-- What follows does not extend a formula at the level `minimum`. -/
def Stops (minimum : Nat) (rest : List Token) : Prop :=
  ∀ op ∈ joint? rest, op.entry.binaryPrecedence < minimum

lemma joint?_ne_log {op : Operator} {rest : List Token} (h : op ∈ joint? rest) : op ≠ .log := by
  unfold joint? at h
  split at h
  · split_ifs at h with hop
    · cases h
    · cases h
      exact hop
  · cases h

lemma stops_of_lt {minimum : Nat} {op : Operator} {rest : List Token}
    (h : ¬(op ≠ .log ∧ minimum ≤ op.entry.binaryPrecedence)) :
    Stops minimum (.operator op .binary :: rest) := by
  intro next hnext
  have hop := joint?_ne_log hnext
  simp only [joint?, Option.mem_def] at hnext
  split_ifs at hnext with hlog
  cases hnext
  exact Nat.lt_of_not_le fun hle => h ⟨hop, hle⟩

lemma stops_of_not_joint {minimum : Nat} {tokens : List Token}
    (h : ∀ op rest, tokens = .operator op .binary :: rest → False) : Stops minimum tokens := by
  intro next hnext
  unfold joint? at hnext
  split at hnext
  · exact (h _ _ rfl).elim
  · cases hnext

/-! ### Answers -/

section

variable {minimum : Nat} {op : Operator} {tokens between rest : List Token} {t u : Formula}

lemma operand_number (value : Binary64) (rest : List Token) :
    operand (.number value :: rest) = some (.number value, rest) := by
  unfold operand readOperand
  rfl

lemma operand_sign {precedence : Nat} (hop : op.entry.unaryPrecedence = some precedence)
    (h : climb (precedence + 1) tokens = some (t, rest)) :
    operand (.operator op .unary :: tokens) = some (.unary op t, rest) := by
  obtain ⟨p, hp, hpair⟩ := Option.map_eq_some_iff.mp h
  cases hpair
  unfold operand readOperand
  simp only [hop, hp, bind, Option.bind_some]
  rfl

lemma operand_group (h : climb 0 tokens = some (t, .closeParen :: rest)) :
    operand (.openParen :: tokens) = some (t, rest) := by
  obtain ⟨⟨_, _, _⟩, hp, hpair⟩ := Option.map_eq_some_iff.mp h
  cases hpair
  unfold operand readOperand
  simp only [hp, bind, Option.bind_some]
  rfl

lemma operand_log (ht : climb 0 tokens = some (t, .separator :: between))
    (hu : climb 0 between = some (u, .closeLog :: rest)) :
    operand (.operator .log .binary :: .openLog :: tokens) = some (.binary .log t u, rest) := by
  obtain ⟨⟨_, _, _⟩, hp, hpair⟩ := Option.map_eq_some_iff.mp ht
  obtain ⟨⟨_, _, _⟩, hq, hpair'⟩ := Option.map_eq_some_iff.mp hu
  cases hpair
  cases hpair'
  unfold operand readOperand
  simp only [hp, bind, Option.bind_some, Parsed.upTo, if_true, hq]
  rfl

lemma climb_of_operand (h : operand tokens = some (t, rest)) (minimum : Nat) :
    climb minimum tokens = extend minimum t rest := by
  obtain ⟨p, hp, hpair⟩ := Option.map_eq_some_iff.mp h
  cases hpair
  simp only [climb, extend, readFormula, hp, bind, Option.bind_some]
  cases readMore minimum p.formula p.rest <;> rfl

lemma extend_of_stops (h : Stops minimum rest) (t : Formula) :
    extend minimum t rest = some (t, rest) := by
  unfold extend readMore
  split
  · rename_i op later
    rw [if_neg]
    · rfl
    · rintro ⟨hop, hle⟩
      have hlt := h op (by simp [joint?, hop])
      omega
  · rfl

lemma extend_join (hop : op ≠ .log) (hm : minimum ≤ op.entry.binaryPrecedence)
    (h : climb (rightMinimum op) tokens = some (u, rest)) (t : Formula) :
    extend minimum t (.operator op .binary :: tokens) = extend minimum (.binary op t u) rest := by
  obtain ⟨p, hp, hpair⟩ := Option.map_eq_some_iff.mp h
  cases hpair
  simp only [extend]
  rw [readMore]
  simp only [hop, hm, ne_eq, not_false_eq_true, and_self, if_true, hp, bind, Option.bind_some]
  cases readMore minimum (.binary op t p.formula) p.rest <;> rfl

end

/-! ### Rules of reading -/

inductive Ask where
  | operand
  | climb (minimum : Nat)
  | extend (minimum : Nat) (lhs : Formula)

def Ask.minimum? : Ask → Option Nat
  | operand => none
  | climb minimum | extend minimum _ => some minimum

/-- The parser's answers as rules: what is asked of which tokens gives a formula and leaves the
rest. -/
inductive Reads : Ask → List Token → Formula → List Token → Prop
  | number (value : Binary64) (rest : List Token) :
    Reads .operand (.number value :: rest) (.number value) rest
  | sign {op : Operator} {precedence : Nat} {tokens rest : List Token} {t : Formula}
    (hop : op.entry.unaryPrecedence = some precedence)
    (h : Reads (.climb (precedence + 1)) tokens t rest) :
    Reads .operand (.operator op .unary :: tokens) (.unary op t) rest
  | group {tokens rest : List Token} {t : Formula}
    (h : Reads (.climb 0) tokens t (.closeParen :: rest)) :
    Reads .operand (.openParen :: tokens) t rest
  | log {tokens between rest : List Token} {base argument : Formula}
    (hbase : Reads (.climb 0) tokens base (.separator :: between))
    (hargument : Reads (.climb 0) between argument (.closeLog :: rest)) :
    Reads .operand (.operator .log .binary :: .openLog :: tokens) (.binary .log base argument) rest
  | climb {minimum : Nat} {tokens between rest : List Token} {t u : Formula}
    (h : Reads .operand tokens t between) (hmore : Reads (.extend minimum t) between u rest) :
    Reads (.climb minimum) tokens u rest
  | stay {minimum : Nat} {lhs : Formula} {rest : List Token} (h : Stops minimum rest) :
    Reads (.extend minimum lhs) rest lhs rest
  | join {minimum : Nat} {op : Operator} {tokens between rest : List Token} {lhs rhs t : Formula}
    (hop : op ≠ .log) (hminimum : minimum ≤ op.entry.binaryPrecedence)
    (hrhs : Reads (.climb (rightMinimum op)) tokens rhs between)
    (hmore : Reads (.extend minimum (.binary op lhs rhs)) between t rest) :
    Reads (.extend minimum lhs) (.operator op .binary :: tokens) t rest

lemma Reads.upTo {ask : Ask} {n : Nat} {tokens : List Token} {token : Token} {p q : Parsed n}
    (h : Reads ask tokens p.formula p.rest) (hp : p.upTo token = some q) :
    Reads ask tokens q.formula (token :: q.rest) := by
  obtain ⟨hformula, hrest⟩ := Parsed.upTo_eq_some_iff.mp hp
  rwa [hformula, hrest] at h

/-- The rules derive what the parser answers about fewer than `n` tokens. -/
structure Derives (n : Nat) : Prop where
  formula : ∀ {minimum : Nat} {tokens : List Token} {p : Parsed tokens.length},
    tokens.length < n → readFormula minimum tokens = some p →
    Reads (.climb minimum) tokens p.formula p.rest
  more : ∀ {minimum : Nat} {lhs : Formula} {tokens : List Token} {p : Parsed (tokens.length + 1)},
    tokens.length < n → readMore minimum lhs tokens = some p →
    Reads (.extend minimum lhs) tokens p.formula p.rest

namespace Derives

variable {minimum m n : Nat} {tokens : List Token}

lemma mono (h : Derives n) (hm : m ≤ n) : Derives m :=
  ⟨fun hlt => h.formula (hlt.trans_le hm), fun hlt => h.more (hlt.trans_le hm)⟩

lemma of_readOperand (ih : Derives tokens.length) {p : Parsed tokens.length}
    (h : readOperand tokens = some p) : Reads .operand tokens p.formula p.rest := by
  unfold readOperand at h
  split at h
  · cases h
    exact .number _ _
  · simp only [bind, Option.bind_eq_some_iff, pure, Option.some.injEq] at h
    obtain ⟨precedence, hop, q, hread, rfl⟩ := h
    exact .sign hop (ih.formula (by simp) hread)
  · simp only [bind, Option.bind_eq_some_iff, pure, Option.some.injEq] at h
    obtain ⟨q, hread, r, hr, rfl⟩ := h
    have hgroup := ih.formula (by simp) hread
    exact .group (hgroup.upTo hr)
  · simp only [bind, Option.bind_eq_some_iff, pure, Option.some.injEq] at h
    obtain ⟨q, hread, r, hr, q', hread', r', hr', rfl⟩ := h
    have hbase := ih.formula (by simp) hread
    have hshorter : r.rest.length < (Token.operator .log .binary :: .openLog :: _).length :=
      r.behind.behind.shorter
    have hargument := ih.formula hshorter hread'
    exact .log (hbase.upTo hr) (hargument.upTo hr')
  · cases h

lemma of_readFormula (ih : Derives tokens.length) {p : Parsed tokens.length}
    (h : readFormula minimum tokens = some p) :
    Reads (.climb minimum) tokens p.formula p.rest := by
  unfold readFormula at h
  simp only [bind, Option.bind_eq_some_iff, pure, Option.some.injEq] at h
  obtain ⟨q, hoperand, more, hmore, rfl⟩ := h
  exact .climb (ih.of_readOperand hoperand) (ih.more q.shorter hmore)

lemma of_readMore (ih : Derives tokens.length) {lhs : Formula} {p : Parsed (tokens.length + 1)}
    (h : readMore minimum lhs tokens = some p) :
    Reads (.extend minimum lhs) tokens p.formula p.rest := by
  unfold readMore at h
  split at h
  · split_ifs at h with hop
    · simp only [bind, Option.bind_eq_some_iff, pure, Option.some.injEq] at h
      obtain ⟨rhs, hformula, more, hmore, rfl⟩ := h
      exact .join hop.1 hop.2 (ih.formula (by simp) hformula) (ih.more rhs.behind.shorter hmore)
    · cases h
      exact .stay (stops_of_lt hop)
  · rename_i hnone
    cases h
    exact .stay (stops_of_not_joint hnone)

end Derives

theorem derives (n : Nat) : Derives n := by
  induction n with
  | zero => exact ⟨fun hlt => by omega, fun hlt => by omega⟩
  | succ n ih =>
    constructor
    · intro minimum tokens p hlt h
      exact (ih.mono (by omega)).of_readFormula h
    · intro minimum lhs tokens p hlt h
      exact (ih.mono (by omega)).of_readMore h

/-- What the parser answers is derived by the rules. -/
theorem reads_of_climb {minimum : Nat} {tokens rest : List Token} {t : Formula}
    (h : climb minimum tokens = some (t, rest)) : Reads (.climb minimum) tokens t rest := by
  obtain ⟨p, hread, hp⟩ := Option.map_eq_some_iff.mp h
  cases hp
  exact (derives tokens.length).of_readFormula hread

lemma Reads.stops {ask : Ask} {tokens rest : List Token} {t : Formula}
    (h : Reads ask tokens t rest) : ∀ minimum ∈ ask.minimum?, Stops minimum rest := by
  induction h with
  | number | sign | group | log => exact nofun
  | climb _ _ _ ihmore => exact ihmore
  | stay h =>
    rintro _ ⟨⟩
    exact h
  | join _ _ _ _ _ ihmore => exact ihmore

lemma climb?_eq_some_iff {tokens : List Token} {t : Formula} :
    climb? tokens = some t ↔ climb 0 tokens = some (t, []) := by
  unfold climb?
  split
  · rename_i h
    simp [h]
  · rename_i h
    simpa using h t

lemma reads_of_climb? {tokens : List Token} {t : Formula} (h : climb? tokens = some t) :
    Reads (.climb 0) tokens t [] :=
  reads_of_climb (climb?_eq_some_iff.mp h)

/-! ### Values -/

lemma value?_binary {op : Operator} {l r : Formula} (hl : l.value?.isSome) (hr : r.value?.isSome) :
    (Formula.binary op l r).value?.isSome := by
  obtain ⟨x, hx⟩ := Option.isSome_iff_exists.mp hl
  obtain ⟨y, hy⟩ := Option.isSome_iff_exists.mp hr
  simp [Formula.value?, hx, hy]

lemma value?_unary {op : Operator} {precedence : Nat} {t : Formula}
    (hop : op.entry.unaryPrecedence = some precedence) (ht : t.value?.isSome) :
    (Formula.unary op t).value?.isSome := by
  obtain ⟨x, hx⟩ := Option.isSome_iff_exists.mp ht
  simp only [Formula.value?, hx, Option.bind_some]
  cases op with
  | add | sub => rfl
  | mul | div | pow | log => cases hop

lemma Reads.value {ask : Ask} {tokens rest : List Token} {t : Formula}
    (h : Reads ask tokens t rest) :
    (∀ minimum lhs, ask = .extend minimum lhs → lhs.value?.isSome) → t.value?.isSome := by
  induction h with
  | number => exact fun _ => rfl
  | sign hop _ ih => exact fun _ => value?_unary hop (ih nofun)
  | group _ ih => exact fun _ => ih nofun
  | log _ _ ihbase ihargument => exact fun _ => value?_binary (ihbase nofun) (ihargument nofun)
  | climb _ _ ih ihmore =>
    intro _
    apply ihmore
    rintro _ _ ⟨⟩
    exact ih nofun
  | stay => exact fun hlhs => hlhs _ _ rfl
  | join _ _ _ _ ihrhs ihmore =>
    intro hlhs
    apply ihmore
    rintro _ _ ⟨⟩
    exact value?_binary (hlhs _ _ rfl) (ihrhs nofun)

lemma climb?_value {tokens : List Token} {t : Formula} (h : climb? tokens = some t) :
    t.value?.isSome :=
  (reads_of_climb? h).value nofun

end Reckoner.Proofs
