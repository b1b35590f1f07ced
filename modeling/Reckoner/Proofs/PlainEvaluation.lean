import Mathlib.Tactic
import Reckoner.Expression
import Reckoner.World

/-!
# Evaluation without a memory

Without a memory an evaluation is a recursion over the postfix sequence with a stack of
operands, and the binary operations that it executes can be listed beforehand. This file
writes both down and shows that the job of an expression, run against no memory, comes to
what the recursion says.
-/

namespace Reckoner.Proofs
open Evaluation (ofStack binary remember)

variable {α β : Type}

/-! ### Running jobs -/

lemma run_bind (job : Job α) (f : α → Job β) (world : World) :
    (job.bind f).run world = (f (job.run world).1).run (job.run world).2 := by
  induction job generalizing world with
  | done result => rfl
  | note record next ih => exact ih _
  | lookup key next ih => exact ih _ _
  | store key value next ih => exact ih _
  | read path next ih => exact ih _ _
  | write path content next ih =>
    simp only [Job.bind, Job.run]
    split
    · exact ih _ _
    · exact ih _ _
  | clock next ih => exact ih _ _

lemma noteAll_append (records records' : List Record) :
    Job.noteAll (records ++ records') =
      (Job.noteAll records).bind fun _ => Job.noteAll records' := by
  induction records with
  | nil => rfl
  | cons record rest ih =>
    simp only [List.cons_append, Job.noteAll, Job.bind]
    rw [ih]

lemma noteAll_run_memory (records : List Record) (world : World) :
    ((Job.noteAll records).run world).2.memory = world.memory := by
  induction records generalizing world with
  | nil => rfl
  | cons record rest ih => exact ih _

/-! ### The recursion -/

/-- The result of the rest of a sequence with the operands at hand, the latest first. -/
def compute : List Evaluation → List Token → Except EvalError Evaluation
  | stack, [] => ofStack stack
  | stack, .number value :: rest => compute (⟨value, .number value⟩ :: stack) rest
  | stack, .operator op .unary :: rest =>
    match stack with
    | [] => .error (.insufficientOperands op 1 0)
    | operand :: below =>
      match op.applyUnary? operand.value with
      | none => .error (.unsupportedUnary op)
      | some value => compute (⟨value, .right op.symbol operand.tree⟩ :: below) rest
  | stack, .operator op .binary :: rest =>
    match stack with
    | rhs :: lhs :: below =>
      compute (⟨op.apply lhs.value rhs.value, .both op.symbol lhs.tree rhs.tree⟩ :: below) rest
    | short => .error (.insufficientOperands op 2 short.length)
  | _, token :: _ => .error (.unexpectedToken token)

/-- A token is computed: it takes its operands off the stack and puts its result there. -/
inductive Advances : List Evaluation → Token → List Evaluation → Prop
  | number (value : Binary64) (stack : List Evaluation) :
    Advances stack (.number value) (⟨value, .number value⟩ :: stack)
  | unary {op : Operator} {operand : Evaluation} {value : Binary64} (below : List Evaluation)
    (h : op.applyUnary? operand.value = some value) :
    Advances (operand :: below) (.operator op .unary)
      (⟨value, .right op.symbol operand.tree⟩ :: below)
  | binary (op : Operator) (rhs lhs : Evaluation) (below : List Evaluation) :
    Advances (rhs :: lhs :: below) (.operator op .binary)
      (⟨op.apply lhs.value rhs.value, .both op.symbol lhs.tree rhs.tree⟩ :: below)

/-- A token cannot be computed with the operands at hand. -/
inductive Refuses : List Evaluation → Token → EvalError → Prop
  | unaryShort (op : Operator) : Refuses [] (.operator op .unary) (.insufficientOperands op 1 0)
  | unsupported {op : Operator} {operand : Evaluation} (below : List Evaluation)
    (h : op.applyUnary? operand.value = none) :
    Refuses (operand :: below) (.operator op .unary) (.unsupportedUnary op)
  | binaryShort (op : Operator) {stack : List Evaluation} (h : stack.length < 2) :
    Refuses stack (.operator op .binary) (.insufficientOperands op 2 stack.length)
  | unexpected (stack : List Evaluation) {t : Token} (hnumber : ∀ value, t ≠ .number value)
    (hoperator : t.isOperator = false) : Refuses stack t (.unexpectedToken t)

lemma compute_cons_cases (stack : List Evaluation) (t : Token) (rest : List Token) :
    (∃ next, Advances stack t next ∧ compute stack (t :: rest) = compute next rest) ∨
      ∃ e, Refuses stack t e ∧ compute stack (t :: rest) = .error e := by
  cases t with
  | number value => exact .inl ⟨_, .number value stack, rfl⟩
  | operator op arity =>
    cases arity with
    | unary =>
      cases stack with
      | nil => exact .inr ⟨_, .unaryShort op, rfl⟩
      | cons operand below =>
        cases hv : op.applyUnary? operand.value with
        | none => exact .inr ⟨_, .unsupported below hv, by simp only [compute, hv]⟩
        | some value => exact .inl ⟨_, .unary below hv, by simp only [compute, hv]⟩
    | binary =>
      cases stack with
      | nil => exact .inr ⟨_, .binaryShort op (by simp), rfl⟩
      | cons rhs stack =>
        cases stack with
        | nil => exact .inr ⟨_, .binaryShort op (by simp), rfl⟩
        | cons lhs below => exact .inl ⟨_, .binary op rhs lhs below, rfl⟩
  | openParen | closeParen | openLog | closeLog | separator =>
    exact .inr ⟨_, .unexpected stack nofun rfl, rfl⟩

lemma compute_cons_eq_ok {stack : List Evaluation} {t : Token} {rest : List Token}
    {result : Evaluation} (h : compute stack (t :: rest) = .ok result) :
    ∃ next, Advances stack t next ∧ compute next rest = .ok result := by
  rcases compute_cons_cases stack t rest with ⟨next, hadvances, heq⟩ | ⟨e, _, heq⟩
  · exact ⟨next, hadvances, heq.symm.trans h⟩
  · rw [heq] at h
    cases h

lemma compute_nil_eq_ok {stack : List Evaluation} {result : Evaluation}
    (h : compute stack [] = .ok result) : stack = [result] := by
  cases stack with
  | nil => cases h
  | cons operand below =>
    cases below with
    | nil =>
      cases h
      rfl
    | cons => cases h

/-- The binary operations that are executed with the values at hand, up to a token that fails. -/
def operations : List Binary64 → List Token → List Cache.Key
  | stack, .number value :: rest => operations (value :: stack) rest
  | operand :: below, .operator op .unary :: rest =>
    match op.applyUnary? operand with
    | none => []
    | some value => operations (value :: below) rest
  | rhs :: lhs :: below, .operator op .binary :: rest =>
    ⟨op, lhs, rhs⟩ :: operations (op.apply lhs rhs :: below) rest
  | _, _ => []

lemma binary_run_off (op : Operator) (lhs rhs : Binary64) {world : World}
    (h : world.memory = .off) : (binary op lhs rhs).run world = (op.apply lhs rhs, world) := by
  have hw : { world with memory := Memory.off } = world := by rw [← h]
  cases hc : op.isCommutative <;>
    simp [binary, remember, Job.run, Memory.lookup, Memory.store, h, hc, hw]

theorem run_off (stack : List Evaluation) (tokens : List Token) {world : World}
    (h : world.memory = .off) :
    ((Evaluation.run stack tokens).run world).1 = compute stack tokens := by
  induction tokens generalizing stack world with
  | nil =>
    simp only [Evaluation.run, compute]
    split <;> simp_all [Job.run]
  | cons token rest ih =>
    match token with
    | .number value => exact ih _ h
    | .operator op .unary =>
      match stack with
      | [] => rfl
      | operand :: below =>
        simp only [Evaluation.run, compute]
        cases op.applyUnary? operand.value with
        | none => rfl
        | some value => exact ih _ h
    | .operator op .binary =>
      match stack with
      | [] => rfl
      | [operand] => rfl
      | rhs :: lhs :: below =>
        simp only [Evaluation.run, compute]
        rw [run_bind, binary_run_off op _ _ h]
        exact ih _ h
    | .openParen | .closeParen | .openLog | .closeLog | .separator => rfl

/-! ### From the text on -/

def sequence (text : String) : Except Fault (List Token) :=
  match tokenize text with
  | .error e => .error (.lex e)
  | .ok tokens => (toPostfixOrder tokens).mapError .parse

/-- The binary operations that the evaluation of a text executes without a memory. -/
def executedKeys (text : String) : List Cache.Key :=
  match sequence text with
  | .error _ => []
  | .ok tokens => operations [] tokens

/-- The outcome of a text without a memory. -/
def uncached (text : String) : Outcome :=
  ((Expression.evaluate text).runOn .off).1

lemma evaluate_eq (text : String) :
    ∃ records, Expression.evaluate text =
      (Job.noteAll records).bind fun _ =>
        match sequence text with
        | .error fault => .done (.error fault)
        | .ok tokens => (evaluate tokens).bind fun r => .done (r.mapError Fault.eval) := by
  cases ht : tokenize text with
  | error e =>
    refine ⟨.evaluating text :: Expression.lexicalRecords text, ?_⟩
    simp only [Expression.evaluate, sequence, ht]
    rfl
  | ok tokens =>
    refine ⟨(.evaluating text :: Expression.lexicalRecords text) ++
      Expression.orderRecords tokens, ?_⟩
    rw [noteAll_append, Job.bind_assoc]
    simp only [Expression.evaluate, sequence, ht]
    cases toPostfixOrder tokens <;> rfl

theorem uncached_eq (text : String) :
    uncached text =
      match sequence text with
      | .error fault => .error fault
      | .ok tokens => (compute [] tokens).mapError Fault.eval := by
  obtain ⟨records, h⟩ := evaluate_eq text
  simp only [uncached, Job.runOn, h, run_bind]
  cases sequence text with
  | error fault => rfl
  | ok tokens =>
    simp only [run_bind, Job.run, evaluate]
    rw [run_off]
    exact noteAll_run_memory records _

/-- The outcome of a text without a memory comes from the stage that it gets to. -/
lemma uncached_cases (text : String) :
    (∃ e, tokenize text = .error e ∧ uncached text = .error (.lex e)) ∨
      ∃ tokens, tokenize text = .ok tokens ∧
        ((∃ e, toPostfixOrder tokens = .error e ∧ uncached text = .error (.parse e)) ∨
          ∃ ordered, toPostfixOrder tokens = .ok ordered ∧
            uncached text = (compute [] ordered).mapError Fault.eval) := by
  rw [uncached_eq]
  unfold sequence
  cases ht : tokenize text with
  | error e => exact .inl ⟨e, rfl, rfl⟩
  | ok tokens =>
    refine .inr ⟨tokens, rfl, ?_⟩
    cases hs : toPostfixOrder tokens with
    | error e => exact .inl ⟨e, rfl, by simp only [hs, Except.mapError]⟩
    | ok ordered => exact .inr ⟨ordered, rfl, by simp only [hs, Except.mapError]⟩

end Reckoner.Proofs
