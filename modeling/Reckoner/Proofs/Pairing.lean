import Mathlib.Tactic
import Reckoner.Proofs.Guarantees

/-!
# Products are stored in pairs

The two stores of a product are two steps, and anything may happen on a shared memory between
them. What can be said of a single job is that its very next step is the second store.
-/

namespace Reckoner.Proofs
open Evaluation (binary remember)

variable {α β : Type}

/-- The store that has to follow the store of a key. -/
def dueAfter (due : Option Cache.Key) (key : Cache.Key) : Option Cache.Key :=
  match due with
  | some _ => none
  | none => if key.op.isCommutative then some key.reversed else none

/-- A job that stores the key that is due, if any, at once, and every product in both orders. -/
def Paired : Option Cache.Key → Job α → Prop
  | due, .done _ => due = none
  | due, .note _ next => due = none ∧ Paired none next
  | due, .lookup _ next => due = none ∧ ∀ answer, Paired none (next answer)
  | due, .store key _ next =>
    (∀ other, due = some other → key = other) ∧ Paired (dueAfter due key) next
  | due, .read _ next => due = none ∧ ∀ answer, Paired none (next answer)
  | due, .write _ _ next => due = none ∧ ∀ answer, Paired none (next answer)
  | due, .clock next => due = none ∧ ∀ answer, Paired none (next answer)

namespace Paired

lemma bind {due : Option Cache.Key} {job : Job α} {f : α → Job β} (h : Paired due job)
    (hf : ∀ a, Paired none (f a)) : Paired due (job.bind f) := by
  induction job generalizing due with
  | done result =>
    obtain rfl : due = none := h
    exact hf result
  | note record next ih => exact ⟨h.1, ih h.2⟩
  | store key value next ih => exact ⟨h.1, ih h.2⟩
  | lookup key next ih | read path next ih | write path content next ih | clock next ih =>
    exact ⟨h.1, fun answer => ih answer (h.2 answer)⟩

lemma noteAll (records : List Record) : Paired none (Job.noteAll records) := by
  induction records with
  | nil => rfl
  | cons record rest ih => exact ⟨rfl, ih⟩

lemma remember (op : Operator) (lhs rhs value : Binary64) :
    Paired none (remember op ⟨op, lhs, rhs⟩ value) := by
  cases hc : op.isCommutative <;> simp [Evaluation.remember, Paired, dueAfter, hc]

lemma binary (op : Operator) (lhs rhs : Binary64) : Paired none (binary op lhs rhs) := by
  refine ⟨rfl, ?_⟩
  rintro (_ | value)
  · cases hc : op.isCommutative with
    | false =>
      simp only [Bool.false_eq_true, if_false]
      exact remember op lhs rhs _
    | true =>
      refine ⟨rfl, ?_⟩
      rintro (_ | value)
      · exact remember op lhs rhs _
      · exact ⟨rfl, rfl⟩
  · exact ⟨rfl, rfl⟩

lemma run (stack : List Evaluation) (tokens : List Token) :
    Paired none (Evaluation.run stack tokens) := by
  induction tokens generalizing stack with
  | nil =>
    simp only [Evaluation.run]
    split
    · exact ⟨rfl, rfl⟩
    · rfl
  | cons token rest ih =>
    cases token with
    | number value => exact ih _
    | operator op position =>
      cases stack with
      | nil => cases position <;> rfl
      | cons operand below =>
        cases position with
        | unary =>
          simp only [Evaluation.run]
          cases op.applyUnary? operand.value with
          | none => rfl
          | some value => exact ih _
        | binary =>
          cases below with
          | nil => rfl
          | cons lhs below => exact (binary op lhs.value operand.value).bind fun value => ih _
    | openParen | closeParen | openLog | closeLog | separator => rfl

lemma evaluate (text : String) : Paired none (Expression.evaluate text) := by
  obtain ⟨records, he⟩ := evaluate_eq text
  rw [he]
  refine (noteAll records).bind fun _ => ?_
  cases sequence text with
  | error fault => rfl
  | ok tokens => exact (run [] tokens).bind fun _ => rfl

lemma mapM {ι : Type} {f : ι → Job α} (h : ∀ x, Paired none (f x)) (xs : List ι) :
    Paired none (xs.mapM f) := by
  induction xs with
  | nil => rfl
  | cons x rest ih =>
    rw [List.mapM_cons]
    exact (h x).bind fun a => ih.bind fun as => rfl

end Paired

end Reckoner.Proofs
