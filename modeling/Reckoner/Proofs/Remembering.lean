import Mathlib.Tactic
import Reckoner.Proofs.Guarantees
import Reckoner.Proofs.NotANumber
import Reckoner.Proofs.ReadingSteps
import Reckoner.Proofs.YardSteps

/-!
# One memory for many expressions

Expressions that are evaluated one after another on one memory come to the same outcomes as
without a memory, up to the pattern of a result that is not a number. The invariant is that
every entry is what the operation of its key would give. It survives an evaluation that fails
midway, and a product that is found under the key with its operands exchanged.
-/

namespace Reckoner.Proofs
open Evaluation (binary remember)

/-- An entry is right if it is what the operation of its key gives. -/
def Right (key : Cache.Key) (value : Binary64) : Prop :=
  Alike value (key.op.apply key.lhs key.rhs)

lemma apply_alike_comm {op : Operator} (hc : op.isCommutative) (x y : Binary64) :
    Alike (op.apply x y) (op.apply y x) := by
  obtain rfl := (isCommutative_iff op).mp hc
  exact mul_alike_comm x y

lemma faithful_alike (key : Cache.Key) : Faithful Right Alike (fun _ _ => True) key := by
  intro x y known hx hy
  have happly : Alike (key.op.apply x y) (key.op.apply key.lhs key.rhs) := hx.apply key.op hy
  have hself : Right ⟨key.op, x, y⟩ (key.op.apply x y) :=
    .refl_of (apply_isSignaling key.op x y)
  unfold binary
  refine ⟨?_, fun value hvalue => ⟨hvalue.trans happly, trivial⟩⟩
  cases hc : key.op.isCommutative with
  | false =>
    simp only [remember, hc, Bool.false_eq_true, if_false]
    exact ⟨hself, happly, trivial⟩
  | true =>
    have hcomm := apply_alike_comm hc
    simp only [remember, hc, if_true]
    refine ⟨⟨hself, hcomm x y, happly, trivial⟩, fun value hvalue => ⟨?_, trivial⟩⟩
    exact (hvalue.trans (hcomm y x)).trans happly

lemma sequence_number {text : String} {tokens : List Token} (h : sequence text = .ok tokens)
    {v : Binary64} (hv : Token.number v ∈ tokens) : v.isNaN = false := by
  unfold sequence at h
  cases ht : tokenize text with
  | error e => simp [ht] at h
  | ok read =>
    simp only [ht] at h
    cases hp : toPostfixOrder read with
    | error e => simp [hp, Except.mapError] at h
    | ok ordered =>
      rw [hp] at h
      cases h
      obtain ⟨literal, rfl⟩ := tokenize_number ht (toPostfixOrder_subset hp hv)
      exact literal_isNaN literal

lemma evaluate_guarantees_alike (text : String) (known : Set Cache.Key) :
    Guarantees Right (fun outcome _ => Matches Alike outcome (uncached text)) known
      (Expression.evaluate text) := by
  have h := evaluate_guarantees (fun x y hxy => hxy.neg) (fun _ _ _ _ _ => trivial) text
    (fun tokens hs v hv => .refl_of (isSignaling_of_number (sequence_number hs hv)))
    (fun key _ => faithful_alike key) known
  exact h.mono subset_rfl (fun _ _ _ _ hm => hm.1)

lemma runAll_alike (texts : List String) {world : World} (hs : Sound Right world.memory) :
    List.Forall₂ (fun outcome text => Matches Alike outcome (uncached text))
      (world.runAll (texts.map Expression.evaluate)).1 texts := by
  induction texts generalizing world with
  | nil => exact .nil
  | cons text rest ih =>
    obtain ⟨⟨_, hm⟩, hs'⟩ := (evaluate_guarantees_alike text ∅).run hs
    exact .cons hm (ih hs')

/-- Texts that are evaluated one after another on one memory, empty at the start, have the
outcomes that they have without one: the same errors, the same trees, and the same values up to
the pattern of what is not a number. -/
theorem runAll_same_outcomes (texts : List String) (disk : Disk) (journal : List Record) :
    List.Forall₂ (fun outcome text => Matches SameNumber outcome (uncached text))
      (World.runAll ⟨.fresh true, disk, journal⟩ (texts.map Expression.evaluate)).1 texts := by
  have hs : Sound Right (Memory.fresh true) := sound_empty
  exact (runAll_alike texts hs).imp fun _ _ h => h.imp fun _ _ hxy => hxy.same

end Reckoner.Proofs
