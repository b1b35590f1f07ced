import Mathlib.Tactic
import Reckoner.Proofs.Guarantees

/-!
# Evaluation on any memory

What a job can come to when nothing is known about the answers that it gets, whether from a memory
that holds wrong entries or from one that others change between two questions. An evaluation has the
same errors and the same tree as without a memory, so only the value is the memory's to spoil.
-/

namespace Reckoner.Proofs

variable {α : Type}

/-- The job can come to the result, if its questions are answered suitably. -/
inductive Yields : Job α → α → Prop
  | done (result : α) : Yields (.done result) result
  | note {record : Record} {next : Job α} {result : α} (h : Yields next result) :
    Yields (.note record next) result
  | lookup {key : Cache.Key} {next : Option Binary64 → Job α} {result : α}
    (answer : Option Binary64) (h : Yields (next answer) result) : Yields (.lookup key next) result
  | store {key : Cache.Key} {value : Binary64} {next : Job α} {result : α}
    (h : Yields next result) :
    Yields (.store key value next) result
  | read {path : Path} {next : Except FileFault ByteArray → Job α} {result : α}
    (answer : Except FileFault ByteArray) (h : Yields (next answer) result) :
    Yields (.read path next) result
  | write {path : Path} {content : String} {next : Except FileFault Unit → Job α} {result : α}
    (answer : Except FileFault Unit) (h : Yields (next answer) result) :
    Yields (.write path content next) result
  | clock {next : Nat → Job α} {result : α} (answer : Nat) (h : Yields (next answer) result) :
    Yields (.clock next) result

lemma yields_run (job : Job α) (world : World) : Yields job (job.run world).1 := by
  induction job generalizing world with
  | done result => exact .done result
  | note record next ih => exact .note (ih _)
  | lookup key next ih => exact .lookup _ (ih _ _)
  | store key value next ih => exact .store (ih _)
  | read path next ih => exact .read _ (ih _ _)
  | write path content next ih =>
    simp only [Job.run]
    split
    · exact .write _ (ih _ _)
    · exact .write _ (ih _ _)
  | clock next ih => exact .clock _ (ih _ _)

lemma yields_runOn (job : Job α) (memory : Memory) : Yields job (job.runOn memory).1 :=
  yields_run job _

/-- What a job guarantees when nothing is promised about the memory holds of all that it yields. -/
lemma Guarantees.of_yields {post : α → Set Cache.Key → Prop} {known : Set Cache.Key} {job : Job α}
    {result : α} (hg : Guarantees (fun _ _ => True) post known job) (h : Yields job result) :
    ∃ K, post result K := by
  induction h generalizing known with
  | done result => exact ⟨known, hg⟩
  | note _ ih => exact ih hg
  | lookup answer _ ih =>
    cases answer with
    | none => exact ih hg.1
    | some value => exact ih (hg.2 value trivial)
  | store _ ih => exact ih hg.2
  | read answer _ ih | write answer _ ih | clock answer _ ih => exact ih (hg answer)

lemma guarantees_trivial (known : Set Cache.Key) (job : Job α) :
    Guarantees (fun _ _ => True) (fun _ _ => True) known job := by
  induction job generalizing known with
  | done result => trivial
  | note record next ih => exact ih known
  | lookup key next ih => exact ⟨ih _ _, fun _ _ => ih _ _⟩
  | store key value next ih => exact ⟨trivial, ih _⟩
  | read path next ih | write path content next ih | clock next ih =>
    exact fun answer => ih answer _

lemma faithful_trivial (key : Cache.Key) :
    Faithful (fun _ _ => True) (fun _ _ => True) (fun _ _ => True) key := by
  intro x y known _ _
  exact (guarantees_trivial known _).mono subset_rfl fun _ _ _ _ _ => ⟨trivial, trivial⟩

lemma Matches.swap {ε : Type} {rel : Binary64 → Binary64 → Prop} {a b : Except ε Evaluation}
    (h : Matches rel a b) : Matches (Function.swap rel) b a := by
  match a, b, h with
  | .ok _, .ok _, h => exact ⟨h.1, h.2.symm⟩
  | .error _, .error _, h => exact Eq.symm h

theorem Yields.matches_compute {tokens : List Token} {result : Except EvalError Evaluation}
    (h : Yields (evaluate tokens) result) :
    Matches (fun _ _ => True) result (compute [] tokens) := by
  have hstart : Alongside (fun _ _ => True) [] [] := .nil
  have hg := run_guarantees (fun _ _ _ => trivial) (fun _ _ _ _ _ => trivial) tokens
    (fun _ _ => trivial) hstart (fun key _ => faithful_trivial key) ∅
  obtain ⟨_, hm, _⟩ := hg.of_yields h
  exact hm

theorem Yields.matches_uncached {text : String} {outcome : Outcome}
    (h : Yields (Expression.evaluate text) outcome) :
    Matches (fun _ _ => True) outcome (uncached text) := by
  have hg := evaluate_guarantees (fun _ _ _ => trivial) (fun _ _ _ _ _ => trivial) text
    (fun _ _ _ _ => trivial) (fun key _ => faithful_trivial key) ∅
  obtain ⟨_, hm, _⟩ := hg.of_yields h
  exact hm

end Reckoner.Proofs
