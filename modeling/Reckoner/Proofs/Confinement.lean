import Mathlib.Tactic
import Reckoner.Batch
import Reckoner.Proofs.Interleaving
import Reckoner.Proofs.PlainEvaluation

/-!
# Which files a job touches

A job is confined if it reads and writes allowed paths only, whatever it is told on the way. An
evaluation touches no file at all, and the worker of a file reads that file and writes its output
files. Since the answers do not matter, this says what each worker of a team may do at any time,
whatever the others have done by then.
-/

namespace Reckoner.Proofs
open Evaluation (binary remember)

variable {α β : Type}

/-- Whatever answers the job gets, it reads and writes only paths that are allowed to it. -/
def Confined (reads writes : Path → Prop) : Job α → Prop
  | .done _ => True
  | .note _ next => Confined reads writes next
  | .lookup _ next => ∀ answer, Confined reads writes (next answer)
  | .store _ _ next => Confined reads writes next
  | .read path next => reads path ∧ ∀ answer, Confined reads writes (next answer)
  | .write path _ next => writes path ∧ ∀ answer, Confined reads writes (next answer)
  | .clock next => ∀ answer, Confined reads writes (next answer)

/-- A job that neither reads nor writes a file. -/
abbrev FileFree (job : Job α) : Prop :=
  Confined (fun _ => False) (fun _ => False) job

namespace Confined

variable {reads writes reads' writes' : Path → Prop} {job : Job α}

lemma mono (h : Confined reads writes job) (hreads : ∀ p, reads p → reads' p)
    (hwrites : ∀ p, writes p → writes' p) : Confined reads' writes' job := by
  induction job with
  | done result => trivial
  | note record next ih => exact ih h
  | store key value next ih => exact ih h
  | lookup key next ih | clock next ih => exact fun answer => ih answer (h answer)
  | read path next ih => exact ⟨hreads path h.1, fun answer => ih answer (h.2 answer)⟩
  | write path content next ih => exact ⟨hwrites path h.1, fun answer => ih answer (h.2 answer)⟩

lemma bind {f : α → Job β} (h : Confined reads writes job) (hf : ∀ a, Confined reads writes (f a)) :
    Confined reads writes (job.bind f) := by
  induction job with
  | done result => exact hf result
  | note record next ih => exact ih h
  | store key value next ih => exact ih h
  | lookup key next ih | clock next ih => exact fun answer => ih answer (h answer)
  | read path next ih | write path content next ih =>
    exact ⟨h.1, fun answer => ih answer (h.2 answer)⟩

/-- A step leaves a confined job confined. -/
lemma advance {job' : Job α} {world world' : World} (h : Confined reads writes job)
    (hstep : advance job world = some (job', world')) : Confined reads writes job' := by
  cases job with
  | done result => cases hstep
  | note record next | store key value next =>
    cases hstep
    exact h
  | lookup key next | clock next =>
    cases hstep
    exact h _
  | read path next =>
    cases hstep
    exact h.2 _
  | write path content next =>
    simp only [Proofs.advance] at hstep
    split at hstep
    · cases hstep
      exact h.2 _
    · cases hstep
      exact h.2 _

end Confined

/-- What is allowed to the jobs of a team by their places stays so, whatever turns they take. -/
theorem confined_reaches {reads writes : Nat → Path → Prop} {team team' : Team α}
    (h : ∀ (i : Nat) job, team.jobs[i]? = some job → Confined (reads i) (writes i) job)
    (hteam : team.Reaches team') :
    ∀ (i : Nat) job, team'.jobs[i]? = some job → Confined (reads i) (writes i) job := by
  induction hteam with
  | refl => exact h
  | tail _ hturn ih =>
    obtain ⟨i, hjob, hstep⟩ := hturn
    intro j job hj
    rw [List.getElem?_set] at hj
    split_ifs at hj with hij
    · subst hij
      cases hj
      exact (ih i _ hjob).advance hstep
    · exact ih j job hj

/-! ### Evaluations -/

namespace FileFree

lemma noteAll (records : List Record) : FileFree (Job.noteAll records) := by
  induction records with
  | nil => trivial
  | cons record rest ih => exact ih

lemma remember (op : Operator) (key : Cache.Key) (value : Binary64) :
    FileFree (remember op key value) := by
  cases hc : op.isCommutative <;> simp [Evaluation.remember, Confined, hc]

lemma binary (op : Operator) (lhs rhs : Binary64) : FileFree (binary op lhs rhs) := by
  rintro (_ | value)
  · cases hc : op.isCommutative with
    | false =>
      simp only [Bool.false_eq_true, if_false]
      exact remember op _ _
    | true =>
      rintro (_ | value)
      · exact remember op _ _
      · trivial
  · trivial

lemma run (stack : List Evaluation) (tokens : List Token) :
    FileFree (Evaluation.run stack tokens) := by
  induction tokens generalizing stack with
  | nil =>
    simp only [Evaluation.run]
    split <;> trivial
  | cons token rest ih =>
    cases token with
    | number value => exact ih _
    | operator op position =>
      cases stack with
      | nil => cases position <;> trivial
      | cons operand below =>
        cases position with
        | unary =>
          simp only [Evaluation.run]
          cases op.applyUnary? operand.value with
          | none => trivial
          | some value => exact ih _
        | binary =>
          cases below with
          | nil => trivial
          | cons lhs below => exact (binary op lhs.value operand.value).bind fun value => ih _
    | openParen | closeParen | openLog | closeLog | separator => trivial

/-- Expressions are evaluated without files. -/
theorem evaluate (text : String) : FileFree (Expression.evaluate text) := by
  obtain ⟨records, he⟩ := evaluate_eq text
  rw [he]
  refine (noteAll records).bind fun _ => ?_
  cases sequence text with
  | error fault => trivial
  | ok tokens => exact (run [] tokens).bind fun _ => trivial

end FileFree

/-! ### Files -/

/-- What is left of a file once the outcome of a line is known: it is noted if it is a failure and
written, and the lines behind it follow unless it cannot be written. -/
def writeOutcome (path : Path) (mode : Mode) (index : Nat) (outcome : Outcome)
    (rest : Job (Except Failure (List Path))) : Job (Except Failure (List Path)) :=
  (match outcome with
    | .error fault => Job.note (.rejected path index fault) (.done ())
    | .ok _ => .done ()).bind fun _ =>
  .write (path.output index) (outcome.render mode) fun
    | .error fault => .done (.error (.write (path.output index) fault))
    | .ok () => rest.bind fun outputs => .done (outputs.map (path.output index :: ·))

lemma writeLines_cons (path : Path) (mode : Mode) (index : Nat) (line : String)
    (rest : List String) :
    Batch.writeLines path mode index (line :: rest) =
      (Expression.evaluate line).bind fun outcome =>
        writeOutcome path mode index outcome (Batch.writeLines path mode (index + 1) rest) := by
  rw [Batch.writeLines]
  refine congrArg _ (funext fun outcome => ?_)
  cases outcome with
  | error fault =>
    refine congrArg (Job.note _) (congrArg (Job.write _ _) (funext fun answer => ?_))
    cases answer <;> rfl
  | ok e =>
    refine congrArg (Job.write _ _) (funext fun answer => ?_)
    cases answer <;> rfl

lemma evaluateFile_eq (path : Path) (mode : Mode) :
    Batch.evaluateFile path mode =
      .read path fun
        | .error fault => .done (.error (.read path fault))
        | .ok bytes =>
          match Text.lines? bytes with
          | none => .done (.error (.read path .invalidData))
          | some lines =>
            .note (.opened path lines.length) (Batch.writeLines path mode 0 lines) := by
  refine congrArg (Job.read path) (funext fun answer => ?_)
  cases answer with
  | error fault => rfl
  | ok bytes =>
    simp only [Pure.pure, Job.bind]
    cases Text.lines? bytes <;> rfl

lemma confined_writeOutcome {path : Path} {rest : Job (Except Failure (List Path))}
    (h : Confined (fun _ => False) (fun q => ∃ k, q = path.output k) rest) (mode : Mode)
    (index : Nat) (outcome : Outcome) :
    Confined (fun _ => False) (fun q => ∃ k, q = path.output k)
      (writeOutcome path mode index outcome rest) := by
  refine Confined.bind (by cases outcome <;> trivial) fun _ => ⟨⟨index, rfl⟩, ?_⟩
  rintro (fault | _)
  · trivial
  · exact h.bind fun _ => trivial

lemma confined_writeLines (path : Path) (mode : Mode) (index : Nat) (lines : List String) :
    Confined (fun _ => False) (fun q => ∃ k, q = path.output k)
      (Batch.writeLines path mode index lines) := by
  induction lines generalizing index with
  | nil => trivial
  | cons line rest ih =>
    rw [writeLines_cons]
    refine ((FileFree.evaluate line).mono (fun _ => id) fun _ => False.elim).bind fun outcome => ?_
    exact confined_writeOutcome (ih (index + 1)) mode index outcome

/-- A file is evaluated by reading it and writing its output files. -/
theorem confined_evaluateFile (path : Path) (mode : Mode) :
    Confined (· = path) (fun q => ∃ k, q = path.output k) (Batch.evaluateFile path mode) := by
  rw [evaluateFile_eq]
  refine ⟨rfl, ?_⟩
  rintro (fault | bytes)
  · trivial
  · cases h : Text.lines? bytes with
    | none =>
      simp only [h]
      trivial
    | some lines =>
      simp only [h]
      exact (confined_writeLines path mode 0 lines).mono (fun _ => False.elim) fun _ => id

/-- A worker touches no file if its own clashes, and else what the evaluation of its file does. -/
lemma confined_worker (mode : Mode) (file : Path) (clash : Option Path) :
    Confined (fun p => clash = none ∧ p = file) (fun q => clash = none ∧ ∃ k, q = file.output k)
      (Batch.worker mode file clash) := by
  cases clash with
  | some other => trivial
  | none =>
    refine Confined.bind ?_ fun _ => trivial
    exact (confined_evaluateFile file mode).mono (fun _ h => ⟨rfl, h⟩) fun _ h => ⟨rfl, h⟩

end Reckoner.Proofs
