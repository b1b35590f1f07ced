import Mathlib.Tactic
import Reckoner.Proofs.FileRuns
import Reckoner.Proofs.Interleaving
import Reckoner.Proofs.LineReading

/-!
# Lines in isolation

All that evaluations ever store is what the operation of the key gives, whether they fail, take
turns, or stop halfway. So a memory that nothing else has filled cannot make one line of a file feel
what the lines before it contained: each has the outcome that it has alone and without a memory, and
its output file holds just that.
-/

namespace Reckoner.Proofs
open Evaluation (binary remember)

variable {α β : Type}

/-! ### Right results only -/

/-- As long as every answer of the memory is right, so is every result that the job stores. -/
def StoresRight (job : Job α) : Prop :=
  ∀ known, Guarantees Right (fun _ _ => True) known job

namespace StoresRight

lemma done (result : α) : StoresRight (.done result) :=
  fun _ => trivial

lemma bind {job : Job α} {f : α → Job β} (h : StoresRight job) (hf : ∀ a, StoresRight (f a)) :
    StoresRight (job.bind f) :=
  fun known => .bind ((h known).mono subset_rfl fun a _ K _ _ => hf a K)

lemma mapM {ι : Type} {f : ι → Job α} (xs : List ι) (h : ∀ x ∈ xs, StoresRight (f x)) :
    StoresRight (xs.mapM f) := by
  induction xs with
  | nil => exact done []
  | cons x rest ih =>
    rw [List.mapM_cons]
    have hrest := ih fun y hy => h y (List.mem_cons_of_mem _ hy)
    exact (h x List.mem_cons_self).bind fun _ => hrest.bind fun _ => done _

lemma binary (op : Operator) (lhs rhs : Binary64) : StoresRight (binary op lhs rhs) := by
  have hself : Right ⟨op, lhs, rhs⟩ (op.apply lhs rhs) := .refl_of (apply_isSignaling op lhs rhs)
  intro known
  refine ⟨?_, fun value _ => trivial⟩
  cases hc : op.isCommutative with
  | false =>
    simp only [remember, hc, Bool.false_eq_true, if_false]
    exact ⟨hself, trivial⟩
  | true =>
    simp only [remember, hc, if_true]
    exact ⟨⟨hself, apply_alike_comm hc lhs rhs, trivial⟩, fun value _ => trivial⟩

lemma run (stack : List Evaluation) (tokens : List Token) :
    StoresRight (Evaluation.run stack tokens) := by
  induction tokens generalizing stack with
  | nil =>
    simp only [Evaluation.run]
    split <;> exact fun _ => trivial
  | cons token rest ih =>
    cases token with
    | number value => exact ih _
    | operator op position =>
      cases stack with
      | nil => cases position <;> exact done _
      | cons operand below =>
        cases position with
        | unary =>
          simp only [Evaluation.run]
          cases op.applyUnary? operand.value with
          | none => exact done _
          | some value => exact ih _
        | binary =>
          cases below with
          | nil => exact done _
          | cons lhs below => exact (binary op lhs.value operand.value).bind fun value => ih _
    | openParen | closeParen | openLog | closeLog | separator => exact done _

lemma expression (text : String) : StoresRight (Expression.evaluate text) :=
  fun known => (evaluate_guarantees_alike text known).mono subset_rfl fun _ _ _ _ _ => trivial

lemma writeOutcome {rest : Job (Except Failure (List Path))} (h : StoresRight rest) (path : Path)
    (mode : Mode) (index : Nat) (outcome : Outcome) :
    StoresRight (writeOutcome path mode index outcome rest) := by
  refine bind (by cases outcome <;> exact fun _ => trivial) fun _ known answer => ?_
  cases answer with
  | error fault => trivial
  | ok _ => exact h.bind (fun _ => done _) known

lemma writeLines (path : Path) (mode : Mode) (index : Nat) (lines : List String) :
    StoresRight (Batch.writeLines path mode index lines) := by
  induction lines generalizing index with
  | nil => exact done _
  | cons line rest ih =>
    rw [writeLines_cons]
    exact (expression line).bind fun outcome =>
      writeOutcome (ih (index + 1)) path mode index outcome

lemma evaluateFile (path : Path) (mode : Mode) : StoresRight (Batch.evaluateFile path mode) := by
  rw [evaluateFile_eq]
  rintro known (fault | bytes)
  · trivial
  · cases h : Text.lines? bytes with
    | none =>
      simp only [h]
      trivial
    | some lines =>
      simp only [h]
      exact writeLines path mode 0 lines known

end StoresRight

/-- One step keeps what the job guarantees, and the memory sound. -/
lemma Guarantees.advance {sound : Cache.Key → Binary64 → Prop} {post : α → Set Cache.Key → Prop}
    {known : Set Cache.Key} {job job' : Job α} {world world' : World}
    (h : Guarantees sound post known job) (hs : Sound sound world.memory)
    (hstep : advance job world = some (job', world')) :
    (∃ known', Guarantees sound post known' job') ∧ Sound sound world'.memory := by
  cases job with
  | done result => cases hstep
  | note record next =>
    cases hstep
    exact ⟨⟨known, h⟩, hs⟩
  | lookup key next =>
    cases hstep
    refine ⟨?_, hs⟩
    cases hl : world.memory.lookup key with
    | none => exact ⟨_, h.1⟩
    | some value => exact ⟨_, h.2 value (hs key value hl)⟩
  | store key value next =>
    cases hstep
    exact ⟨⟨_, h.2⟩, hs.store h.1⟩
  | read path next | clock next =>
    cases hstep
    exact ⟨⟨known, h _⟩, hs⟩
  | write path content next =>
    simp only [Proofs.advance] at hstep
    split at hstep
    · cases hstep
      exact ⟨⟨known, h _⟩, hs⟩
    · cases hstep
      exact ⟨⟨known, h _⟩, hs⟩

/-- A memory stays sound, whatever turns are taken by jobs that store sound results. -/
theorem sound_of_reaches {sound : Cache.Key → Binary64 → Prop} {team team' : Team α}
    (hs : Sound sound team.world.memory)
    (hjobs : ∀ job ∈ team.jobs, ∃ known, Guarantees sound (fun _ _ => True) known job)
    (hteam : team.Reaches team') : Sound sound team'.world.memory := by
  suffices Sound sound team'.world.memory ∧
      ∀ job ∈ team'.jobs, ∃ known, Guarantees sound (fun _ _ => True) known job from this.1
  induction hteam with
  | refl => exact ⟨hs, hjobs⟩
  | tail _ hturn ih =>
    obtain ⟨i, hjob, hstep⟩ := hturn
    obtain ⟨known, hg⟩ := ih.2 _ (List.mem_of_getElem? hjob)
    obtain ⟨hjob', hs'⟩ := hg.advance ih.1 hstep
    refine ⟨hs', fun other hother => ?_⟩
    rcases List.mem_or_eq_of_mem_set hother with hmem | rfl
    · exact ih.2 other hmem
    · exact hjob'

/-! ### Memories that evaluations have filled -/

/-- What can be evaluated on a memory. -/
inductive Evaluable where
  | operation (op : Operator) (lhs rhs : Binary64)
  | sequence (tokens : List Token)
  | expression (text : String)
  | file (path : Path) (mode : Mode)

def Evaluable.job : Evaluable → Job Unit
  | .operation op lhs rhs => (binary op lhs rhs).bind fun _ => .done ()
  | .sequence tokens => (evaluate tokens).bind fun _ => .done ()
  | .expression text => (Expression.evaluate text).bind fun _ => .done ()
  | .file path mode => (Batch.evaluateFile path mode).bind fun _ => .done ()

lemma Evaluable.storesRight (e : Evaluable) : StoresRight e.job := by
  cases e with
  | operation op lhs rhs => exact (StoresRight.binary op lhs rhs).bind fun _ => .done ()
  | sequence tokens => exact (StoresRight.run [] tokens).bind fun _ => .done ()
  | expression text => exact (StoresRight.expression text).bind fun _ => .done ()
  | file path mode => exact (StoresRight.evaluateFile path mode).bind fun _ => .done ()

/-- The memory is one that was empty at the start, or was none, and that programs of evaluations
have come to leave behind so far, taking turns in any order. -/
def FilledByEvaluations (memory : Memory) : Prop :=
  ∃ (programs : List (List Evaluable)) (remember : Bool) (disk : Disk) (journal : List Record)
    (team : Team (List Unit)),
    Team.Reaches ⟨programs.map (·.mapM Evaluable.job), ⟨.fresh remember, disk, journal⟩⟩ team ∧
      team.world.memory = memory

lemma FilledByEvaluations.sound {memory : Memory} (h : FilledByEvaluations memory) :
    Sound Right memory := by
  obtain ⟨programs, remember, disk, journal, team, hteam, rfl⟩ := h
  refine sound_of_reaches (sound_fresh remember) ?_ hteam
  intro job hjob
  obtain ⟨program, _, rfl⟩ := List.mem_map.mp hjob
  exact ⟨∅, StoresRight.mapM program (fun e _ => e.storesRight) ∅⟩

/-! ### Files -/

/-- On a sound memory every line has the outcome that it has alone, as far as it is written. -/
lemma exists_alike_of_line {lines : List String} {memory : Memory} (hs : Sound Right memory)
    {i : Nat} {line : String} (h : lines[i]? = some line) :
    ∃ outcome, (evaluateAll memory lines).1[i]? = some outcome ∧
      Matches Alike outcome (uncached line) := by
  induction lines generalizing memory i with
  | nil => simp at h
  | cons first rest ih =>
    have hstart : Sound Right (World.mk memory (Disk.empty []) []).memory := hs
    obtain ⟨⟨_, hm⟩, hs'⟩ := (evaluate_guarantees_alike first ∅).run hstart
    cases i with
    | zero =>
      cases h
      exact ⟨_, rfl, hm⟩
    | succ i => exact ih hs' h

lemma inputLines_of_text {disk : Disk} {path : Path} {text : String}
    (h : disk.read path = .ok text.toUTF8) :
    inputLines (fun _ => none) disk path = .ok (Text.lines text) := by
  simp only [inputLines, content?, h, Except.bind, lines?_toUTF8]

lemma pairwise_outputs (path : Path) (n : Nat) :
    ((List.range n).map path.output).Pairwise fun p q => p.same q = false := by
  rw [List.pairwise_map]
  refine List.pairwise_lt_range.imp fun {i j} hij => ?_
  rw [← Bool.not_eq_true, same_output_iff_first]
  exact fun hsame => hij.ne hsame.1

/-- A file that is evaluated on a memory that nothing but evaluations have filled has one output
file for each line, all of them different, and each holds what its line comes to alone without a
memory. The path is a Unicode text, and the disk has no links, so different output files are
different places on it. -/
theorem lines_in_isolation (path : Path) (mode : Mode) {world : World}
    (hmemory : FilledByEvaluations world.memory) {text : String}
    (hread : world.disk.read path = .ok text.toUTF8) {outputs : List Path}
    (hrun : ((Batch.evaluateFile path mode).run world).1 = .ok outputs) :
    outputs = (List.range (Text.lines text).length).map path.output ∧
      outputs.Pairwise (fun p q => p.same q = false) ∧
      ∀ (i : Nat) line, (Text.lines text)[i]? = some line →
        ((Batch.evaluateFile path mode).run world).2.disk.read (path.output i) =
          .ok ((uncached line).render mode).toUTF8 := by
  have hlines := inputLines_of_text hread
  rw [← refusing_none (Batch.evaluateFile path mode)] at hrun ⊢
  rcases writable_or_first_fault (fun _ => none) path world.disk (Text.lines text).length with
    hw | ⟨k, fault, hk, hw, hfault⟩
  · obtain ⟨hresult, hwritten, _⟩ := run_evaluateFile_of_writable mode hlines hw
    obtain rfl := Except.ok.inj (hrun.symm.trans hresult)
    refine ⟨rfl, pairwise_outputs path _, fun i line hline => ?_⟩
    obtain ⟨outcome, houtcome, hm⟩ := exists_alike_of_line hmemory.sound hline
    rw [hwritten.held i outcome houtcome, render_eq hm mode]
  · -- The run would have ended with the first output file that cannot be written.
    obtain ⟨hresult, _⟩ := run_evaluateFile_of_fault mode hlines hk hw hfault
    rw [hresult] at hrun
    cases hrun

/-- The memory after a product, and after a text that fails behind another product. -/
def productMemory : Memory :=
  (([.expression "3*2", .expression "5*7 2"] : List Evaluable).mapM Evaluable.job).run
    ⟨.fresh true, Disk.empty [], []⟩ |>.2.memory

/-- The second line is blank, and the third fails behind a product. -/
def productText : String :=
  "2*3\n\n7*5 2\n3*2"

def productWorld : World :=
  ⟨productMemory, ⟨[(["a.txt".toList], .file productText.toUTF8)], []⟩, []⟩

theorem isolated_products :
    let run := (Batch.evaluateFile ⟨"a.txt"⟩ .text).run productWorld
    FilledByEvaluations productWorld.memory ∧
      productWorld.disk.read ⟨"a.txt"⟩ = .ok productText.toUTF8 ∧
      run.1 = .ok [⟨"a_0"⟩, ⟨"a_1"⟩, ⟨"a_2"⟩, ⟨"a_3"⟩] ∧
      run.2.disk.read ⟨"a_1"⟩ = .ok "Empty expression at offset 0".toUTF8 ∧
      run.2.disk.read ⟨"a_3"⟩ = .ok "6.0\n*\n├── 2.0\n└── 3.0\n".toUTF8 := by
  have hfilled : FilledByEvaluations productWorld.memory :=
    ⟨[[.expression "3*2", .expression "5*7 2"]], true, Disk.empty [], [], _,
      endsAlone 0 _ _ rfl, rfl⟩
  have hread : productWorld.disk.read ⟨"a.txt"⟩ = .ok productText.toUTF8 := by decide +kernel
  have hnames : (List.range 4).map (Path.output ⟨"a.txt"⟩) =
      [⟨"a_0"⟩, ⟨"a_1"⟩, ⟨"a_2"⟩, ⟨"a_3"⟩] := by
    decide +kernel
  have hwritable : ∀ i < 4,
      Writable (fun _ => none) productWorld.disk (Path.output ⟨"a.txt"⟩ i) := by
    have hplaces : ∀ i < 4, place? (fun _ => none) productWorld.disk (Path.output ⟨"a.txt"⟩ i) =
        .ok (outputPlace ⟨"a.txt"⟩ [] i) := by
      decide +kernel
    exact fun i hi => ⟨_, hplaces i hi⟩
  obtain ⟨hrun, _⟩ := run_evaluateFile_of_writable .text (inputLines_of_text hread) hwritable
  rw [refusing_none] at hrun
  obtain ⟨houtputs, _, hheld⟩ := lines_in_isolation ⟨"a.txt"⟩ .text hfilled hread hrun
  have hblank : (uncached "").render .text = "Empty expression at offset 0" := by decide +kernel
  have hlast : (uncached "3*2").render .text = "6.0\n*\n├── 2.0\n└── 3.0\n" := by decide +kernel
  have hname : Path.output ⟨"a.txt"⟩ 1 = ⟨"a_1"⟩ ∧ Path.output ⟨"a.txt"⟩ 3 = ⟨"a_3"⟩ := by
    decide +kernel
  rw [← hnames, ← hname.1, ← hname.2, ← hblank, ← hlast]
  exact ⟨hfilled, hread, hrun, hheld 1 "" (by decide +kernel), hheld 3 "3*2" (by decide +kernel)⟩

end Reckoner.Proofs
