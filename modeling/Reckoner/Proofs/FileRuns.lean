import Mathlib.Tactic
import Reckoner.Proofs.Writes

/-!
# What a file leaves behind

The lines of a file are evaluated one after another on one memory, and the outcome of a line is
written before the next line is looked at. So if an output file cannot be written, for whatever
reason, then the disk and the memory are as far as that line has brought them: the output files
before it hold what they always hold, and nothing has happened behind it.
-/

namespace Reckoner.Proofs
open Reckoner.Path

variable {α β : Type}

/-! ### Refusals -/

/-- Answers reads and writes of the paths that are refused with their faults, and lets all others
through to the disk. -/
def refusing (refused : Path → Option FileFault) : Job α → Job α
  | .done result => .done result
  | .note record next => .note record (refusing refused next)
  | .lookup key next => .lookup key fun answer => refusing refused (next answer)
  | .store key value next => .store key value (refusing refused next)
  | .read path next =>
    match refused path with
    | some fault => refusing refused (next (.error fault))
    | none => .read path fun answer => refusing refused (next answer)
  | .write path content next =>
    match refused path with
    | some fault => refusing refused (next (.error fault))
    | none => .write path content fun answer => refusing refused (next answer)
  | .clock next => .clock fun answer => refusing refused (next answer)

@[simp]
lemma refusing_none (job : Job α) : refusing (fun _ => none) job = job := by
  induction job <;> simp_all [refusing]

variable (refused : Path → Option FileFault)

lemma refusing_bind (job : Job α) (f : α → Job β) :
    refusing refused (job.bind f) =
      (refusing refused job).bind fun a => refusing refused (f a) := by
  induction job with
  | done result => rfl
  | note record next ih | store key value next ih => simp only [Job.bind, refusing, ih]
  | lookup key next ih | clock next ih => simp only [Job.bind, refusing, ih]
  | read path next ih | write path content next ih =>
    simp only [Job.bind, refusing]
    cases refused path with
    | some fault => exact ih _
    | none => simp only [Job.bind, ih]

lemma refusing_of_fileFree {job : Job α} (h : FileFree job) : refusing refused job = job := by
  induction job with
  | done result => rfl
  | note record next ih => exact congrArg _ (ih h)
  | store key value next ih => exact congrArg _ (ih h)
  | lookup key next ih | clock next ih =>
    exact congrArg _ (funext fun answer => ih answer (h answer))
  | read path next ih | write path content next ih => exact h.1.elim

/-- A job that touches no file comes to what the memory alone makes of it, on any disk. -/
lemma run_of_fileFree {job : Job α} (h : FileFree job) (world : World) :
    ∃ journal, job.run world =
      ((job.runOn world.memory).1, ⟨(job.runOn world.memory).2, world.disk, journal⟩) := by
  suffices ∀ world other : World, world.memory = other.memory →
      ∃ journal, job.run world =
        ((job.run other).1, ⟨(job.run other).2.memory, world.disk, journal⟩) from this _ _ rfl
  induction job with
  | done result => exact fun world other hm => ⟨world.journal, by rw [Job.run, Job.run, ← hm]⟩
  | note record next ih => exact fun world other hm => ih h _ _ hm
  | store key value next ih => exact fun world other hm => ih h _ _ (by rw [hm])
  | lookup key next ih =>
    intro world other hm
    simp only [Job.run, hm]
    exact ih _ (h _) _ _ hm
  | clock next ih => exact fun world other hm => ih _ (h _) _ _ hm
  | read path next ih | write path content next ih => exact h.1.elim

/-- What a read gives if it is not refused. -/
def content? (disk : Disk) (p : Path) : Except FileFault ByteArray :=
  match refused p with
  | some fault => .error fault
  | none => disk.read p

/-- The entry that a write replaces or makes if it is not refused. -/
def place? (disk : Disk) (p : Path) : Except FileFault Location :=
  match refused p with
  | some fault => .error fault
  | none => target? disk p

/-- The lines of an input, or what keeps them from being read. -/
def inputLines (disk : Disk) (p : Path) : Except FileFault (List String) :=
  (content? refused disk p).bind fun bytes =>
    match Text.lines? bytes with
    | none => .error .invalidData
    | some lines => .ok lines

def Writable (disk : Disk) (p : Path) : Prop :=
  ∃ location, place? refused disk p = .ok location

lemma refusing_read_run (p : Path) (next : Except FileFault ByteArray → Job α) (world : World) :
    (refusing refused (.read p next)).run world =
      (refusing refused (next (content? refused world.disk p))).run world := by
  simp only [refusing, content?]
  cases refused p <;> rfl

lemma refusing_write_run (p : Path) (content : String) (next : Except FileFault Unit → Job α)
    (world : World) :
    (refusing refused (.write p content next)).run world =
      match place? refused world.disk p with
      | .error fault => (refusing refused (next (.error fault))).run world
      | .ok location =>
        (refusing refused (next (.ok ()))).run
          { world with disk := world.disk.put location (.file content.toUTF8) } := by
  simp only [refusing, place?]
  cases refused p with
  | some fault => rfl
  | none =>
    simp only [Job.run, write_eq]
    cases target? world.disk p <;> rfl

/-! ### Lines on one memory -/

/-- The outcomes of lines that are evaluated one after another, and the memory after them. -/
def evaluateAll (memory : Memory) : List String → List Outcome × Memory
  | [] => ([], memory)
  | line :: rest =>
    let first := (Expression.evaluate line).runOn memory
    let later := evaluateAll first.2 rest
    (first.1 :: later.1, later.2)

lemma evaluateAll_length (memory : Memory) (lines : List String) :
    (evaluateAll memory lines).1.length = lines.length := by
  induction lines generalizing memory with
  | nil => rfl
  | cons line rest ih => exact congrArg (· + 1) (ih _)

lemma evaluateAll_take (memory : Memory) (lines : List String) (k : Nat) :
    (evaluateAll memory (lines.take k)).1 = (evaluateAll memory lines).1.take k := by
  induction lines generalizing memory k with
  | nil => simp [evaluateAll]
  | cons line rest ih =>
    cases k with
    | zero => rfl
    | succ k => exact congrArg (_ :: ·) (ih _ k)

lemma evaluateAll_append_singleton (memory : Memory) (front : List String) (line : String) :
    (evaluateAll memory (front ++ [line])).2 =
      ((Expression.evaluate line).runOn (evaluateAll memory front).2).2 := by
  induction front generalizing memory with
  | nil => rfl
  | cons first rest ih => exact ih _

/-! ### Output files in a directory that is there -/

section

variable {refused} {path : Path} {disk disk' : Disk} {parent : Location}

/-- The directory of the output files of a path is there. -/
def OutputFolder (disk : Disk) (path : Path) (parent : Location) : Prop :=
  follow disk (pathOf (outputDirectory path)).components = .ok parent

lemma OutputFolder.mono (h : OutputFolder disk path parent) (hsame : SameFolders disk disk') :
    OutputFolder disk' path parent :=
  hsame.follow_eq_ok h

/-- Who can read an input finds its directory. -/
lemma exists_outputFolder {bytes : ByteArray} (h : content? refused disk path = .ok bytes) :
    ∃ parent, OutputFolder disk path parent := by
  unfold content? at h
  split at h
  · cases h
  · unfold Disk.read at h
    cases hlocate : disk.locate path with
    | error fault =>
      rw [hlocate] at h
      cases h
    | ok target =>
      rw [hlocate] at h
      cases target with
      | directory location => cases h
      | entry location slash =>
        obtain ⟨directory, name, parent, hsplit, hfolder, _⟩ := exists_of_locate hlocate
        refine ⟨parent, ?_⟩
        rw [OutputFolder, outputDirectory, hsplit]
        exact hfolder

/-- The place of an output file in the directory. -/
def outputPlace (path : Path) (parent : Location) (index : Nat) : Location :=
  parent ++ [outputName (outputStem path) index]

lemma outputPlace_inj {i j : Nat} :
    outputPlace path parent i = outputPlace path parent j ↔ i = j := by
  simp [outputPlace, outputName_inj]

lemma place?_output (h : OutputFolder disk path parent)
    (index : Nat) :
    place? refused disk (path.output index) =
      match refused (path.output index) with
      | some fault => .error fault
      | none =>
        if disk.entry? (outputPlace path parent index) = some .directory then .error .isDirectory
        else .ok (outputPlace path parent index) := by
  rw [OutputFolder] at h
  rw [place?, output_eq, target?_below disk _ (isName_output path index), h]
  rfl

lemma place?_of_sameFolders (h : OutputFolder disk path parent)
    (hsame : SameFolders disk disk') (index : Nat) :
    place? refused disk' (path.output index) = place? refused disk (path.output index) := by
  simp only [place?_output (h.mono hsame), place?_output h, hsame.folder]

lemma Writable.place_eq (h : OutputFolder disk path parent)
    {index : Nat} (hw : Writable refused disk (path.output index)) :
    place? refused disk (path.output index) = .ok (outputPlace path parent index) ∧
      disk.entry? (outputPlace path parent index) ≠ some .directory := by
  obtain ⟨location, hlocation⟩ := hw
  rw [place?_output h] at hlocation ⊢
  split at hlocation
  · cases hlocation
  · split_ifs at hlocation with hfolder
    exact ⟨if_neg hfolder, hfolder⟩

lemma read_output (h : OutputFolder disk path parent)
    (index : Nat) :
    disk.read (path.output index) = contentOf (disk.entry? (outputPlace path parent index)) := by
  have hread := read_inside disk (outputDirectory path) (isName_output path index)
  rw [OutputFolder] at h
  rw [h] at hread
  rw [output_eq]
  exact hread

/-! ### Writing outcomes -/

/-- The writes of outcomes, for the lines from an index on. -/
def outcomeWrites (path : Path) (parent : Location) (mode : Mode) : Nat → List Outcome → List Write
  | _, [] => []
  | index, outcome :: rest =>
    (outputPlace path parent index, (outcome.render mode).toUTF8) ::
      outcomeWrites path parent mode (index + 1) rest

lemma mem_outcomeWrites {mode : Mode} {index : Nat} {outcomes : List Outcome} {w : Write}
    (h : w ∈ outcomeWrites path parent mode index outcomes) :
    ∃ i < outcomes.length, w.1 = outputPlace path parent (index + i) := by
  induction outcomes generalizing index with
  | nil => cases h
  | cons outcome rest ih =>
    rcases List.mem_cons.mp h with rfl | h
    · exact ⟨0, Nat.succ_pos _, rfl⟩
    · obtain ⟨i, hi, hw⟩ := ih h
      refine ⟨i + 1, Nat.succ_lt_succ hi, ?_⟩
      rw [hw, Nat.add_right_comm, Nat.add_assoc]

lemma entry?_outcomeWrites (path : Path) (parent : Location) (mode : Mode) (index : Nat) {i : Nat}
    {outcomes : List Outcome} {outcome : Outcome} (h : outcomes[i]? = some outcome) (disk : Disk) :
    Disk.entry? (putAll disk (outcomeWrites path parent mode index outcomes))
      (outputPlace path parent (index + i)) = some (.file (outcome.render mode).toUTF8) := by
  induction outcomes generalizing index i disk with
  | nil => simp at h
  | cons first rest ih =>
    rw [outcomeWrites, putAll]
    cases i with
    | zero =>
      cases h
      have hlater : ∀ w ∈ outcomeWrites path parent mode (index + 1) rest,
          w.1 ≠ outputPlace path parent (index + 0) := by
        intro w hw heq
        obtain ⟨j, _, hj⟩ := mem_outcomeWrites hw
        have := outputPlace_inj.mp (hj.symm.trans heq)
        omega
      rw [entry?_putAll_of_not_mem hlater, entry?_put, if_pos ⟨rfl, by simp [outputPlace]⟩]
    | succ i =>
      have hindex : index + (i + 1) = index + 1 + i := by omega
      rw [hindex]
      exact ih _ h _

lemma sameFolders_putAll {writes : List Write}
    (h : ∀ w ∈ writes, disk.entry? w.1 ≠ some .directory) :
    SameFolders disk (putAll disk writes) := by
  induction writes generalizing disk with
  | nil => exact .refl disk
  | cons w rest ih =>
    have hput := sameFolders_put (h w List.mem_cons_self) w.2
    refine hput.trans (ih fun v hv => ?_)
    rw [ne_eq, hput.folder]
    exact h v (List.mem_cons_of_mem _ hv)

/-- The first output files of a path hold outcomes, and all else is as it was. -/
structure Written (refused : Path → Option FileFault) (path : Path) (mode : Mode)
    (outcomes : List Outcome) (before after : Disk) : Prop where
  held : ∀ (i : Nat) outcome, outcomes[i]? = some outcome →
    after.read (path.output i) = .ok (outcome.render mode).toUTF8
  later : ∀ j, outcomes.length ≤ j → after.read (path.output j) = before.read (path.output j)
  elsewhere : ∀ location,
    (∀ i < outcomes.length, place? refused before (path.output i) ≠ .ok location) →
    after.entry? location = before.entry? location

lemma place_of_mem_outcomeWrites {mode : Mode} {outcomes : List Outcome} {w : Write}
    (h : OutputFolder disk path parent)
    (hw : ∀ i < outcomes.length, Writable refused disk (path.output i))
    (hmem : w ∈ outcomeWrites path parent mode 0 outcomes) :
    ∃ i < outcomes.length, w.1 = outputPlace path parent i ∧
      place? refused disk (path.output i) = .ok w.1 ∧ disk.entry? w.1 ≠ some .directory := by
  obtain ⟨i, hi, hwi⟩ := mem_outcomeWrites hmem
  rw [Nat.zero_add] at hwi
  rw [hwi]
  exact ⟨i, hi, rfl, (hw i hi).place_eq h⟩

lemma sameFolders_outcomeWrites (mode : Mode) {outcomes : List Outcome}
    (h : OutputFolder disk path parent)
    (hw : ∀ i < outcomes.length, Writable refused disk (path.output i)) :
    SameFolders disk (putAll disk (outcomeWrites path parent mode 0 outcomes)) := by
  refine sameFolders_putAll fun w hmem => ?_
  obtain ⟨_, _, _, _, hfile⟩ := place_of_mem_outcomeWrites h hw hmem
  exact hfile

lemma written_putAll (mode : Mode) {outcomes : List Outcome}
    (h : OutputFolder disk path parent)
    (hw : ∀ i < outcomes.length, Writable refused disk (path.output i)) :
    Written refused path mode outcomes disk
      (putAll disk (outcomeWrites path parent mode 0 outcomes)) := by
  have hafter := h.mono (sameFolders_outcomeWrites mode h hw)
  constructor
  · intro i outcome hi
    have hentry := entry?_outcomeWrites path parent mode 0 hi disk
    rw [Nat.zero_add] at hentry
    rw [read_output hafter, hentry]
    rfl
  · intro j hj
    rw [read_output hafter, read_output h]
    refine congrArg contentOf (entry?_putAll_of_not_mem (fun w hmem heq => ?_) disk)
    obtain ⟨i, hi, hwi, _⟩ := place_of_mem_outcomeWrites h hw hmem
    have hij := outputPlace_inj.mp (hwi.symm.trans heq)
    omega
  · intro location hnot
    refine entry?_putAll_of_not_mem (fun w hmem heq => ?_) disk
    obtain ⟨i, hi, _, hplace, _⟩ := place_of_mem_outcomeWrites h hw hmem
    rw [heq] at hplace
    exact hnot i hi hplace

end

/-! ### Line by line -/

/-- What becomes of a file once the outcome of a line is to be written: the file ends there, or the
rest of it goes on with that output file in place. -/
def continued (refused : Path → Option FileFault) (path : Path) (index : Nat) (content : ByteArray)
    (rest : Job (Except Failure (List Path))) (world : World) :
    Except Failure (List Path) × World :=
  match place? refused world.disk (path.output index) with
  | .error fault => (.error (.write (path.output index) fault), world)
  | .ok location =>
    let later :=
      (refusing refused rest).run { world with disk := world.disk.put location (.file content) }
    (later.1.map (path.output index :: ·), later.2)

/-- A failed outcome is noted first, and that is all that the two kinds of outcomes differ in. -/
lemma run_writeOutcome (path : Path) (mode : Mode) (index : Nat) (outcome : Outcome)
    (rest : Job (Except Failure (List Path))) (world : World) :
    ∃ journal, (refusing refused (writeOutcome path mode index outcome rest)).run world =
      continued refused path index (outcome.render mode).toUTF8 rest { world with journal } := by
  have hwrite : ∀ (world : World) (next : Except FileFault Unit → Job (Except Failure (List Path))),
      (∀ fault, next (.error fault) = .done (.error (.write (path.output index) fault))) →
      (next (.ok ()) = rest.bind fun outputs => .done (outputs.map (path.output index :: ·))) →
      (refusing refused (.write (path.output index) (outcome.render mode) next)).run world =
        continued refused path index (outcome.render mode).toUTF8 rest world := by
    intro world next herror hok
    rw [refusing_write_run, continued]
    cases place? refused world.disk (path.output index) with
    | error fault =>
      simp only [herror]
      rfl
    | ok location =>
      simp only [hok, refusing_bind, run_bind]
      rfl
  cases outcome with
  | ok e => exact ⟨world.journal, hwrite world _ (fun _ => rfl) rfl⟩
  | error fault =>
    exact ⟨_, hwrite { world with journal := .rejected path index fault :: world.journal } _
      (fun _ => rfl) rfl⟩

/-- One line is evaluated on the memory, and its outcome is to be written. -/
lemma run_writeLines_cons (path : Path) (mode : Mode) (index : Nat) (world : World) (line : String)
    (rest : List String) :
    let first := (Expression.evaluate line).runOn world.memory
    ∃ journal, (refusing refused (Batch.writeLines path mode index (line :: rest))).run world =
      continued refused path index (first.1.render mode).toUTF8
        (Batch.writeLines path mode (index + 1) rest) ⟨first.2, world.disk, journal⟩ := by
  intro first
  obtain ⟨journal, hfirst⟩ := run_of_fileFree (FileFree.evaluate line) world
  rw [writeLines_cons, refusing_bind, refusing_of_fileFree refused (FileFree.evaluate line),
    run_bind, hfirst]
  exact run_writeOutcome refused path mode index _ _ _

/-- Lines whose output files can be written are evaluated and written before the rest of the
file. -/
theorem run_writeLines_append {path : Path} {parent : Location} (mode : Mode) (index : Nat)
    (world : World) (h : OutputFolder world.disk path parent)
    (front rest : List String)
    (hw : ∀ i < front.length, Writable refused world.disk (path.output (index + i))) :
    let past := evaluateAll world.memory front
    ∃ journal, (refusing refused (Batch.writeLines path mode index (front ++ rest))).run world =
      let later := (refusing refused (Batch.writeLines path mode (index + front.length) rest)).run
        ⟨past.2, putAll world.disk (outcomeWrites path parent mode index past.1), journal⟩
      (later.1.map ((List.range' index front.length).map path.output ++ ·), later.2) := by
  induction front generalizing index world with
  | nil =>
    refine ⟨world.journal, ?_⟩
    exact Prod.ext (congrFun Except.map_id.symm _) rfl
  | cons line front ih =>
    obtain ⟨journal, hline⟩ :=
      run_writeLines_cons refused path mode index world line (front ++ rest)
    obtain ⟨hplace, hfile⟩ := (hw 0 (Nat.succ_pos _)).place_eq h
    rw [Nat.add_zero] at hplace hfile
    let first := (Expression.evaluate line).runOn world.memory
    let disk := world.disk.put (outputPlace path parent index) (.file (first.1.render mode).toUTF8)
    have hsame : SameFolders world.disk disk := sameFolders_put hfile _
    have hrestw : ∀ i < front.length, Writable refused disk (path.output (index + 1 + i)) := by
      intro i hi
      rw [Writable, place?_of_sameFolders h hsame, Nat.add_right_comm]
      exact hw (i + 1) (Nat.succ_lt_succ hi)
    obtain ⟨journal', hrest⟩ := ih (index + 1) ⟨first.2, disk, journal⟩ (h.mono hsame) hrestw
    refine ⟨journal', ?_⟩
    have hindex : index + (line :: front).length = index + 1 + front.length := by
      rw [List.length_cons]
      omega
    rw [List.cons_append, hline, continued]
    simp only [hplace]
    rw [hrest, hindex]
    refine Prod.ext ?_ rfl
    simp only [List.length_cons, List.range'_succ, List.map_cons, List.cons_append]
    exact Functor.map_map _ _ (_ : Except Failure (List Path))

/-! ### Files -/

section

variable {refused} {path : Path} (mode : Mode) {world : World}

lemma run_evaluateFile_of_error {fault : FileFault}
    (h : inputLines refused world.disk path = .error fault) :
    (refusing refused (Batch.evaluateFile path mode)).run world =
      (.error (.read path fault), world) := by
  rw [evaluateFile_eq, refusing_read_run]
  unfold inputLines at h
  cases hcontent : content? refused world.disk path with
  | error e =>
    rw [hcontent] at h
    cases h
    rfl
  | ok bytes =>
    simp only [hcontent, Except.bind] at h ⊢
    cases hlines : Text.lines? bytes with
    | none =>
      rw [hlines] at h
      cases h
      rfl
    | some lines =>
      rw [hlines] at h
      cases h

lemma content_of_lines {lines : List String} (h : inputLines refused world.disk path = .ok lines) :
    ∃ bytes, content? refused world.disk path = .ok bytes ∧ Text.lines? bytes = some lines := by
  unfold inputLines at h
  cases hcontent : content? refused world.disk path with
  | error e =>
    rw [hcontent] at h
    cases h
  | ok bytes =>
    refine ⟨bytes, rfl, ?_⟩
    simp only [hcontent, Except.bind] at h
    cases hlines : Text.lines? bytes with
    | none =>
      rw [hlines] at h
      cases h
    | some found =>
      rw [hlines] at h
      cases h
      rfl

/-- The first lines of a file have done their part before anything is done for the rest. -/
lemma run_evaluateFile_append {front rest : List String}
    (h : inputLines refused world.disk path = .ok (front ++ rest))
    (hw : ∀ i < front.length, Writable refused world.disk (path.output i)) :
    let past := evaluateAll world.memory front
    ∃ parent journal, OutputFolder world.disk path parent ∧
      (refusing refused (Batch.evaluateFile path mode)).run world =
        let later := (refusing refused (Batch.writeLines path mode front.length rest)).run
          ⟨past.2, putAll world.disk (outcomeWrites path parent mode 0 past.1), journal⟩
        (later.1.map ((List.range front.length).map path.output ++ ·), later.2) := by
  obtain ⟨bytes, hcontent, hlines⟩ := content_of_lines h
  obtain ⟨parent, hfolder⟩ := exists_outputFolder hcontent
  let opened := { world with journal := .opened path (front ++ rest).length :: world.journal }
  obtain ⟨journal, hrun⟩ := run_writeLines_append refused mode 0 opened hfolder front rest
    (by simpa only [Nat.zero_add] using hw)
  rw [Nat.zero_add, ← List.range_eq_range'] at hrun
  refine ⟨parent, journal, hfolder, ?_⟩
  rw [evaluateFile_eq, refusing_read_run, hcontent]
  simp only [hlines]
  exact hrun

/-- If all output files can be written, then all of them are. -/
lemma run_evaluateFile_of_writable {lines : List String}
    (h : inputLines refused world.disk path = .ok lines)
    (hw : ∀ i < lines.length, Writable refused world.disk (path.output i)) :
    let run := (refusing refused (Batch.evaluateFile path mode)).run world
    run.1 = .ok ((List.range lines.length).map path.output) ∧
      Written refused path mode (evaluateAll world.memory lines).1 world.disk run.2.disk ∧
      run.2.memory = (evaluateAll world.memory lines).2 := by
  rw [← List.append_nil lines] at h
  obtain ⟨parent, journal, hfolder, hrun⟩ := run_evaluateFile_append mode h hw
  rw [hrun]
  refine ⟨?_, written_putAll mode hfolder (by rwa [evaluateAll_length]), rfl⟩
  exact congrArg Except.ok (List.append_nil _)

/-- If an output file cannot be written, then the file ends with the evaluation of its line. -/
lemma run_evaluateFile_of_fault {lines : List String} {k : Nat} {fault : FileFault}
    (h : inputLines refused world.disk path = .ok lines) (hk : k < lines.length)
    (hw : ∀ i < k, Writable refused world.disk (path.output i))
    (hfault : place? refused world.disk (path.output k) = .error fault) :
    let run := (refusing refused (Batch.evaluateFile path mode)).run world
    run.1 = .error (.write (path.output k) fault) ∧
      Written refused path mode ((evaluateAll world.memory lines).1.take k) world.disk run.2.disk ∧
      run.2.memory = (evaluateAll world.memory (lines.take (k + 1))).2 := by
  have hlength : (lines.take k).length = k := List.length_take_of_le hk.le
  have hsplit : lines = lines.take k ++ lines[k] :: lines.drop (k + 1) := by
    rw [← List.drop_eq_getElem_cons hk, List.take_append_drop]
  rw [hsplit] at h
  obtain ⟨parent, journal, hfolder, hrun⟩ :=
    run_evaluateFile_append mode h (by rwa [hlength])
  have hw' : ∀ i < (evaluateAll world.memory (lines.take k)).1.length,
      Writable refused world.disk (path.output i) := by rwa [evaluateAll_length, hlength]
  have hsame := sameFolders_outcomeWrites mode hfolder hw'
  obtain ⟨journal', hline⟩ := run_writeLines_cons refused path mode k
    ⟨(evaluateAll world.memory (lines.take k)).2, _, journal⟩ lines[k] (lines.drop (k + 1))
  rw [continued, place?_of_sameFolders hfolder hsame, hfault] at hline
  rw [hlength] at hrun
  rw [hrun, hline, ← evaluateAll_take, ← List.take_append_getElem hk, evaluateAll_append_singleton]
  exact ⟨rfl, written_putAll mode hfolder hw', rfl⟩

/-- Either all output files can be written, or there is a first that cannot. -/
lemma writable_or_first_fault (refused : Path → Option FileFault) (path : Path) (disk : Disk)
    (n : Nat) :
    (∀ i < n, Writable refused disk (path.output i)) ∨
      ∃ k fault, k < n ∧ (∀ i < k, Writable refused disk (path.output i)) ∧
        place? refused disk (path.output k) = .error fault := by
  induction n with
  | zero => exact .inl fun i hi => absurd hi i.not_lt_zero
  | succ n ih =>
    rcases ih with hall | ⟨k, fault, hk, hrest⟩
    · cases hplace : place? refused disk (path.output n) with
      | error fault => exact .inr ⟨n, fault, n.lt_succ_self, hall, hplace⟩
      | ok location =>
        refine .inl fun i hi => ?_
        rcases Nat.lt_succ_iff_lt_or_eq.mp hi with hi | rfl
        · exact hall i hi
        · exact ⟨location, hplace⟩
    · exact .inr ⟨k, fault, hk.trans n.lt_succ_self, hrest⟩

end

/-- An input that cannot be read leaves disk and memory alone. If `k` is the first line whose output
file cannot be written, for whatever reason, then the file ends there with that fault: the output
files before hold the outcomes that they hold if all can be written, nothing else is touched, and
the memory is that of the lines up to `k`. The path is a Unicode text, and the disk has no links, so
a write touches no place but its own. -/
theorem evaluateFile_leaves_behind (refused : Path → Option FileFault) (path : Path) (mode : Mode)
    (world : World) :
    let run := (refusing refused (Batch.evaluateFile path mode)).run world
    (∀ fault, inputLines refused world.disk path = .error fault →
      run.1 = .error (.read path fault) ∧ run.2.disk = world.disk ∧ run.2.memory = world.memory) ∧
    ∀ lines, inputLines refused world.disk path = .ok lines →
      let outcomes := (evaluateAll world.memory lines).1
      (∀ k fault, k < lines.length → (∀ i < k, Writable refused world.disk (path.output i)) →
        place? refused world.disk (path.output k) = .error fault →
        run.1 = .error (.write (path.output k) fault) ∧
          Written refused path mode (outcomes.take k) world.disk run.2.disk ∧
          run.2.memory = (evaluateAll world.memory (lines.take (k + 1))).2) ∧
      ((∀ i < lines.length, Writable refused world.disk (path.output i)) →
        run.1 = .ok ((List.range lines.length).map path.output) ∧
          Written refused path mode outcomes world.disk run.2.disk ∧
          run.2.memory = (evaluateAll world.memory lines).2) := by
  refine ⟨fun fault h => ?_, fun lines h => ⟨fun k fault hk hw hfault => ?_, fun hw => ?_⟩⟩
  · simp only [run_evaluateFile_of_error mode h, and_self]
  · exact run_evaluateFile_of_fault mode h hk hw hfault
  · exact run_evaluateFile_of_writable mode h hw

/-- A disk with a file of three lines, and a directory where the second outcome should go. -/
def blockedDisk : Disk :=
  ⟨[(["a.txt".toList], .file "1+1\n2*\n3".toUTF8), (["a_1".toList], .directory)], []⟩

/-- The third outcome may not be written either. -/
def blockedPaths (p : Path) : Option FileFault :=
  if p = ⟨"a_2"⟩ then some (.other "Permission denied") else none

/-- The second line is evaluated and not written, and the third is not looked at. -/
theorem stopped_at_directory :
    let run :=
      (refusing blockedPaths (Batch.evaluateFile ⟨"a.txt"⟩ .text)).run ⟨.off, blockedDisk, []⟩
    inputLines blockedPaths blockedDisk ⟨"a.txt"⟩ = .ok ["1+1", "2*", "3"] ∧
      place? blockedPaths blockedDisk ⟨"a_1"⟩ = .error .isDirectory ∧
      run.1 = .error (.write ⟨"a_1"⟩ .isDirectory) ∧
      run.2.disk.read ⟨"a_0"⟩ = .ok "2.0\n+\n├── 1.0\n└── 1.0\n".toUTF8 ∧
      run.2.disk.read ⟨"a_2"⟩ = .error .notFound := by
  have hlines : inputLines blockedPaths blockedDisk ⟨"a.txt"⟩ = .ok ["1+1", "2*", "3"] := by
    decide +kernel
  have hnames : (Path.output ⟨"a.txt"⟩ 0, Path.output ⟨"a.txt"⟩ 1, Path.output ⟨"a.txt"⟩ 2) =
      (⟨"a_0"⟩, ⟨"a_1"⟩, ⟨"a_2"⟩) := by
    decide +kernel
  simp only [Prod.mk.injEq] at hnames
  obtain ⟨hname, hname', hname''⟩ := hnames
  have hfirst : place? blockedPaths blockedDisk ⟨"a_0"⟩ = .ok [['a', '_', '0']] := by decide +kernel
  have hsecond : place? blockedPaths blockedDisk ⟨"a_1"⟩ = .error .isDirectory := by decide +kernel
  have hmissing : blockedDisk.read ⟨"a_2"⟩ = .error .notFound := by decide +kernel
  have hwritable : ∀ i < 1, Writable blockedPaths blockedDisk (Path.output ⟨"a.txt"⟩ i) := by
    intro i hi
    obtain rfl : i = 0 := by omega
    exact ⟨_, hname ▸ hfirst⟩
  obtain ⟨_, hrest⟩ :=
    evaluateFile_leaves_behind blockedPaths ⟨"a.txt"⟩ .text ⟨.off, blockedDisk, []⟩
  obtain ⟨hresult, hwritten, _⟩ :=
    (hrest _ hlines).1 1 .isDirectory (by decide) hwritable (hname' ▸ hsecond)
  have hheld : ∃ outcome, ((evaluateAll .off ["1+1", "2*", "3"]).1.take 1)[0]? = some outcome ∧
      outcome.render .text = "2.0\n+\n├── 1.0\n└── 1.0\n" := by
    rw [← Option.map_eq_some_iff]
    decide +kernel
  obtain ⟨outcome, houtcome, hrender⟩ := hheld
  refine ⟨hlines, hsecond, hname' ▸ hresult, ?_, ?_⟩
  · rw [← hname, hwritten.held 0 outcome houtcome, hrender]
  · rw [← hname'', hwritten.later 2 (by decide +kernel), hname'', hmissing]

end Reckoner.Proofs
