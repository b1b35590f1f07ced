import Mathlib.Tactic
import Reckoner.Proofs.Confinement
import Reckoner.Proofs.Locations
import Reckoner.Proofs.Remembering

/-!
# The writes of a job

What a job does to a disk is a list of writes. `Performs` says that the list, and the result with
it, are the same on every disk of a set and for all sound answers of a memory, so that it does not
matter what else happens to memory and disk as long as they stay so. For a file the list can be
written down: each line adds one write, up to the first that fails.
-/

namespace Reckoner.Proofs

variable {α β ι : Type}

/-! ### Lists of writes -/

/-- An entry that is replaced by a file, and the content of that file. -/
abbrev Write := Location × ByteArray

def putAll (disk : Disk) : List Write → Disk
  | [] => disk
  | (location, content) :: rest => putAll (disk.put location (.file content)) rest

lemma putAll_append (disk : Disk) (writes later : List Write) :
    putAll disk (writes ++ later) = putAll (putAll disk writes) later := by
  induction writes generalizing disk with
  | nil => rfl
  | cons w rest ih => exact ih _

lemma entry?_putAll_of_not_mem {writes : List Write} {location : Location}
    (h : ∀ w ∈ writes, w.1 ≠ location) (disk : Disk) :
    Disk.entry? (putAll disk writes) location = disk.entry? location := by
  induction writes generalizing disk with
  | nil => rfl
  | cons w rest ih =>
    have hfirst : location ≠ w.1 := (h w List.mem_cons_self).symm
    rw [putAll, ih fun v hv => h v (List.mem_cons_of_mem _ hv), entry?_put,
      if_neg (by simp [hfirst])]

/-- What is at a place after some writes depends only on what was there before. -/
lemma entry?_putAll_congr {disk disk' : Disk} {location : Location}
    (h : disk.entry? location = disk'.entry? location) (writes : List Write) :
    Disk.entry? (putAll disk writes) location = Disk.entry? (putAll disk' writes) location := by
  induction writes generalizing disk disk' with
  | nil => exact h
  | cons w rest ih =>
    apply ih
    rw [entry?_put, entry?_put, h]

/-- A place that is written to holds the same afterwards, whatever the disk was. -/
lemma entry?_putAll_of_mem {writes : List Write} {location : Location}
    (h : ∃ w ∈ writes, w.1 = location) (disk disk' : Disk) :
    Disk.entry? (putAll disk writes) location = Disk.entry? (putAll disk' writes) location := by
  induction writes generalizing disk disk' with
  | nil => simp at h
  | cons w rest ih =>
    by_cases hw : w.1 = location
    · have hput : Disk.entry? (disk.put w.1 (.file w.2)) location =
          Disk.entry? (disk'.put w.1 (.file w.2)) location := by
        rw [entry?_put, entry?_put]
        by_cases h0 : w.1 = []
        · unfold Disk.entry?
          simp [← hw, h0]
        · rw [if_pos ⟨hw.symm, h0⟩, if_pos ⟨hw.symm, h0⟩]
      exact entry?_putAll_congr hput rest
    · obtain ⟨v, hv, hlocation⟩ := h
      rcases List.mem_cons.mp hv with rfl | hv
      · exact (hw hlocation).elim
      · exact ih ⟨v, hv, hlocation⟩ _ _

/-- Writes that are made once more change nothing. -/
theorem entry?_putAll_replicate (disk : Disk) (writes : List Write) (n : Nat)
    (location : Location) :
    Disk.entry? (putAll disk (List.replicate (n + 1) writes).flatten) location =
      Disk.entry? (putAll disk writes) location := by
  induction n generalizing disk with
  | zero => simp
  | succ n ih =>
    rw [List.replicate_succ, List.flatten_cons, putAll_append, ih]
    by_cases h : ∃ w ∈ writes, w.1 = location
    · exact entry?_putAll_of_mem h _ _
    · push Not at h
      exact entry?_putAll_of_not_mem h _

/-- Writes that lead to no disk outside of the set. -/
def StayIn (disks : Set Disk) (writes : List Write) : Prop :=
  ∀ d ∈ disks, ∀ w ∈ writes, d.put w.1 (.file w.2) ∈ disks

/-! ### Jobs -/

/-- On every disk of the set and as long as every answer of the memory is sound, the job makes
exactly these writes and comes to a result as demanded. What it stores is sound as well. -/
def Performs (sound : Cache.Key → Binary64 → Prop) (disks : Set Disk) (post : α → Prop) :
    Job α → List Write → Prop
  | .done result, writes => writes = [] ∧ post result
  | .note _ next, writes => Performs sound disks post next writes
  | .lookup key next, writes =>
    Performs sound disks post (next none) writes ∧
      ∀ value, sound key value → Performs sound disks post (next (some value)) writes
  | .store key value next, writes => sound key value ∧ Performs sound disks post next writes
  | .read path next, writes =>
    ∃ answer, (∀ disk ∈ disks, disk.read path = answer) ∧
      Performs sound disks post (next answer) writes
  | .write path content next, writes =>
    (∃ fault, (∀ disk ∈ disks, target? disk path = .error fault) ∧
      Performs sound disks post (next (.error fault)) writes) ∨
    ∃ location rest, (∀ disk ∈ disks, target? disk path = .ok location) ∧
      writes = (location, content.toUTF8) :: rest ∧ Performs sound disks post (next (.ok ())) rest
  | .clock next, writes => ∀ answer, Performs sound disks post (next answer) writes

namespace Performs

variable {sound : Cache.Key → Binary64 → Prop} {disks : Set Disk} {post : α → Prop} {job : Job α}
  {writes : List Write}

lemma bind {post' : β → Prop} {f : α → Job β} {later : List Write}
    (h : Performs sound disks post job writes)
    (hf : ∀ a, post a → Performs sound disks post' (f a) later) :
    Performs sound disks post' (job.bind f) (writes ++ later) := by
  induction job generalizing writes with
  | done result =>
    obtain ⟨rfl, hresult⟩ := h
    exact hf result hresult
  | note record next ih => exact ih h
  | lookup key next ih => exact ⟨ih _ h.1, fun value hvalue => ih _ (h.2 value hvalue)⟩
  | store key value next ih => exact ⟨h.1, ih h.2⟩
  | read path next ih =>
    obtain ⟨answer, hread, hnext⟩ := h
    exact ⟨answer, hread, ih _ hnext⟩
  | write path content next ih =>
    rcases h with ⟨fault, htarget, hnext⟩ | ⟨location, rest, htarget, rfl, hnext⟩
    · exact .inl ⟨fault, htarget, ih _ hnext⟩
    · exact .inr ⟨location, rest ++ later, htarget, rfl, ih _ hnext⟩
  | clock next ih => exact fun answer => ih answer (h answer)

/-- What follows may only compute and record. -/
lemma bind_nil {post' : β → Prop} {f : α → Job β} (h : Performs sound disks post job writes)
    (hf : ∀ a, post a → Performs sound disks post' (f a) []) :
    Performs sound disks post' (job.bind f) writes := by
  rw [← List.append_nil writes]
  exact h.bind hf

/-- A job that touches no file makes no writes. -/
lemma of_fileFree {known : Set Cache.Key} (hfree : FileFree job)
    (h : Guarantees sound (fun a _ => post a) known job) : Performs sound disks post job [] := by
  induction job generalizing known with
  | done result => exact ⟨rfl, h⟩
  | note record next ih => exact ih hfree h
  | lookup key next ih =>
    exact ⟨ih _ (hfree none) h.1, fun value hvalue => ih _ (hfree _) (h.2 value hvalue)⟩
  | store key value next ih => exact ⟨h.1, ih hfree h.2⟩
  | read path next ih | write path content next ih => exact hfree.1.elim
  | clock next ih => exact fun answer => ih answer (hfree answer) (h answer)

/-- With a sound memory of its own, a job asks nothing of the memory of the world. -/
lemma withMemory {memory : Memory} (h : Performs sound disks post job writes)
    (hs : Sound sound memory) (sound' : Cache.Key → Binary64 → Prop) :
    Performs sound' disks post (job.withMemory memory) writes := by
  rw [Job.withMemory]
  induction job generalizing writes memory with
  | done result => exact h
  | note record next ih => exact ih h hs
  | lookup key next ih =>
    simp only [Job.remembering]
    cases hl : memory.lookup key with
    | none => exact ih _ h.1 hs
    | some value => exact ih _ (h.2 value (hs key value hl)) hs
  | store key value next ih => exact ih h.2 (hs.store h.1)
  | read path next ih =>
    obtain ⟨answer, hread, hnext⟩ := h
    exact ⟨answer, hread, ih _ hnext hs⟩
  | write path content next ih =>
    rcases h with ⟨fault, htarget, hnext⟩ | ⟨location, rest, htarget, rfl, hnext⟩
    · exact .inl ⟨fault, htarget, ih _ hnext hs⟩
    · exact .inr ⟨location, rest, htarget, rfl, ih _ hnext hs⟩
  | clock next ih => exact fun answer => ih answer (h answer) hs

lemma mapM {f : ι → Job α} {result : ι → α} {script : ι → List Write} (xs : List ι)
    (h : ∀ x ∈ xs, Performs sound disks (· = result x) (f x) (script x)) :
    Performs sound disks (· = xs.map result) (xs.mapM f) (xs.flatMap script) := by
  induction xs with
  | nil => exact ⟨rfl, rfl⟩
  | cons x rest ih =>
    rw [List.mapM_cons, List.flatMap_cons]
    refine (h x List.mem_cons_self).bind ?_
    rintro _ rfl
    have hrest := ih fun y hy => h y (List.mem_cons_of_mem _ hy)
    refine hrest.bind_nil ?_
    rintro _ rfl
    exact ⟨rfl, rfl⟩

/-- A job that runs on a disk of the set makes its writes and comes to its result, provided that
its own writes lead to no disk outside. -/
theorem run {world : World} (h : Performs sound disks post job writes)
    (hdisk : world.disk ∈ disks) (hstay : StayIn disks writes) (hs : Sound sound world.memory) :
    post (job.run world).1 ∧ (job.run world).2.disk = putAll world.disk writes := by
  induction job generalizing writes world with
  | done result =>
    obtain ⟨rfl, hresult⟩ := h
    exact ⟨hresult, rfl⟩
  | note record next ih => exact ih h hdisk hstay hs
  | lookup key next ih =>
    simp only [Job.run]
    cases hl : world.memory.lookup key with
    | none => exact ih _ h.1 hdisk hstay hs
    | some value => exact ih _ (h.2 value (hs key value hl)) hdisk hstay hs
  | store key value next ih => exact ih h.2 hdisk hstay (hs.store h.1)
  | read path next ih =>
    obtain ⟨answer, hread, hnext⟩ := h
    simp only [Job.run, hread _ hdisk]
    exact ih _ hnext hdisk hstay hs
  | write path content next ih =>
    simp only [Job.run, write_eq]
    rcases h with ⟨fault, htarget, hnext⟩ | ⟨location, rest, htarget, rfl, hnext⟩
    · rw [htarget _ hdisk]
      exact ih _ hnext hdisk hstay hs
    · rw [htarget _ hdisk]
      have hput := hstay _ hdisk _ List.mem_cons_self
      exact ih _ hnext hput (fun d hd w hw => hstay d hd w (List.mem_cons_of_mem _ hw)) hs
  | clock next ih => exact ih _ (h _) hdisk hstay hs

/-- One step makes no write, or the next one of the list. -/
theorem advance {job' : Job α} {world world' : World} (h : Performs sound disks post job writes)
    (hdisk : world.disk ∈ disks) (hs : Sound sound world.memory)
    (hstep : advance job world = some (job', world')) :
    Sound sound world'.memory ∧
      (world'.disk = world.disk ∧ Performs sound disks post job' writes ∨
        ∃ w rest, writes = w :: rest ∧ world'.disk = world.disk.put w.1 (.file w.2) ∧
          Performs sound disks post job' rest) := by
  cases job with
  | done result => cases hstep
  | note record next =>
    cases hstep
    exact ⟨hs, .inl ⟨rfl, h⟩⟩
  | lookup key next =>
    cases hstep
    refine ⟨hs, .inl ⟨rfl, ?_⟩⟩
    cases hl : world.memory.lookup key with
    | none => exact h.1
    | some value => exact h.2 value (hs key value hl)
  | store key value next =>
    cases hstep
    exact ⟨hs.store h.1, .inl ⟨rfl, h.2⟩⟩
  | read path next =>
    cases hstep
    obtain ⟨answer, hread, hnext⟩ := h
    rw [hread _ hdisk]
    exact ⟨hs, .inl ⟨rfl, hnext⟩⟩
  | write path content next =>
    simp only [Proofs.advance, write_eq] at hstep
    rcases h with ⟨fault, htarget, hnext⟩ | ⟨location, rest, htarget, rfl, hnext⟩
    · rw [htarget _ hdisk] at hstep
      cases hstep
      exact ⟨hs, .inl ⟨rfl, hnext⟩⟩
    · rw [htarget _ hdisk] at hstep
      cases hstep
      exact ⟨hs, .inr ⟨_, rest, rfl, rfl, hnext⟩⟩
  | clock next =>
    cases hstep
    exact ⟨hs, .inl ⟨rfl, h _⟩⟩

end Performs

/-! ### Files -/

/-- Outcomes that match up to what is not a number are written alike. -/
lemma render_eq {a b : Outcome} (h : Matches Alike a b) (mode : Mode) :
    a.render mode = b.render mode := by
  match a, b, h with
  | .error _, .error _, rfl => rfl
  | .ok ⟨v, tree⟩, .ok ⟨w, _⟩, ⟨hv, rfl⟩ =>
    have htext : numberText v = numberText w := by
      rcases hv.same with rfl | ⟨hv, hw⟩
      · rfl
      · simp [numberText, Decimal.Layout.text, hv, hw]
    have hjson : Outcome.jsonNumber v = Outcome.jsonNumber w := by
      rcases hv.same with rfl | ⟨hv, hw⟩
      · rfl
      · simp [Outcome.jsonNumber, hv, hw]
    cases mode with
    | text => simp only [Outcome.render, htext]
    | json => simp only [Outcome.render, Outcome.toJson, hjson]

/-- The content of the output file of a line. -/
def lineContent (mode : Mode) (line : String) : ByteArray :=
  ((uncached line).render mode).toUTF8

/-- The writes of the lines from an index on. -/
def lineWrites (disk : Disk) (path : Path) (mode : Mode) : Nat → List String → List Write
  | _, [] => []
  | index, line :: rest =>
    (target? disk (path.output index)).toOption.elim [] fun location =>
      (location, lineContent mode line) :: lineWrites disk path mode (index + 1) rest

/-- The output files of the lines from an index on, or what stops them. -/
def lineOutputs (disk : Disk) (path : Path) : Nat → List String → Except Failure (List Path)
  | _, [] => .ok []
  | index, _ :: rest =>
    ((target? disk (path.output index)).mapError (.write (path.output index))).bind fun _ =>
      (lineOutputs disk path (index + 1) rest).map (path.output index :: ·)

def fileLines (disk : Disk) (path : Path) : Except Failure (List String) :=
  match disk.read path with
  | .error fault => .error (.read path fault)
  | .ok bytes =>
    match Text.lines? bytes with
    | none => .error (.read path .invalidData)
    | some lines => .ok lines

/-- The writes of a file. -/
def fileWrites (disk : Disk) (mode : Mode) (path : Path) : List Write :=
  match fileLines disk path with
  | .error _ => []
  | .ok lines => lineWrites disk path mode 0 lines

/-- What is reported of a file. -/
def fileReport (disk : Disk) (path : Path) : FileReport :=
  ⟨path, (fileLines disk path).bind (lineOutputs disk path 0)⟩

/-- One output file for each line; none if the file cannot be read. -/
def outputFiles (disk : Disk) (path : Path) : List Path :=
  match fileLines disk path with
  | .error _ => []
  | .ok lines => (List.range lines.length).map path.output

lemma mem_lineWrites {disk : Disk} {path : Path} {mode : Mode} {index : Nat} {lines : List String}
    {w : Write} (h : w ∈ lineWrites disk path mode index lines) :
    ∃ k, k < lines.length ∧ target? disk (path.output (index + k)) = .ok w.1 := by
  induction lines generalizing index with
  | nil => cases h
  | cons line rest ih =>
    rw [lineWrites] at h
    cases htarget : target? disk (path.output index) with
    | error fault => simp [htarget, Except.toOption] at h
    | ok location =>
      rw [htarget] at h
      rcases List.mem_cons.mp h with rfl | h
      · exact ⟨0, by simp, htarget⟩
      · obtain ⟨k, hk, hw⟩ := ih h
        have hindex : index + 1 + k = index + (k + 1) := by omega
        rw [hindex] at hw
        exact ⟨k + 1, Nat.succ_lt_succ hk, hw⟩

/-- Every write of a file replaces one of its output files. -/
lemma mem_fileWrites {disk : Disk} {mode : Mode} {path : Path} {w : Write}
    (h : w ∈ fileWrites disk mode path) :
    ∃ k, path.output k ∈ outputFiles disk path ∧ target? disk (path.output k) = .ok w.1 := by
  unfold fileWrites at h
  unfold outputFiles
  cases hlines : fileLines disk path with
  | error fault => simp [hlines] at h
  | ok lines =>
    rw [hlines] at h
    obtain ⟨k, hk, hw⟩ := mem_lineWrites h
    rw [Nat.zero_add] at hw
    exact ⟨k, List.mem_map_of_mem (List.mem_range.mpr hk), hw⟩

section

variable {disk : Disk} {disks : Set Disk} {path : Path}

lemma performs_writeOutcome {mode : Mode} {index : Nat} {rest : Job (Except Failure (List Path))}
    {location : Location} {result : Except Failure (List Path)} {later : List Write}
    (htarget : ∀ d ∈ disks, target? d (path.output index) = .ok location)
    (h : Performs Right disks (· = result) rest later) (outcome : Outcome) :
    Performs Right disks (· = result.map (path.output index :: ·))
      (writeOutcome path mode index outcome rest)
      ((location, (outcome.render mode).toUTF8) :: later) := by
  have hrest : Performs Right disks (· = result.map (path.output index :: ·))
      (rest.bind fun outputs => .done (outputs.map (path.output index :: ·))) later := by
    refine h.bind_nil ?_
    rintro _ rfl
    exact ⟨rfl, rfl⟩
  cases outcome with
  | error fault => exact .inr ⟨location, later, htarget, rfl, hrest⟩
  | ok e => exact .inr ⟨location, later, htarget, rfl, hrest⟩

lemma performs_writeOutcome_of_fault {mode : Mode} {index : Nat} {fault : FileFault}
    (htarget : ∀ d ∈ disks, target? d (path.output index) = .error fault) (outcome : Outcome)
    (rest : Job (Except Failure (List Path))) :
    Performs Right disks (· = .error (.write (path.output index) fault))
      (writeOutcome path mode index outcome rest) [] := by
  cases outcome with
  | error e => exact .inl ⟨fault, htarget, rfl, rfl⟩
  | ok e => exact .inl ⟨fault, htarget, rfl, rfl⟩

lemma performs_writeLines (mode : Mode)
    (htarget : ∀ d ∈ disks, ∀ k, target? d (path.output k) = target? disk (path.output k))
    (index : Nat) (lines : List String) :
    Performs Right disks (· = lineOutputs disk path index lines)
      (Batch.writeLines path mode index lines) (lineWrites disk path mode index lines) := by
  induction lines generalizing index with
  | nil => exact ⟨rfl, rfl⟩
  | cons line rest ih =>
    have hline : Performs Right disks (fun outcome => Matches Alike outcome (uncached line))
        (Expression.evaluate line) [] :=
      .of_fileFree (FileFree.evaluate line) (evaluate_guarantees_alike line ∅)
    rw [writeLines_cons, lineOutputs, lineWrites]
    cases ht : target? disk (path.output index) with
    | error fault =>
      have hall : ∀ d ∈ disks, target? d (path.output index) = .error fault :=
        fun d hd => (htarget d hd index).trans ht
      exact hline.bind fun outcome _ => performs_writeOutcome_of_fault hall outcome _
    | ok location =>
      have hall : ∀ d ∈ disks, target? d (path.output index) = .ok location :=
        fun d hd => (htarget d hd index).trans ht
      refine hline.bind fun outcome hm => ?_
      rw [lineContent, ← render_eq hm mode]
      exact performs_writeOutcome hall (ih (index + 1)) outcome

/-- A file is evaluated as it says, on every disk where it and its output files are found alike. -/
theorem performs_evaluateFile (mode : Mode) (hread : ∀ d ∈ disks, d.read path = disk.read path)
    (htarget : ∀ d ∈ disks, ∀ k, target? d (path.output k) = target? disk (path.output k)) :
    Performs Right disks (· = (fileReport disk path).outputs) (Batch.evaluateFile path mode)
      (fileWrites disk mode path) := by
  rw [evaluateFile_eq, fileReport, fileWrites, fileLines]
  refine ⟨disk.read path, hread, ?_⟩
  cases disk.read path with
  | error fault => exact ⟨rfl, rfl⟩
  | ok bytes =>
    cases h : Text.lines? bytes with
    | none =>
      simp only [h]
      exact ⟨rfl, rfl⟩
    | some lines =>
      simp only [h]
      exact performs_writeLines mode htarget 0 lines

end

end Reckoner.Proofs
