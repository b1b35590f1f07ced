import Mathlib.Tactic
import Reckoner.Proofs.OneDirectory

/-!
# Rounds of a batch

A batch that goes through its files so many times makes the writes of one round so many times. The
rounds before change nothing that the last one reads, and neither does what they leave in a memory
change an outcome, so neither the number of rounds nor the memory can be told from the reports and
the files in the end.
-/

namespace Reckoner.Proofs
open Reckoner.Path

variable (directory : List Char) {names : List (List Char)} (disk : Disk)

lemma performs_processFile {name : List Char} (hname : IsName name) (hmem : name ∈ names)
    (mode : Mode) :
    Performs Right {d | Keeps directory names disk d}
      (· = fileReport disk (inside directory name))
      (Batch.processFile mode (inside directory name))
      (fileWrites disk mode (inside directory name)) := by
  have hfile := performs_inside disk directory hname hmem mode
  refine hfile.bind_nil ?_
  rintro _ rfl
  have hnote : ∀ r : FileReport, Performs Right {d | Keeps directory names disk d}
      (fun _ : Unit => True) (Batch.noteFailure r) [] := by
    intro r
    unfold Batch.noteFailure
    cases r.outputs <;> exact ⟨rfl, trivial⟩
  exact (hnote _).bind_nil fun _ _ => ⟨rfl, rfl⟩

/-- The writes of one round. -/
def roundWrites (disk : Disk) (mode : Mode) (files : List Path) : List Write :=
  files.flatMap (fileWrites disk mode)

lemma performs_round (hnames : ∀ name ∈ names, IsName name) (mode : Mode) :
    Performs Right {d | Keeps directory names disk d}
      (· = (names.map (inside directory)).map (fileReport disk))
      ((names.map (inside directory)).mapM (Batch.processFile mode))
      (roundWrites disk mode (names.map (inside directory))) := by
  apply Performs.mapM
  intro file hfile
  obtain ⟨name, hmem, rfl⟩ := List.mem_map.mp hfile
  exact performs_processFile directory disk (hnames name hmem) hmem mode

/-- Every round makes the same writes and gives the same reports. -/
lemma performs_rounds (hnames : ∀ name ∈ names, IsName name) (mode : Mode) (n : Nat) :
    Performs Right {d | Keeps directory names disk d}
      (· = (names.map (inside directory)).map (fileReport disk))
      (Batch.rounds (names.map (inside directory)) mode (n + 1))
      (List.replicate (n + 1) (roundWrites disk mode (names.map (inside directory)))).flatten := by
  induction n with
  | zero =>
    have hround := performs_round directory disk hnames mode
    rwa [← List.append_nil (roundWrites disk mode (names.map (inside directory)))] at hround
  | succ n ih =>
    rw [List.replicate_succ, List.flatten_cons]
    exact (performs_round directory disk hnames mode).bind fun _ _ => ih

lemma performs_run (sound : Cache.Key → Binary64 → Prop) (hnames : ∀ name ∈ names, IsName name)
    (n : Nat) (remember : Bool) (mode : Mode) :
    Performs sound {d | Keeps directory names disk d}
      (fun report => report.files = (names.map (inside directory)).map (fileReport disk))
      (Batch.run (names.map (inside directory)) (n + 1) remember mode)
      (List.replicate (n + 1) (roundWrites disk mode (names.map (inside directory)))).flatten := by
  intro started
  have hrounds := (performs_rounds directory disk hnames mode n).withMemory
    (sound_fresh remember) sound
  refine hrounds.bind_nil ?_
  rintro _ rfl finished
  exact ⟨rfl, rfl⟩

lemma performs_benchmark (sound : Cache.Key → Binary64 → Prop)
    (hnames : ∀ name ∈ names, IsName name) (n : Nat) (mode : Mode) :
    Performs sound {d | Keeps directory names disk d}
      (fun both => both.uncached.files = (names.map (inside directory)).map (fileReport disk) ∧
        both.cached.files = (names.map (inside directory)).map (fileReport disk))
      (Batch.benchmark (names.map (inside directory)) (n + 1) mode)
      (List.replicate (n + n + 2)
        (roundWrites disk mode (names.map (inside directory)))).flatten := by
  have hwrites : ∀ writes : List Write, (List.replicate (n + n + 2) writes).flatten =
      (List.replicate (n + 1) writes).flatten ++
        ((List.replicate (n + 1) writes).flatten ++ []) := by
    intro writes
    rw [List.append_nil, ← List.flatten_append, List.replicate_append_replicate]
    congr 2
    omega
  rw [hwrites]
  refine (performs_run directory disk sound hnames n false mode).bind fun uncached huncached => ?_
  exact (performs_run directory disk sound hnames n true mode).bind fun cached hcached =>
    ⟨rfl, huncached, hcached⟩

variable {directory}

/-- A job that makes the writes of a round, so many times, leaves the disk as one round does. -/
lemma run_rounds {α : Type} {post : α → Prop} {job : Job α} {mode : Mode} {n : Nat} {world : World}
    (hnames : ∀ name ∈ names, IsName name)
    (hapart : OutputsApart world.disk (names.map (inside directory)) (names.map (inside directory)))
    (h : Performs (fun _ _ => True) {d | Keeps directory names world.disk d} post job
      (List.replicate (n + 1)
        (roundWrites world.disk mode (names.map (inside directory)))).flatten) :
    post (job.run world).1 ∧ ∀ location, Disk.entry? (job.run world).2.disk location =
      Disk.entry? (putAll world.disk (roundWrites world.disk mode (names.map (inside directory))))
        location := by
  have hstay : StayIn {d | Keeps directory names world.disk d} (List.replicate (n + 1)
      (roundWrites world.disk mode (names.map (inside directory)))).flatten := by
    intro d hd w hw
    obtain ⟨writes, hwrites, hw⟩ := List.mem_flatten.mp hw
    rw [List.eq_of_mem_replicate hwrites] at hw
    obtain ⟨file, hfile, hw⟩ := List.mem_flatMap.mp hw
    obtain ⟨name, hmem, rfl⟩ := List.mem_map.mp hfile
    refine stayIn_inside (hnames name hmem) hnames (fun p hp => ?_) mode d hd w hw
    exact hapart p (List.mem_singleton.mp hp ▸ hfile)
  have hkeeps : world.disk ∈ {d | Keeps directory names world.disk d} := .refl _ _ _
  have hrun := h.run hkeeps hstay fun _ _ _ => trivial
  refine ⟨hrun.1, fun location => ?_⟩
  rw [hrun.2, entry?_putAll_replicate]

/-- A batch over inputs of one directory, none of which is an output file, gives the same reports
and leaves the same files for any number of rounds, with a memory or without. Names are Unicode
texts, and the disk has no links, so what is written under one name is read under no other. -/
theorem rounds_leave_no_trace (hnames : ∀ name ∈ names, IsName name) (mode : Mode) (world : World)
    (hapart : OutputsApart world.disk (names.map (inside directory)) (names.map (inside directory)))
    {count : Nat} (hcount : 1 ≤ count) (remember : Bool) :
    let files := names.map (inside directory)
    let once := (Batch.run files 1 false mode).run world
    let repeated := (Batch.run files count remember mode).run world
    let both := (Batch.benchmark files count mode).run world
    repeated.1.files = once.1.files ∧
      (∀ location, repeated.2.disk.entry? location = once.2.disk.entry? location) ∧
      both.1.uncached.files = once.1.files ∧ both.1.cached.files = once.1.files ∧
      ∀ location, both.2.disk.entry? location = once.2.disk.entry? location := by
  intro files once repeated both
  obtain ⟨n, rfl⟩ : ∃ n, count = n + 1 := ⟨count - 1, by omega⟩
  obtain ⟨honce, hdisk⟩ := run_rounds hnames hapart (performs_run directory _ _ hnames 0 false mode)
  obtain ⟨hrepeated, hdisk'⟩ :=
    run_rounds hnames hapart (performs_run directory _ _ hnames n remember mode)
  obtain ⟨⟨huncached, hcached⟩, hdisk''⟩ :=
    run_rounds (n := n + n + 1) hnames hapart (performs_benchmark directory _ _ hnames n mode)
  refine ⟨hrepeated.trans honce.symm, fun location => ?_, huncached.trans honce.symm,
    hcached.trans honce.symm, fun location => ?_⟩
  · exact (hdisk' location).trans (hdisk location).symm
  · exact (hdisk'' location).trans (hdisk location).symm

/-- Two tables with one stem, and nothing by the name of the third input. -/
theorem rounds_of_two_tables :
    let names := ["a.txt".toList, "a.csv".toList, "b".toList]
    let files := names.map (inside [])
    let disk : Disk := ⟨[(["a.txt".toList], .file "2*3\n3*2 4\n".toUTF8),
      (["a.csv".toList], .file "(1".toUTF8)], []⟩
    (∀ name ∈ names, IsName name) ∧ OutputsApart disk files files ∧
      ((Batch.run files 3 true .json).run ⟨.off, disk, []⟩).1.files =
        ((Batch.run files 1 false .json).run ⟨.off, disk, []⟩).1.files := by
  intro names files disk
  have hnames : ∀ name ∈ names, IsName name := by decide
  have hapart : OutputsApart disk files files := by decide +kernel
  have hall := rounds_leave_no_trace hnames .json ⟨.off, disk, []⟩ hapart (by decide : 1 ≤ 3) true
  exact ⟨hnames, hapart, hall.1⟩

end Reckoner.Proofs
