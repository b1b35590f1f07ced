import Mathlib.Tactic
import Reckoner.Proofs.Writes

/-!
# Files of one directory

Inputs that lie in one directory write into that directory. If no output file is itself an input,
then no write changes what an input holds or where an output file is found, so the disks that a
batch may come to are all alike to it. Inputs with different stems have no entry in common.
-/

namespace Reckoner.Proofs
open Reckoner.Path

variable {directory name other : List Char} {names : List (List Char)} {disk disk' : Disk}

lemma target?_inside (disk : Disk) (directory : List Char) (h : IsName name) :
    target? disk (inside directory name) =
      (follow disk (pathOf directory).components).bind fun parent =>
        if disk.entry? (parent ++ [name]) = some .directory then .error .isDirectory
        else .ok (parent ++ [name]) :=
  target?_below disk directory h

/-- Output files are found in the directory of the input. -/
lemma target?_output (disk : Disk) (directory : List Char) (h : IsName name) (k : Nat) :
    target? disk ((inside directory name).output k) =
      target? disk (inside directory (outputName (stem name) k)) := by
  have hout := isName_output (inside directory name) k
  rw [outputStem_inside directory h] at hout
  rw [output_eq, outputStem_inside directory h, target?_below disk _ hout,
    components_outputDirectory_inside directory h, target?_inside disk directory hout]

lemma exists_of_target?_output (h : IsName name) {k : Nat} {location : Location}
    (ht : target? disk ((inside directory name).output k) = .ok location) :
    ∃ parent, follow disk (pathOf directory).components = .ok parent ∧
      location = parent ++ [outputName (stem name) k] := by
  have hout := isName_output (inside directory name) k
  rw [outputStem_inside directory h] at hout
  rw [target?_output disk directory h, target?_inside disk directory hout] at ht
  cases hparent : follow disk (pathOf directory).components with
  | error fault =>
    rw [hparent] at ht
    cases ht
  | ok parent =>
    simp only [hparent, Except.bind] at ht
    split_ifs at ht
    cases ht
    exact ⟨parent, rfl, rfl⟩

/-- What may become of a disk while inputs of a directory are evaluated: all directories are still
there, and so are the inputs with their contents. -/
structure Keeps (directory : List Char) (names : List (List Char)) (disk disk' : Disk) : Prop where
  folders : SameFolders disk disk'
  way : follow disk' (pathOf directory).components = follow disk (pathOf directory).components
  inputs : ∀ name ∈ names, disk'.read (inside directory name) = disk.read (inside directory name)

namespace Keeps

lemma refl (directory : List Char) (names : List (List Char)) (disk : Disk) :
    Keeps directory names disk disk :=
  ⟨.refl disk, rfl, fun _ _ => rfl⟩

lemma target?_output (h : Keeps directory names disk disk') (hname : IsName name) (k : Nat) :
    target? disk' ((inside directory name).output k) =
      target? disk ((inside directory name).output k) := by
  have hout := isName_output (inside directory name) k
  rw [outputStem_inside directory hname] at hout
  simp only [Proofs.target?_output _ directory hname, target?_inside _ directory hout, h.way,
    h.folders.folder]

/-- A file that is no input may be replaced. -/
theorem put (h : Keeps directory names disk disk') (hname : IsName name)
    (hnames : ∀ other ∈ names, IsName other) {k : Nat} {location : Location}
    (hapart : ∀ other ∈ names, outputName (stem name) k ≠ other)
    (ht : target? disk ((inside directory name).output k) = .ok location) (content : ByteArray) :
    Keeps directory names disk (disk'.put location (.file content)) := by
  obtain ⟨parent, hparent, rfl⟩ := exists_of_target?_output hname ht
  have ht' := (h.target?_output hname k).trans ht
  have hput := sameFolders_put (locate_of_target? ht').2 content
  have hway := h.way.trans hparent
  have hway' := hput.follow_eq_ok hway
  constructor
  · exact h.folders.trans hput
  · rw [hway', hparent]
  · intro other hother
    have hne : parent ++ [other] ≠ parent ++ [outputName (stem name) k] := by
      intro heq
      rw [List.append_cancel_left_eq, List.singleton_inj] at heq
      exact hapart other hother heq.symm
    rw [← h.inputs other hother, read_inside _ directory (hnames other hother),
      read_inside _ directory (hnames other hother), hway, hway']
    simp only [Except.bind, entry?_put, hne, false_and, if_false]

end Keeps

/-- None of the output files of the first inputs is one of the second. -/
def OutputsApart (disk : Disk) (processed inputs : List Path) : Prop :=
  ∀ p ∈ processed, ∀ output ∈ outputFiles disk p, ∀ q ∈ inputs, output.same q = false

instance (disk : Disk) (processed inputs : List Path) :
    Decidable (OutputsApart disk processed inputs) :=
  inferInstanceAs (Decidable
    (∀ p ∈ processed, ∀ output ∈ outputFiles disk p, ∀ q ∈ inputs, output.same q = false))

lemma stayIn_inside (hname : IsName name) (hnames : ∀ other ∈ names, IsName other)
    (hapart : OutputsApart disk [inside directory name] (names.map (inside directory)))
    (mode : Mode) :
    StayIn {d | Keeps directory names disk d} (fileWrites disk mode (inside directory name)) := by
  intro d hd w hw
  obtain ⟨k, hk, ht⟩ := mem_fileWrites hw
  refine hd.put hname hnames (fun other hother heq => ?_) ht w.2
  have hsame := (output_same_inside directory hname (hnames other hother) k).mpr heq
  have hnot := hapart _ List.mem_cons_self _ hk _ (List.mem_map_of_mem hother)
  rw [hnot] at hsame
  cases hsame

/-- An input is evaluated as the disk says, whatever has been written meanwhile. -/
theorem performs_inside (disk : Disk) (directory : List Char) (hname : IsName name)
    (hmem : name ∈ names) (mode : Mode) :
    Performs Right {d | Keeps directory names disk d}
      (· = (fileReport disk (inside directory name)).outputs)
      (Batch.evaluateFile (inside directory name) mode)
      (fileWrites disk mode (inside directory name)) :=
  performs_evaluateFile mode (fun _ hd => hd.inputs name hmem)
    fun _ hd k => hd.target?_output hname k

end Reckoner.Proofs
