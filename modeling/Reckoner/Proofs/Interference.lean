import Mathlib.Tactic
import Reckoner.Proofs.Clashes
import Reckoner.Proofs.Confinement
import Reckoner.Proofs.Locations

/-!
# Workers and the files of others

Workers without a clash have different output paths, for every line. What that leaves open is what
the comparison of paths does not see: two paths that lead to one entry although their steps differ,
and an input that is named like an output file of another. Nothing else makes two workers meet in
one entry of the disk, whatever turns they take.
-/

namespace Reckoner.Proofs
open Reckoner.Path

variable {α : Type}

/-! ### Meeting in an entry -/

namespace Team

/-- The path that a job writes to, if that is its next step. -/
def nextTarget? (team : Team α) (i : Nat) : Option Path :=
  match team.jobs[i]? with
  | some (.write path _ _) => some path
  | _ => none

/-- The entry that a job writes, if that is its next step. -/
def nextWrite? (team : Team α) (i : Nat) : Option Location :=
  (team.nextTarget? i).bind fun path => (target? team.world.disk path).toOption

/-- The entry that a job reads, if that is its next step. -/
def nextRead? (team : Team α) (i : Nat) : Option Location :=
  match team.jobs[i]? with
  | some (.read path _) =>
    match team.world.disk.locate path with
    | .ok (.entry location _) => some location
    | _ => none
  | _ => none

/-- In one run, the first job writes an entry and the second writes or reads the same, be it
earlier or later. -/
def Interferes (start : Team α) (i j : Nat) : Prop :=
  ∃ one other : Team α, start.Reaches one ∧ start.Reaches other ∧
    (one.Reaches other ∨ other.Reaches one) ∧
    ∃ location, one.nextWrite? i = some location ∧
      (other.nextWrite? j = some location ∨ other.nextRead? j = some location)

/-- Takes turns by their places, as long as there is a next step. -/
def takeTurns : List Nat → Team α → Option (Team α)
  | [], team => some team
  | i :: rest, team => do
    let job ← team.jobs[i]?
    let (job', world') ← advance job team.world
    takeTurns rest ⟨team.jobs.set i job', world'⟩

lemma reaches_of_takeTurns {turns : List Nat} {team team' : Team α}
    (h : takeTurns turns team = some team') : team.Reaches team' := by
  induction turns generalizing team with
  | nil =>
    cases h
    exact .refl
  | cons i rest ih =>
    simp only [takeTurns, Option.bind_eq_bind, Option.bind_eq_some_iff] at h
    obtain ⟨job, hjob, ⟨job', world'⟩, hstep, hrest⟩ := h
    exact .head (.step i hjob hstep) (ih hrest)

/-- After the first turns a job is about to write what another is about to write or read after the
later ones. -/
def meets (start : Team α) (first later : List Nat) (i j : Nat) : Bool :=
  match takeTurns first start with
  | none => false
  | some one =>
    match takeTurns later one with
    | none => false
    | some other =>
      (one.nextWrite? i).any fun location =>
        other.nextWrite? j = some location || other.nextRead? j = some location

lemma interferes_of_meets {start : Team α} {first later : List Nat} {i j : Nat}
    (h : meets start first later i j) : Interferes start i j := by
  unfold meets at h
  split at h
  · cases h
  · rename_i one hone
    split at h
    · cases h
    · rename_i other hother
      cases hwrite : one.nextWrite? i with
      | none => simp [hwrite] at h
      | some location =>
        rw [hwrite, Option.any_some, Bool.or_eq_true, decide_eq_true_iff, decide_eq_true_iff] at h
        have hlater := reaches_of_takeTurns hother
        have hfirst := reaches_of_takeTurns hone
        exact ⟨one, other, hfirst, hfirst.trans hlater, .inl hlater, location, hwrite, h⟩

end Team

/-- No worker without a clash ever writes what another one writes or reads. -/
def WorkersApart (files : List Path) (mode : Mode) (world : World) : Prop :=
  ∀ i j : Nat, i ≠ j → (Batch.clashes files)[i]? = some none →
    (Batch.clashes files)[j]? = some none →
    ¬ Team.Interferes ⟨Batch.workers files mode, world⟩ i j

/-- A disk with two tables in the directory where paths start. -/
def twoTables (name other : String) : World :=
  ⟨.off, ⟨[([name.toList], .file "1+1\n".toUTF8), ([other.toList], .file "1+1\n".toUTF8)], []⟩, []⟩

/-- Two workers write one entry if their paths lead there by different steps, and a worker writes
what another one reads if an input is named like an output file. -/
theorem workers_not_apart :
    ¬ WorkersApart [⟨"a.txt"⟩, ⟨"./a.csv"⟩] .text (twoTables "a.txt" "a.csv") ∧
    ¬ WorkersApart [⟨"a"⟩, ⟨"a_0"⟩] .text (twoTables "a" "a_0") := by
  constructor
  · intro h
    have hmeets : Team.meets ⟨Batch.workers [⟨"a.txt"⟩, ⟨"./a.csv"⟩] .text,
        twoTables "a.txt" "a.csv"⟩ (List.replicate 14 0) (0 :: List.replicate 14 1) 0 1 := by
      decide +kernel
    exact h 0 1 (by decide) (by decide +kernel) (by decide +kernel)
      (Team.interferes_of_meets hmeets)
  · intro h
    have hmeets : Team.meets ⟨Batch.workers [⟨"a"⟩, ⟨"a_0"⟩] .text, twoTables "a" "a_0"⟩
        (List.replicate 14 0) [] 0 1 := by
      decide +kernel
    exact h 0 1 (by decide) (by decide +kernel) (by decide +kernel)
      (Team.interferes_of_meets hmeets)

/-! ### Runs and directories -/

lemma sameFolders_advance {job job' : Job α} {world world' : World}
    (hstep : advance job world = some (job', world')) : SameFolders world.disk world'.disk := by
  cases job with
  | done result => cases hstep
  | note | lookup | store | read | clock =>
    cases hstep
    exact .refl _
  | write path content next =>
    simp only [advance, write_eq] at hstep
    cases ht : target? world.disk path with
    | error fault =>
      rw [ht] at hstep
      cases hstep
      exact .refl _
    | ok location =>
      rw [ht] at hstep
      cases hstep
      exact sameFolders_put (locate_of_target? ht).2 _

/-- No job of any team makes or removes a directory, so paths lead where they led at the start. -/
theorem sameFolders_reaches {team team' : Team α} (h : team.Reaches team') :
    SameFolders team.world.disk team'.world.disk := by
  induction h with
  | refl => exact .refl _
  | tail _ hturn ih =>
    obtain ⟨i, hjob, hstep⟩ := hturn
    exact ih.trans (sameFolders_advance hstep)

/-! ### Workers -/

section

variable {files : List Path} {mode : Mode} {world : World} {i j : Nat} {p q : Path}
  {team : Team FileReport} {location : Location}

lemma confined_workers (hp : files[i]? = some p) {job : Job FileReport}
    (hteam : Team.Reaches ⟨Batch.workers files mode, world⟩ team)
    (hjob : team.jobs[i]? = some job) :
    Confined (· = p) (fun path => ∃ k, path = p.output k) job := by
  have hstart : ∀ (n : Nat) job, (Batch.workers files mode)[n]? = some job →
      Confined (fun path => files[n]? = some path)
        (fun path => ∃ file k, files[n]? = some file ∧ path = file.output k) job := by
    intro n job hjob
    change ((assigned files).map fun x => Batch.worker mode x.1 x.2)[n]? = some job at hjob
    rw [List.getElem?_map, getElem?_assigned] at hjob
    cases hn : files[n]? with
    | none => simp [hn] at hjob
    | some file =>
      rw [hn] at hjob
      cases hjob
      refine (confined_worker mode file _).mono ?_ ?_
      · rintro _ ⟨_, rfl⟩
        rfl
      · rintro _ ⟨_, k, rfl⟩
        exact ⟨file, k, rfl, rfl⟩
  refine (confined_reaches hstart hteam i job hjob).mono ?_ ?_
  · intro path hpath
    exact Option.some.inj (hpath.symm.trans hp)
  · rintro _ ⟨file, k, hfile, rfl⟩
    rw [hp] at hfile
    cases hfile
    exact ⟨k, rfl⟩

/-- A worker writes only to output paths of its input, and where they lead at the start. -/
lemma exists_of_nextWrite? (hp : files[i]? = some p)
    (hteam : Team.Reaches ⟨Batch.workers files mode, world⟩ team)
    (h : team.nextWrite? i = some location) :
    ∃ k, team.nextTarget? i = some (p.output k) ∧
      world.disk.locate (p.output k) = .ok (.entry location false) := by
  obtain ⟨path, htarget, hwrite⟩ := Option.bind_eq_some_iff.mp h
  have hpath : ∃ k, path = p.output k := by
    unfold Team.nextTarget? at htarget
    split at htarget
    · rename_i path content next hjob
      cases htarget
      exact (confined_workers hp hteam hjob).1
    · cases htarget
  obtain ⟨k, rfl⟩ := hpath
  refine ⟨k, htarget, ?_⟩
  cases ht : target? team.world.disk (p.output k) with
  | error fault => simp [ht, Except.toOption] at hwrite
  | ok found =>
    rw [ht] at hwrite
    cases hwrite
    exact (sameFolders_reaches hteam).symm.locate_eq_ok (locate_of_target? ht).1

/-- A worker reads only where its input leads at the start. -/
lemma exists_of_nextRead? (hp : files[i]? = some p)
    (hteam : Team.Reaches ⟨Batch.workers files mode, world⟩ team)
    (h : team.nextRead? i = some location) :
    ∃ slash, world.disk.locate p = .ok (.entry location slash) := by
  unfold Team.nextRead? at h
  split at h
  · rename_i path next hjob
    obtain ⟨rfl, _⟩ := confined_workers hp hteam hjob
    split at h
    · rename_i found slash hlocate
      cases h
      exact ⟨slash, (sameFolders_reaches hteam).symm.locate_eq_ok hlocate⟩
    · cases h
  · cases h

lemma exists_of_locate_output {disk : Disk} {k : Nat} {slash : Bool}
    (h : disk.locate (p.output k) = .ok (.entry location slash)) :
    ∃ parent, location = parent ++ [outputName (outputStem p) k] := by
  rw [output_eq, locate_below disk _ (isName_output p k)] at h
  cases hparent : follow disk (pathOf (outputDirectory p)).components with
  | error e =>
    rw [hparent] at h
    cases h
  | ok parent =>
    rw [hparent] at h
    cases h
    exact ⟨parent, rfl⟩

lemma same_comm (p q : Path) : p.same q = q.same p := by
  unfold Path.same
  exact decide_eq_decide.mpr eq_comm

lemma not_same_output (hij : i ≠ j) (hp : files[i]? = some p) (hq : files[j]? = some q)
    (hpnone : (Batch.clashes files)[i]? = some none)
    (hqnone : (Batch.clashes files)[j]? = some none) (k l : Nat) :
    (p.output k).same (q.output l) = false := by
  have hi : (assigned files)[i]? = some (p, none) := List.getElem?_zip_eq_some.mpr ⟨hp, hpnone⟩
  have hj : (assigned files)[j]? = some (q, none) := List.getElem?_zip_eq_some.mpr ⟨hq, hqnone⟩
  have hfirst : (p.output 0).same (q.output 0) = false := by
    rcases Nat.lt_or_gt_of_ne hij with hlt | hlt
    · exact not_same_of_unclashed hlt hi hj
    · rw [same_comm]
      exact not_same_of_unclashed hlt hj hi
  rw [Bool.eq_false_iff] at hfirst ⊢
  exact fun hsame => hfirst ((same_output_iff_first p q k l).mp hsame).2

end

/-- Two workers without a clash have no output path in common, for any lines and whatever they do.
Whatever turns are taken on whatever disk, they write one entry only for the same line, by two paths
that both lead there; and one writes what the other reads only if the input of the other has the
name of one of its output files and leads to it. Paths are Unicode texts here, and a disk has no
links, so an entry is what a path leads to by its steps. -/
theorem workers_meet_by_name {files : List Path} {i j : Nat} {p q : Path} (hij : i ≠ j)
    (hp : files[i]? = some p) (hq : files[j]? = some q)
    (hpnone : (Batch.clashes files)[i]? = some none)
    (hqnone : (Batch.clashes files)[j]? = some none) :
    (∀ k l, (p.output k).same (q.output l) = false) ∧
    ∀ (mode : Mode) (world : World) (one other : Team FileReport) (location : Location),
      Team.Reaches ⟨Batch.workers files mode, world⟩ one →
      Team.Reaches ⟨Batch.workers files mode, world⟩ other →
      one.nextWrite? i = some location →
      (other.nextWrite? j = some location → ∃ k,
        one.nextTarget? i = some (p.output k) ∧ other.nextTarget? j = some (q.output k) ∧
        world.disk.locate (p.output k) = .ok (.entry location false) ∧
        world.disk.locate (q.output k) = .ok (.entry location false)) ∧
      (other.nextRead? j = some location → ∃ k directory slash,
        one.nextTarget? i = some (p.output k) ∧
        q.splitName? = some (directory, outputName (outputStem p) k) ∧
        world.disk.locate (p.output k) = .ok (.entry location false) ∧
        world.disk.locate q = .ok (.entry location slash)) := by
  refine ⟨not_same_output hij hp hq hpnone hqnone, ?_⟩
  intro mode world one other location hone hother hwrite
  obtain ⟨k, htarget, hk⟩ := exists_of_nextWrite? hp hone hwrite
  obtain ⟨parent, hparent⟩ := exists_of_locate_output hk
  refine ⟨fun hwrite' => ?_, fun hread => ?_⟩
  · obtain ⟨l, htarget', hl⟩ := exists_of_nextWrite? hq hother hwrite'
    obtain ⟨parent', hparent'⟩ := exists_of_locate_output hl
    have hname := hparent.symm.trans hparent'
    rw [List.append_singleton_inj, outputName_inj] at hname
    obtain ⟨_, _, rfl⟩ := hname
    exact ⟨k, htarget, htarget', hk, hl⟩
  · obtain ⟨slash, hlocate⟩ := exists_of_nextRead? hq hother hread
    obtain ⟨directory, name, parent', hsplit, _, hparent'⟩ := exists_of_locate hlocate
    have hname := hparent.symm.trans hparent'
    rw [List.append_singleton_inj] at hname
    obtain ⟨_, rfl⟩ := hname
    exact ⟨k, directory, slash, htarget, hsplit, hk, hlocate⟩

/-- A worker that writes what another one reads. -/
theorem worker_meets_input :
    let files : List Path := [⟨"a"⟩, ⟨"a_0"⟩]
    let start : Team FileReport := ⟨Batch.workers files .text, twoTables "a" "a_0"⟩
    Batch.clashes files = [none, none] ∧
      (∀ k l, (Path.output ⟨"a"⟩ k).same (Path.output ⟨"a_0"⟩ l) = false) ∧
      ∃ one, start.Reaches one ∧
      one.nextWrite? 0 = some ["a_0".toList] ∧ start.nextRead? 1 = some ["a_0".toList] ∧
      ∃ k directory slash,
        one.nextTarget? 0 = some (Path.output ⟨"a"⟩ k) ∧
        Path.splitName? ⟨"a_0"⟩ = some (directory, outputName (outputStem ⟨"a"⟩) k) ∧
        start.world.disk.locate (Path.output ⟨"a"⟩ k) = .ok (.entry ["a_0".toList] false) ∧
        start.world.disk.locate ⟨"a_0"⟩ = .ok (.entry ["a_0".toList] slash) := by
  intro files start
  have hclashes : Batch.clashes files = [none, none] := by decide +kernel
  have hread : start.nextRead? 1 = some ["a_0".toList] := by decide +kernel
  have hrun : (Team.takeTurns (List.replicate 14 0) start).bind (·.nextWrite? 0) =
      some ["a_0".toList] := by
    decide +kernel
  obtain ⟨one, hturns, hwrite⟩ := Option.bind_eq_some_iff.mp hrun
  have hone := Team.reaches_of_takeTurns hturns
  obtain ⟨hpaths, hmeet⟩ := workers_meet_by_name (by decide : 0 ≠ 1)
    (rfl : files[0]? = some ⟨"a"⟩) (rfl : files[1]? = some ⟨"a_0"⟩) (by rw [hclashes]; rfl)
    (by rw [hclashes]; rfl)
  have hmeets := hmeet .text (twoTables "a" "a_0") one start ["a_0".toList] hone .refl hwrite
  exact ⟨hclashes, hpaths, one, hone, hwrite, hread, hmeets.2 hread⟩

end Reckoner.Proofs
