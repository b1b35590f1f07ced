import Mathlib.Tactic
import Mathlib.Logic.Relation
import Reckoner.World

/-!
# Jobs that take turns

A team of jobs works on one world. At each turn some job does its next visible step, and
nothing is said about which job that is. A job that is given all the turns does what it
does when it runs alone, so a team can always be brought to its end.
-/

namespace Reckoner.Proofs

variable {α : Type}

def advance : Job α → World → Option (Job α × World)
  | .done _, _ => none
  | .note record next, world => some (next, { world with journal := record :: world.journal })
  | .lookup key next, world => some (next (world.memory.lookup key), world)
  | .store key value next, world =>
    some (next, { world with memory := world.memory.store key value })
  | .read path next, world => some (next (world.disk.read path), world)
  | .write path content next, world =>
    match world.disk.write path content.toUTF8 with
    | .ok disk => some (next (.ok ()), { world with disk })
    | .error fault => some (next (.error fault), world)
  | .clock next, world => some (next 0, world)

structure Team (α : Type) where
  jobs : List (Job α)
  world : World

namespace Team

/-- One job of the team does its next step. -/
inductive Turn : Team α → Team α → Prop
  | step {team : Team α} {job job' : Job α} {world' : World} (i : Nat)
    (hjob : team.jobs[i]? = some job) (hstep : advance job team.world = some (job', world')) :
    Turn team ⟨team.jobs.set i job', world'⟩

/-- What a team may come to by any order of turns. -/
abbrev Reaches : Team α → Team α → Prop :=
  Relation.ReflTransGen Turn

def Finished (team : Team α) : Prop :=
  ∀ job ∈ team.jobs, ∃ result, job = .done result

end Team

lemma Team.Reaches.length_eq {team team' : Team α} (h : team.Reaches team') :
    team'.jobs.length = team.jobs.length := by
  induction h with
  | refl => rfl
  | tail _ hturn ih =>
    obtain ⟨i, hjob, hstep⟩ := hturn
    rw [← ih, List.length_set]

/-- A job that is done takes no more turns. -/
lemma Team.Reaches.done {team team' : Team α} (h : team.Reaches team') {i : Nat} {result : α}
    (hdone : team.jobs[i]? = some (.done result)) : team'.jobs[i]? = some (.done result) := by
  induction h with
  | refl => exact hdone
  | tail _ hturn ih =>
    obtain ⟨j, hjob, hstep⟩ := hturn
    rcases eq_or_ne j i with rfl | hne
    · rw [ih] at hjob
      cases hjob
      cases hstep
    · rw [List.getElem?_set_ne hne, ih]

/-- The place `i` of a team brings `job` to what it comes to alone. -/
def EndsAlone (i : Nat) (job : Job α) : Prop :=
  ∀ team : Team α, team.jobs[i]? = some job →
    team.Reaches ⟨team.jobs.set i (.done (job.run team.world).1), (job.run team.world).2⟩

lemma endsAlone_of_advance {i : Nat} {job : Job α}
    (h : ∀ world, ∃ job' world', advance job world = some (job', world') ∧
      job.run world = job'.run world' ∧ EndsAlone i job') : EndsAlone i job := by
  intro team hjob
  obtain ⟨job', world', hstep, hrun, hend⟩ := h team.world
  have hi : i < team.jobs.length := (List.getElem?_eq_some_iff.mp hjob).1
  have hlater := hend ⟨team.jobs.set i job', world'⟩ (List.getElem?_set_self hi)
  rw [List.set_set] at hlater
  rw [hrun]
  exact .head (.step i hjob hstep) hlater

/-- A job that is given all the turns comes to what it comes to alone. -/
theorem endsAlone (i : Nat) (job : Job α) : EndsAlone i job := by
  induction job with
  | done result =>
    intro team hjob
    obtain ⟨hi, hget⟩ := List.getElem?_eq_some_iff.mp hjob
    have hself : team.jobs.set i (.done result) = team.jobs := by rw [← hget, List.set_getElem_self]
    simp only [Job.run, hself]
    exact .refl
  | write path content next ih =>
    apply endsAlone_of_advance
    intro world
    cases hd : world.disk.write path content.toUTF8 with
    | ok disk =>
      refine ⟨next (.ok ()), { world with disk }, ?_, ?_, ih _⟩
      · simp only [advance, hd]
      · simp only [Job.run, hd]
    | error fault =>
      refine ⟨next (.error fault), world, ?_, ?_, ih _⟩
      · simp only [advance, hd]
      · simp only [Job.run, hd]
  | note record next ih => exact endsAlone_of_advance fun _ => ⟨_, _, rfl, rfl, ih⟩
  | lookup key next ih => exact endsAlone_of_advance fun _ => ⟨_, _, rfl, rfl, ih _⟩
  | store key value next ih => exact endsAlone_of_advance fun _ => ⟨_, _, rfl, rfl, ih⟩
  | read path next ih => exact endsAlone_of_advance fun _ => ⟨_, _, rfl, rfl, ih _⟩
  | clock next ih => exact endsAlone_of_advance fun _ => ⟨_, _, rfl, rfl, ih _⟩

/-- Whatever turns were taken so far, a team can be brought to its end. -/
theorem exists_finished (team : Team α) : ∃ final, team.Reaches final ∧ final.Finished := by
  -- The places are brought to their ends in order, and a later one leaves the earlier ones done.
  have hpart : ∀ n, ∃ later : Team α, team.Reaches later ∧ later.jobs.length = team.jobs.length ∧
      ∀ (i : Nat), i < n → ∀ job, later.jobs[i]? = some job → ∃ result, job = .done result := by
    intro n
    induction n with
    | zero => exact ⟨team, .refl, rfl, by simp⟩
    | succ n ih =>
      obtain ⟨later, hlater, hlen, hdone⟩ := ih
      cases hn : later.jobs[n]? with
      | none =>
        refine ⟨later, hlater, hlen, fun i hi job hjob => ?_⟩
        rcases Nat.lt_succ_iff_lt_or_eq.mp hi with hi | rfl
        · exact hdone i hi job hjob
        · rw [hn] at hjob
          cases hjob
      | some job =>
        refine ⟨_, hlater.trans (endsAlone n job later hn), by simpa using hlen, ?_⟩
        intro i hi other hother
        rw [List.getElem?_set] at hother
        split_ifs at hother with he hlt
        · exact ⟨_, (Option.some.inj hother).symm⟩
        · exact hdone i (by omega) other hother
  obtain ⟨later, hlater, hlen, hdone⟩ := hpart team.jobs.length
  refine ⟨later, hlater, ?_⟩
  intro job hjob
  obtain ⟨i, hi, rfl⟩ := List.mem_iff_getElem.mp hjob
  exact hdone i (hlen ▸ hi) _ (List.getElem?_eq_getElem hi)

end Reckoner.Proofs
