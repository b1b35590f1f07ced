import Mathlib.Tactic
import Reckoner.Proofs.Interleaving
import Reckoner.Proofs.Writes

/-!
# Jobs that write to different places

Jobs of a team that write to different places leave the disk as they would one after another,
whatever turns they take. The invariant says of each place what will be there once the job that
writes to it has made the writes that it still has to make; the turn of another job does not
touch that place.
-/

namespace Reckoner.Proofs

variable {α ι : Type}

def WriteApart (script : ι → List Write) (x y : ι) : Prop :=
  ∀ w ∈ script x, ∀ v ∈ script y, w.1 ≠ v.1

section

variable {script : ι → List Write} {xs : List ι} {x : ι} {location : Location}

lemma ne_of_apart (h : xs.Pairwise (WriteApart script)) {y : ι} {i j : Nat} (hij : i ≠ j)
    (hx : xs[i]? = some x) (hy : xs[j]? = some y) {w v : Write} (hw : w ∈ script x)
    (hv : v ∈ script y) : w.1 ≠ v.1 := by
  rw [List.pairwise_iff_getElem] at h
  obtain ⟨hi, rfl⟩ := List.getElem?_eq_some_iff.mp hx
  obtain ⟨hj, rfl⟩ := List.getElem?_eq_some_iff.mp hy
  rcases Nat.lt_or_gt_of_ne hij with hlt | hlt
  · exact h i j hi hj hlt w hw v hv
  · exact (h j i hj hi hlt v hv w hw).symm

/-- Of all the writes one after another, only those of one owner matter at its places. -/
lemma entry?_putAll_flatMap (h : xs.Pairwise (WriteApart script)) (hx : x ∈ xs)
    (howner : ∃ w ∈ script x, w.1 = location) (disk : Disk) :
    Disk.entry? (putAll disk (xs.flatMap script)) location =
      Disk.entry? (putAll disk (script x)) location := by
  induction xs generalizing disk with
  | nil => cases hx
  | cons y rest ih =>
    rw [List.pairwise_cons] at h
    rw [List.flatMap_cons, putAll_append]
    rcases List.mem_cons.mp hx with rfl | hx
    · obtain ⟨w, hw, rfl⟩ := howner
      refine entry?_putAll_of_not_mem (fun v hv => ?_) _
      obtain ⟨z, hz, hv⟩ := List.mem_flatMap.mp hv
      exact (h.1 z hz w hw v hv).symm
    · rw [ih h.2 hx]
      exact entry?_putAll_of_mem howner _ _

end

/-- What holds of a team at all times: each job makes the writes that are left to it, and then its
places hold what its whole script puts there. -/
structure Working (sound : Cache.Key → Binary64 → Prop) (disks : Set Disk) (xs : List ι)
    (result : ι → α) (script : ι → List Write) (start : Disk) (lefts : Nat → List Write)
    (team : Team α) : Prop where
  length_eq : team.jobs.length = xs.length
  memory_sound : Sound sound team.world.memory
  disk_mem : team.world.disk ∈ disks
  performs : ∀ (i : Nat) x job, xs[i]? = some x → team.jobs[i]? = some job →
    Performs sound disks (· = result x) job (lefts i)
  suffix : ∀ (i : Nat) x, xs[i]? = some x → lefts i <:+ script x
  own : ∀ (i : Nat) x, xs[i]? = some x → ∀ location, (∃ w ∈ script x, w.1 = location) →
    Disk.entry? (putAll team.world.disk (lefts i)) location =
      Disk.entry? (putAll start (script x)) location
  others : ∀ location, (∀ x ∈ xs, ∀ w ∈ script x, w.1 ≠ location) →
    team.world.disk.entry? location = start.entry? location

namespace Working

variable {sound : Cache.Key → Binary64 → Prop} {disks : Set Disk} {xs : List ι} {result : ι → α}
  {script : ι → List Write} {start : Disk} {lefts : Nat → List Write} {team team' : Team α}

/-- A step that makes no write. -/
lemma keep (h : Working sound disks xs result script start lefts team) {i : Nat} {x : ι}
    {job' : Job α} {world' : World} (hx : xs[i]? = some x) (hs : Sound sound world'.memory)
    (hdisk : world'.disk = team.world.disk)
    (hjob' : Performs sound disks (· = result x) job' (lefts i)) :
    Working sound disks xs result script start lefts ⟨team.jobs.set i job', world'⟩ := by
  constructor
  · rw [List.length_set, h.length_eq]
  · exact hs
  · rw [hdisk]
    exact h.disk_mem
  · intro j y job hy hj
    rw [List.getElem?_set] at hj
    split_ifs at hj with hij
    · subst hij
      cases hj
      rw [hx] at hy
      cases hy
      exact hjob'
    · exact h.performs j y job hy hj
  · exact h.suffix
  · rw [hdisk]
    exact h.own
  · rw [hdisk]
    exact h.others

/-- A step that makes the next write of a job. -/
lemma write (h : Working sound disks xs result script start lefts team)
    (hstay : ∀ x ∈ xs, StayIn disks (script x)) (hapart : xs.Pairwise (WriteApart script)) {i : Nat}
    {x : ι} {job' : Job α} {world' : World} {w : Write} {left : List Write}
    (hx : xs[i]? = some x) (hs : Sound sound world'.memory)
    (hleft : lefts i = w :: left) (hdisk : world'.disk = team.world.disk.put w.1 (.file w.2))
    (hjob' : Performs sound disks (· = result x) job' left) :
    Working sound disks xs result script start (Function.update lefts i left)
      ⟨team.jobs.set i job', world'⟩ := by
  have hsuffix : w :: left <:+ script x := hleft ▸ h.suffix i x hx
  have hw : w ∈ script x := hsuffix.subset List.mem_cons_self
  constructor
  · rw [List.length_set, h.length_eq]
  · exact hs
  · rw [hdisk]
    exact hstay x (List.mem_of_getElem? hx) _ h.disk_mem w hw
  · intro j y job hy hj
    rcases eq_or_ne j i with rfl | hne
    · rw [List.getElem?_set_self (h.length_eq ▸ (List.getElem?_eq_some_iff.mp hx).1)] at hj
      cases hj
      rw [hx] at hy
      cases hy
      rwa [Function.update_self]
    · rw [List.getElem?_set_ne hne.symm] at hj
      rw [Function.update_of_ne hne]
      exact h.performs j y job hy hj
  · intro j y hy
    rcases eq_or_ne j i with rfl | hne
    · rw [hx] at hy
      cases hy
      rw [Function.update_self]
      exact (List.suffix_cons w left).trans hsuffix
    · rw [Function.update_of_ne hne]
      exact h.suffix j y hy
  · intro j y hy location howner
    rw [← h.own j y hy location howner, hdisk]
    rcases eq_or_ne j i with rfl | hne
    · rw [Function.update_self, hleft]
      rfl
    · rw [Function.update_of_ne hne]
      -- No other job ever writes where this write goes.
      obtain ⟨v, hv, rfl⟩ := howner
      have hother := ne_of_apart hapart hne hy hx hv hw
      apply entry?_putAll_congr
      rw [entry?_put, if_neg (by simp [hother])]
  · intro location hnone
    have hne : location ≠ w.1 := (hnone x (List.mem_of_getElem? hx) w hw).symm
    rw [← h.others location hnone, hdisk, entry?_put, if_neg (by simp [hne])]

/-- Whatever job takes the turn, what holds of the team is kept. -/
theorem turn (h : Working sound disks xs result script start lefts team)
    (hstay : ∀ x ∈ xs, StayIn disks (script x)) (hapart : xs.Pairwise (WriteApart script))
    (ht : team.Turn team') :
    ∃ lefts', Working sound disks xs result script start lefts' team' := by
  obtain ⟨i, hjob, hstep⟩ := ht
  have hi := (List.getElem?_eq_some_iff.mp hjob).1
  have hx := List.getElem?_eq_getElem (h.length_eq ▸ hi)
  obtain ⟨hs, hnone | ⟨w, left, hleft, hdisk, hjob'⟩⟩ :=
    (h.performs i _ _ hx hjob).advance h.disk_mem h.memory_sound hstep
  · exact ⟨lefts, h.keep hx hs hnone.1 hnone.2⟩
  · exact ⟨_, h.write hstay hapart hx hs hleft hdisk hjob'⟩

theorem reaches (h : Working sound disks xs result script start lefts team)
    (hstay : ∀ x ∈ xs, StayIn disks (script x)) (hapart : xs.Pairwise (WriteApart script))
    (hteam : team.Reaches team') :
    ∃ lefts', Working sound disks xs result script start lefts' team' := by
  induction hteam with
  | refl => exact ⟨lefts, h⟩
  | tail _ hturn ih =>
    obtain ⟨lefts', hmid⟩ := ih
    exact hmid.turn hstay hapart hturn

/-- In the end all results are there, and the disk is as if the scripts had been followed one after
another. -/
theorem finished (h : Working sound disks xs result script start lefts team)
    (hapart : xs.Pairwise (WriteApart script)) (hf : team.Finished) :
    team.jobs = (xs.map result).map Job.done ∧ ∀ location,
      team.world.disk.entry? location =
        Disk.entry? (putAll start (xs.flatMap script)) location := by
  have hdone : ∀ (i : Nat) x, xs[i]? = some x →
      team.jobs[i]? = some (.done (result x)) ∧ lefts i = [] := by
    intro i x hx
    have hi : i < team.jobs.length := h.length_eq ▸ (List.getElem?_eq_some_iff.mp hx).1
    obtain ⟨r, hr⟩ := hf _ (List.getElem_mem hi)
    have hjob : team.jobs[i]? = some (.done r) := by rw [List.getElem?_eq_getElem hi, hr]
    obtain ⟨hnil, rfl⟩ := h.performs i x _ hx hjob
    exact ⟨hjob, hnil⟩
  constructor
  · apply List.ext_getElem?
    intro i
    cases hx : xs[i]? with
    | none =>
      rw [List.getElem?_eq_none_iff] at hx
      rw [List.getElem?_eq_none_iff.mpr (h.length_eq ▸ hx),
        List.getElem?_eq_none_iff.mpr (by simpa)]
    | some x => simp [hx, (hdone i x hx).1]
  · intro location
    by_cases howner : ∃ x ∈ xs, ∃ w ∈ script x, w.1 = location
    · obtain ⟨x, hx, howner⟩ := howner
      obtain ⟨i, hi⟩ := List.mem_iff_getElem?.mp hx
      rw [entry?_putAll_flatMap hapart hx howner, ← h.own i x hi location howner, (hdone i x hi).2]
      rfl
    · push Not at howner
      rw [h.others location howner, entry?_putAll_of_not_mem]
      intro w hw
      obtain ⟨x, hx, hw⟩ := List.mem_flatMap.mp hw
      exact howner x hx w hw

end Working

end Reckoner.Proofs
