import Mathlib.Tactic
import Reckoner.Proofs.Interleaving
import Reckoner.Proofs.NotANumber
import Reckoner.Proofs.Pairing

/-!
# One memory for many workers

Workers that share a memory, empty at the start, take turns in any order. Whatever another
worker stores is what the operation of its key gives, so no worker's outcome depends on the
turns. In the end the memory holds the keys of the operations that the texts execute without
a memory, products in both orders: a product that one worker stored in one order only is
stored in the other order by that worker's next step.
-/

namespace Reckoner.Proofs

variable {α : Type}

def keysOf (memory : Memory) : Set Cache.Key :=
  {key | (memory.lookup key).isSome}

lemma keysOf_store (cache : Cache) (key : Cache.Key) (value : Binary64) :
    keysOf ((Memory.on cache).store key value) = insert key (keysOf (.on cache)) := by
  ext other
  simp only [keysOf, Memory.store, Memory.lookup, Cache.lookup_store, Set.mem_ofPred_eq,
    Set.mem_insert_iff]
  by_cases h : key = other
  · simp [h]
  · simp [h, Ne.symm h]

/-- What holds of a team on a shared memory at all times, with the store that each job owes. -/
structure Shared (sound : Cache.Key → Binary64 → Prop) (post : Nat → α → Set Cache.Key → Prop)
    (due : Nat → Option Cache.Key) (team : Team α) : Prop where
  memory_on : ∃ cache, team.world.memory = .on cache
  memory_sound : Sound sound team.world.memory
  guaranteed : ∀ (i : Nat) job, team.jobs[i]? = some job →
    Guarantees sound (post i) (keysOf team.world.memory) job
  paired : ∀ (i : Nat) job, team.jobs[i]? = some job → Paired (due i) job
  half_stored : ∀ (i : Nat) job key, team.jobs[i]? = some job → due i = some key →
    key.reversed ∈ keysOf team.world.memory
  reversed : ∀ key ∈ keysOf team.world.memory, key.op.isCommutative →
    key.reversed ∈ keysOf team.world.memory ∨
      ∃ (i : Nat) (job : Job α), team.jobs[i]? = some job ∧ due i = some key.reversed

namespace Shared

variable {sound : Cache.Key → Binary64 → Prop} {post : Nat → α → Set Cache.Key → Prop}
  {due : Nat → Option Cache.Key} {team team' : Team α}

/-- A step of one job that keeps what is stored, and that pays or leaves a store that is due. -/
lemma step (h : Shared sound post due team) {i : Nat} {job job' : Job α} {world' : World}
    {owed : Option Cache.Key} (hjob : team.jobs[i]? = some job)
    (hon : ∃ cache, world'.memory = .on cache) (hsound : Sound sound world'.memory)
    (hgrow : keysOf team.world.memory ⊆ keysOf world'.memory)
    (hmono : ∀ (j : Nat) a K K', K ⊆ K' → post j a K → post j a K')
    (hg : Guarantees sound (post i) (keysOf world'.memory) job') (hp : Paired owed job')
    (hhalf : ∀ key, owed = some key → key.reversed ∈ keysOf world'.memory)
    (hrev : ∀ key ∈ keysOf world'.memory, key.op.isCommutative →
      key.reversed ∈ keysOf world'.memory ∨ owed = some key.reversed ∨
        key ∈ keysOf team.world.memory ∧ due i ≠ some key.reversed) :
    Shared sound post (Function.update due i owed) ⟨team.jobs.set i job', world'⟩ := by
  have hi : i < team.jobs.length := (List.getElem?_eq_some_iff.mp hjob).1
  have hself : (team.jobs.set i job')[i]? = some job' := List.getElem?_set_self hi
  have hother : ∀ (j : Nat), j ≠ i → (team.jobs.set i job')[j]? = team.jobs[j]? :=
    fun j hj => List.getElem?_set_ne hj.symm
  constructor
  · exact hon
  · exact hsound
  · intro j other hj
    rcases eq_or_ne j i with rfl | hne
    · rw [hself] at hj
      cases hj
      exact hg
    · rw [hother j hne] at hj
      exact (h.guaranteed j other hj).mono hgrow (hmono j)
  · intro j other hj
    rcases eq_or_ne j i with rfl | hne
    · rw [hself] at hj
      cases hj
      rwa [Function.update_self]
    · rw [hother j hne] at hj
      rw [Function.update_of_ne hne]
      exact h.paired j other hj
  · intro j other key hj hkey
    rcases eq_or_ne j i with rfl | hne
    · rw [Function.update_self] at hkey
      exact hhalf key hkey
    · rw [hother j hne] at hj
      rw [Function.update_of_ne hne] at hkey
      exact hgrow (h.half_stored j other key hj hkey)
  · intro key hkey hc
    rcases hrev key hkey hc with hin | howed | ⟨hin, hnot⟩
    · exact .inl hin
    · exact .inr ⟨i, job', hself, by rwa [Function.update_self]⟩
    · rcases h.reversed key hin hc with hrev | ⟨j, other, hj, howed⟩
      · exact .inl (hgrow hrev)
      · have hne : j ≠ i := by
          rintro rfl
          exact hnot howed
        refine .inr ⟨j, other, ?_, ?_⟩
        · rw [hother j hne, hj]
        · rw [Function.update_of_ne hne, howed]

lemma keep (h : Shared sound post due team) {i : Nat} {job job' : Job α} {world' : World}
    (hmono : ∀ (j : Nat) a K K', K ⊆ K' → post j a K → post j a K')
    (hjob : team.jobs[i]? = some job) (hdue : due i = none)
    (hmem : world'.memory = team.world.memory)
    (hg : Guarantees sound (post i) (keysOf team.world.memory) job') (hp : Paired none job') :
    ∃ due', Shared sound post due' ⟨team.jobs.set i job', world'⟩ := by
  refine ⟨_, h.step hjob ?_ ?_ ?_ hmono ?_ hp nofun ?_⟩
  · rw [hmem]
    exact h.memory_on
  · rw [hmem]
    exact h.memory_sound
  · rw [hmem]
  · rwa [hmem]
  · intro key hkey _
    rw [hmem] at hkey
    exact .inr (.inr ⟨hkey, by simp [hdue]⟩)

lemma store (h : Shared sound post due team) {i : Nat} {key : Cache.Key} {value : Binary64}
    {next : Job α} (hmono : ∀ (j : Nat) a K K', K ⊆ K' → post j a K → post j a K')
    (hjob : team.jobs[i]? = some (.store key value next)) :
    ∃ due', Shared sound post due'
      ⟨team.jobs.set i next, { team.world with memory := team.world.memory.store key value }⟩ := by
  obtain ⟨cache, hcache⟩ := h.memory_on
  obtain ⟨hkey, hg⟩ := h.guaranteed i _ hjob
  obtain ⟨hpays, hp⟩ := h.paired i _ hjob
  have hkeys : keysOf (team.world.memory.store key value) =
      insert key (keysOf team.world.memory) := by
    rw [hcache, keysOf_store]
  refine ⟨_, h.step hjob ?_ (h.memory_sound.store hkey) ?_ hmono ?_ hp ?_ ?_⟩
  · exact ⟨cache.store key value, by simp only [hcache, Memory.store]⟩
  · simp only [hkeys]
    exact Set.subset_insert _ _
  · simpa only [hkeys] using hg
  · intro owed howed
    simp only [hkeys]
    cases hdue : due i with
    | some _ => simp [dueAfter, hdue] at howed
    | none =>
      simp only [dueAfter, hdue] at howed
      split_ifs at howed
      cases howed
      exact Set.mem_insert _ _
  · intro other hin hc
    simp only [hkeys, Set.mem_insert_iff] at hin ⊢
    -- Either this store is the second of a product, or it leaves the other order due.
    cases hdue : due i with
    | some owed =>
      obtain rfl := hpays owed hdue
      rcases hin with rfl | hin
      · exact .inl (.inr (h.half_stored i _ other hjob hdue))
      · by_cases ho : other.reversed = key
        · exact .inl (.inl ho)
        · exact .inr (.inr ⟨hin, by simpa [eq_comm] using ho⟩)
    | none =>
      rcases hin with rfl | hin
      · exact .inr (.inl (by simp [dueAfter, hc]))
      · exact .inr (.inr ⟨hin, by simp⟩)

/-- Whatever job takes the turn, what holds of the team is kept. -/
theorem turn (h : Shared sound post due team)
    (hmono : ∀ (j : Nat) a K K', K ⊆ K' → post j a K → post j a K') (ht : team.Turn team') :
    ∃ due', Shared sound post due' team' := by
  obtain ⟨i, hjob, hstep⟩ := ht
  rename_i job job' world'
  have hg := h.guaranteed i job hjob
  have hp := h.paired i job hjob
  cases job with
  | done result => cases hstep
  | note record next =>
    cases hstep
    exact h.keep hmono hjob hp.1 rfl hg hp.2
  | lookup key next =>
    cases hstep
    refine h.keep hmono hjob hp.1 rfl ?_ (hp.2 _)
    cases hl : team.world.memory.lookup key with
    | none => exact hg.1
    | some value =>
      have hin : key ∈ keysOf team.world.memory := by simp [keysOf, hl]
      have hnext := hg.2 value (h.memory_sound key value hl)
      rwa [Set.insert_eq_of_mem hin] at hnext
  | store key value next =>
    cases hstep
    exact h.store hmono hjob
  | read path next =>
    cases hstep
    exact h.keep hmono hjob hp.1 rfl (hg _) (hp.2 _)
  | write path content next =>
    simp only [advance] at hstep
    split at hstep
    · cases hstep
      exact h.keep hmono hjob hp.1 rfl (hg _) (hp.2 _)
    · cases hstep
      exact h.keep hmono hjob hp.1 rfl (hg _) (hp.2 _)
  | clock next =>
    cases hstep
    exact h.keep hmono hjob hp.1 rfl (hg _) (hp.2 _)

theorem reaches (h : Shared sound post due team)
    (hmono : ∀ (j : Nat) a K K', K ⊆ K' → post j a K → post j a K') (hr : team.Reaches team') :
    ∃ due', Shared sound post due' team' := by
  induction hr with
  | refl => exact ⟨due, h⟩
  | tail _ hturn ih =>
    obtain ⟨due', hmid⟩ := ih
    exact hmid.turn hmono hturn

lemma done (h : Shared sound post due team) {i : Nat} {result : α}
    (hjob : team.jobs[i]? = some (.done result)) : post i result (keysOf team.world.memory) :=
  h.guaranteed i _ hjob

lemma finished (h : Shared sound post due team) (hf : team.Finished) {key : Cache.Key}
    (hkey : key ∈ keysOf team.world.memory) (hc : key.op.isCommutative) :
    key.reversed ∈ keysOf team.world.memory := by
  rcases h.reversed key hkey hc with hin | ⟨i, job, hjob, howed⟩
  · exact hin
  · obtain ⟨result, rfl⟩ := hf job (List.mem_of_getElem? hjob)
    have hnone : due i = none := h.paired i _ hjob
    rw [hnone] at howed
    cases howed

end Shared

end Reckoner.Proofs
