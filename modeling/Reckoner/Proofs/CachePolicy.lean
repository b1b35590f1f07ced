import Mathlib.Tactic
import Reckoner.Handles
import Reckoner.Proofs.NotANumber
import Reckoner.Proofs.PlainEvaluation

/-!
# What an operation does to a cache

A cache may hold anything: results that are wrong, or a product that is stored in one order only.
An operation takes what the cache holds for it, a product in either order, and else stores what it
computes, without touching any entry that is there. A cache that was filled by operations alone
holds every product in both orders with one result.
-/

namespace Reckoner.Proofs
open Evaluation (binary remember)

variable {α β : Type}

/-- What a cache holds for an operation, the written order before the other one. -/
def held? (cache : Cache) (key : Cache.Key) : Option Binary64 :=
  (cache.lookup key).or (if key.op = .mul then cache.lookup key.reversed else none)

/-- The keys under which the result of an operation is stored. -/
def IsKeyOf (key other : Cache.Key) : Prop :=
  other = key ∨ key.op = .mul ∧ other = key.reversed

/-- What an operation makes of a cache, and what it answers. -/
structure FollowsPolicy (cache : Cache) (key : Cache.Key) (value : Binary64) (after : Cache) :
    Prop where
  answer : value = (held? cache key).getD (key.op.apply key.lhs key.rhs)
  kept : ∀ other found, cache.lookup other = some found → after.lookup other = some found
  hit : (held? cache key).isSome → after = cache
  stored : held? cache key = none → ∀ other, IsKeyOf key other → after.lookup other = some value
  untouched : ∀ other, ¬IsKeyOf key other → after.lookup other = cache.lookup other

lemma held?_eq_none {cache : Cache} {key : Cache.Key} :
    held? cache key = none ↔ ∀ other, IsKeyOf key other → cache.lookup other = none := by
  unfold held? IsKeyOf
  rw [Option.or_eq_none_iff]
  constructor
  · rintro ⟨hkey, hreversed⟩ other (rfl | ⟨hmul, rfl⟩)
    · exact hkey
    · rwa [if_pos hmul] at hreversed
  · intro h
    refine ⟨h key (.inl rfl), ?_⟩
    split_ifs with hmul
    · exact h key.reversed (.inr ⟨hmul, rfl⟩)
    · rfl

/-- The cache with the result of an operation under its keys. -/
def remembered (cache : Cache) (key : Cache.Key) (value : Binary64) : Cache :=
  if key.op = .mul then (cache.store key value).store key.reversed value else cache.store key value

lemma lookup_remembered (cache : Cache) (key other : Cache.Key) (value : Binary64)
    [Decidable (IsKeyOf key other)] :
    (remembered cache key value).lookup other =
      if IsKeyOf key other then some value else cache.lookup other := by
  unfold remembered IsKeyOf
  by_cases hmul : key.op = .mul
  · by_cases hkey : other = key
    · simp [hmul, hkey, Cache.lookup_store]
    · by_cases hreversed : other = key.reversed
      · simp [hmul, hreversed, Cache.lookup_store]
      · simp [hmul, hkey, hreversed, Cache.lookup_store, Ne.symm hkey, Ne.symm hreversed]
  · simp [hmul, Cache.lookup_store, eq_comm]

/-! ### One operation -/

lemma remember_run (key : Cache.Key) (value : Binary64) {world : World} {cache : Cache}
    (h : world.memory = .on cache) :
    (remember key.op key value).run world =
      (value, { world with memory := .on (remembered cache key value) }) := by
  unfold remember remembered
  by_cases hmul : key.op = .mul
  · rw [if_pos ((isCommutative_iff _).mpr hmul), if_pos hmul]
    simp only [Job.run, h, Memory.store]
  · rw [if_neg (mt (isCommutative_iff _).mp hmul), if_neg hmul]
    simp only [Job.run, h, Memory.store]

lemma binary_run_of_held {key : Cache.Key} {value : Binary64} {world : World} {cache : Cache}
    (h : world.memory = .on cache) (hheld : held? cache key = some value) :
    ((binary key.op key.lhs key.rhs).run world).1 = value ∧
      ((binary key.op key.lhs key.rhs).run world).2.memory = .on cache := by
  unfold held? at hheld
  cases hkey : cache.lookup key with
  | some found =>
    rw [hkey, Option.some_or] at hheld
    cases hheld
    simp [binary, Job.run, h, Memory.lookup, hkey]
  | none =>
    rw [hkey, Option.none_or] at hheld
    split_ifs at hheld with hmul
    have hc : key.op.isCommutative = true := (isCommutative_iff _).mpr hmul
    simp [binary, Job.run, h, Memory.lookup, hkey, hc, hheld]

lemma binary_run_of_not_held {key : Cache.Key} {world : World} {cache : Cache}
    (h : world.memory = .on cache) (hheld : held? cache key = none) :
    let value := key.op.apply key.lhs key.rhs
    (binary key.op key.lhs key.rhs).run world =
      (value, { world with memory := .on (remembered cache key value) }) := by
  have hnone := held?_eq_none.mp hheld
  have hkey : cache.lookup key = none := hnone key (.inl rfl)
  by_cases hmul : key.op = .mul
  · have hc : key.op.isCommutative = true := (isCommutative_iff _).mpr hmul
    have hreversed : cache.lookup key.reversed = none := hnone key.reversed (.inr ⟨hmul, rfl⟩)
    simp only [binary, Job.run, h, Memory.lookup, hkey, hc, if_true, hreversed]
    exact remember_run key _ h
  · have hc : ¬key.op.isCommutative = true := mt (isCommutative_iff _).mp hmul
    simp only [binary, Job.run, h, Memory.lookup, hkey, hc]
    exact remember_run key _ h

theorem followsPolicy_binary (key : Cache.Key) {world : World} {cache : Cache}
    (h : world.memory = .on cache) :
    ∃ after, ((binary key.op key.lhs key.rhs).run world).2.memory = .on after ∧
      FollowsPolicy cache key ((binary key.op key.lhs key.rhs).run world).1 after := by
  classical
  cases hheld : held? cache key with
  | some value =>
    obtain ⟨hvalue, hmemory⟩ := binary_run_of_held h hheld
    refine ⟨cache, hmemory, ?_, fun _ _ hfound => hfound, fun _ => rfl, ?_, fun _ _ => rfl⟩
    · rw [hvalue, hheld, Option.getD_some]
    · rw [hheld]
      nofun
  | none =>
    have hrun := binary_run_of_not_held h hheld
    refine ⟨_, congrArg (fun r => r.2.memory) hrun, ?_⟩
    rw [hrun]
    have hnone := held?_eq_none.mp hheld
    constructor
    · rw [hheld, Option.getD_none]
    · intro other found hfound
      have hother : ¬IsKeyOf key other := by
        intro hkey
        rw [hnone other hkey] at hfound
        cases hfound
      rw [lookup_remembered, if_neg hother, hfound]
    · rw [hheld]
      nofun
    · intro _ other hkey
      rw [lookup_remembered, if_pos hkey]
    · intro other hother
      rw [lookup_remembered, if_neg hother]

/-- What has been answered once is held from then on. -/
lemma FollowsPolicy.held {cache after : Cache} {key : Cache.Key} {value : Binary64}
    (h : FollowsPolicy cache key value after) : held? after key = some value := by
  cases hheld : held? cache key with
  | some found =>
    rw [h.hit (by rw [hheld]; rfl), hheld, h.answer, hheld, Option.getD_some]
  | none =>
    have hkey : after.lookup key = some value := h.stored hheld key (.inl rfl)
    rw [held?, hkey, Option.some_or]

/-! ### Caches filled by operations -/

/-- Every product is there in both orders, with one result, or not at all. -/
def Mirrored (cache : Cache) : Prop :=
  ∀ x y, cache.lookup ⟨.mul, x, y⟩ = cache.lookup ⟨.mul, y, x⟩

lemma isKeyOf_mirrored (key : Cache.Key) (x y : Binary64) :
    IsKeyOf key ⟨.mul, x, y⟩ ↔ IsKeyOf key ⟨.mul, y, x⟩ := by
  obtain ⟨op, lhs, rhs⟩ := key
  simp only [IsKeyOf, Cache.Key.reversed, Cache.Key.mk.injEq]
  tauto

lemma FollowsPolicy.mirrored {cache after : Cache} {key : Cache.Key} {value : Binary64}
    (h : FollowsPolicy cache key value after) (hm : Mirrored cache) : Mirrored after := by
  cases hheld : held? cache key with
  | some found => rwa [h.hit (by rw [hheld]; rfl)]
  | none =>
    intro x y
    by_cases hkey : IsKeyOf key ⟨.mul, x, y⟩
    · rw [h.stored hheld _ hkey, h.stored hheld _ ((isKeyOf_mirrored key x y).mp hkey)]
    · rw [h.untouched _ hkey, h.untouched _ (mt (isKeyOf_mirrored key x y).mpr hkey), hm x y]

/-- The memory is a cache that holds every product in both orders. -/
def MirroredOn (memory : Memory) : Prop :=
  ∃ cache, memory = .on cache ∧ Mirrored cache

lemma mirroredOn_fresh : MirroredOn (.fresh true) :=
  ⟨.empty, rfl, fun x y => by rw [Cache.lookup_empty, Cache.lookup_empty]⟩

lemma mirroredOn_bind {job : Job α} {f : α → Job β} {world : World}
    (hjob : MirroredOn (job.run world).2.memory)
    (hf : ∀ a (world : World), MirroredOn world.memory → MirroredOn ((f a).run world).2.memory) :
    MirroredOn ((job.bind f).run world).2.memory := by
  rw [run_bind]
  exact hf _ _ hjob

lemma mirroredOn_binary (op : Operator) (lhs rhs : Binary64) {world : World}
    (h : MirroredOn world.memory) : MirroredOn ((binary op lhs rhs).run world).2.memory := by
  obtain ⟨cache, hcache, hm⟩ := h
  obtain ⟨after, hafter, hpolicy⟩ := followsPolicy_binary ⟨op, lhs, rhs⟩ hcache
  exact ⟨after, hafter, hpolicy.mirrored hm⟩

lemma mirroredOn_run (stack : List Evaluation) (tokens : List Token) {world : World}
    (h : MirroredOn world.memory) :
    MirroredOn ((Evaluation.run stack tokens).run world).2.memory := by
  induction tokens generalizing stack world with
  | nil =>
    simp only [Evaluation.run]
    split <;> exact h
  | cons token rest ih =>
    cases token with
    | number value => exact ih _ h
    | operator op arity =>
      cases arity with
      | unary =>
        cases stack with
        | nil => exact h
        | cons operand below =>
          simp only [Evaluation.run]
          cases op.applyUnary? operand.value with
          | none => exact h
          | some value => exact ih _ h
      | binary =>
        cases stack with
        | nil => exact h
        | cons rhs stack =>
          cases stack with
          | nil => exact h
          | cons lhs below =>
            exact mirroredOn_bind (mirroredOn_binary op _ _ h) fun _ _ h' => ih _ h'
    | openParen | closeParen | openLog | closeLog | separator => exact h

lemma mirroredOn_evaluate (text : String) {world : World} (h : MirroredOn world.memory) :
    MirroredOn ((Expression.evaluate text).run world).2.memory := by
  obtain ⟨records, he⟩ := evaluate_eq text
  rw [he]
  refine mirroredOn_bind (by rwa [noteAll_run_memory]) fun _ _ h' => ?_
  cases sequence text with
  | error fault => exact h'
  | ok tokens => exact mirroredOn_bind (mirroredOn_run [] tokens h') fun _ _ h'' => h''

/-- The memory after calls that are made one after another. -/
def afterCalls (calls : List Call) (memory : Memory) : Memory :=
  calls.foldl (fun memory call => (call.job.runOn memory).2) memory

/-- All calls but a store by hand reach a memory through operations. -/
lemma mirroredOn_call {call : Call} (hcall : ∀ key value, call ≠ .store key value)
    {memory : Memory} (h : MirroredOn memory) : MirroredOn (call.job.runOn memory).2 := by
  cases call with
  | operation op lhs rhs => exact mirroredOn_bind (mirroredOn_binary op lhs rhs h) fun _ _ h' => h'
  | lookup key => exact h
  | store key value => exact (hcall key value rfl).elim
  | expression text => exact mirroredOn_bind (mirroredOn_evaluate text h) fun _ _ h' => h'
  | sequence tokens => exact mirroredOn_bind (mirroredOn_run [] tokens h) fun _ _ h' => h'

lemma mirroredOn_afterCalls {calls : List Call} (hcalls : ∀ key value, .store key value ∉ calls)
    {memory : Memory} (h : MirroredOn memory) : MirroredOn (afterCalls calls memory) := by
  induction calls generalizing memory with
  | nil => exact h
  | cons call rest ih =>
    have hfirst : ∀ key value, call ≠ .store key value := by
      rintro key value rfl
      exact hcalls key value List.mem_cons_self
    exact ih (fun key value hmem => hcalls key value (List.mem_cons_of_mem _ hmem))
      (mirroredOn_call hfirst h)

/-- An operation on a cache that holds anything whatever follows the policy, and made again at once
it gives the same result and changes nothing. A cache that was empty at the start, and was never
stored into by hand, holds every product in both orders with one result. -/
theorem operation_follows_policy :
    (∀ (cache : Cache) (op : Operator) (lhs rhs : Binary64), ∃ value after,
      (binary op lhs rhs).runOn (.on cache) = (value, .on after) ∧
        FollowsPolicy cache ⟨op, lhs, rhs⟩ value after ∧
        (binary op lhs rhs).runOn (.on after) = (value, .on after)) ∧
    ∀ calls : List Call, (∀ key value, .store key value ∉ calls) →
      ∃ cache, afterCalls calls (.fresh true) = .on cache ∧ Mirrored cache := by
  refine ⟨fun cache op lhs rhs => ?_, fun _ hcalls => mirroredOn_afterCalls hcalls mirroredOn_fresh⟩
  let before : World := { memory := .on cache, disk := Disk.empty [] }
  have hbefore : before.memory = .on cache := rfl
  obtain ⟨after, hafter, hpolicy⟩ := followsPolicy_binary ⟨op, lhs, rhs⟩ hbefore
  let again : World := { memory := .on after, disk := Disk.empty [] }
  have hagain : again.memory = .on after := rfl
  obtain ⟨hvalue, hunchanged⟩ := binary_run_of_held hagain hpolicy.held
  exact ⟨_, after, Prod.ext rfl hafter, hpolicy, Prod.ext hvalue hunchanged⟩

end Reckoner.Proofs
