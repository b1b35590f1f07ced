import Mathlib.Tactic
import Reckoner.Proofs.Sharing

/-!
# Workers on one memory

Each worker evaluates texts of its own, and all of them share a memory that is empty at the
start. If exact products do not depend on the order of their operands, then neither the
outcomes nor the keys that are stored in the end depend on the turns that the workers take.
-/

namespace Reckoner.Proofs
open Evaluation (binary remember)

def startOf (workers : List (List String)) (world : World) : Team (List Outcome) :=
  ⟨workers.map fun texts => texts.mapM Expression.evaluate, world⟩

/-- The binary operations that a text executes without a memory, products in both orders. -/
def storedKeys (text : String) : Set Cache.Key :=
  {key | key ∈ executedKeys text ∨ key.op.isCommutative ∧ key.reversed ∈ executedKeys text}

def sharedKeys (workers : List (List String)) : Set Cache.Key :=
  {key | ∃ texts ∈ workers, ∃ text ∈ texts, key ∈ storedKeys text}

/-- The products that the texts execute do not depend on the order of their operands. Only two
operands that are not numbers could tell the orders apart. -/
def ProductsCommute (workers : List (List String)) : Prop :=
  ∀ texts ∈ workers, ∀ text ∈ texts, ∀ key ∈ executedKeys text, key.op = .mul →
    key.lhs * key.rhs = key.rhs * key.lhs

/-- An entry is exact if it is what the operation of its key gives, and the key is expected. -/
def Exact (keys : Set Cache.Key) (key : Cache.Key) (value : Binary64) : Prop :=
  value = key.op.apply key.lhs key.rhs ∧ key ∈ keys

/-- The operation of a key is remembered, if need be in the other order. -/
def Recorded (key : Cache.Key) (keys : Set Cache.Key) : Prop :=
  key ∈ keys ∨ key.op.isCommutative ∧ key.reversed ∈ keys

lemma Recorded.mono {key : Cache.Key} {K K' : Set Cache.Key} (hK : K ⊆ K') (h : Recorded key K) :
    Recorded key K' :=
  h.imp (fun hin => hK hin) (fun hin => ⟨hin.1, hK hin.2⟩)

variable {workers : List (List String)}

lemma faithful_exact {texts : List String} {text : String} (hmul : ProductsCommute workers)
    (htexts : texts ∈ workers) (htext : text ∈ texts) {key : Cache.Key}
    (hkey : key ∈ executedKeys text) : Faithful (Exact (sharedKeys workers)) Eq Recorded key := by
  rintro x y known rfl rfl
  have hown : key ∈ sharedKeys workers := ⟨texts, htexts, text, htext, .inl hkey⟩
  unfold binary
  refine ⟨?_, fun value hvalue => ⟨hvalue.1, .inl (Set.mem_insert key _)⟩⟩
  cases hc : key.op.isCommutative with
  | false =>
    simp only [remember, hc, Bool.false_eq_true, if_false]
    exact ⟨⟨rfl, hown⟩, rfl, .inl (Set.mem_insert key _)⟩
  | true =>
    have hop : key.op = .mul := (isCommutative_iff key.op).mp hc
    have hswap : key.op.apply key.lhs key.rhs = key.op.apply key.rhs key.lhs := by
      rw [hop]
      exact hmul texts htexts text htext key hkey hop
    have hother : key.reversed ∈ sharedKeys workers :=
      ⟨texts, htexts, text, htext, .inr ⟨hc, hkey⟩⟩
    simp only [remember, hc, if_true]
    refine ⟨⟨⟨rfl, hown⟩, ⟨hswap, hother⟩, rfl, .inl ?_⟩, fun value hvalue => ⟨?_, .inr ⟨hc, ?_⟩⟩⟩
    · exact Set.mem_insert_of_mem _ (Set.mem_insert key _)
    · rw [hvalue.1, hswap]
      rfl
    · exact Set.mem_insert key.reversed _

/-- What is to be shown for a text: its outcome without a memory, and its operations recorded. -/
def TextDone (text : String) (outcome : Outcome) (keys : Set Cache.Key) : Prop :=
  outcome = uncached text ∧ ∀ key ∈ executedKeys text, Recorded key keys

def WorkerDone (texts : List String) (outcomes : List Outcome) (keys : Set Cache.Key) : Prop :=
  List.Forall₂ (fun text outcome => TextDone text outcome keys) texts outcomes

lemma TextDone.mono {text : String} {outcome : Outcome} {K K' : Set Cache.Key} (hK : K ⊆ K')
    (h : TextDone text outcome K) : TextDone text outcome K' :=
  ⟨h.1, fun key hkey => (h.2 key hkey).mono hK⟩

namespace WorkerDone

variable {texts : List String} {outcomes : List Outcome} {K K' : Set Cache.Key}

lemma mono (hK : K ⊆ K') (h : WorkerDone texts outcomes K) : WorkerDone texts outcomes K' :=
  List.Forall₂.imp (fun _ _ hd => hd.mono hK) h

lemma outcomes_eq (h : WorkerDone texts outcomes K) : outcomes = texts.map uncached := by
  induction h with
  | nil => rfl
  | cons hd _ ih => rw [List.map_cons, hd.1, ← ih]

lemma recorded (h : WorkerDone texts outcomes K) {text : String} (htext : text ∈ texts) :
    ∀ key ∈ executedKeys text, Recorded key K := by
  induction h with
  | nil => cases htext
  | cons hd _ ih =>
    rcases List.mem_cons.mp htext with rfl | htext
    · exact hd.2
    · exact ih htext

end WorkerDone

lemma text_guarantees {texts : List String} {text : String} (hmul : ProductsCommute workers)
    (htexts : texts ∈ workers) (htext : text ∈ texts) (known : Set Cache.Key) :
    Guarantees (Exact (sharedKeys workers)) (TextDone text) known (Expression.evaluate text) := by
  have hneg : ∀ x y : Binary64, x = y → -x = -y := fun _ _ hxy => congrArg _ hxy
  have hmono : ∀ key K K', K ⊆ K' → Recorded key K → Recorded key K' :=
    fun _ _ _ hK hkey => hkey.mono hK
  have h := evaluate_guarantees hneg hmono text (fun _ _ _ _ => rfl)
    (fun key hkey => faithful_exact hmul htexts htext hkey) known
  refine h.mono subset_rfl ?_
  intro outcome K K' hK hd
  exact TextDone.mono hK ⟨hd.1.eq, hd.2⟩

lemma worker_guarantees {texts : List String} (hmul : ProductsCommute workers)
    (htexts : texts ∈ workers) (known : Set Cache.Key) :
    Guarantees (Exact (sharedKeys workers)) (WorkerDone texts) known
      (texts.mapM Expression.evaluate) :=
  .mapM texts (fun _ _ _ _ hK hd => hd.mono hK)
    fun _ htext known => text_guarantees hmul htexts htext known

/-- What the workers have to show, by their places in the team. -/
def AnswersOf (workers : List (List String)) (i : Nat) (outcomes : List Outcome)
    (keys : Set Cache.Key) : Prop :=
  ∃ texts, workers[i]? = some texts ∧ WorkerDone texts outcomes keys

lemma AnswersOf.mono {i : Nat} {outcomes : List Outcome} {K K' : Set Cache.Key} (hK : K ⊆ K')
    (h : AnswersOf workers i outcomes K) : AnswersOf workers i outcomes K' := by
  obtain ⟨texts, hi, hdone⟩ := h
  exact ⟨texts, hi, hdone.mono hK⟩

lemma shared_start (hmul : ProductsCommute workers) (disk : Disk) (journal : List Record) :
    Shared (Exact (sharedKeys workers)) (AnswersOf workers) (fun _ => none)
      (startOf workers ⟨.fresh true, disk, journal⟩) := by
  have hjobs : ∀ (i : Nat) job,
      (startOf workers ⟨.fresh true, disk, journal⟩).jobs[i]? = some job →
      ∃ texts, workers[i]? = some texts ∧ job = texts.mapM Expression.evaluate := by
    intro i job hjob
    simp only [startOf, List.getElem?_map, Option.map_eq_some_iff] at hjob
    obtain ⟨texts, hi, rfl⟩ := hjob
    exact ⟨texts, hi, rfl⟩
  have hempty : keysOf (Memory.fresh true) = ∅ := by
    simp [keysOf, Memory.fresh, Memory.lookup]
  constructor
  · exact ⟨.empty, rfl⟩
  · exact sound_empty
  · intro i job hjob
    obtain ⟨texts, hi, rfl⟩ := hjobs i job hjob
    have hg := worker_guarantees hmul (List.mem_of_getElem? hi) (keysOf (Memory.fresh true))
    exact hg.mono subset_rfl fun outcomes K K' hK hd => AnswersOf.mono hK ⟨texts, hi, hd⟩
  · intro i job hjob
    obtain ⟨texts, _, rfl⟩ := hjobs i job hjob
    exact .mapM Paired.evaluate texts
  · intro i job key _ hdue
    cases hdue
  · intro key hkey
    simp only [startOf, hempty] at hkey
    exact hkey.elim

lemma keysOf_finished {team : Team (List Outcome)}
    {due : Nat → Option Cache.Key}
    (h : Shared (Exact (sharedKeys workers)) (AnswersOf workers) due team) (hf : team.Finished)
    (hlen : team.jobs.length = workers.length) :
    keysOf team.world.memory = sharedKeys workers := by
  ext key
  constructor
  · intro hkey
    obtain ⟨value, hvalue⟩ := Option.isSome_iff_exists.mp hkey
    exact (h.memory_sound key value hvalue).2
  · rintro ⟨texts, htexts, text, htext, hkey⟩
    obtain ⟨i, hi, rfl⟩ := List.mem_iff_getElem.mp htexts
    have hlt : i < team.jobs.length := hlen ▸ hi
    obtain ⟨outcomes, hjob⟩ := hf _ (List.getElem_mem hlt)
    obtain ⟨_, hat, hdone⟩ := h.done (List.getElem?_eq_some_iff.mpr ⟨hlt, hjob⟩)
    rw [List.getElem?_eq_getElem hi] at hat
    cases hat
    have hrecorded := hdone.recorded htext
    rcases hkey with hkey | ⟨hc, hkey⟩
    · rcases hrecorded key hkey with hin | ⟨hc, hin⟩
      · exact hin
      · exact h.finished hf hin hc
    · rcases hrecorded key.reversed hkey with hin | ⟨_, hin⟩
      · exact h.finished hf hin hc
      · exact hin

/-- Whatever turns the workers take, those that are done have the outcomes that their texts have
without a memory, and all of them can be brought to their end. Then the memory holds exactly the
keys of the operations that the texts execute without a memory, products in both orders. -/
theorem workers_agree_with_uncached (workers : List (List String)) (disk : Disk)
    (journal : List Record) (hmul : ProductsCommute workers) {team : Team (List Outcome)}
    (hteam : (startOf workers ⟨.fresh true, disk, journal⟩).Reaches team) :
    (∀ (i : Nat) outcomes, team.jobs[i]? = some (.done outcomes) →
      workers[i]?.map (List.map uncached) = some outcomes) ∧
    (team.Finished →
      team.jobs = workers.map (fun texts => .done (texts.map uncached)) ∧
      keysOf team.world.memory = sharedKeys workers) ∧
    ∃ final, team.Reaches final ∧ final.Finished := by
  obtain ⟨due, h⟩ := (shared_start hmul disk journal).reaches (fun _ _ _ _ hK => AnswersOf.mono hK)
    hteam
  have hlen : team.jobs.length = workers.length := by
    rw [Team.Reaches.length_eq hteam, startOf, List.length_map]
  have hdone : ∀ (i : Nat) outcomes, team.jobs[i]? = some (.done outcomes) →
      workers[i]?.map (List.map uncached) = some outcomes := by
    intro i outcomes hjob
    obtain ⟨texts, hi, hdone⟩ := h.done hjob
    rw [hi, Option.map_some, hdone.outcomes_eq]
  refine ⟨hdone, fun hf => ⟨?_, keysOf_finished h hf hlen⟩, exists_finished team⟩
  apply List.ext_getElem
  · rw [hlen, List.length_map]
  · intro i hi _
    obtain ⟨outcomes, hjob⟩ := hf _ (List.getElem_mem hi)
    have hi' : i < workers.length := hlen ▸ hi
    have hout := hdone i outcomes (List.getElem?_eq_some_iff.mpr ⟨hi, hjob⟩)
    rw [List.getElem?_eq_getElem hi', Option.map_some, Option.some.injEq] at hout
    rw [hjob, List.getElem_map, hout]

/-- Two workers whose products are one in both orders, and a text that fails after a product. -/
theorem workers_agree_on_products :
    ProductsCommute [["2*3"], ["3*2", "2*3 4"]] ∧
      ∃ final, (startOf [["2*3"], ["3*2", "2*3 4"]]
          ⟨.fresh true, Disk.empty [], []⟩).Reaches final ∧ final.Finished ∧
        keysOf final.world.memory = sharedKeys [["2*3"], ["3*2", "2*3 4"]] := by
  have hmul : ProductsCommute [["2*3"], ["3*2", "2*3 4"]] := by
    unfold ProductsCommute
    decide +kernel
  obtain ⟨_, _, final, hfinal, hf⟩ := workers_agree_with_uncached _ (Disk.empty []) [] hmul .refl
  obtain ⟨_, hkeys, _⟩ := workers_agree_with_uncached _ (Disk.empty []) [] hmul hfinal
  exact ⟨hmul, final, hfinal, hf, (hkeys hf).2⟩

end Reckoner.Proofs
