import Mathlib.Tactic
import Reckoner.Proofs.PlainEvaluation

/-!
# What jobs guarantee

A job on a memory that others may write to cannot say what its next answer will be, only
that it will be sound. `Guarantees` says what follows from that alone: every result that
the job stores is sound as well, and its own result is as demanded. Since nothing is said
about when the other entries came to be there, the same guarantee serves one evaluation
after another and evaluations that take turns.
-/

namespace Reckoner.Proofs
open Evaluation (ofStack binary remember)

variable {α β : Type}

/-- As long as every answer of the memory is sound, every result that the job stores is sound,
and its own result satisfies `post` with the keys that are known to be in the memory by then. -/
def Guarantees (sound : Cache.Key → Binary64 → Prop) (post : α → Set Cache.Key → Prop) :
    Set Cache.Key → Job α → Prop
  | known, .done result => post result known
  | known, .note _ next => Guarantees sound post known next
  | known, .lookup key next =>
    Guarantees sound post known (next none) ∧
      ∀ value, sound key value → Guarantees sound post (insert key known) (next (some value))
  | known, .store key value next =>
    sound key value ∧ Guarantees sound post (insert key known) next
  | known, .read _ next => ∀ answer, Guarantees sound post known (next answer)
  | known, .write _ _ next => ∀ answer, Guarantees sound post known (next answer)
  | known, .clock next => ∀ answer, Guarantees sound post known (next answer)

def Sound (sound : Cache.Key → Binary64 → Prop) (memory : Memory) : Prop :=
  ∀ key value, memory.lookup key = some value → sound key value

section

variable {sound : Cache.Key → Binary64 → Prop}

lemma sound_off : Sound sound .off := by
  intro key value h
  simp [Memory.lookup] at h

lemma sound_empty : Sound sound (.on .empty) := by
  intro key value h
  simp [Memory.lookup] at h

lemma sound_fresh (remember : Bool) : Sound sound (Memory.fresh remember) := by
  cases remember with
  | false => exact sound_off
  | true => exact sound_empty

lemma Sound.store {memory : Memory} (h : Sound sound memory) {key : Cache.Key} {value : Binary64}
    (hkey : sound key value) : Sound sound (memory.store key value) := by
  cases memory with
  | off => exact sound_off
  | on cache =>
    intro other found hfound
    simp only [Memory.store, Memory.lookup, Cache.lookup_store] at hfound
    split_ifs at hfound with he
    · cases hfound
      rwa [← he]
    · exact h other found hfound

end

namespace Guarantees

variable {sound : Cache.Key → Binary64 → Prop} {known known' : Set Cache.Key} {job : Job α}

lemma mono {post post' : α → Set Cache.Key → Prop} (h : Guarantees sound post known job)
    (hknown : known ⊆ known') (hpost : ∀ a K K', K ⊆ K' → post a K → post' a K') :
    Guarantees sound post' known' job := by
  induction job generalizing known known' with
  | done result => exact hpost _ _ _ hknown h
  | note record next ih => exact ih h hknown
  | lookup key next ih =>
    exact ⟨ih _ h.1 hknown, fun v hv => ih _ (h.2 v hv) (Set.insert_subset_insert hknown)⟩
  | store key value next ih => exact ⟨h.1, ih h.2 (Set.insert_subset_insert hknown)⟩
  | read path next ih | write path content next ih | clock next ih =>
    exact fun answer => ih answer (h answer) hknown

lemma and_subset {post : α → Set Cache.Key → Prop} (h : Guarantees sound post known job) :
    Guarantees sound (fun a K => post a K ∧ known ⊆ K) known job := by
  -- The keys that are known grow along the job, so the first of them are kept apart as `base`.
  suffices ∀ base ⊆ known, Guarantees sound (fun a K => post a K ∧ base ⊆ K) known job from
    this known subset_rfl
  intro base hbase
  induction job generalizing known with
  | done result => exact ⟨h, hbase⟩
  | note record next ih => exact ih h hbase
  | lookup key next ih =>
    exact ⟨ih _ h.1 hbase, fun v hv => ih _ (h.2 v hv) (hbase.trans (Set.subset_insert _ _))⟩
  | store key value next ih => exact ⟨h.1, ih h.2 (hbase.trans (Set.subset_insert _ _))⟩
  | read path next ih | write path content next ih | clock next ih =>
    exact fun answer => ih answer (h answer) hbase

lemma bind {post : β → Set Cache.Key → Prop} {f : α → Job β}
    (h : Guarantees sound (fun a K => Guarantees sound post K (f a)) known job) :
    Guarantees sound post known (job.bind f) := by
  induction job generalizing known with
  | done result => exact h
  | note record next ih => exact ih h
  | lookup key next ih => exact ⟨ih _ h.1, fun v hv => ih _ (h.2 v hv)⟩
  | store key value next ih => exact ⟨h.1, ih h.2⟩
  | read path next ih | write path content next ih | clock next ih =>
    exact fun answer => ih answer (h answer)

lemma noteAll {post : Unit → Set Cache.Key → Prop} (records : List Record)
    (h : post () known) : Guarantees sound post known (Job.noteAll records) := by
  induction records with
  | nil => exact h
  | cons record rest ih => exact ih

lemma mapM {ι : Type} {f : ι → Job α} {post : ι → α → Set Cache.Key → Prop} (xs : List ι)
    (hmono : ∀ x a K K', K ⊆ K' → post x a K → post x a K')
    (h : ∀ x ∈ xs, ∀ known, Guarantees sound (post x) known (f x)) :
    Guarantees sound (fun results K => List.Forall₂ (fun x a => post x a K) xs results) known
      (xs.mapM f) := by
  induction xs generalizing known with
  | nil => exact .nil
  | cons x rest ih =>
    rw [List.mapM_cons]
    apply bind
    refine (h x List.mem_cons_self known).mono subset_rfl ?_
    intro a K K' hK ha
    apply bind
    have hrest : Guarantees sound _ K' (rest.mapM f) :=
      ih fun y hy => h y (List.mem_cons_of_mem _ hy)
    refine hrest.and_subset.mono subset_rfl ?_
    rintro results L L' hL ⟨hall, hgrow⟩
    refine .cons (hmono x a K L' (hK.trans (hgrow.trans hL)) ha) ?_
    exact hall.imp fun y b hb => hmono y b L L' hL hb

/-- A job that runs to its end on a sound memory keeps what it guarantees, and the memory sound. -/
theorem run {post : α → Set Cache.Key → Prop} {world : World}
    (h : Guarantees sound post known job) (hs : Sound sound world.memory) :
    (∃ K, post (job.run world).1 K) ∧ Sound sound (job.run world).2.memory := by
  induction job generalizing known world with
  | done result => exact ⟨⟨known, h⟩, hs⟩
  | note record next ih => exact ih h hs
  | lookup key next ih =>
    simp only [Job.run]
    cases hl : world.memory.lookup key with
    | none => exact ih _ h.1 hs
    | some value => exact ih _ (h.2 value (hs key value hl)) hs
  | store key value next ih => exact ih h.2 (hs.store h.1)
  | read path next ih => exact ih _ (h _) hs
  | write path content next ih =>
    simp only [Job.run]
    split
    · exact ih _ (h _) hs
    · exact ih _ (h _) hs
  | clock next ih => exact ih _ (h _) hs

end Guarantees

/-! ### Evaluations -/

/-- Two results with the same tree and related values, or with the same error. -/
def Matches {ε : Type} (rel : Binary64 → Binary64 → Prop) :
    Except ε Evaluation → Except ε Evaluation → Prop
  | .ok a, .ok b => rel a.value b.value ∧ a.tree = b.tree
  | .error e, .error f => e = f
  | _, _ => False

namespace Matches

variable {ε : Type} {rel rel' : Binary64 → Binary64 → Prop} {a b : Except ε Evaluation}

lemma mapError {δ : Type} (f : ε → δ) (h : Matches rel a b) :
    Matches rel (a.mapError f) (b.mapError f) := by
  match a, b, h with
  | .ok _, .ok _, h => exact h
  | .error _, .error _, h => exact congrArg f h

lemma imp (hrel : ∀ x y, rel x y → rel' x y) (h : Matches rel a b) : Matches rel' a b := by
  match a, b, h with
  | .ok _, .ok _, h => exact ⟨hrel _ _ h.1, h.2⟩
  | .error _, .error _, h => exact h

lemma eq (h : Matches Eq a b) : a = b := by
  match a, b, h with
  | .ok ⟨_, _⟩, .ok ⟨_, _⟩, ⟨rfl, rfl⟩ => rfl
  | .error _, .error _, rfl => rfl

lemma exists_ok {result : Evaluation} (h : Matches rel a (.ok result)) :
    ∃ v, a = .ok ⟨v, result.tree⟩ := by
  match a, h with
  | .ok ⟨v, _⟩, ⟨_, rfl⟩ => exact ⟨v, rfl⟩

lemma eq_error {e : ε} (h : Matches rel (.error e) b) : b = .error e := by
  match b, h with
  | .error _, rfl => rfl

end Matches

/-- The operation of a key, on operands that are related to those of the key, guarantees a result
that is related to the operation's own, with the key recorded. -/
def Faithful (sound : Cache.Key → Binary64 → Prop) (rel : Binary64 → Binary64 → Prop)
    (recorded : Cache.Key → Set Cache.Key → Prop) (key : Cache.Key) : Prop :=
  ∀ x y known, rel x key.lhs → rel y key.rhs →
    Guarantees sound (fun v K => rel v (key.op.apply key.lhs key.rhs) ∧ recorded key K) known
      (binary key.op x y)

section

variable {sound : Cache.Key → Binary64 → Prop} {rel : Binary64 → Binary64 → Prop}
  {recorded : Cache.Key → Set Cache.Key → Prop}

/-- The operands at hand with and without a memory. -/
abbrev Alongside (rel : Binary64 → Binary64 → Prop) : List Evaluation → List Evaluation → Prop :=
  List.Forall₂ fun a b => rel a.value b.value ∧ a.tree = b.tree

lemma ofStack_matches {stack stack' : List Evaluation} (h : Alongside rel stack stack') :
    Matches rel (ofStack stack) (ofStack stack') := by
  match h with
  | .nil => rfl
  | .cons hab .nil => exact hab
  | .cons _ (.cons _ hrest) =>
    simp only [ofStack, Matches, List.length_cons, hrest.length_eq]

lemma applyUnary_matches (hneg : ∀ x y, rel x y → rel (-x) (-y)) (op : Operator)
    {x y : Binary64} (h : rel x y) :
    Option.Rel rel (op.applyUnary? x) (op.applyUnary? y) := by
  cases op with
  | add => exact .some h
  | sub => exact .some (hneg x y h)
  | mul | div | pow | log => exact .none

/-- One pass over a sequence with a memory, beside the recursion without one. The binary
operations that the recursion executes are all recorded in the end. -/
theorem run_guarantees (hneg : ∀ x y, rel x y → rel (-x) (-y))
    (hrec : ∀ key K K', K ⊆ K' → recorded key K → recorded key K') (tokens : List Token)
    (hnum : ∀ v, Token.number v ∈ tokens → rel v v) {stack stack' : List Evaluation}
    (hstack : Alongside rel stack stack')
    (hkeys : ∀ key ∈ operations (stack'.map Evaluation.value) tokens,
      Faithful sound rel recorded key) (known : Set Cache.Key) :
    Guarantees sound
      (fun r K => Matches rel r (compute stack' tokens) ∧
        ∀ key ∈ operations (stack'.map Evaluation.value) tokens, recorded key K)
      known (Evaluation.run stack tokens) := by
  induction tokens generalizing stack stack' known with
  | nil =>
    have hm := ofStack_matches hstack
    simp only [Evaluation.run, compute]
    cases hr : ofStack stack with
    | ok result => exact ⟨hr ▸ hm, by simp [operations]⟩
    | error e => exact ⟨hr ▸ hm, by simp [operations]⟩
  | cons token rest ih =>
    have hnum' : ∀ v, Token.number v ∈ rest → rel v v :=
      fun v hv => hnum v (List.mem_cons_of_mem _ hv)
    cases token with
    | number value =>
      have hnext : Alongside rel (⟨value, .number value⟩ :: stack)
          (⟨value, .number value⟩ :: stack') :=
        .cons ⟨hnum value (by simp), rfl⟩ hstack
      exact ih hnum' hnext hkeys known
    | operator op position =>
      cases hstack with
      | nil => cases position <;> exact ⟨rfl, by simp [operations]⟩
      | @cons a b below below' hab hbelow =>
        cases position with
        | unary =>
          simp only [Evaluation.run, compute, List.map_cons, operations] at hkeys ⊢
          have hu := applyUnary_matches hneg op hab.1
          cases ha : op.applyUnary? a.value with
          | none =>
            rw [ha] at hu
            cases hb : op.applyUnary? b.value with
            | none => exact ⟨rfl, by simp⟩
            | some w => simp [hb] at hu
          | some v =>
            rw [ha] at hu
            cases hb : op.applyUnary? b.value with
            | none => simp [hb] at hu
            | some w =>
              rw [hb] at hu hkeys
              cases hu with
              | some hvw =>
                have hnext : Alongside rel (⟨v, .right op.symbol a.tree⟩ :: below)
                    (⟨w, .right op.symbol b.tree⟩ :: below') := .cons ⟨hvw, by rw [hab.2]⟩ hbelow
                exact ih hnum' hnext hkeys known
        | binary =>
          cases hbelow with
          | nil => exact ⟨rfl, by simp [operations]⟩
          | @cons l l' below below' hl hbelow =>
            simp only [Evaluation.run, compute, List.map_cons, operations] at hkeys ⊢
            have hop := hkeys _ List.mem_cons_self l.value a.value known hl.1 hab.1
            apply Guarantees.bind
            refine hop.mono subset_rfl ?_
            intro v K K' hK hv
            have hnext : Alongside rel (⟨v, .both op.symbol l.tree a.tree⟩ :: below)
                (⟨op.apply l'.value b.value, .both op.symbol l'.tree b.tree⟩ :: below') :=
              .cons ⟨hv.1, by rw [hl.2, hab.2]⟩ hbelow
            have hgo := ih hnum' hnext (fun key hkey => hkeys key (List.mem_cons_of_mem _ hkey)) K'
            refine hgo.and_subset.mono subset_rfl ?_
            rintro result L L' hL ⟨⟨hm, hlater⟩, hgrow⟩
            -- What the operation itself recorded is still there after the rest of the sequence.
            refine ⟨hm, ?_⟩
            intro key hkey
            rcases List.mem_cons.mp hkey with rfl | hkey
            · exact hrec _ _ _ (hK.trans (hgrow.trans hL)) hv.2
            · exact hrec _ _ _ hL (hlater key hkey)
    | openParen | closeParen | openLog | closeLog | separator =>
      exact ⟨rfl, by simp [operations]⟩

/-- The evaluation of a text with a memory, beside its outcome without one. -/
theorem evaluate_guarantees (hneg : ∀ x y, rel x y → rel (-x) (-y))
    (hrec : ∀ key K K', K ⊆ K' → recorded key K → recorded key K') (text : String)
    (hnum : ∀ tokens, sequence text = .ok tokens → ∀ v, Token.number v ∈ tokens → rel v v)
    (hkeys : ∀ key ∈ executedKeys text, Faithful sound rel recorded key)
    (known : Set Cache.Key) :
    Guarantees sound
      (fun outcome K => Matches rel outcome (uncached text) ∧
        ∀ key ∈ executedKeys text, recorded key K)
      known (Expression.evaluate text) := by
  obtain ⟨records, he⟩ := evaluate_eq text
  rw [he, uncached_eq]
  apply Guarantees.bind
  apply Guarantees.noteAll
  unfold executedKeys at hkeys ⊢
  cases hs : sequence text with
  | error fault => exact ⟨rfl, by simp⟩
  | ok tokens =>
    rw [hs] at hkeys
    apply Guarantees.bind
    have hstart : Alongside rel [] [] := .nil
    have hgo := run_guarantees hneg hrec tokens (hnum tokens hs) hstart hkeys known
    refine hgo.mono subset_rfl ?_
    rintro r K K' hK ⟨hm, hall⟩
    exact ⟨hm.mapError Fault.eval, fun key hkey => hrec _ _ _ hK (hall key hkey)⟩

end

end Reckoner.Proofs
