import Mathlib.Tactic
import Reckoner.Handles

/-!
# Sessions with cloned handles

In a session, any number of handles are used and cloned in any order. Where clones share a memory,
everything looks as if there were one handle only. Where each clone has a memory of its own, a
handle shows what a memory shows that it alone has used, after all that its source had undergone
before the handle was cloned. Sessions are held with the latest step first.
-/

namespace Reckoner.Proofs.Session

/-- A call, or a look at how much is remembered. -/
inductive Use where
  | call (c : Call)
  | size

/-- What a use shows. -/
inductive Seen where
  | answer (a : Answer)
  | size (n : Option Nat)

def Use.on (memory : Memory) : Use → Seen × Memory
  | call c => (.answer (c.job.runOn memory).1, (c.job.runOn memory).2)
  | size => (.size memory.size?, memory)

def Use.through (h : Handles) (handle : Nat) : Use → Seen × Handles
  | call c => (.answer (h.call handle c).1, (h.call handle c).2)
  | size => (.size (h.memory handle).size?, h)

@[simp]
lemma Use.on_size (memory : Memory) : Use.on memory .size = (.size memory.size?, memory) := rfl

@[simp]
lemma Use.on_lookup (memory : Memory) (key : Cache.Key) :
    Use.on memory (.call (.lookup key)) = (.answer (.found (memory.lookup key)), memory) := rfl

@[simp]
lemma Use.on_store (memory : Memory) (key : Cache.Key) (value : Binary64) :
    Use.on memory (.call (.store key value)) = (.answer .stored, memory.store key value) := rfl

/-- Something is used through a handle, or a handle is cloned. -/
inductive Step where
  | use (handle : Nat) (u : Use)
  | clone (handle : Nat)

/-- The handles after a session. -/
def after (start : Handles) : List Step → Handles
  | [] => start
  | .use handle u :: earlier => (u.through (after start earlier) handle).2
  | .clone handle :: earlier => (after start earlier).clone handle

/-- What a session shows, each time with the handle in use. -/
def seen (start : Handles) : List Step → List (Nat × Seen)
  | [] => []
  | .use handle u :: earlier =>
    (handle, (u.through (after start earlier) handle).1) :: seen start earlier
  | .clone _ :: earlier => seen start earlier

def seenThrough (start : Handles) (handle : Nat) (steps : List Step) : List Seen :=
  ((seen start steps).filter fun s => s.1 = handle).map Prod.snd

/-- Number of handles after a session that starts with one. -/
def handleCount : List Step → Nat
  | [] => 1
  | .use _ _ :: earlier => handleCount earlier
  | .clone _ :: earlier => handleCount earlier + 1

/-- Every step is taken on a handle that is there. -/
def Legal : List Step → Prop
  | [] => True
  | .use handle _ :: earlier | .clone handle :: earlier =>
    handle < handleCount earlier ∧ Legal earlier

/-! ### One memory -/

/-- A memory after uses, the latest first. -/
def memoryAfter (start : Memory) : List Use → Memory
  | [] => start
  | u :: earlier => (u.on (memoryAfter start earlier)).2

/-- What uses of one memory show. -/
def seenAlone (start : Memory) : List Use → List Seen
  | [] => []
  | u :: earlier => (u.on (memoryAfter start earlier)).1 :: seenAlone start earlier

/-- All uses of a session, whichever the handle. -/
def uses : List Step → List Use
  | [] => []
  | .use _ u :: earlier => u :: uses earlier
  | .clone _ :: earlier => uses earlier

/-- The uses of a session that are made through the handle. -/
def usesOf (handle : Nat) : List Step → List Use
  | [] => []
  | .use other u :: earlier =>
    if other = handle then u :: usesOf handle earlier else usesOf handle earlier
  | .clone _ :: earlier => usesOf handle earlier

/-- What the source of a handle had undergone when the handle was cloned from it: the uses made
through the source until then, and what the source itself had inherited. -/
def inherited (handle : Nat) : List Step → List Use
  | [] => []
  | .use _ _ :: earlier => inherited handle earlier
  | .clone source :: earlier =>
    if handle = handleCount earlier then usesOf source earlier ++ inherited source earlier
    else inherited handle earlier

/-! ### Clones that share -/

/-- All handles lead to the one memory. -/
structure Shares (h : Handles) (memory : Memory) : Prop where
  shared : h.shared = true
  memories : h.memories = [memory]
  places : ∀ p ∈ h.places, p = 0

namespace Shares

variable {h : Handles} {memory : Memory}

lemma place (hs : Shares h memory) (handle : Nat) : h.place handle = 0 := by
  unfold Handles.place
  rw [List.getD_eq_getElem?_getD]
  cases hplace : h.places[handle]? with
  | none => rfl
  | some p => exact hs.places p (List.mem_of_getElem? hplace)

lemma memory_eq (hs : Shares h memory) (handle : Nat) : h.memory handle = memory := by
  rw [Handles.memory, hs.place, hs.memories]
  rfl

lemma use (hs : Shares h memory) (handle : Nat) (u : Use) :
    (u.through h handle).1 = (u.on memory).1 ∧ Shares (u.through h handle).2 (u.on memory).2 := by
  cases u with
  | size => exact ⟨by rw [Use.through, Use.on, hs.memory_eq], hs⟩
  | call c =>
    refine ⟨by simp only [Use.through, Use.on, Handles.call, hs.memory_eq], hs.shared, ?_,
      hs.places⟩
    simp only [Use.through, Use.on, Handles.call, hs.memory_eq, hs.place, hs.memories]
    rfl

lemma clone (hs : Shares h memory) (handle : Nat) : Shares (h.clone handle) memory := by
  rw [Handles.clone, if_pos hs.shared, hs.place]
  refine ⟨hs.shared, hs.memories, fun p hp => ?_⟩
  rcases List.mem_append.mp hp with hp | hp
  · exact hs.places p hp
  · exact List.mem_singleton.mp hp

end Shares

lemma shares_after (start : Memory) (steps : List Step) :
    Shares (after (.new true start) steps) (memoryAfter start (uses steps)) := by
  induction steps with
  | nil => exact ⟨rfl, rfl, by simp [after, Handles.new]⟩
  | cons step earlier ih =>
    cases step with
    | use handle u => exact (ih.use handle u).2
    | clone handle => exact ih.clone handle

lemma seen_shared (start : Memory) (steps : List Step) :
    (seen (.new true start) steps).map Prod.snd = seenAlone start (uses steps) := by
  induction steps with
  | nil => rfl
  | cons step earlier ih =>
    cases step with
    | clone handle => exact ih
    | use handle u =>
      have hfirst := ((shares_after start earlier).use handle u).1
      rw [seen, List.map_cons, ih, hfirst, uses, seenAlone]

/-! ### Clones that part -/

/-- Every handle has a memory of its own. -/
structure Parts (h : Handles) (count : Nat) : Prop where
  shared : h.shared = false
  places : h.places = List.range count
  memories : h.memories.length = count

namespace Parts

variable {h : Handles} {count handle other : Nat}

lemma place (hp : Parts h count) (hhandle : handle < count) : h.place handle = handle := by
  rw [Handles.place, hp.places, List.getD_eq_getElem?_getD, List.getElem?_range hhandle]
  rfl

lemma memory_eq (hp : Parts h count) (hhandle : handle < count) :
    h.memory handle = h.memories.getD handle .off := by
  rw [Handles.memory, hp.place hhandle]

lemma use (hp : Parts h count) (handle : Nat) (u : Use) : Parts (u.through h handle).2 count := by
  cases u with
  | size => exact hp
  | call c => exact ⟨hp.shared, hp.places, (List.length_set ..).trans hp.memories⟩

/-- A use changes the memory of the handle in use and no other. -/
lemma memory_use (hp : Parts h count) (hhandle : handle < count) (hother : other < count)
    (u : Use) :
    (u.through h handle).2.memory other =
      if other = handle then (u.on (h.memory handle)).2 else h.memory other := by
  cases u with
  | size =>
    split_ifs with heq
    · rw [heq]
      rfl
    · rfl
  | call c =>
    have hset : ((Use.call c).through h handle).2.memories =
        h.memories.set handle ((Use.call c).on (h.memory handle)).2 := by
      simp only [Use.through, Use.on, Handles.call, hp.place hhandle]
    rw [(hp.use handle (.call c)).memory_eq hother, hset, List.getD_eq_getElem?_getD,
      List.getElem?_set, hp.memories]
    split_ifs with heq hne hne
    · rfl
    · exact (hne heq.symm).elim
    · exact (heq hne.symm).elim
    · rw [hp.memory_eq hother, List.getD_eq_getElem?_getD]

lemma clone (hp : Parts h count) (handle : Nat) : Parts (h.clone handle) (count + 1) := by
  rw [Handles.clone, hp.shared, if_neg Bool.false_ne_true]
  refine ⟨rfl, ?_, ?_⟩
  · rw [hp.places, hp.memories, List.range_succ]
  · rw [List.length_append, hp.memories, List.length_singleton]

/-- A new handle starts with what its source remembers, and the others keep what they have. -/
lemma memory_clone (hp : Parts h count) (handle : Nat) (hother : other < count + 1) :
    (h.clone handle).memory other = if other = count then h.memory handle else h.memory other := by
  have hmemories : (h.clone handle).memories = h.memories ++ [h.memory handle] := by
    rw [Handles.clone, hp.shared, if_neg Bool.false_ne_true]
  rw [(hp.clone handle).memory_eq hother, hmemories, List.getD_eq_getElem?_getD]
  split_ifs with heq
  · rw [heq, ← hp.memories, List.getElem?_concat_length]
    rfl
  · have hlt : other < count := by omega
    rw [List.getElem?_append_left (hp.memories ▸ hlt), hp.memory_eq hlt,
      List.getD_eq_getElem?_getD]

end Parts

lemma parts_after (start : Memory) (steps : List Step) :
    Parts (after (.new false start) steps) (handleCount steps) := by
  induction steps with
  | nil => exact ⟨rfl, rfl, rfl⟩
  | cons step earlier ih =>
    cases step with
    | use handle u => exact ih.use handle u
    | clone handle => exact ih.clone handle

lemma usesOf_eq_nil {steps : List Step} {handle : Nat} (h : Legal steps)
    (hhandle : handleCount steps ≤ handle) : usesOf handle steps = [] := by
  induction steps with
  | nil => rfl
  | cons step earlier ih =>
    cases step with
    | use other u =>
      have hother : other ≠ handle := (h.1.trans_le hhandle).ne
      rw [usesOf, if_neg hother]
      exact ih h.2 hhandle
    | clone other => exact ih h.2 ((Nat.le_succ _).trans hhandle)

/-- What a handle has undergone. -/
def life (handle : Nat) (steps : List Step) : List Use :=
  usesOf handle steps ++ inherited handle steps

lemma life_use (handle other : Nat) (u : Use) (earlier : List Step) :
    life other (.use handle u :: earlier) =
      if other = handle then u :: life other earlier else life other earlier := by
  simp only [life, usesOf, inherited, eq_comm (a := handle)]
  split_ifs <;> rfl

lemma life_clone {earlier : List Step} (h : Legal earlier) (handle other : Nat) :
    life other (.clone handle :: earlier) =
      if other = handleCount earlier then life handle earlier else life other earlier := by
  simp only [life, usesOf, inherited]
  split_ifs with heq
  · rw [usesOf_eq_nil h heq.ge, List.nil_append]
  · rfl

lemma memory_after {steps : List Step} (h : Legal steps) (start : Memory) {handle : Nat}
    (hhandle : handle < handleCount steps) :
    (after (.new false start) steps).memory handle = memoryAfter start (life handle steps) := by
  induction steps generalizing handle with
  | nil =>
    obtain rfl : handle = 0 := Nat.lt_one_iff.mp hhandle
    rfl
  | cons step earlier ih =>
    have hparts := parts_after start earlier
    cases step with
    | use other u =>
      rw [after, hparts.memory_use h.1 hhandle, life_use]
      split_ifs with heq
      · rw [memoryAfter, heq, ih h.2 h.1]
      · exact ih h.2 hhandle
    | clone other =>
      rw [after, hparts.memory_clone other hhandle, life_clone h.2]
      split_ifs with heq
      · exact ih h.2 h.1
      · exact ih h.2 (Nat.lt_of_le_of_ne (Nat.le_of_lt_succ hhandle) heq)

lemma seenThrough_use (start : Handles) (handle other : Nat) (u : Use) (earlier : List Step) :
    seenThrough start handle (.use other u :: earlier) =
      if other = handle then
        (u.through (after start earlier) other).1 :: seenThrough start handle earlier
      else seenThrough start handle earlier := by
  simp only [seenThrough, seen, List.filter_cons, decide_eq_true_eq]
  split_ifs <;> rfl

/-- Nothing is seen through a handle before it is there. -/
lemma seenThrough_eq_nil {steps : List Step} {handle : Nat} (h : Legal steps)
    (hhandle : handleCount steps ≤ handle) (start : Handles) :
    seenThrough start handle steps = [] := by
  induction steps with
  | nil => rfl
  | cons step earlier ih =>
    cases step with
    | use other u =>
      rw [seenThrough_use, if_neg (h.1.trans_le hhandle).ne]
      exact ih h.2 hhandle
    | clone other => exact ih h.2 ((Nat.le_succ _).trans hhandle)

lemma memoryAfter_append (start : Memory) (later earlier : List Use) :
    memoryAfter start (later ++ earlier) = memoryAfter (memoryAfter start earlier) later := by
  induction later with
  | nil => rfl
  | cons u later ih => rw [List.cons_append, memoryAfter, ih, memoryAfter]

lemma seen_parted {steps : List Step} (h : Legal steps) (start : Memory) {handle : Nat}
    (hhandle : handle < handleCount steps) :
    seenThrough (.new false start) handle steps =
      seenAlone (memoryAfter start (inherited handle steps)) (usesOf handle steps) := by
  induction steps generalizing handle with
  | nil => rfl
  | cons step earlier ih =>
    cases step with
    | use other u =>
      rw [seenThrough_use, usesOf]
      split_ifs with heq
      · have hanswer : (u.through (after (.new false start) earlier) other).1 =
            (u.on (memoryAfter start (life handle earlier))).1 := by
          rw [← memory_after h.2 start hhandle, ← heq]
          cases u <;> rfl
        rw [hanswer, seenAlone, inherited, ih h.2 hhandle, life, memoryAfter_append]
      · exact ih h.2 hhandle
    | clone source =>
      -- a handle just cloned has shown nothing; what it inherits only matters from now on
      rcases Nat.lt_or_ge handle (handleCount earlier) with hlt | hge
      · rw [inherited, if_neg hlt.ne]
        exact ih h.2 hlt
      · rw [usesOf, usesOf_eq_nil h.2 hge]
        exact seenThrough_eq_nil h.2 hge _

/-- Where clones share, a session shows what one memory shows that is put to all its uses. Where
they do not, what is seen through a handle is what a memory shows that was first put to all the uses
the handle has inherited, and then to those made through the handle. -/
theorem clones_share_or_part (start : Memory) (steps : List Step) (hlegal : Legal steps) :
    (seen (.new true start) steps).map Prod.snd = seenAlone start (uses steps) ∧
      ∀ handle < handleCount steps,
        seenThrough (.new false start) handle steps =
          seenAlone (memoryAfter start (inherited handle steps)) (usesOf handle steps) :=
  ⟨seen_shared start steps, fun _ hhandle => seen_parted hlegal start hhandle⟩

/-- The key of one divided by itself. -/
def onesKey : Cache.Key := ⟨.div, ⟨0x3ff0000000000000⟩, ⟨0x3ff0000000000000⟩⟩

/-- The key of two divided by itself. -/
def twosKey : Cache.Key := ⟨.div, ⟨0x4000000000000000⟩, ⟨0x4000000000000000⟩⟩

/-- An entry is stored, the handle is cloned, and another entry is stored through the clone, the
latest step first. -/
def twoEntries (value : Binary64) : List Step :=
  [.use 1 .size, .use 0 (.call (.lookup twosKey)), .use 0 .size,
    .use 1 (.call (.store twosKey value)), .clone 0, .use 0 (.call (.store onesKey value))]

theorem two_entries_by_handle :
    let value : Binary64 := ⟨0x3ff0000000000000⟩
    Legal (twoEntries value) ∧
      (seen (.new true (.fresh true)) (twoEntries value)).map Prod.snd =
        [.size (some 2), .answer (.found (some value)), .size (some 2), .answer .stored,
          .answer .stored] ∧
      seenThrough (.new false (.fresh true)) 0 (twoEntries value) =
        [.answer (.found none), .size (some 1), .answer .stored] ∧
      seenThrough (.new false (.fresh true)) 1 (twoEntries value) =
        [.size (some 2), .answer .stored] := by
  intro value
  have hlegal : Legal (twoEntries value) := by simp [twoEntries, Legal, handleCount]
  obtain ⟨hshared, hparted⟩ := clones_share_or_part (.fresh true) (twoEntries value) hlegal
  have hkeys : onesKey ≠ twosKey := by decide
  rw [hshared, hparted 0 (by simp [twoEntries, handleCount]),
    hparted 1 (by simp [twoEntries, handleCount])]
  refine ⟨hlegal, ?_, ?_, ?_⟩ <;>
    simp [twoEntries, uses, usesOf, inherited, handleCount, seenAlone, memoryAfter, Memory.fresh,
      Memory.size?, Memory.store, Memory.lookup, Cache.size, Cache.store, Cache.empty, Cache.lookup,
      Std.HashMap.size_insert, hkeys]

end Reckoner.Proofs.Session
