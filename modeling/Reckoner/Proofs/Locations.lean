import Mathlib.Tactic
import Reckoner.Disk
import Reckoner.Proofs.OutputNames

/-!
# Where paths lead

A path leads to an entry by its components: all but the last are directories that are entered one
after another. Files are written into directories that are there already, so no write changes where
a path leads, and reading or writing an entry asks nothing of the disk but that entry and the way
to its directory.
-/

namespace Reckoner.Proofs
open Reckoner.Path

variable {disk disk' : Disk}

/-! ### Following components -/

/-- Goes one step of a path from a directory. -/
def stepFrom (disk : Disk) (location : Location) : Component → Except FileFault Location
  | .root => .ok []
  | .current => .ok location
  | .parent => .ok location.dropLast
  | .name name =>
    match disk.entry? (location ++ [name]) with
    | some .directory => .ok (location ++ [name])
    | some (.file _) => .error .notDirectory
    | none => .error .notFound

/-- The directory to which the steps of a path lead. -/
def follow (disk : Disk) (components : List Component) : Except FileFault Location :=
  components.foldlM (stepFrom disk) disk.home

lemma enter_of_not_idle (disk : Disk) (location : Location) {piece : List Char}
    (h : isIdle piece = false) :
    disk.enter location piece = stepFrom disk location (Component.ofPiece piece) := by
  rw [Disk.enter, if_neg (by simp [h]), Component.ofPiece]
  split_ifs <;> rfl

lemma foldlM_enter (disk : Disk) (parts : List (List Char)) (location : Location) :
    parts.foldlM disk.enter location =
      ((parts.filter (!isIdle ·)).map Component.ofPiece).foldlM (stepFrom disk) location := by
  induction parts generalizing location with
  | nil => rfl
  | cons piece rest ih =>
    cases h : isIdle piece with
    | true =>
      have henter : disk.enter location piece = .ok location := by simp [Disk.enter, h]
      rw [List.foldlM_cons, henter, List.filter_cons_of_neg (by simp [h])]
      exact ih location
    | false =>
      rw [List.foldlM_cons, enter_of_not_idle disk location h,
        List.filter_cons_of_pos (by simp [h]), List.map_cons, List.foldlM_cons]
      exact congrArg _ (funext ih)

lemma start_eq (disk : Disk) (p : Path) :
    disk.start p = if head p.text.toList = ['/'] then [] else disk.home := by
  unfold Disk.start head splitHead
  split <;> split <;> simp_all

lemma follow_head (disk : Disk) (p : Path) (rest : List Component) :
    follow disk (Component.ofHead (head p.text.toList) ++ rest) =
      rest.foldlM (stepFrom disk) (disk.start p) := by
  rw [follow, List.foldlM_append, start_eq]
  have hcases : head p.text.toList = ['/'] ∨ head p.text.toList = ['.'] ∨
      head p.text.toList = [] := by
    unfold head splitHead
    split <;> simp
  rcases hcases with h | h | h <;> rw [h] <;> rfl

lemma filter_not_idle (parts : List (List Char)) :
    (parts.filter (· ≠ [])).filter (!isIdle ·) = parts.filter (!isIdle ·) := by
  rw [List.filter_filter]
  congr 1
  funext piece
  cases piece <;> simp [isIdle]

/-- An entry of a directory is where the directory leads, and its name. -/
theorem locate_below (disk : Disk) (directory : List Char) {name : List Char} (h : IsName name) :
    disk.locate (pathOf (below directory name)) =
      (follow disk (pathOf directory).components).map fun parent =>
        .entry (parent ++ [name]) false := by
  obtain ⟨front, hpieces, hfront⟩ := pieces_below directory h
  have hstart : disk.start (pathOf (below directory name)) = disk.start (pathOf directory) := by
    rw [start_eq, start_eq, pathOf_toList, pathOf_toList, head_below directory h]
  have hname : [name].filter (· ≠ []) = [name] := by simp [h.ne_nil]
  rw [components_eq, follow_head, ← hstart, pathOf_toList, ← hfront, ← filter_not_idle front,
    ← foldlM_enter]
  simp only [Disk.locate, pathOf_toList, hpieces, List.filter_append, hname, List.getLast?_concat,
    List.reverse_append, List.reverse_singleton, List.singleton_append, List.reverse_reverse,
    h.not_idle, h.ne_dots, Option.some.injEq, h.ne_nil, decide_false, Bool.false_eq_true, or_self,
    if_false]
  rfl

/-- A path that leads to an entry ends in its name, and the steps before lead to its directory. -/
theorem exists_of_locate {p : Path} {location : Location} {slash : Bool}
    (h : disk.locate p = .ok (.entry location slash)) :
    ∃ directory name parent, p.splitName? = some (directory, name) ∧
      follow disk (pathOf directory).components = .ok parent ∧ location = parent ++ [name] := by
  simp only [Disk.locate] at h
  cases hparts : ((pieces p.text.toList).filter (· ≠ [])).reverse with
  | nil =>
    simp only [hparts] at h
    split_ifs at h
    cases h
  | cons last before =>
    simp only [hparts] at h
    cases hparent : before.reverse.foldlM disk.enter (disk.start p) with
    | error e => simp [hparent, Bind.bind, Except.bind] at h
    | ok parent =>
      simp only [hparent, Bind.bind, Except.bind] at h
      split_ifs at h with hlast
      · cases henter : disk.enter parent last <;> simp [henter, Pure.pure, Except.pure] at h
      · cases h
        rw [not_or, Bool.not_eq_true] at hlast
        have hsteps : steps p.text.toList = before.reverse.filter (!isIdle ·) ++ [last] := by
          rw [steps, ← filter_not_idle, ← List.reverse_reverse (List.filter (· ≠ []) _), hparts,
            List.reverse_cons, List.filter_append, List.filter_singleton, hlast.1]
          rfl
        have hpiece : Component.ofPiece last = .name last := if_neg hlast.2
        have hcomponents := components_eq p
        rw [hsteps, List.map_append, ← List.append_assoc, List.map_singleton, hpiece] at hcomponents
        obtain ⟨directory, hsplit⟩ := exists_splitName? hcomponents
        refine ⟨directory, last, parent, hsplit, ?_, rfl⟩
        rw [(components_of_splitName? hsplit).2] at hcomponents
        rw [List.append_cancel_right hcomponents, follow_head, ← foldlM_enter, hparent]

/-! ### Disks with the same directories -/

lemma foldlM_eq_ok {α β ε : Type} {f g : β → α → Except ε β}
    (hstep : ∀ b a next, f b a = .ok next → g b a = .ok next) {xs : List α} {start last : β}
    (h : xs.foldlM f start = .ok last) : xs.foldlM g start = .ok last := by
  induction xs generalizing start with
  | nil => exact h
  | cons x rest ih =>
    rw [List.foldlM_cons] at h ⊢
    cases hfirst : f start x with
    | error e => simp [hfirst, Bind.bind, Except.bind] at h
    | ok next =>
      rw [hfirst] at h
      rw [hstep _ _ _ hfirst]
      exact ih h

/-- Two disks on which every path leads to the same place. -/
structure SameFolders (disk disk' : Disk) : Prop where
  home : disk'.home = disk.home
  folder : ∀ location,
    disk'.entry? location = some .directory ↔ disk.entry? location = some .directory

namespace SameFolders

lemma refl (disk : Disk) : SameFolders disk disk :=
  ⟨rfl, fun _ => .rfl⟩

lemma trans {disk'' : Disk} (h : SameFolders disk disk') (h' : SameFolders disk' disk'') :
    SameFolders disk disk'' :=
  ⟨h'.home.trans h.home, fun location => (h'.folder location).trans (h.folder location)⟩

lemma symm (h : SameFolders disk disk') : SameFolders disk' disk :=
  ⟨h.home.symm, fun location => (h.folder location).symm⟩

lemma stepFrom_eq_ok (h : SameFolders disk disk') {location next : Location} {c : Component}
    (hstep : stepFrom disk location c = .ok next) : stepFrom disk' location c = .ok next := by
  cases c with
  | root | current | parent => exact hstep
  | name name =>
    simp only [stepFrom] at hstep ⊢
    split at hstep
    · rename_i hfolder
      rw [(h.folder _).mpr hfolder]
      exact hstep
    · cases hstep
    · cases hstep

lemma follow_eq_ok (h : SameFolders disk disk') {components : List Component} {location : Location}
    (hfollow : follow disk components = .ok location) : follow disk' components = .ok location := by
  rw [follow, h.home]
  exact foldlM_eq_ok (fun _ _ _ => h.stepFrom_eq_ok) hfollow

lemma enter_eq_ok (h : SameFolders disk disk') {location next : Location} {piece : List Char}
    (henter : disk.enter location piece = .ok next) : disk'.enter location piece = .ok next := by
  cases hidle : isIdle piece with
  | true =>
    rw [Disk.enter, if_pos hidle] at henter ⊢
    exact henter
  | false =>
    rw [enter_of_not_idle _ _ hidle] at henter ⊢
    exact h.stepFrom_eq_ok henter

/-- What a path leads to is the same on both disks. -/
theorem locate_eq_ok (h : SameFolders disk disk') {p : Path} {target : Disk.Target}
    (hlocate : disk.locate p = .ok target) : disk'.locate p = .ok target := by
  have hstart : disk'.start p = disk.start p := by rw [start_eq, start_eq, h.home]
  simp only [Disk.locate] at hlocate ⊢
  cases hparts : ((pieces p.text.toList).filter (· ≠ [])).reverse with
  | nil =>
    simp only [hparts] at hlocate ⊢
    exact hlocate
  | cons last before =>
    simp only [hparts] at hlocate ⊢
    cases hparent : before.reverse.foldlM disk.enter (disk.start p) with
    | error e => simp [hparent, Bind.bind, Except.bind] at hlocate
    | ok parent =>
      rw [hparent] at hlocate
      rw [hstart, foldlM_eq_ok (fun _ _ _ => h.enter_eq_ok) hparent]
      simp only [Bind.bind, Except.bind] at hlocate ⊢
      split_ifs at hlocate ⊢ with hlast
      · cases henter : disk.enter parent last with
        | error e => simp [henter] at hlocate
        | ok next =>
          rw [henter] at hlocate
          rw [h.enter_eq_ok henter]
          exact hlocate
      · exact hlocate

end SameFolders

/-! ### Entries -/

lemma lookup_putEntry (location : Location) (entry : Entry) (entries : List (Location × Entry))
    (other : Location) :
    (Disk.putEntry location entry entries).lookup other =
      if other = location then some entry else entries.lookup other := by
  induction entries with
  | nil =>
    rw [Disk.putEntry, List.lookup_cons]
    by_cases h : other = location
    · simp [h]
    · rw [beq_false_of_ne h, if_neg h]
  | cons first rest ih =>
    obtain ⟨key, old⟩ := first
    simp only [Disk.putEntry]
    by_cases hkey : key = location
    · subst hkey
      rw [if_pos rfl, List.lookup_cons, List.lookup_cons]
      by_cases h : other = key
      · simp [h]
      · rw [beq_false_of_ne h, if_neg h]
    · rw [if_neg hkey, List.lookup_cons, List.lookup_cons, ih]
      by_cases h : other = key
      · simp [h, hkey]
      · rw [beq_false_of_ne h]

theorem entry?_put (disk : Disk) (location : Location) (entry : Entry) (other : Location) :
    Disk.entry? (disk.put location entry) other =
      if other = location ∧ location ≠ [] then some entry else disk.entry? other := by
  unfold Disk.entry? Disk.put
  simp only [lookup_putEntry]
  by_cases h : other = location
  · subst h
    by_cases h0 : other = [] <;> simp [h0]
  · simp [h]

lemma sameFolders_put {location : Location}
    (hfile : ¬ disk.entry? location = some .directory) (content : ByteArray) :
    SameFolders disk (disk.put location (.file content)) := by
  refine ⟨rfl, fun other => ?_⟩
  rw [entry?_put]
  split_ifs with h
  · obtain ⟨rfl, _⟩ := h
    simp [hfile]
  · rfl

/-- The content of an entry that is a file. -/
def contentOf : Option Entry → Except FileFault ByteArray
  | none => .error .notFound
  | some .directory => .error .isDirectory
  | some (.file content) => .ok content

theorem read_inside (disk : Disk) (directory : List Char) {name : List Char} (h : IsName name) :
    disk.read (inside directory name) =
      (follow disk (pathOf directory).components).bind fun parent =>
        contentOf <| disk.entry? (parent ++ [name]) := by
  rw [Disk.read, inside, locate_below disk directory h]
  cases follow disk (pathOf directory).components with
  | error e => rfl
  | ok parent =>
    simp only [Except.map, Except.bind, Bind.bind]
    cases disk.entry? (parent ++ [name]) with
    | none => rfl
    | some entry => cases entry <;> rfl

/-- The entry that a write to the path replaces or makes. -/
def target? (disk : Disk) (p : Path) : Except FileFault Location :=
  match disk.locate p with
  | .error fault => .error fault
  | .ok (.directory _) => .error .isDirectory
  | .ok (.entry location slash) =>
    if slash ∨ disk.entry? location = some .directory then .error .isDirectory else .ok location

theorem write_eq (disk : Disk) (p : Path) (content : ByteArray) :
    disk.write p content =
      (target? disk p).map fun location => disk.put location (.file content) := by
  rw [Disk.write, target?]
  rcases disk.locate p with fault | _ | ⟨location, slash⟩
  · rfl
  · rfl
  · cases slash with
    | true => rfl
    | false =>
      rcases h : disk.entry? location with _ | _ | _ <;>
        simp [h, Bind.bind, Except.bind, Except.map, Pure.pure, Except.pure, throw, throwThe,
          MonadExceptOf.throw]

/-- What a write replaces is not a directory. -/
lemma locate_of_target? {p : Path} {location : Location} (h : target? disk p = .ok location) :
    disk.locate p = .ok (.entry location false) ∧ disk.entry? location ≠ some .directory := by
  unfold target? at h
  split at h
  · cases h
  · cases h
  · rename_i found slash hlocate
    split_ifs at h with hnot
    cases h
    rw [not_or, Bool.not_eq_true] at hnot
    rw [hlocate, hnot.1]
    exact ⟨rfl, hnot.2⟩

theorem target?_below (disk : Disk) (directory : List Char) {name : List Char} (h : IsName name) :
    target? disk (pathOf (below directory name)) =
      (follow disk (pathOf directory).components).bind fun parent =>
        if disk.entry? (parent ++ [name]) = some .directory then .error .isDirectory
        else .ok (parent ++ [name]) := by
  rw [target?, locate_below disk directory h]
  cases follow disk (pathOf directory).components with
  | error e => rfl
  | ok parent => simp [Except.map, Except.bind]

end Reckoner.Proofs
