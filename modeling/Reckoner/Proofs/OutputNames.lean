import Mathlib.Data.List.TakeWhile
import Mathlib.Tactic
import Reckoner.Path

/-!
# Names of output files

An output file is named by a stem, an underscore and an index, below the directory of its input.
The last underscore of such a name is the one before the index, so the name tells both, whatever
the stem looks like. Two output paths are the same path only if they agree in stem, in index and
in the steps of their directories. A stem is never longer than the name that it is taken from and
keeps its front, so no file is named like one of its own output files.
-/

namespace Reckoner.Proofs
open Reckoner.Path

/-- What can name an entry of a directory. -/
structure IsName (name : List Char) : Prop where
  ne_nil : name ≠ []
  not_slash : '/' ∉ name
  ne_dot : name ≠ ['.']
  ne_dots : name ≠ ['.', '.']

instance (name : List Char) : Decidable (IsName name) :=
  decidable_of_iff (name ≠ [] ∧ '/' ∉ name ∧ name ≠ ['.'] ∧ name ≠ ['.', '.'])
    ⟨fun ⟨hnil, hslash, hdot, hdots⟩ => ⟨hnil, hslash, hdot, hdots⟩,
      fun h => ⟨h.ne_nil, h.not_slash, h.ne_dot, h.ne_dots⟩⟩

lemma IsName.not_idle {name : List Char} (h : IsName name) : isIdle name = false := by
  simp [isIdle, h.ne_nil, h.ne_dot]

/-! ### Pieces of a text -/

lemma pieces_ne_nil (text : List Char) : pieces text ≠ [] := by
  cases text with
  | nil => simp [pieces]
  | cons c rest =>
    simp only [pieces]
    split_ifs
    · simp
    · split <;> simp

lemma pieces_append (left right : List Char) :
    pieces (left ++ '/' :: right) = pieces left ++ pieces right := by
  induction left with
  | nil => simp [pieces]
  | cons c rest ih =>
    simp only [List.cons_append, pieces, ih]
    split_ifs
    · rfl
    · cases hp : pieces rest with
      | nil => exact (pieces_ne_nil rest hp).elim
      | cons first others => rfl

lemma pieces_of_not_slash {text : List Char} (h : '/' ∉ text) : pieces text = [text] := by
  induction text with
  | nil => rfl
  | cons c rest ih =>
    rw [List.mem_cons, not_or] at h
    have hc : ¬(c == '/') := by simpa using Ne.symm h.1
    simp only [pieces, hc, ih h.2]
    rfl

lemma not_slash_of_mem_pieces {text piece : List Char} (h : piece ∈ pieces text) :
    '/' ∉ piece := by
  induction text generalizing piece with
  | nil =>
    rw [pieces, List.mem_singleton] at h
    simp [h]
  | cons c rest ih =>
    simp only [pieces] at h
    split_ifs at h with hc
    · rcases List.mem_cons.mp h with rfl | h
      · simp
      · exact ih h
    · have hslash : '/' ≠ c := by
        rintro rfl
        simp at hc
      split at h
      · rw [List.mem_singleton.mp h]
        simpa using hslash
      · rename_i first others hp
        rcases List.mem_cons.mp h with rfl | h
        · have hfirst : '/' ∉ first := ih (hp ▸ List.mem_cons_self)
          simp [hslash, hfirst]
        · exact ih (hp ▸ List.mem_cons_of_mem first h)

/-- The pieces of a text that lead somewhere. -/
def steps (text : List Char) : List (List Char) :=
  (pieces text).filter (!isIdle ·)

lemma steps_append (left right : List Char) :
    steps (left ++ '/' :: right) = steps left ++ steps right := by
  rw [steps, pieces_append, List.filter_append]
  rfl

lemma steps_slash (text : List Char) : steps ('/' :: text) = steps text := by
  simp [steps, pieces, isIdle]

/-- A text in front of a name, as `below` puts it there. -/
lemma below_cases (directory name : List Char) :
    (directory = [] ∧ below directory name = name) ∨
      (∃ front, directory = front ++ ['/'] ∧ below directory name = front ++ '/' :: name) ∨
      below directory name = directory ++ '/' :: name := by
  rcases List.eq_nil_or_concat directory with rfl | ⟨front, last, rfl⟩
  · exact .inl ⟨rfl, rfl⟩
  · rw [List.concat_eq_append]
    by_cases hlast : last = '/'
    · subst hlast
      exact .inr (.inl ⟨front, rfl, by simp [below]⟩)
    · refine .inr (.inr ?_)
      simp [below]

lemma pieces_below (directory : List Char) {name : List Char} (h : IsName name) :
    ∃ front, pieces (below directory name) = front ++ [name] ∧
      front.filter (!isIdle ·) = steps directory := by
  have hname := pieces_of_not_slash h.not_slash
  rcases below_cases directory name with ⟨rfl, hb⟩ | ⟨front, rfl, hb⟩ | hb
  · exact ⟨[], by rw [hb, hname, List.nil_append], rfl⟩
  · refine ⟨pieces front, by rw [hb, pieces_append, hname], ?_⟩
    rw [steps_append]
    simp [steps, pieces, isIdle]
  · exact ⟨pieces directory, by rw [hb, pieces_append, hname], rfl⟩

lemma steps_below (directory : List Char) {name : List Char} (h : IsName name) :
    steps (below directory name) = steps directory ++ [name] := by
  obtain ⟨front, hpieces, hfront⟩ := pieces_below directory h
  rw [steps, hpieces, List.filter_append, hfront, List.filter_singleton, h.not_idle]
  rfl

/-! ### Components -/

def pathOf (text : List Char) : Path :=
  ⟨String.ofList text⟩

@[simp]
lemma pathOf_toList (text : List Char) : (pathOf text).text.toList = text := by
  simp [pathOf]

/-- What stands before the pieces of a text. -/
def head (text : List Char) : List Char :=
  (splitHead text).1

lemma steps_splitHead (text : List Char) : steps (splitHead text).2 = steps text := by
  unfold splitHead
  split
  · exact (steps_slash _).symm
  · rfl
  · simp [steps, pieces, isIdle]
  · rfl

lemma components_eq (p : Path) :
    p.components =
      Component.ofHead (head p.text.toList) ++ (steps p.text.toList).map Component.ofPiece := by
  rw [← steps_splitHead]
  rfl

lemma head_append_slash {directory : List Char} (h : directory ≠ []) (rest : List Char) :
    head (directory ++ '/' :: rest) = head directory := by
  match directory with
  | [c] =>
    unfold head splitHead
    split <;> split <;> simp_all
  | c :: c' :: more =>
    unfold head splitHead
    split <;> split <;> simp_all

lemma head_of_name {name : List Char} (h : IsName name) : head name = [] := by
  have hslash := h.not_slash
  have hdot := h.ne_dot
  unfold head splitHead
  split <;> simp_all

lemma head_below (directory : List Char) {name : List Char} (h : IsName name) :
    head (below directory name) = head directory := by
  rcases below_cases directory name with ⟨rfl, hb⟩ | ⟨front, rfl, hb⟩ | hb
  · rw [hb, head_of_name h]
    rfl
  · rw [hb]
    rcases eq_or_ne front [] with rfl | hne
    · rfl
    · rw [head_append_slash hne, head_append_slash hne]
  · rcases eq_or_ne directory [] with rfl | hne
    · rw [show below [] name = name from rfl, head_of_name h]
      rfl
    · rw [hb, head_append_slash hne]

/-- A name below a directory is one more step. -/
theorem components_below (directory : List Char) {name : List Char} (h : IsName name) :
    (pathOf (below directory name)).components =
      (pathOf directory).components ++ [.name name] := by
  have hpiece : Component.ofPiece name = .name name := by simp [Component.ofPiece, h.ne_dots]
  rw [components_eq, components_eq, pathOf_toList, pathOf_toList, head_below directory h,
    steps_below directory h, List.map_append, List.append_assoc, List.map_singleton, hpiece]

/-! ### The name at the end of a path -/

lemma joinPieces_cons {first : List Char} {rest : List (List Char)} (h : rest ≠ []) :
    joinPieces (first :: rest) = first ++ '/' :: joinPieces rest := by
  obtain ⟨second, others, rfl⟩ := List.exists_cons_of_ne_nil h
  simp [joinPieces, List.intercalate]

lemma joinPieces_append {left right : List (List Char)} (hleft : left ≠ []) (hright : right ≠ []) :
    joinPieces (left ++ right) = joinPieces left ++ '/' :: joinPieces right := by
  induction left with
  | nil => exact (hleft rfl).elim
  | cons first rest ih =>
    rcases eq_or_ne rest [] with rfl | hne
    · rw [List.singleton_append, joinPieces_cons hright]
      simp [joinPieces, List.intercalate]
    · rw [List.cons_append, joinPieces_cons (by simp [hne]), joinPieces_cons hne, ih hne]
      simp

lemma joinPieces_pieces (text : List Char) : joinPieces (pieces text) = text := by
  induction text with
  | nil => rfl
  | cons c rest ih =>
    simp only [pieces]
    split_ifs with hc
    · rw [joinPieces_cons (pieces_ne_nil rest), ih, beq_iff_eq.mp hc]
      rfl
    · cases hp : pieces rest with
      | nil => exact (pieces_ne_nil rest hp).elim
      | cons first others =>
        rw [hp] at ih
        rcases eq_or_ne others [] with rfl | hne
        · rw [← ih]
          simp [joinPieces, List.intercalate]
        · rw [joinPieces_cons hne] at ih ⊢
          rw [← ih]
          rfl

lemma steps_joinPieces {parts : List (List Char)} (h : ∀ piece ∈ parts, '/' ∉ piece) :
    steps (joinPieces parts) = parts.filter (!isIdle ·) := by
  induction parts with
  | nil => rfl
  | cons first rest ih =>
    rw [List.forall_mem_cons] at h
    have hfirst : steps first = [first].filter (!isIdle ·) := by
      rw [steps, pieces_of_not_slash h.1]
    rcases eq_or_ne rest [] with rfl | hne
    · simpa [joinPieces, List.intercalate] using hfirst
    · rw [joinPieces_cons hne, steps_append, ih h.2, hfirst, ← List.filter_append]
      rfl

lemma exists_idle_behind (parts : List (List Char)) :
    ∃ idle, parts = dropIdle parts ++ idle ∧ ∀ piece ∈ idle, isIdle piece := by
  refine ⟨(parts.reverse.takeWhile isIdle).reverse, ?_, ?_⟩
  · rw [dropIdle, ← List.reverse_append, List.takeWhile_append_dropWhile, List.reverse_reverse]
  · intro piece h
    exact List.mem_takeWhile_imp (List.mem_reverse.mp h)

lemma dropIdle_last {parts front : List (List Char)} {last : List Char}
    (h : dropIdle parts = front ++ [last]) : isIdle last = false := by
  have hhead := List.head?_dropWhile_not isIdle parts.reverse
  rw [show parts.reverse.dropWhile isIdle = last :: front.reverse by
    simpa [dropIdle] using congrArg List.reverse h] at hhead
  exact hhead

lemma text_eq_head_append (text : List Char) : text = head text ++ (splitHead text).2 := by
  unfold head splitHead
  split <;> simp_all

lemma head_head (text : List Char) : head (head text) = head text ∧ steps (head text) = [] := by
  have hcases : head text = ['/'] ∨ head text = ['.'] ∨ head text = [] := by
    unfold head splitHead
    split <;> simp
  rcases hcases with h | h | h <;> rw [h] <;> exact ⟨rfl, rfl⟩

lemma joinPieces_ne_nil {parts : List (List Char)} {piece : List Char} (hmem : piece ∈ parts)
    (hne : piece ≠ []) : joinPieces parts ≠ [] := by
  obtain ⟨front, behind, rfl⟩ := List.append_of_mem hmem
  rcases eq_or_ne behind [] with rfl | hbehind
  · rcases eq_or_ne front [] with rfl | hfront
    · simpa [joinPieces, List.intercalate] using hne
    · rw [joinPieces_append hfront (by simp)]
      simp
  · rcases eq_or_ne front [] with rfl | hfront
    · rw [List.nil_append, joinPieces_cons hbehind]
      simp
    · rw [joinPieces_append hfront (by simp)]
      simp

lemma dropIdle_eq_nil_or (parts : List (List Char)) :
    dropIdle parts = [] ∨ joinPieces (dropIdle parts) ≠ [] := by
  rcases List.eq_nil_or_concat (dropIdle parts) with h | ⟨front, last, h⟩
  · exact .inl h
  · rw [List.concat_eq_append] at h
    have hlast : last ∈ dropIdle parts := by simp [h]
    refine .inr (joinPieces_ne_nil hlast ?_)
    rintro rfl
    exact Bool.noConfusion (dropIdle_last h)

/-- A text that is cut at a separator leads to where its front leads, and on from there. -/
lemma head_steps_of_cut {text : List Char} {front behind : List (List Char)}
    (htext : (splitHead text).2 = joinPieces (front ++ behind)) (hbehind : behind ≠ [])
    (hfront : front = [] ∨ joinPieces front ≠ []) :
    head (head text ++ joinPieces front) = head text ∧
      steps text = steps (head text ++ joinPieces front) ++ steps (joinPieces behind) := by
  rcases eq_or_ne front [] with rfl | hne
  · have hnil : joinPieces ([] : List (List Char)) = [] := rfl
    rw [hnil, List.append_nil, (head_head text).1, (head_head text).2, List.nil_append,
      ← steps_splitHead, htext, List.nil_append]
    exact ⟨rfl, rfl⟩
  · have hcut : text = (head text ++ joinPieces front) ++ '/' :: joinPieces behind := by
      rw [List.append_assoc, ← joinPieces_append hne hbehind, ← htext]
      exact text_eq_head_append text
    have hdirectory : head text ++ joinPieces front ≠ [] :=
      List.append_ne_nil_of_right_ne_nil _ (hfront.resolve_left hne)
    refine ⟨?_, ?_⟩
    · rw [← head_append_slash hdirectory (joinPieces behind), ← hcut]
    · rw [← steps_append, ← hcut]

lemma splitName?_eq_some {p : Path} {directory name : List Char}
    (h : p.splitName? = some (directory, name)) :
    ∃ before, dropIdle (pieces (splitHead p.text.toList).2) = before ++ [name] ∧
      name ≠ ['.', '.'] ∧ directory = head p.text.toList ++ joinPieces (dropIdle before) := by
  simp only [splitName?] at h
  cases hlast : (dropIdle (pieces (splitHead p.text.toList).2)).reverse with
  | nil => simp [hlast] at h
  | cons last before =>
    simp only [hlast] at h
    split_ifs at h with hdots
    cases h
    refine ⟨before.reverse, ?_, hdots, rfl⟩
    simpa using congrArg List.reverse hlast

/-- The name that `splitName?` finds is the last component, and the directory has the others. -/
theorem components_of_splitName? {p : Path} {directory name : List Char}
    (h : p.splitName? = some (directory, name)) :
    IsName name ∧ p.components = (pathOf directory).components ++ [.name name] := by
  obtain ⟨before, hdrop, hdots, rfl⟩ := splitName?_eq_some h
  obtain ⟨idle, hpieces, hidle⟩ := exists_idle_behind (pieces (splitHead p.text.toList).2)
  obtain ⟨idle', hbefore, hidle'⟩ := exists_idle_behind before
  have hparts : pieces (splitHead p.text.toList).2 =
      dropIdle before ++ (idle' ++ name :: idle) := by
    rw [hpieces, hdrop, ← List.append_assoc (dropIdle before), ← hbefore, List.append_assoc]
    rfl
  have hslash : ∀ piece ∈ dropIdle before ++ (idle' ++ name :: idle), '/' ∉ piece :=
    fun piece hp => not_slash_of_mem_pieces (hparts ▸ hp)
  have hlast := dropIdle_last hdrop
  simp only [isIdle, Bool.or_eq_false_iff, beq_eq_false_iff_ne] at hlast
  have hname : IsName name := ⟨hlast.1, hslash name (by simp), hlast.2, hdots⟩
  -- What comes after the directory is the name, with nothing around it that leads anywhere.
  have hsteps : steps (joinPieces (idle' ++ name :: idle)) = [name] := by
    have hnone : idle.filter (!isIdle ·) = [] ∧ idle'.filter (!isIdle ·) = [] := by
      simp only [List.filter_eq_nil_iff, Bool.not_eq_true', Bool.not_eq_false]
      exact ⟨hidle, hidle'⟩
    rw [steps_joinPieces fun piece hp => hslash piece (List.mem_append_right _ hp),
      List.filter_append, hnone.2, List.filter_cons, hnone.1, hname.not_idle]
    rfl
  have htext : (splitHead p.text.toList).2 =
      joinPieces (dropIdle before ++ (idle' ++ name :: idle)) := by
    rw [← hparts, joinPieces_pieces]
  obtain ⟨hhead, hall⟩ := head_steps_of_cut htext (by simp) (dropIdle_eq_nil_or before)
  have hpiece : Component.ofPiece name = .name name := by simp [Component.ofPiece, hdots]
  refine ⟨hname, ?_⟩
  rw [components_eq, components_eq, pathOf_toList, hhead, hall, hsteps, List.map_append,
    List.append_assoc, List.map_singleton, hpiece]

lemma filter_dropIdle (parts : List (List Char)) :
    (dropIdle parts).filter (!isIdle ·) = parts.filter (!isIdle ·) := by
  obtain ⟨idle, hparts, hidle⟩ := exists_idle_behind parts
  have hnone : idle.filter (!isIdle ·) = [] := by
    simpa only [List.filter_eq_nil_iff, Bool.not_eq_true', Bool.not_eq_false] using hidle
  conv_rhs => rw [hparts, List.filter_append, hnone, List.append_nil]

theorem exists_splitName? {p : Path} {before : List Component} {name : List Char}
    (h : p.components = before ++ [.name name]) :
    ∃ directory, p.splitName? = some (directory, name) := by
  have hcomponents : p.components = Component.ofHead (head p.text.toList) ++
      ((dropIdle (pieces (splitHead p.text.toList).2)).filter (!isIdle ·)).map
        Component.ofPiece := by
    rw [filter_dropIdle]
    rfl
  rw [h] at hcomponents
  rcases List.eq_nil_or_concat (dropIdle (pieces (splitHead p.text.toList).2)) with
    hd | ⟨front, last, hd⟩
  · have hhead : Component.name name ∈ Component.ofHead (head p.text.toList) := by
      rw [hd, List.filter_nil, List.map_nil, List.append_nil] at hcomponents
      exact hcomponents ▸ by simp
    unfold Component.ofHead at hhead
    split at hhead <;> simp at hhead
  · rw [List.concat_eq_append] at hd
    have hlast : Component.name name = Component.ofPiece last := by
      rw [hd, List.filter_append, List.filter_singleton, dropIdle_last hd, List.map_append,
        ← List.append_assoc] at hcomponents
      exact (List.append_singleton_inj.mp hcomponents).2
    have hdots : last ≠ ['.', '.'] := by
      rintro rfl
      cases hlast
    rw [Component.ofPiece, if_neg hdots, Component.name.injEq] at hlast
    subst hlast
    simp only [splitName?, hd, List.reverse_append, List.reverse_singleton, List.singleton_append,
      if_neg hdots]
    exact ⟨_, rfl⟩

/-! ### Stems and indices -/

lemma stem_subset (name : List Char) : stem name ⊆ name := by
  unfold stem
  split
  · rename_i before h
    split_ifs
    · exact List.Subset.refl _
    · intro c hc
      have hdrop : c ∈ name.reverse.dropWhile (· != '.') := by
        rw [h]
        exact List.mem_cons_of_mem _ (List.mem_reverse.mp hc)
      exact List.mem_reverse.mp ((List.dropWhile_sublist _).subset hdrop)
  · exact List.Subset.refl _

/-- A name is its stem, or its stem with an extension. -/
lemma stem_cases (name : List Char) :
    name = stem name ∨ ∃ extension, name = stem name ++ '.' :: extension := by
  unfold stem
  cases hdrop : name.reverse.dropWhile (· != '.') with
  | nil => exact .inl rfl
  | cons dot before =>
    by_cases hempty : before.isEmpty
    · exact .inl (by simp [hempty])
    · have hdot := List.head?_dropWhile_not (· != '.') name.reverse
      simp only [hdrop, List.head?_cons, bne_eq_false_iff_eq] at hdot
      have hsplit := List.takeWhile_append_dropWhile (p := (· != '.')) (l := name.reverse)
      have hname := congrArg List.reverse hsplit
      simp only [hdrop, hdot, List.reverse_append, List.reverse_cons, List.reverse_reverse] at hname
      refine .inr ⟨(name.reverse.takeWhile (· != '.')).reverse, ?_⟩
      simpa [hempty] using hname.symm

/-- The name of the output file with the given index. -/
def outputName (stem : List Char) (index : Nat) : List Char :=
  stem ++ '_' :: (toString index).toList

/-- No file has the name of one of its own output files. -/
lemma outputName_stem_ne (name : List Char) (index : Nat) :
    outputName (stem name) index ≠ name := by
  intro heq
  unfold outputName at heq
  rcases stem_cases name with hname | ⟨extension, hname⟩
  · have hlength := congrArg List.length heq
    rw [← hname, List.length_append, List.length_cons] at hlength
    omega
  · have hdot := heq.trans hname
    rw [List.append_cancel_left_eq] at hdot
    simp at hdot

/-- The directory of the output files of a path. -/
def outputDirectory (p : Path) : List Char :=
  match p.splitName? with
  | some (directory, _) => directory
  | none => p.text.toList

/-- What the names of the output files of a path begin with. -/
def outputStem (p : Path) : List Char :=
  match p.splitName? with
  | some (_, name) => stem name
  | none => []

lemma output_eq (p : Path) (index : Nat) :
    p.output index = pathOf (below (outputDirectory p) (outputName (outputStem p) index)) := by
  unfold Path.output outputDirectory outputStem
  cases p.splitName? <;> rfl

lemma outputStem_not_slash (p : Path) : '/' ∉ outputStem p := by
  unfold outputStem
  cases h : p.splitName? with
  | none => simp
  | some found =>
    intro hmem
    exact (components_of_splitName? h).1.not_slash (stem_subset _ hmem)

lemma index_toList (index : Nat) : (toString index).toList = Nat.toDigits 10 index := by
  rw [Nat.toString_eq_ofList_toDigits, String.toList_ofList]

lemma isName_outputName {stem : List Char} (h : '/' ∉ stem) (index : Nat) :
    IsName (outputName stem index) := by
  have hdigits : '/' ∉ Nat.toDigits 10 index := by
    intro hmem
    exact absurd (Nat.isDigit_of_mem_toDigits (by decide) (by decide) hmem) (by decide)
  have hscore : '_' ∈ outputName stem index := by simp [outputName]
  have hslash : '/' ∉ outputName stem index := by
    rw [outputName, index_toList]
    simp [h, hdigits]
  refine ⟨?_, hslash, ?_, ?_⟩
  · exact List.ne_nil_of_mem hscore
  · intro heq
    rw [heq] at hscore
    exact absurd hscore (by decide)
  · intro heq
    rw [heq] at hscore
    exact absurd hscore (by decide)

lemma isName_output (p : Path) (index : Nat) : IsName (outputName (outputStem p) index) :=
  isName_outputName (outputStem_not_slash p) index

/-- The digits after the last underscore are the index, and the stem is what stands before it. -/
theorem outputName_inj {s t : List Char} {i j : Nat} :
    outputName s i = outputName t j ↔ s = t ∧ i = j := by
  constructor
  · intro h
    have hindex : ∀ (u : List Char) (n : Nat),
        (outputName u n).reverse.takeWhile (· != '_') = (toString n).toList.reverse := by
      intro u n
      have hdigits : ∀ c ∈ (toString n).toList.reverse, (c != '_') = true := by
        intro c hc
        rw [List.mem_reverse, index_toList] at hc
        rw [bne_iff_ne]
        rintro rfl
        exact Nat.underscore_not_in_toDigits hc
      rw [outputName, List.reverse_append, List.reverse_cons, List.append_assoc,
        List.takeWhile_append_of_pos hdigits]
      simp
    have hdigits : (toString i).toList = (toString j).toList := by
      rw [← List.reverse_inj, ← hindex s, ← hindex t, h]
    obtain rfl : i = j := by
      rw [index_toList, index_toList] at hdigits
      rw [← Nat.ofDigitChars_ten_toDigits (n := i), hdigits, Nat.ofDigitChars_ten_toDigits]
    exact ⟨List.append_cancel_right h, rfl⟩
  · rintro ⟨rfl, rfl⟩
    rfl

/-- Two outputs are the same path if and only if they agree in index, in stem and in the steps of
their directories. -/
theorem same_output_iff (p q : Path) (i j : Nat) :
    (p.output i).same (q.output j) ↔
      i = j ∧ outputStem p = outputStem q ∧
        (pathOf (outputDirectory p)).components = (pathOf (outputDirectory q)).components := by
  rw [Path.same, decide_eq_true_iff, output_eq, output_eq, components_below _ (isName_output p i),
    components_below _ (isName_output q j), List.append_singleton_inj, Component.name.injEq,
    outputName_inj]
  exact ⟨fun ⟨hd, hs, hi⟩ => ⟨hi, hs, hd⟩, fun ⟨hi, hs, hd⟩ => ⟨hd, hs, hi⟩⟩

/-- Output files with different indices are different, and one index tells for all whether two paths
have the same output files. -/
theorem same_output_iff_first (p q : Path) (i j : Nat) :
    (p.output i).same (q.output j) ↔ i = j ∧ (p.output 0).same (q.output 0) := by
  rw [same_output_iff p q i j, same_output_iff p q 0 0]
  exact ⟨fun ⟨hindex, hrest⟩ => ⟨hindex, rfl, hrest⟩, fun ⟨hindex, _, hrest⟩ => ⟨hindex, hrest⟩⟩

theorem not_same_self (p : Path) (index : Nat) : (p.output index).same p = false := by
  have hname := isName_output p index
  rw [Path.same, decide_eq_false_iff_not, output_eq, components_below _ hname]
  unfold outputDirectory outputStem
  cases hsplit : p.splitName? with
  | none =>
    intro hsame
    have hlength := congrArg List.length hsame
    rw [show pathOf p.text.toList = p by simp [pathOf], List.length_append] at hlength
    simp at hlength
  | some found =>
    obtain ⟨directory, name⟩ := found
    rw [(components_of_splitName? hsplit).2, List.append_singleton_inj, Component.name.injEq]
    exact fun hsame => outputName_stem_ne name index hsame.2

/-! ### Entries of one directory -/

/-- The path of an entry of a directory. -/
def inside (directory name : List Char) : Path :=
  pathOf (below directory name)

lemma splitName?_inside (directory : List Char) {name : List Char} (h : IsName name) :
    ∃ front, (inside directory name).splitName? = some (front, name) ∧
      (pathOf front).components = (pathOf directory).components := by
  have hcomponents := components_below directory h
  obtain ⟨front, hsplit⟩ := exists_splitName? hcomponents
  have hfront := (components_of_splitName? hsplit).2
  rw [hcomponents] at hfront
  exact ⟨front, hsplit, (List.append_cancel_right hfront).symm⟩

lemma outputStem_inside (directory : List Char) {name : List Char} (h : IsName name) :
    outputStem (inside directory name) = stem name := by
  obtain ⟨front, hsplit, _⟩ := splitName?_inside directory h
  simp only [outputStem, hsplit]

lemma components_outputDirectory_inside (directory : List Char) {name : List Char}
    (h : IsName name) :
    (pathOf (outputDirectory (inside directory name))).components =
      (pathOf directory).components := by
  obtain ⟨front, hsplit, hfront⟩ := splitName?_inside directory h
  simp only [outputDirectory, hsplit, hfront]

lemma output_same_inside (directory : List Char) {name other : List Char} (h : IsName name)
    (hother : IsName other) (i : Nat) :
    ((inside directory name).output i).same (inside directory other) ↔
      outputName (stem name) i = other := by
  rw [Path.same, decide_eq_true_iff, output_eq, components_below _ (isName_output _ i),
    outputStem_inside directory h, components_outputDirectory_inside directory h, inside,
    components_below directory hother, List.append_singleton_inj, Component.name.injEq]
  tauto

end Reckoner.Proofs
