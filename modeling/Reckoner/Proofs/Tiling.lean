import Mathlib.Tactic
import Reckoner.Proofs.Stretches

/-!
# Tiling

The raw lexemes of a text tile it: they follow one another without overlap, and only skipped blanks
lie between them. Which stretch of a text is a lexeme can be told from the text alone. Numbers are
the longest runs of digits and dots that start with a digit, `log(` is one lexeme wherever it
stands, and what is invalid is one character that starts nothing.
-/

namespace Reckoner.Proofs
open Lexeme Text

/-! ### Numbers -/

section

variable {text : String} {s s' : Stretch text} {x : Item}

lemma LongestMatch.isNumber_of_digit (h : LongestMatch x s) {c : Char} (hc : c ∈ s.own)
    (hdigit : c.isDigit) : x.isNumber := by
  cases h with
  | lexeme h _ =>
    generalize s.own = own at h hc
    generalize hcontent : x.content = content at h
    cases h with
    | symbol hsymbol =>
      rw [List.mem_singleton.mp hc, (symbol?_eq_some hsymbol).1] at hdigit
      cases hdigit
    | logOpen | strayLetter => fin_cases hc <;> cases hdigit
    | number | invalidFloat => simp [Item.isNumber, hcontent]
  | invalid hown _ hnone =>
    rw [hown, List.mem_singleton] at hc
    subst hc
    exact (hnone [] _ ((pattern_of_digit hdigit).mpr ⟨by simp, rfl⟩)).elim

lemma LongestMatch.numeric (h : LongestMatch x s) (hx : x.isNumber) :
    Numeric s.own ∧ EndsNumber s.after := by
  cases h with
  | lexeme h hlongest =>
    have hnumeric : Numeric s.own := by
      unfold Item.isNumber at hx
      split at hx
      · rename_i hcontent
        exact (hcontent ▸ h).of_number.1
      · rename_i hcontent
        exact (hcontent ▸ h).kind_eq.2.1
      · cases hx
    refine ⟨hnumeric, fun c hc => ?_⟩
    by_contra hcontinues
    obtain ⟨rest, hafter⟩ := List.head?_eq_some_iff.mp hc
    obtain ⟨d, tail, hown⟩ := List.exists_cons_of_ne_nil hnumeric.ne_nil
    rw [hown] at hnumeric
    obtain ⟨hd, htail⟩ := numeric_cons_iff.mp hnumeric
    have hlonger : Pattern (s.own ++ [c]) (ofNumber (s.own ++ [c])) := by
      rw [hown, List.cons_append, pattern_of_digit hd]
      refine ⟨fun e he => ?_, rfl⟩
      rcases List.mem_append.mp he with he | he
      · exact htail e he
      · rw [List.mem_singleton.mp he]
        simpa using hcontinues
    have hle := hlongest _ _ ⟨rest, by simp [hafter]⟩ hlonger
    simp at hle
  | invalid _ hcontent _ => simp [Item.isNumber, hcontent] at hx

/-- No number reaches across the end of a number lexeme. -/
lemma not_numeric_across (hends : EndsNumber s.after) (hnumeric : Numeric s'.own)
    (hstart : s'.start ≤ s.stop) (hstop : s.stop < s'.stop) : False := by
  rw [s.stop_eq] at hstart hstop
  rw [s'.stop_eq] at hstop
  obtain ⟨inside, hinside⟩ := prefix_of_byteLength_le s'.before_prefix ⟨_, s.whole⟩ hstart
  obtain ⟨across, hacross⟩ := prefix_of_byteLength_le ⟨_, s.whole⟩ ⟨_, s'.whole⟩ hstop.le
  have hne : across ≠ [] := by
    rintro rfl
    rw [← hacross, List.append_nil] at hstop
    exact hstop.false
  obtain ⟨c, rest, rfl⟩ := List.exists_cons_of_ne_nil hne
  have hown : s'.own = inside ++ c :: rest := by
    rw [← hinside, List.append_assoc, List.append_cancel_left_eq] at hacross
    exact hacross.symm
  have hafter : s.after = c :: rest ++ s'.after := by
    have hwhole := s.whole.trans s'.whole.symm
    rw [← hacross, List.append_assoc (s.before ++ s.own), List.append_cancel_left_eq] at hwhole
    exact hwhole
  have hc := hnumeric.continues c (by simp [hown])
  rw [hends c (by simp [hafter])] at hc
  cases hc

/-- The first digit of a number lies in a number lexeme. -/
lemma exists_number_around (hs : Numeric s.own) : ∃ x ∈ scan text, ∃ s' : Stretch text,
    x.Covers s' ∧ x.isNumber ∧ EndsNumber s'.after ∧ s'.start ≤ s.start ∧ s.start < s'.stop := by
  obtain ⟨d, rest, hown⟩ := List.exists_cons_of_ne_nil hs.ne_nil
  rw [hown] at hs
  obtain ⟨hd, hrest⟩ := numeric_cons_iff.mp hs
  have hvisible : isSkipped d = false :=
    ((pattern_of_digit hd).mpr ⟨hrest, rfl⟩).visible d List.mem_cons_self
  obtain ⟨x, hx, s', hcovers, hlongest, left, right, hown', hbefore⟩ :=
    exists_around s hown hvisible
  have hnumber := hlongest.isNumber_of_digit (by simp [hown']) hd
  have hsize : 0 < d.utf8Size := Char.utf8Size_pos d
  refine ⟨x, hx, s', hcovers, hnumber, (hlongest.numeric hnumber).2, ?_⟩
  simp only [Stretch.start, Stretch.stop, hbefore, hown', byteLength_append, byteLength_cons]
  omega

/-- Number lexemes are the longest runs of digits and dots that start with a digit. -/
lemma exists_number_iff :
    (∃ x ∈ scan text, x.Covers s ∧ x.isNumber) ↔
      Maximal (fun s : Stretch text => Numeric s.own) s := by
  constructor
  · rintro ⟨x, hx, hcovers, hnumber⟩
    obtain ⟨s₀, hcovers₀, _, _, hlongest⟩ := exists_stretch_of_mem hx
    obtain rfl := hcovers₀.unique hcovers
    obtain ⟨hnumeric, hends⟩ := hlongest.numeric hnumber
    refine ⟨hnumeric, fun s' hs' hle => ⟨?_, ?_⟩⟩
    · by_contra hlt
      rw [not_le] at hlt
      -- The number that holds the first digit of `s'` would end before `s`, and inside `s'`.
      obtain ⟨y, hy, sy, hcoversy, _, hendsy, hstart, hstop⟩ := exists_number_around hs'
      have hwidth : x.start < x.stop := ((scanFrom_ordered 0 text.toList).1 x hx).2
      have hle' := hle.2
      rw [hcovers.start, hcovers.stop] at hwidth
      by_cases hoverlap : s₀.start < sy.stop
      · obtain rfl := eq_of_overlap hx hy (by rwa [hcovers.start, hcoversy.stop])
          (by rw [hcovers.stop, hcoversy.start]; omega)
        obtain rfl := hcoversy.unique hcovers
        omega
      · exact not_numeric_across hendsy hs' hstop.le (by omega)
    · by_contra hlt
      exact not_numeric_across hends hs' (hle.1.trans (Nat.le_add_right _ _)) (not_le.mp hlt)
  · rintro ⟨hnumeric, hmax⟩
    obtain ⟨y, hy, sy, hcovers, hnumber, hends, hstart, hstop⟩ := exists_number_around hnumeric
    have hle : s ≤ sy := by
      refine ⟨hstart, ?_⟩
      by_contra hlt
      exact not_numeric_across hends hnumeric hstop.le (not_le.mp hlt)
    have hnumericy := ((longestMatch_of_covers hy hcovers).numeric hnumber).1
    have hge : sy ≤ s := hmax hnumericy hle
    obtain rfl := Stretch.eq_of_bounds (hge.1.antisymm hle.1) (hle.2.antisymm hge.2)
    exact ⟨y, hy, hcovers, hnumber⟩

end

/-! ### The letter -/

section

variable {text : String} {s : Stretch text} {x : Item}

/-- Every `l` starts a lexeme. -/
lemma exists_letter {rest : List Char} (hown : s.own = 'l' :: rest) :
    ∃ x ∈ scan text, ∃ s' : Stretch text, x.Covers s' ∧ s'.before = s.before ∧
      (s'.own = ['l', 'o', 'g', '('] ∧ x.content = .ok .logOpen ∨
        s'.own = ['l'] ∧ x.content = .ok .strayLetter ∧ ¬['o', 'g', '('] <+: s'.after) := by
  obtain ⟨x, hx, s', hcovers, hlongest, left, right, hown', hbefore⟩ := exists_around s hown rfl
  cases hlongest with
  | lexeme h hlongest =>
    rw [hown'] at h
    obtain rfl : left = [] := by
      cases left with
      | nil => rfl
      | cons d left => exact (h.letter_not_mem (by simp)).elim
    refine ⟨x, hx, s', hcovers, by simp [hbefore], ?_⟩
    rw [List.nil_append] at h hown'
    rcases pattern_of_letter.mp h with ⟨rfl, hcontent⟩ | ⟨rfl, hcontent⟩
    · exact .inl ⟨hown', hcontent⟩
    · refine .inr ⟨hown', hcontent, fun ⟨later, hafter⟩ => ?_⟩
      have hle := hlongest _ _ ⟨later, by rw [hown', ← hafter]; rfl⟩ Pattern.logOpen
      simp [hown'] at hle
  | invalid hsingle hcontent hnone =>
    rw [hown'] at hsingle
    obtain ⟨rfl, rfl⟩ : left = [] ∧ right = [] := by
      cases left <;> simp_all
    obtain rfl := (List.cons.inj hsingle).1
    exact (hnone [] _ Pattern.strayLetter).elim

lemma exists_logOpen_iff :
    (∃ x ∈ scan text, x.Covers s ∧ x.content = .ok .logOpen) ↔ s.own = ['l', 'o', 'g', '('] := by
  constructor
  · rintro ⟨x, hx, hcovers, hcontent⟩
    cases longestMatch_of_covers hx hcovers with
    | lexeme h _ => exact (hcontent ▸ h).spelled nofun
    | invalid _ hinvalid _ => simp [hcontent] at hinvalid
  · intro hown
    obtain ⟨x, hx, s', hcovers, hbefore, ⟨hown', hcontent⟩ | ⟨hown', _, hnot⟩⟩ := exists_letter hown
    · have hstart : s'.start = s.start := congrArg byteLength hbefore
      have hstop : s'.stop = s.stop := by rw [Stretch.stop, Stretch.stop, hstart, hown, hown']
      obtain rfl := Stretch.eq_of_bounds hstart hstop
      exact ⟨x, hx, hcovers, hcontent⟩
    · have hwhole := s'.whole.trans s.whole.symm
      rw [hbefore, hown, hown', List.append_assoc, List.append_assoc,
        List.append_cancel_left_eq] at hwhole
      exact (hnot ⟨s.after, (List.cons.inj hwhole).2.symm⟩).elim

lemma exists_strayLetter_iff : (∃ x ∈ scan text, x.Covers s ∧ x.content = .ok .strayLetter) ↔
    s.own = ['l'] ∧ ¬['o', 'g', '('] <+: s.after := by
  constructor
  · rintro ⟨x, hx, hcovers, hcontent⟩
    cases longestMatch_of_covers hx hcovers with
    | lexeme h hlongest =>
      have hown : s.own = ['l'] := (hcontent ▸ h).spelled nofun
      refine ⟨hown, fun ⟨later, hafter⟩ => ?_⟩
      have hle := hlongest _ _ ⟨later, by rw [hown, ← hafter]; rfl⟩ Pattern.logOpen
      simp [hown] at hle
    | invalid _ hinvalid _ => simp [hcontent] at hinvalid
  · rintro ⟨hown, hnot⟩
    obtain ⟨x, hx, s', hcovers, hbefore, ⟨hown', _⟩ | ⟨hown', hcontent, _⟩⟩ := exists_letter hown
    · have hwhole := s'.whole.trans s.whole.symm
      rw [hbefore, hown, hown', List.append_assoc, List.append_assoc,
        List.append_cancel_left_eq] at hwhole
      exact (hnot ⟨s'.after, (List.cons.inj hwhole).2⟩).elim
    · have hstart : s'.start = s.start := congrArg byteLength hbefore
      have hstop : s'.stop = s.stop := by rw [Stretch.stop, Stretch.stop, hstart, hown, hown']
      obtain rfl := Stretch.eq_of_bounds hstart hstop
      exact ⟨x, hx, hcovers, hcontent⟩

end

/-! ### The tiling -/

/-- The items lie in the text without overlap, leave out nothing but blanks, and are what the text
says they must be. -/
structure Tiles (text : String) (items : List Item) : Prop where
  ordered : items.Pairwise fun x y => x.stop ≤ y.start
  covers : ∀ x ∈ items, ∃ s : Stretch text, s.own ≠ [] ∧ x.Covers s ∧ LongestMatch x s
  skipped : ∀ (s : Stretch text) (c : Char), s.own = [c] →
    ((∀ x ∈ items, ¬(x.start ≤ s.start ∧ s.stop ≤ x.stop)) ↔ c ∈ [' ', '\t', '\r', '\n', '\x0c'])
  number : ∀ s : Stretch text, (∃ x ∈ items, x.Covers s ∧ x.isNumber) ↔
    Maximal (fun s : Stretch text => Numeric s.own) s
  logOpen : ∀ s : Stretch text, (∃ x ∈ items, x.Covers s ∧ x.content = .ok .logOpen) ↔
    s.own = ['l', 'o', 'g', '(']
  strayLetter : ∀ s : Stretch text, (∃ x ∈ items, x.Covers s ∧ x.content = .ok .strayLetter) ↔
    s.own = ['l'] ∧ ¬['o', 'g', '('] <+: s.after
  invalidInput : ∀ x ∈ items, x.content = .error .invalidInput →
    ∃ (s : Stretch text) (c : Char), x.Covers s ∧ s.own = [c] ∧ StartsNothing c
  resumed : ∀ before x after, items = before ++ x :: after → ∀ s : Stretch text, x.Covers s →
    after = (scan (String.ofList s.after)).map (Item.shift s.stop)

lemma isSkipped_iff {c : Char} : isSkipped c ↔ c ∈ [' ', '\t', '\r', '\n', '\x0c'] := by
  simp [isSkipped, or_assoc]

/-- The raw lexemes of a text tile it. -/
theorem scan_tiles (text : String) : Tiles text (scan text) where
  ordered := (scanFrom_ordered 0 text.toList).2
  covers := by
    intro x hx
    obtain ⟨s, hcovers, hne, _, hlongest⟩ := exists_stretch_of_mem hx
    exact ⟨s, hne, hcovers, hlongest⟩
  skipped := by
    intro s c hown
    rw [← isSkipped_iff]
    constructor
    · intro houtside
      by_contra hvisible
      obtain ⟨x, hx, s', hcovers, _, left, right, hown', hbefore⟩ :=
        exists_around s hown (by simpa using hvisible)
      refine houtside x hx ?_
      rw [hcovers.start, hcovers.stop]
      simp only [Stretch.start, Stretch.stop, hown, hown', hbefore, byteLength_append,
        byteLength_cons, byteLength_nil]
      omega
    · rintro hskipped x hx ⟨hstart, hstop⟩
      obtain ⟨s', hcovers, _, hvisible, _⟩ := exists_stretch_of_mem hx
      rw [hcovers.start] at hstart
      rw [hcovers.stop] at hstop
      obtain ⟨left, right, hown', _⟩ := Stretch.exists_of_le ⟨hstart, hstop⟩
      have hc := hvisible c (by simp [hown', hown])
      simp [hskipped] at hc
  number := fun _ => exists_number_iff
  logOpen := fun _ => exists_logOpen_iff
  strayLetter := fun _ => exists_strayLetter_iff
  invalidInput := by
    intro x hx hcontent
    obtain ⟨s, hcovers, _, _, hlongest⟩ := exists_stretch_of_mem hx
    cases hlongest with
    | lexeme h _ => cases (hcontent ▸ h).kind_eq.1
    | @invalid c hown _ hnone => exact ⟨s, c, hcovers, hown, hnone⟩
  resumed := by
    intro before x after hitems s hcovers
    obtain ⟨s', hcovers', _, _, _, hafter⟩ := exists_stretch hitems
    obtain rfl := hcovers'.unique hcovers
    rw [hafter, scan, String.toList_ofList, ← scanFrom_shift, Nat.add_zero]

end Reckoner.Proofs
