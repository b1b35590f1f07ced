import Mathlib.Tactic
import Reckoner.Proofs.Placement

/-!
# Spans

The spans of the items of a text are not empty and follow one another without overlap, so an offset
lies on one item at most. The last visible character of a text is a product only if all characters
behind it are blank, and then none of them makes more than an invalid item of its own.
-/

namespace Reckoner.Proofs
open Lexeme Text

/-! ### Order -/

lemma scanFrom_ordered (offset : Nat) (text : List Char) :
    (∀ x ∈ scanFrom offset text, offset ≤ x.start ∧ x.start < x.stop) ∧
      (scanFrom offset text).Pairwise fun x y => x.stop ≤ y.start := by
  fun_induction scanFrom offset text with
  | case1 => simp
  | case2 offset c rest hc ih =>
    refine ⟨fun x hx => ?_, ih.2⟩
    obtain ⟨hstart, hstop⟩ := ih.1 x hx
    exact ⟨by omega, hstop⟩
  | case3 offset c rest hc found stop ih =>
    have hsize : 0 < c.utf8Size := Char.utf8Size_pos c
    have hlt : offset < stop := by
      change offset < offset + c.utf8Size + byteLength (rest.take found.2)
      omega
    refine ⟨List.forall_mem_cons.mpr ⟨⟨le_rfl, hlt⟩, fun x hx => ?_⟩, ?_⟩
    · obtain ⟨hstart, hstop⟩ := ih.1 x hx
      exact ⟨by omega, hstop⟩
    · exact .cons (fun x hx => (ih.1 x hx).1) ih.2

/-- The number of the lexeme that spans the offset. -/
def lexemeAt (text : String) (offset : Nat) : Option Nat :=
  (scan text).findIdx? fun x => x.start ≤ offset && offset < x.stop

section

variable {text : String} {before after : List Item} {x y : Item}

lemma scan_start_lt_stop (h : scan text = before ++ x :: after) : x.start < x.stop := by
  have hmem : x ∈ scan text := by simp [h]
  exact ((scanFrom_ordered 0 text.toList).1 x hmem).2

lemma scan_stop_le (h : scan text = before ++ x :: after) (hy : y ∈ before) : y.stop ≤ x.start := by
  have hordered := (scanFrom_ordered 0 text.toList).2
  change (scan text).Pairwise _ at hordered
  rw [h, List.pairwise_append] at hordered
  exact hordered.2.2 y hy x List.mem_cons_self

lemma lexemeAt_eq (h : scan text = before ++ x :: after) {offset : Nat} (hstart : x.start ≤ offset)
    (hstop : offset < x.stop) : lexemeAt text offset = some before.length := by
  have hnone : before.findIdx? (fun y => y.start ≤ offset && offset < y.stop) = none := by
    rw [List.findIdx?_eq_none_iff]
    intro y hy
    have hle := scan_stop_le h hy
    simp only [Bool.and_eq_false_iff, decide_eq_false_iff_not]
    omega
  rw [lexemeAt, h, List.findIdx?_append, hnone, Option.none_or, List.findIdx?_cons]
  simp [hstart, hstop]

lemma lexemeAt_start (h : scan text = before ++ x :: after) :
    lexemeAt text x.start = some before.length :=
  lexemeAt_eq h le_rfl (scan_start_lt_stop h)

end

/-! ### The last visible character -/

lemma first_invalidInput {c : Char} {rest : List Char}
    (h : (first c rest).1 = .error .invalidInput) : (first c rest).2 = 0 := by
  revert h
  refine first_cases (P := fun result => result.1 = .error .invalidInput → result.2 = 0) c rest
    (fun _ _ _ _ => nofun) ?_ (fun _ => rfl)
  intro h
  simp only [Lexeme.ofNumber] at h
  split_ifs at h
  cases h

lemma first_of_blank {c : Char} (hc : isBlank c) (rest : List Char) :
    (first c rest).1 = .error .invalidInput := by
  have hdigit : ¬c.isDigit := fun hdigit => by simp [isDigit_not_blank hdigit] at hc
  have hsymbol : c ∉ ['+', '-', '*', '/', '^', '(', ')', ',', 'l'] := by
    intro hmem
    fin_cases hmem <;> cases hc
  simp only [List.mem_cons, List.not_mem_nil, or_false, not_or] at hsymbol
  simp [first, hsymbol, hdigit]

/-- Among blanks there are no lexemes, only invalid characters. -/
lemma scanFrom_of_blank {text : List Char} (h : ∀ c ∈ text, isBlank c) (offset : Nat) :
    ∀ x ∈ scanFrom offset text, x.content = .error .invalidInput := by
  fun_induction scanFrom offset text with
  | case1 => simp
  | case2 offset c rest hc ih => exact ih fun d hd => h d (List.mem_cons_of_mem _ hd)
  | case3 offset c rest hc found stop ih =>
    rw [List.forall_mem_cons]
    refine ⟨first_of_blank (h c List.mem_cons_self) rest, ih fun d hd => ?_⟩
    exact h d (List.mem_cons_of_mem _ (List.mem_of_mem_drop hd))

/-- Invalid characters are items of one character each. -/
lemma length_scanFrom_of_invalid {text : List Char} {offset : Nat}
    (h : ∀ x ∈ scanFrom offset text, x.content = .error .invalidInput) :
    (scanFrom offset text).length = (text.filter (!isSkipped ·)).length := by
  fun_induction scanFrom offset text with
  | case1 => rfl
  | case2 offset c rest hc ih =>
    rw [List.filter_cons_of_neg (by simp [hc])]
    exact ih h
  | case3 offset c rest hc found stop ih =>
    obtain ⟨hfirst, hrest⟩ := List.forall_mem_cons.mp h
    have hwidth : found.2 = 0 := first_invalidInput hfirst
    rw [List.filter_cons_of_pos (by simp [hc]), List.length_cons, List.length_cons, ih hrest,
      hwidth, List.drop_zero]

/-- What has the same items as some blanks has as many visible characters. -/
lemma length_visible_eq {blanks text : List Char} {offset offset' : Nat}
    (hblank : ∀ c ∈ blanks, isBlank c)
    (h : (scanFrom offset blanks).map Item.content = (scanFrom offset' text).map Item.content) :
    (blanks.filter (!isSkipped ·)).length = (text.filter (!isSkipped ·)).length := by
  have hinvalid := scanFrom_of_blank hblank offset
  have hinvalid' : ∀ y ∈ scanFrom offset' text, y.content = .error .invalidInput := by
    intro y hy
    have hmem : y.content ∈ (scanFrom offset blanks).map Item.content :=
      h ▸ List.mem_map_of_mem hy
    obtain ⟨z, hz, hcontent⟩ := List.mem_map.mp hmem
    rw [← hcontent, hinvalid z hz]
  have hlength := congrArg List.length h
  rw [List.length_map, List.length_map] at hlength
  rw [← length_scanFrom_of_invalid hinvalid, hlength, length_scanFrom_of_invalid hinvalid']

/-- A product is the last visible character if and only if nothing but blanks follows. -/
lemma last_iff {text : String} {before after : List Item} {x : Item}
    (h : scan text = before ++ x :: after) (hx : x.isProduct) :
    ∃ earlier c later, text.toList = earlier ++ c :: later ∧ isSkipped c = false ∧
      after = scanFrom x.stop later ∧
      (some x.start = lastVisible? text.toList ↔ ∀ d ∈ later, isBlank d) := by
  obtain ⟨earlier, c, later, htext, _, hskip, hcontent, hstart, _, hafter⟩ := scanFrom_split h
  obtain ⟨hwidth, hvisible⟩ := first_of_isProduct hcontent hx
  rw [hwidth, List.drop_zero] at hafter
  rw [Nat.zero_add] at hstart
  refine ⟨earlier, c, later, htext, hskip, hafter, fun hlast => ?_, fun hblank => ?_⟩
  · by_contra hnot
    push Not at hnot
    obtain ⟨d, hd, hdv⟩ := hnot
    obtain ⟨between, rest, rfl⟩ := List.append_of_mem hd
    obtain ⟨l, hl, hle⟩ := le_lastVisible (by simpa using hdv) (earlier ++ c :: between) rest
    have hsize : 0 < c.utf8Size := Char.utf8Size_pos c
    rw [List.append_assoc, List.cons_append, ← htext, ← hlast] at hl
    cases hl
    rw [byteLength_append, byteLength_cons] at hle
    omega
  · rw [htext, hstart, lastVisible_of_blank hvisible earlier hblank]

end Reckoner.Proofs
