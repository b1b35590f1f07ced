import Mathlib.Tactic
import Reckoner.Proofs.ReadingSteps
import Reckoner.Proofs.Rules
import Reckoner.Proofs.Scanning

/-!
# Where items lie

A reader tells the first item, the last one and what directly follows a bracket by byte offsets. On
the items of a text these offsets say what they are meant to say.
-/

namespace Reckoner.Proofs
open Lexeme Text

structure Placed (last : Option Nat) (before : List Item) (x : Item) (after : List Item) :
    Prop where
  start_ne_zero : before ≠ [] → x.start ≠ 0
  last_of_nil : x.isProduct → after = [] → some x.start = last
  ne_last : ∀ y ∈ after.head?, y.Legible → some x.start ≠ last
  stop_group : x.content = .ok .leftParen → x.stop = x.start + 1
  stop_log : x.content = .ok .logOpen → x.stop ≠ 0

lemma byteLength_ne_zero {text : List Char} (h : text ≠ []) : byteLength text ≠ 0 := by
  obtain ⟨c, rest, rfl⟩ := List.exists_cons_of_ne_nil h
  have hsize : 0 < c.utf8Size := Char.utf8Size_pos c
  rw [byteLength_cons]
  omega

/-! ### First characters -/

lemma isDigit_utf8Size {c : Char} (hc : c.isDigit) : c.utf8Size = 1 := by
  simp only [Char.isDigit, Bool.and_eq_true, decide_eq_true_eq, UInt32.le_iff_toNat_le] at hc
  have h9 : '9'.val.toNat = 57 := rfl
  have h127 : (127 : UInt32).toNat = 127 := rfl
  rw [Char.utf8Size_eq_one_iff, UInt32.le_iff_toNat_le]
  omega

/-- A lexeme starts with a visible character of one byte. -/
lemma first_ok {c : Char} {rest : List Char} {found : Lexeme} (h : (first c rest).1 = .ok found) :
    c.utf8Size = 1 ∧ isBlank c = false := by
  by_cases hdigit : c.isDigit
  · exact ⟨isDigit_utf8Size hdigit, isDigit_not_blank hdigit⟩
  by_cases hsymbol : c ∈ ['+', '-', '*', '/', '^', '(', ')', ',', 'l']
  · fin_cases hsymbol <;> exact ⟨rfl, rfl⟩
  · exfalso
    simp only [List.mem_cons, List.not_mem_nil, or_false, not_or] at hsymbol
    simp [first, hsymbol, hdigit] at h

lemma first_width {c : Char} {rest : List Char} {found : Lexeme}
    (h : (first c rest).1 = .ok found) (hlog : found ≠ .logOpen)
    (hnumber : ∀ value, found ≠ .number value) : (first c rest).2 = 0 := by
  revert h
  refine first_cases (P := fun result => result.1 = .ok found → result.2 = 0) c rest ?_ ?_ nofun
  · intro found' n _ hwidth heq
    cases heq
    exact hwidth.resolve_left hlog
  · intro heq
    simp only [Lexeme.ofNumber] at heq
    split_ifs at heq
    exact (hnumber _ (Except.ok.inj heq).symm).elim

/-- A product is one visible character. -/
lemma first_of_isProduct {c : Char} {rest : List Char} {x : Item}
    (hcontent : x.content = (first c rest).1) (hx : x.isProduct) :
    (first c rest).2 = 0 ∧ isBlank c = false := by
  obtain ⟨found, hfound, hlog, hnumber⟩ : ∃ found, x.content = .ok found ∧ found ≠ .logOpen ∧
      ∀ value, found ≠ .number value := by
    rcases Item.content_of_isProduct hx with hx | hx | hx <;> exact ⟨_, hx, nofun, nofun⟩
  rw [hcontent] at hfound
  exact ⟨first_width hfound hlog hnumber, (first_ok hfound).2⟩

/-! ### Splitting what is scanned -/

lemma scanFrom_split {offset : Nat} {text : List Char} {before after : List Item} {x : Item}
    (h : scanFrom offset text = before ++ x :: after) :
    ∃ earlier c later, text = earlier ++ c :: later ∧ (before ≠ [] → earlier ≠ []) ∧
      isSkipped c = false ∧ x.content = (first c later).1 ∧ x.start = offset + byteLength earlier ∧
      x.stop = x.start + c.utf8Size + byteLength (later.take (first c later).2) ∧
      after = scanFrom x.stop (later.drop (first c later).2) := by
  fun_induction scanFrom offset text generalizing before with
  | case1 => simp at h
  | case2 offset c rest hc ih =>
    obtain ⟨earlier, c', later, rfl, hne, hrest⟩ := ih h
    refine ⟨c :: earlier, c', later, rfl, by simp, ?_⟩
    rwa [byteLength_cons, ← Nat.add_assoc]
  | case3 offset c rest hc found stop =>
    rename_i ih
    cases before with
    | nil =>
      obtain ⟨rfl, rfl⟩ := List.cons.inj h
      exact ⟨[], c, rest, rfl, by simp, by simpa using hc, rfl, rfl, rfl, rfl⟩
    | cons y before =>
      obtain ⟨rfl, htail⟩ := List.cons.inj h
      obtain ⟨earlier, c', later, hdrop, hne, hskip, hcontent, hstart, hstop, hafter⟩ := ih htail
      refine ⟨c :: (rest.take found.2 ++ earlier), c', later, ?_, by simp, hskip, hcontent, ?_,
        hstop, hafter⟩
      · rw [List.cons_append, List.append_assoc, ← hdrop, List.take_append_drop]
      · rw [hstart, byteLength_cons, byteLength_append]
        omega

lemma scanFrom_eq_nil {offset : Nat} {text : List Char} (h : scanFrom offset text = []) :
    ∀ c ∈ text, isSkipped c := by
  fun_induction scanFrom offset text with
  | case1 => simp
  | case2 offset c rest hc ih => exact List.forall_mem_cons.mpr ⟨hc, ih h⟩
  | case3 => simp at h

lemma lastVisible_of_blank {c : Char} (hc : isBlank c = false) (before : List Char)
    {after : List Char} (hafter : ∀ d ∈ after, isBlank d) :
    lastVisible? (before ++ c :: after) = some (byteLength before) := by
  have hreverse : (before ++ c :: after).reverse = after.reverse ++ c :: before.reverse := by simp
  have hall : ∀ d ∈ after.reverse, isBlank d := fun d hd => hafter d (List.mem_reverse.mp hd)
  unfold lastVisible?
  rw [hreverse, List.dropWhile_append_of_pos hall]
  simp [hc, byteLength_reverse]

section

variable {text : String} {before after : List Item} {x y : Item}

lemma scan_start_lt (h : scan text = before ++ x :: y :: after) : x.start < y.start := by
  obtain ⟨_, c, later, _, _, _, _, _, hstop, hafter⟩ := scanFrom_split h
  have hrest : scanFrom x.stop (later.drop (first c later).2) = [] ++ y :: after := hafter.symm
  obtain ⟨_, _, _, _, _, _, _, hstart, _⟩ := scanFrom_split hrest
  have hsize : 0 < c.utf8Size := Char.utf8Size_pos c
  omega

lemma scan_start_le_last (h : scan text = before ++ x :: after) (hx : x.Legible) :
    ∃ l ∈ lastVisible? text.toList, x.start ≤ l := by
  obtain ⟨earlier, c, later, htext, _, _, hcontent, hstart, _⟩ := scanFrom_split h
  obtain ⟨found, hfound, _⟩ := hx
  have hvisible := (first_ok (hcontent.symm.trans hfound)).2
  rw [htext, hstart, Nat.zero_add]
  exact le_lastVisible hvisible earlier later

theorem placed_of_scan (h : scan text = before ++ x :: after) :
    Placed (lastVisible? text.toList) before x after := by
  obtain ⟨earlier, c, later, htext, hne, _, hcontent, hstart, hstop, hafter⟩ := scanFrom_split h
  rw [Nat.zero_add] at hstart
  refine ⟨fun hbefore => ?_, fun hproduct hnil => ?_, fun y hy hlegible => ?_, fun hgroup => ?_,
    fun hlog => ?_⟩
  · rw [hstart]
    exact byteLength_ne_zero (hne hbefore)
  · obtain ⟨hwidth, hvisible⟩ := first_of_isProduct hcontent hproduct
    have hrest := scanFrom_eq_nil (hafter.symm.trans hnil)
    rw [hwidth, List.drop_zero] at hrest
    rw [htext, hstart, lastVisible_of_blank hvisible earlier fun d hd => skipped_blank (hrest d hd)]
  · obtain ⟨rest, rfl⟩ := List.head?_eq_some_iff.mp hy
    have hlt := scan_start_lt h
    obtain ⟨l, hl, hle⟩ := scan_start_le_last (h.trans (List.append_cons _ _ _)) hlegible
    intro heq
    rw [← heq] at hl
    cases hl
    omega
  · rw [hcontent] at hgroup
    rw [hstop, first_width hgroup nofun nofun, (first_ok hgroup).1]
    rfl
  · have hsize : 0 < c.utf8Size := Char.utf8Size_pos c
    omega

end

end Reckoner.Proofs
