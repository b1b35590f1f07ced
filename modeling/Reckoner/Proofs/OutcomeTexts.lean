import Mathlib.Tactic
import Reckoner.Proofs.Drawings
import Reckoner.Proofs.Flattening

/-!
# Texts of outcomes

The text of a result is the number on a line of its own and the drawing below it. No number text, no
operator and no message ends a line, so the text of a result can be taken apart again, and it is
never that of a failure.
-/

namespace Reckoner.Proofs

/-! ### Texts on one line -/

lemma newline_not_mem_toDigits (n : Nat) : '\n' ∉ Nat.toDigits 10 n :=
  fun hmem => absurd (Nat.isDigit_of_mem_toDigits (by decide) (by decide) hmem) (by decide)

lemma oneLine_nat (n : Nat) : OneLine (toString n) := by
  rw [OneLine, Nat.toString_eq_ofList_toDigits, String.toList_ofList]
  exact newline_not_mem_toDigits n

lemma oneLine_int (n : Int) : OneLine (toString n) := by
  rw [Int.toString_eq_repr, Int.repr_eq_if]
  split_ifs
  · exact oneLine_nat _
  · exact .append (by decide) (oneLine_nat _)

section
open Decimal

lemma newline_not_mem_digits (n place : Nat) : '\n' ∉ (Digits.of n place).digits := by
  intro hmem
  have hdropped := (List.dropWhile_sublist _).subset (List.mem_reverse.mp hmem)
  exact newline_not_mem_toDigits n (List.mem_reverse.mp hdropped)

/-- The shortest decimal is made of some whole number's digits. -/
lemma exists_shortest (tie : Tie) (m : Binary64.Magnitude) :
    ∃ n place, shortest tie m = Digits.of n place := by
  simp only [shortest]
  generalize hfound : List.findSome? _ (List.range 17) = found
  match found with
  | none => exact ⟨_, _, rfl⟩
  | some d =>
    obtain ⟨i, _, hd⟩ := List.exists_of_findSome?_eq_some hfound
    obtain ⟨n, _, rfl⟩ := Option.map_eq_some_iff.mp hd
    exact ⟨n, _, rfl⟩

lemma newline_not_mem_positional {d : Digits} (h : '\n' ∉ d.digits) : '\n' ∉ positional d := by
  have htake : ∀ n, '\n' ∉ d.digits.take n := fun n hmem => h (List.mem_of_mem_take hmem)
  have hdrop : ∀ n, '\n' ∉ d.digits.drop n := fun n hmem => h (List.mem_of_mem_drop hmem)
  unfold positional
  split_ifs
  · simp [h]
  · dsimp only
    split_ifs <;> simp [htake, hdrop]

lemma newline_not_mem_scientific (plus : Bool) {d : Digits} (h : '\n' ∉ d.digits) :
    '\n' ∉ scientific plus d := by
  have hfirst : '\n' ∉ d.digits.take 1 := fun hmem => h (List.mem_of_mem_take hmem)
  have hfraction : '\n' ∉ d.digits.drop 1 := fun hmem => h (List.mem_of_mem_drop hmem)
  have hexponent : '\n' ∉ (toString d.exponent).toList := oneLine_int d.exponent
  unfold scientific
  generalize d.digits.drop 1 = fraction at hfraction ⊢
  generalize (toString d.exponent).toList = exponent at hexponent ⊢
  dsimp only
  split_ifs <;> simp [hfirst, hfraction, hexponent]

lemma newline_not_mem_magnitude (l : Layout) (pattern : Nat) : '\n' ∉ l.magnitude pattern := by
  unfold Layout.magnitude
  split_ifs with hzero
  · decide
  · obtain ⟨n, place, hd⟩ := exists_shortest l.tie (Binary64.Magnitude.ofPattern pattern)
    have hdigits := newline_not_mem_digits n place
    rw [hd, Layout.digits]
    split_ifs
    · exact newline_not_mem_positional hdigits
    · exact newline_not_mem_scientific _ hdigits

end

lemma oneLine_numberText (x : Binary64) : OneLine (numberText x) := by
  have hmagnitude := newline_not_mem_magnitude .result x.pattern
  unfold numberText Decimal.Layout.text
  by_cases hnan : x.isNaN
  · rw [if_pos hnan]
    decide
  · rw [if_neg hnan]
    dsimp only
    rw [OneLine, String.toList_ofList, List.mem_append]
    refine not_or.mpr ⟨?_, ?_⟩
    · split_ifs <;> decide
    · split_ifs
      · decide
      · exact hmagnitude

lemma oneLine_symbol (op : Operator) : OneLine op.symbol := by
  cases op <;> decide

lemma oneLine_tokenText (t : Token) : OneLine t.text := by
  cases t with
  | number value => exact oneLine_numberText value
  | operator op arity =>
    cases arity with
    | unary => exact (oneLine_symbol op).append (by decide)
    | binary => exact oneLine_symbol op
  | openParen | closeParen | openLog | closeLog | separator => decide

lemma oneLine_evalMessage (error : EvalError) : OneLine error.message := by
  cases error with
  | insufficientOperands op needed available =>
    have hneeded : OneLine ("Logic error. " ++ op.symbol ++ " needs " ++ toString needed) :=
      .append (.append (.append (by decide) (oneLine_symbol op)) (by decide)) (oneLine_nat needed)
    exact .append (.append (.append hneeded (by decide)) (oneLine_nat available)) (by decide)
  | unsupportedUnary op => exact .append (by decide) (oneLine_symbol op)
  | unexpectedToken t => exact .append (by decide) (oneLine_tokenText t)
  | leftoverOperands count =>
    exact .append (.append (by decide) (oneLine_nat count)) (by decide)
  | emptyExpression => decide

lemma oneLine_message (fault : Fault) : OneLine fault.message := by
  cases fault with
  | lex error =>
    have hkind : OneLine error.kind.message := by cases error.kind <;> decide
    exact .append (hkind.append (by decide)) (oneLine_nat error.offset)
  | parse error => cases error <;> decide
  | eval error => exact oneLine_evalMessage error

/-! ### Trees of evaluations -/

lemma Formula.oneLined_tree (t : Formula) : OneLined t.tree := by
  induction t with
  | number value => exact List.forall_mem_singleton.mpr (oneLine_numberText value)
  | unary op t ih => exact List.forall_mem_cons.mpr ⟨oneLine_symbol op, ih⟩
  | binary op l r ihl ihr =>
    exact List.forall_mem_cons.mpr
      ⟨oneLine_symbol op, List.forall_mem_append.mpr ⟨ihl, ihr⟩⟩

lemma oneLined_of_compute {tokens : List Token} {result : Evaluation}
    (h : compute [] tokens = .ok result) : OneLined result.tree := by
  obtain ⟨t, _, _, htree⟩ := Formula.exists_of_compute .nil h
  rw [htree]
  exact t.oneLined_tree

/-- Whatever a memory answers, the tree of an evaluated sequence has no label that ends a line. -/
lemma oneLined_of_sequence {tokens : List Token} {result : Evaluation}
    (h : Yields (evaluate tokens) (.ok result)) : OneLined result.tree := by
  obtain ⟨v, hcompute⟩ := h.matches_compute.swap.exists_ok
  have htree := oneLined_of_compute hcompute
  exact htree

lemma oneLined_of_text {text : String} {result : Evaluation}
    (h : Yields (Expression.evaluate text) (.ok result)) : OneLined result.tree := by
  obtain ⟨v, hplain⟩ := h.matches_uncached.swap.exists_ok
  rcases uncached_cases text with ⟨e, _, heq⟩ | ⟨tokens, _, ⟨e, _, heq⟩ | ⟨ordered, _, heq⟩⟩
  · rw [hplain] at heq
    cases heq
  · rw [hplain] at heq
    cases heq
  · rw [hplain] at heq
    cases hc : compute [] ordered with
    | error e => simp [hc, Except.mapError] at heq
    | ok evaluation =>
      simp only [hc, Except.mapError, Except.ok.injEq] at heq
      have htree := oneLined_of_compute hc
      rwa [← heq] at htree

/-! ### Texts apart -/

lemma render_text_ok (e : Evaluation) :
    (Outcome.render .text (.ok e)).toList =
      (numberText e.value).toList ++ '\n' :: e.tree.draw.toList := by
  simp only [Outcome.render, String.toList_append, List.append_assoc]
  rfl

lemma render_text_inj {a b : Evaluation} (ha : OneLined a.tree) (hb : OneLined b.tree)
    (h : Outcome.render .text (.ok a) = Outcome.render .text (.ok b)) :
    numberText a.value = numberText b.value ∧ a.tree = b.tree := by
  have hchars := congrArg String.toList h
  rw [render_text_ok, render_text_ok] at hchars
  obtain ⟨hvalue, hdrawing⟩ :=
    append_newline_inj (oneLine_numberText _) (oneLine_numberText _) hchars
  exact ⟨String.toList_inj.mp hvalue, draw_inj ha hb (String.toList_inj.mp hdrawing)⟩

lemma render_text_ok_ne_error (e : Evaluation) (fault : Fault) :
    Outcome.render .text (.ok e) ≠ Outcome.render .text (.error fault) := by
  intro h
  have hchars := congrArg String.toList h
  rw [render_text_ok] at hchars
  apply oneLine_message fault
  change '\n' ∈ (Outcome.render .text (.error fault)).toList
  rw [← hchars]
  exact List.mem_append_right _ List.mem_cons_self

/-- A drawing determines its tree if no label ends a line, and no label of an evaluated tree does.
So results that are written as the same text agree in the text of their numbers and in their trees,
and no result is written as a failure is. -/
theorem drawing_determines_tree :
    (∀ t u : Tree, OneLined t → OneLined u → t.draw = u.draw → t = u) ∧
      (∀ text result, Yields (Expression.evaluate text) (.ok result) → OneLined result.tree) ∧
      (∀ tokens result, Yields (evaluate tokens) (.ok result) → OneLined result.tree) ∧
      (∀ a b : Evaluation, OneLined a.tree → OneLined b.tree →
        Outcome.render .text (.ok a) = Outcome.render .text (.ok b) →
          numberText a.value = numberText b.value ∧ a.tree = b.tree) ∧
      ∀ (e : Evaluation) (fault : Fault),
        Outcome.render .text (.ok e) ≠ Outcome.render .text (.error fault) :=
  ⟨fun _ _ => draw_inj, fun _ _ => oneLined_of_text, fun _ _ => oneLined_of_sequence,
    fun _ _ => render_text_inj, render_text_ok_ne_error⟩

end Reckoner.Proofs
