import Mathlib.Tactic
import Reckoner.Proofs.AnyMemory
import Reckoner.Proofs.PrecedenceTree

/-!
# Flattening and evaluation

A formula is flattened to its postfix sequence, and evaluating the sequence builds the formula's
tree again, whatever is remembered. Nothing else can be evaluated: a sequence that has a result is
the postfix sequence of exactly one formula whose only operators on one operand are signs.
-/

namespace Reckoner.Proofs

namespace Formula

/-- Of the operators only signs stand in front of a single operand. -/
def IsArithmetic : Formula → Prop
  | number _ => True
  | unary op t => isSum op ∧ t.IsArithmetic
  | binary _ l r => l.IsArithmetic ∧ r.IsArithmetic

lemma IsArithmetic.exists_value {t : Formula} (h : t.IsArithmetic) : ∃ v, t.value? = some v := by
  induction t with
  | number value => exact ⟨value, rfl⟩
  | unary op t ih =>
    obtain ⟨x, hx⟩ := ih h.2
    obtain ⟨v, hv⟩ := Option.isSome_iff_exists.mp ((applyUnary?_isSome x).mpr h.1)
    exact ⟨v, by rw [value?, hx, Option.bind_some, hv]⟩
  | binary op l r ihl ihr =>
    obtain ⟨x, hx⟩ := ihl h.1
    obtain ⟨y, hy⟩ := ihr h.2
    exact ⟨op.apply x y, by rw [value?, hx, hy, Option.bind_some, Option.map_some]⟩

/-- No postfix sequence ends another one in two ways: its last token says how many operands come
before it, and these are found from the back. -/
lemma append_postorder_inj {t u : Formula} {before before' : List Token}
    (h : before ++ t.postorder = before' ++ u.postorder) : before = before' ∧ t = u := by
  induction t generalizing u before before' with
  | number value =>
    cases u with
    | number value' =>
      obtain ⟨hbefore, hlast⟩ := List.append_inj' h rfl
      cases hlast
      exact ⟨hbefore, rfl⟩
    | unary | binary =>
      simp only [postorder, ← List.append_assoc] at h
      cases (List.append_inj' h rfl).2
  | unary op t ih =>
    cases u with
    | unary op' u =>
      simp only [postorder, ← List.append_assoc] at h
      obtain ⟨hrest, hlast⟩ := List.append_inj' h rfl
      obtain ⟨hbefore, rfl⟩ := ih hrest
      cases hlast
      exact ⟨hbefore, rfl⟩
    | number | binary =>
      simp only [postorder, ← List.append_assoc] at h
      cases (List.append_inj' h rfl).2
  | binary op l r ihl ihr =>
    cases u with
    | binary op' l' r' =>
      simp only [postorder, ← List.append_assoc] at h
      obtain ⟨hrest, hlast⟩ := List.append_inj' h rfl
      obtain ⟨hleft, rfl⟩ := ihr hrest
      obtain ⟨hbefore, rfl⟩ := ihl hleft
      cases hlast
      exact ⟨hbefore, rfl⟩
    | number | unary =>
      simp only [postorder, ← List.append_assoc] at h
      cases (List.append_inj' h rfl).2

theorem postorder_injective {t u : Formula} (h : t.postorder = u.postorder) : t = u :=
  (append_postorder_inj (congrArg (List.append []) h)).2

/-! ### What can be evaluated -/

/-- Formulas whose trees are on a stack of operands, the latest first. -/
abbrev Built : List Evaluation → List Formula → Prop :=
  List.Forall₂ fun operand t => operand.tree = t.tree ∧ t.IsArithmetic

/-- The postfix sequences of formulas, the latest last. -/
def flatten (formulas : List Formula) : List Token :=
  formulas.reverse.flatMap postorder

lemma flatten_cons (t : Formula) (formulas : List Formula) :
    flatten (t :: formulas) = flatten formulas ++ t.postorder := by
  simp [flatten]

lemma Built.advances {stack next : List Evaluation} {formulas : List Formula} {token : Token}
    (h : Built stack formulas) (hadvances : Advances stack token next) :
    ∃ formulas', Built next formulas' ∧ flatten formulas' = flatten formulas ++ [token] := by
  cases hadvances with
  | number value =>
    exact ⟨number value :: formulas, .cons ⟨rfl, trivial⟩ h, flatten_cons _ _⟩
  | @unary op operand value below hv =>
    cases h with
    | @cons _ t _ formulas ht hbelow =>
      have hop : isSum op := (applyUnary?_isSome operand.value).mp (by rw [hv]; rfl)
      refine ⟨unary op t :: formulas, .cons ⟨by rw [tree, ht.1], hop, ht.2⟩ hbelow, ?_⟩
      simp only [flatten_cons, postorder, List.append_assoc]
  | binary op rhs lhs below =>
    cases h with
    | @cons _ r _ formulas hr hbelow =>
      cases hbelow with
      | @cons _ l _ formulas hl hbelow =>
        refine ⟨binary op l r :: formulas,
          .cons ⟨by rw [tree, hl.1, hr.1], hl.2, hr.2⟩ hbelow, ?_⟩
        simp only [flatten_cons, postorder, List.append_assoc]

theorem exists_of_compute {stack : List Evaluation} {formulas : List Formula} {tokens : List Token}
    {result : Evaluation} (hbuilt : Built stack formulas)
    (h : compute stack tokens = .ok result) :
    ∃ t : Formula, t.IsArithmetic ∧ t.postorder = flatten formulas ++ tokens ∧
      result.tree = t.tree := by
  induction tokens generalizing stack formulas with
  | nil =>
    rw [compute_nil_eq_ok h] at hbuilt
    cases hbuilt with
    | @cons _ t _ _ ht hnone =>
      cases hnone
      exact ⟨t, ht.2, by simp [flatten], ht.1⟩
  | cons token rest ih =>
    obtain ⟨next, hadvances, hrest⟩ := compute_cons_eq_ok h
    obtain ⟨formulas', hbuilt', hflatten⟩ := hbuilt.advances hadvances
    obtain ⟨t, ht, hpostorder, htree⟩ := ih hbuilt' hrest
    rw [hflatten, List.append_assoc] at hpostorder
    exact ⟨t, ht, hpostorder, htree⟩

end Formula

/-- Flattening and evaluation are inverse to each other. A formula that is flattened and evaluated
comes back as its tree, whatever answers the memory gives, and with its value if there is no memory.
What is evaluated at all comes from exactly one formula, whose tree is the result. -/
theorem evaluate_inverts_postorder :
    (∀ t : Formula, t.IsArithmetic →
      (∀ result, Yields (evaluate t.postorder) result → ∃ v, result = .ok ⟨v, t.tree⟩) ∧
      (∀ memory, ∃ v, ((evaluate t.postorder).runOn memory).1 = .ok ⟨v, t.tree⟩) ∧
      ∃ v, t.value? = some v ∧ ((evaluate t.postorder).runOn .off).1 = .ok ⟨v, t.tree⟩) ∧
    ∀ tokens result, Yields (evaluate tokens) (.ok result) →
      ∃ t : Formula, result.tree = t.tree ∧
        ∀ u : Formula, u.IsArithmetic ∧ u.postorder = tokens ↔ u = t := by
  constructor
  · intro t ht
    obtain ⟨v, hv⟩ := ht.exists_value
    have hcompute : compute [] t.postorder = .ok ⟨v, t.tree⟩ := by
      have h := Formula.compute_postorder hv [] []
      rwa [List.append_nil] at h
    have hyields : ∀ result, Yields (evaluate t.postorder) result →
        ∃ v, result = .ok ⟨v, t.tree⟩ := by
      intro result h
      have hm := h.matches_compute
      rw [hcompute] at hm
      exact hm.exists_ok
    refine ⟨hyields, fun memory => hyields _ (yields_runOn _ memory), v, hv, ?_⟩
    rw [← hcompute]
    exact run_off [] t.postorder rfl
  · intro tokens result h
    obtain ⟨v, hcompute⟩ := h.matches_compute.swap.exists_ok
    obtain ⟨t, ht, htokens, htree⟩ := Formula.exists_of_compute .nil hcompute
    refine ⟨t, htree, fun u => ⟨?_, ?_⟩⟩
    · rintro ⟨_, hu⟩
      exact Formula.postorder_injective (hu.trans htokens.symm)
    · rintro rfl
      exact ⟨ht, htokens⟩

end Reckoner.Proofs
