import Mathlib.Tactic
import Reckoner.Proofs.Flattening
import Reckoner.Proofs.Juxtaposition

/-!
# Evaluation errors by counting

Whether a sequence is evaluated, and with which error if it is not, is decided by the tokens alone:
a scan that counts operands finds the first token that cannot be computed, and at the end the count
says whether exactly one result is left. No value takes part in it, and no answer of a memory.
-/

namespace Reckoner.Proofs
open Evaluation (ofStack)

/-- What is wrong with a token when `d` operands are at hand. -/
def offence? (d : Int) : Token → Option EvalError
  | .number _ => none
  | .operator op .unary =>
    if d = 0 then some (.insufficientOperands op 1 0)
    else if isSum op then none
    else some (.unsupportedUnary op)
  | .operator op .binary => if d < 2 then some (.insufficientOperands op 2 d.toNat) else none
  | t => some (.unexpectedToken t)

/-- No token offends when the scan begins with `d` operands. -/
def CleanFrom (d : Int) (tokens : List Token) : Prop :=
  ∀ before t after, tokens = before ++ t :: after → offence? (d + surplus before) t = none

/-- No token offends. -/
def Clean (tokens : List Token) : Prop :=
  ∀ before t after, tokens = before ++ t :: after → offence? (surplus before) t = none

/-- The first token that offends does so with the error `e`. -/
def FirstOffence (tokens : List Token) (e : EvalError) : Prop :=
  ∃ before t after, tokens = before ++ t :: after ∧ Clean before ∧
    offence? (surplus before) t = some e

/-- The result is the one that the count of operands decides on. -/
structure DecidedByCount (tokens : List Token) (result : Except EvalError Evaluation) : Prop where
  first_offence : ∀ e, FirstOffence tokens e → result = .error e
  empty_iff : Clean tokens → (result = .error .emptyExpression ↔ tokens = [])
  leftover : Clean tokens → 2 ≤ surplus tokens →
    result = .error (.leftoverOperands (surplus tokens).toNat)
  ok_iff : Clean tokens → ((∃ evaluation, result = .ok evaluation) ↔ surplus tokens = 1)

/-! ### One token -/

lemma offence?_of_refuses {stack : List Evaluation} {t : Token} {e : EvalError}
    (h : Refuses stack t e) : offence? stack.length t = some e := by
  cases h with
  | unaryShort op => rfl
  | @unsupported op operand below hnone =>
    have hsign : ¬isSum op := by
      rw [← applyUnary?_isSome operand.value, hnone]
      simp
    have hlength : ((operand :: below).length : Int) ≠ 0 := by
      rw [List.length_cons]
      omega
    simp only [offence?, hlength, hsign, if_false, Bool.false_eq_true]
  | binaryShort op hshort =>
    have hshort' : (stack.length : Int) < 2 := by omega
    simp only [offence?, hshort', if_true, Int.toNat_natCast]
  | unexpected _ hnumber hoperator =>
    cases t with
    | number value => exact (hnumber value rfl).elim
    | operator => cases hoperator
    | openParen | closeParen | openLog | closeLog | separator => rfl

lemma offence?_of_advances {stack next : List Evaluation} {t : Token}
    (h : Advances stack t next) : offence? stack.length t = none := by
  cases h with
  | number value => rfl
  | @unary op operand value below hvalue =>
    have hsign : isSum op := (applyUnary?_isSome operand.value).mp (by rw [hvalue]; rfl)
    have hlength : ((operand :: below).length : Int) ≠ 0 := by
      rw [List.length_cons]
      omega
    simp only [offence?, hlength, hsign, if_false, if_true]
  | binary op rhs lhs below =>
    have hlength : ¬((rhs :: lhs :: below).length : Int) < 2 := by
      simp only [List.length_cons]
      omega
    simp only [offence?, hlength, if_false]

lemma ne_nil_of_advances {stack next : List Evaluation} {t : Token} (h : Advances stack t next) :
    next ≠ [] := by
  cases h <;> exact List.cons_ne_nil _ _

/-! ### A whole scan -/

lemma cleanFrom_cons {d : Int} {t : Token} {rest : List Token} :
    CleanFrom d (t :: rest) ↔ offence? d t = none ∧ CleanFrom (d + weight t) rest := by
  constructor
  · intro h
    refine ⟨by simpa using h [] t rest rfl, ?_⟩
    rintro before s after rfl
    have hs := h (t :: before) s after rfl
    rwa [surplus_cons, ← add_assoc] at hs
  · rintro ⟨ht, hrest⟩ before s after heq
    cases before with
    | nil =>
      cases heq
      simpa using ht
    | cons first before =>
      cases heq
      rw [surplus_cons, ← add_assoc]
      exact hrest before s after rfl

lemma clean_append_singleton {tokens : List Token} {t : Token} (h : Clean tokens)
    (ht : offence? (surplus tokens) t = none) : Clean (tokens ++ [t]) := by
  intro before s after heq
  rcases List.eq_nil_or_concat after with rfl | ⟨after, last, rfl⟩
  · obtain ⟨rfl, hlast⟩ := List.append_inj' heq rfl
    cases hlast
    exact ht
  · rw [List.concat_eq_append, ← List.cons_append, ← List.append_assoc] at heq
    exact h before s after (List.append_inj' heq rfl).1

lemma clean_iff {tokens : List Token} : Clean tokens ↔ CleanFrom 0 tokens := by
  simp only [Clean, CleanFrom, zero_add]

/-- A sequence is clean, or one of its tokens is the first that offends. -/
lemma clean_or_firstOffence (tokens : List Token) :
    Clean tokens ∨ ∃ e, FirstOffence tokens e := by
  induction tokens using List.reverseRecOn with
  | nil => exact .inl fun before t after heq => by simp at heq
  | append_singleton tokens t ih =>
    rcases ih with hclean | ⟨e, before, s, after, rfl, hbefore, hs⟩
    · cases ht : offence? (surplus tokens) t with
      | none => exact .inl (clean_append_singleton hclean ht)
      | some e => exact .inr ⟨e, tokens, t, [], rfl, hclean, ht⟩
    · exact .inr ⟨e, before, s, after ++ [t], by simp, hbefore, hs⟩

/-- As long as no token offends, tokens are computed, with as many operands as the count says. -/
lemma exists_of_cleanFrom {stack : List Evaluation} {before : List Token}
    (h : CleanFrom stack.length before) (after : List Token) :
    ∃ next, compute stack (before ++ after) = compute next after ∧
      (next.length : Int) = stack.length + surplus before ∧
      (next = [] → stack = [] ∧ before = []) := by
  -- a stack that a token has been computed on is never empty again, which the last part keeps
  induction before generalizing stack with
  | nil => exact ⟨stack, rfl, by simp, fun hnil => ⟨hnil, rfl⟩⟩
  | cons t rest ih =>
    obtain ⟨ht, hrest⟩ := cleanFrom_cons.mp h
    rcases compute_cons_cases stack t (rest ++ after) with ⟨mid, hadvances, heq⟩ | ⟨e, hrefuses, _⟩
    · have hlength := length_of_advances hadvances
      have hmid : CleanFrom mid.length rest := hlength ▸ hrest
      obtain ⟨next, hcompute, hnext, hnil⟩ := ih hmid
      refine ⟨next, heq.trans hcompute, ?_, ?_⟩
      · rw [hnext, hlength, surplus_cons, add_assoc]
      · intro hempty
        exact absurd (hnil hempty).1 (ne_nil_of_advances hadvances)
    · rw [offence?_of_refuses hrefuses] at ht
      cases ht

lemma exists_of_clean {before : List Token} (h : Clean before) (after : List Token) :
    ∃ next, compute [] (before ++ after) = compute next after ∧
      (next.length : Int) = surplus before ∧ (next = [] → before = []) := by
  have hstart : CleanFrom ([] : List Evaluation).length before := clean_iff.mp h
  obtain ⟨next, hcompute, hlength, hnil⟩ := exists_of_cleanFrom hstart after
  exact ⟨next, hcompute, by simpa using hlength, fun hempty => (hnil hempty).2⟩

theorem compute_first_offence {before after : List Token} {t : Token} {e : EvalError}
    (hbefore : Clean before) (ht : offence? (surplus before) t = some e) :
    compute [] (before ++ t :: after) = .error e := by
  obtain ⟨next, hcompute, hlength, _⟩ := exists_of_clean hbefore (t :: after)
  rw [← hlength] at ht
  rw [hcompute]
  rcases compute_cons_cases next t after with ⟨_, hadvances, _⟩ | ⟨e', hrefuses, heq⟩
  · rw [offence?_of_advances hadvances] at ht
    cases ht
  · rw [offence?_of_refuses hrefuses] at ht
    cases ht
    exact heq

/-! ### The end of a scan -/

lemma ofStack_empty_iff {stack : List Evaluation} :
    ofStack stack = .error .emptyExpression ↔ stack = [] := by
  match stack with
  | [] => exact iff_of_true rfl rfl
  | [_] => exact iff_of_false nofun nofun
  | _ :: _ :: _ => exact iff_of_false nofun nofun

lemma ofStack_leftover {stack : List Evaluation} (h : 2 ≤ stack.length) :
    ofStack stack = .error (.leftoverOperands stack.length) := by
  match stack, h with
  | _ :: _ :: _, _ => rfl

lemma ofStack_ok_iff {stack : List Evaluation} :
    (∃ evaluation, ofStack stack = .ok evaluation) ↔ stack.length = 1 := by
  match stack with
  | [] => exact iff_of_false nofun nofun
  | [result] => exact iff_of_true ⟨result, rfl⟩ rfl
  | _ :: _ :: _ => exact iff_of_false nofun nofun

theorem compute_decided (tokens : List Token) : DecidedByCount tokens (compute [] tokens) := by
  have hend : Clean tokens → ∃ next, compute [] tokens = ofStack next ∧
      (next.length : Int) = surplus tokens ∧ (next = [] → tokens = []) := by
    intro hclean
    obtain ⟨next, hcompute, hrest⟩ := exists_of_clean hclean []
    rw [List.append_nil] at hcompute
    exact ⟨next, by rw [hcompute, compute], hrest⟩
  constructor
  · rintro e ⟨before, t, after, rfl, hbefore, ht⟩
    exact compute_first_offence hbefore ht
  · intro hclean
    obtain ⟨next, hcompute, _, hnil⟩ := hend hclean
    constructor
    · intro hempty
      exact hnil (ofStack_empty_iff.mp (hcompute ▸ hempty))
    · rintro rfl
      rfl
  · intro hclean htwo
    obtain ⟨next, hcompute, hlength, _⟩ := hend hclean
    rw [hcompute, ofStack_leftover (by omega), ← hlength, Int.toNat_natCast]
  · intro hclean
    obtain ⟨next, hcompute, hlength, _⟩ := hend hclean
    rw [hcompute, ofStack_ok_iff, ← hlength]
    omega

/-! ### On any memory -/

lemma Matches.error_iff {ε : Type} {rel : Binary64 → Binary64 → Prop} {a b : Except ε Evaluation}
    (h : Matches rel a b) (e : ε) : a = .error e ↔ b = .error e := by
  match a, b, h with
  | .ok _, .ok _, _ => exact iff_of_false nofun nofun
  | .error _, .error _, rfl => exact Iff.rfl

lemma Matches.ok_iff {ε : Type} {rel : Binary64 → Binary64 → Prop} {a b : Except ε Evaluation}
    (h : Matches rel a b) : (∃ r, a = .ok r) ↔ ∃ r, b = .ok r := by
  match a, b, h with
  | .ok _, .ok _, _ => exact iff_of_true ⟨_, rfl⟩ ⟨_, rfl⟩
  | .error _, .error _, _ => exact iff_of_false nofun nofun

lemma DecidedByCount.of_matches {tokens : List Token} {result plain : Except EvalError Evaluation}
    {rel : Binary64 → Binary64 → Prop} (h : DecidedByCount tokens plain)
    (hm : Matches rel result plain) : DecidedByCount tokens result where
  first_offence e hfirst := (hm.error_iff e).mpr (h.first_offence e hfirst)
  empty_iff hclean := (hm.error_iff _).trans (h.empty_iff hclean)
  leftover hclean htwo := (hm.error_iff _).mpr (h.leftover hclean htwo)
  ok_iff hclean := hm.ok_iff.trans (h.ok_iff hclean)

/-- The count of operands decides on the result of every sequence, whatever a memory holds and
whatever it answers. A token that cannot be there is named by its text. -/
theorem evaluate_decided_by_count (tokens : List Token) :
    (Clean tokens ∨ ∃ e, FirstOffence tokens e) ∧
      (∀ result, Yields (evaluate tokens) result → DecidedByCount tokens result) ∧
      (∀ memory, DecidedByCount tokens ((evaluate tokens).runOn memory).1) ∧
      ∀ t, (EvalError.unexpectedToken t).message =
        "Unexpected token in postfix sequence: " ++ t.text := by
  have hall : ∀ result, Yields (evaluate tokens) result → DecidedByCount tokens result :=
    fun result h => (compute_decided tokens).of_matches h.matches_compute
  refine ⟨clean_or_firstOffence tokens, hall, fun memory => ?_, fun _ => rfl⟩
  exact hall _ (yields_runOn _ memory)

end Reckoner.Proofs
