import Mathlib.Tactic
import Reckoner.Proofs.AnyMemory
import Reckoner.Proofs.ReadingSentences

/-!
# From text to value

Every sentence of the language, with any blanks between its lexemes, is evaluated. The tree of the
result is the precedence tree of the sentence, whatever memory is used, and without a memory the
value is that of the tree, computed recursively.
-/

namespace Reckoner.Proofs

lemma runOn_matches (text : String) (memory : Memory) :
    Matches (fun _ _ => True) ((Expression.evaluate text).runOn memory).1 (uncached text) :=
  (yields_runOn _ memory).matches_uncached

/-- A sentence is evaluated, with any memory, to its precedence tree, and without a memory to the
tree's value. -/
theorem evaluate_spaced (e : Infix Numeral) (he : e.Writable) {text : String}
    (h : Spaced e.pieces text.toList) :
    (∀ memory, ∃ v,
      ((Expression.evaluate text).runOn memory).1 = .ok ⟨v, (e.formula Numeral.value).tree⟩) ∧
    ∃ v, (e.formula Numeral.value).value? = some v ∧
      uncached text = .ok ⟨v, (e.formula Numeral.value).tree⟩ := by
  have hclimb := e.climb?_tokens Numeral.value
  have hsequence : sequence text = .ok (e.formula Numeral.value).postorder := by
    unfold sequence
    rw [tokenize_spaced e he h]
    simp only [toPostfixOrder_of_climb hclimb]
    rfl
  obtain ⟨v, hv⟩ := Option.isSome_iff_exists.mp (climb?_value hclimb)
  have huncached : uncached text = .ok ⟨v, (e.formula Numeral.value).tree⟩ := by
    have hcompute := Formula.compute_postorder hv [] []
    rw [List.append_nil] at hcompute
    rw [uncached_eq, hsequence]
    simp only [hcompute]
    rfl
  refine ⟨fun memory => ?_, v, hv, huncached⟩
  have hm := runOn_matches text memory
  rw [huncached] at hm
  exact hm.exists_ok

/-- The sentence `2^-3*(4.5)`, where the sign takes in the product. -/
def signedPower : Infix Numeral :=
  .join [] (.number ⟨'2', [], none, by simp⟩) ⟨.pow, nofun⟩
    (.join [⟨.sub, rfl⟩] (.number ⟨'3', [], none, by simp⟩) ⟨.mul, nofun⟩
      (.last [] (.group (.last [] (.number ⟨'4', [], some ['5'], by simp⟩)))))

theorem evaluate_signedPower :
    signedPower.Writable ∧ Spaced signedPower.pieces " 2^-3*(4.5\t)\n".toList ∧
      ∃ v x y z, (signedPower.formula Numeral.value).value? = some v ∧
        uncached " 2^-3*(4.5\t)\n" =
          .ok ⟨v, .both "^" (.number x) (.right "-" (.both "*" (.number y) (.number z)))⟩ := by
  have hwritable : signedPower.Writable := by
    simp [signedPower, Infix.Writable, Atom.Writable]
  have hspaced : Spaced signedPower.pieces " 2^-3*(4.5\t)\n".toList := by
    refine .cons [' '] (by simp [Lexeme.isSkipped]) ?_
    iterate 6 refine .cons [] (by simp) ?_
    exact .cons ['\t'] (by simp [Lexeme.isSkipped]) (.nil ['\n'] (by simp [Lexeme.isSkipped]))
  obtain ⟨_, v, hv, huncached⟩ := evaluate_spaced signedPower hwritable hspaced
  exact ⟨hwritable, hspaced, v, _, _, _, hv, huncached⟩

end Reckoner.Proofs
