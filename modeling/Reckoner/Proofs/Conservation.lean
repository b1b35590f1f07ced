import Mathlib.Tactic
import Reckoner.Proofs.YardSteps

/-!
# What comes out of a yard

A yard gives back what it takes. Only closing brackets and separators are dropped, and with each
closing bracket one opening bracket of its kind, also where the brackets do not match and a close
passes over others. Numbers never wait, so they keep their order.
-/

namespace Reckoner.Proofs
open Yard List

/-- The tokens that take a place in the yard, as closing brackets and separators do not. -/
def stays : Token → Bool
  | .closeParen | .closeLog | .separator => false
  | _ => true

def number? : Token → Option Binary64
  | .number value => some value
  | _ => none

lemma flatMap_brought (tokens : List Token) : tokens.flatMap brought = tokens.filter stays := by
  induction tokens with
  | nil => rfl
  | cons t rest ih =>
    rw [flatMap_cons, ih]
    cases t <;> rfl

lemma flatMap_cancelled (tokens : List Token) :
    tokens.flatMap cancelled ~
      replicate (tokens.count .closeParen) .openParen ++
        replicate (tokens.count .closeLog) .openLog := by
  induction tokens with
  | nil => exact .refl _
  | cons t rest ih =>
    rw [List.flatMap_cons]
    cases t with
    | closeParen =>
      rw [count_cons_self, count_cons_of_ne (by decide), replicate_succ]
      exact ih.cons _
    | closeLog =>
      rw [count_cons_self, count_cons_of_ne (by decide), replicate_succ]
      exact (ih.cons _).trans perm_middle.symm
    | number | operator | openParen | openLog | separator =>
      rw [count_cons_of_ne (by simp), count_cons_of_ne (by simp)]
      exact ih

/-! ### Numbers in order -/

/-- No number waits. -/
def Numberless (y : Yard) : Prop :=
  ∀ t ∈ y.stack, number? t = none

lemma Numberless.release {y : Yard} (h : Numberless y) (p : Token → Bool) :
    Numberless (y.release p) ∧
      (y.release p).output.filterMap number? = y.output.filterMap number? := by
  have hnone : (y.stack.takeWhile p).reverse.filterMap number? = [] := by
    refine filterMap_eq_nil_iff.mpr ?_
    intro t ht
    exact h t ((takeWhile_sublist p).subset (mem_reverse.mp ht))
  refine ⟨fun t ht => h t ((dropWhile_sublist p).subset ht), ?_⟩
  simp only [Yard.release, filterMap_append, hnone, nil_append]

lemma Numberless.wait {y : Yard} (h : Numberless y) {t : Token} (ht : number? t = none) :
    Numberless (y.wait t) :=
  forall_mem_cons.mpr ⟨ht, h⟩

lemma closeParen_eq_ok {y y' : Yard} (h : y.closeParen = .ok y') :
    y'.output = (y.release (!·.isOpenParen)).output ∧
      y'.stack ⊆ (y.release (!·.isOpenParen)).stack := by
  unfold closeParen at h
  generalize y.release (!·.isOpenParen) = z at h ⊢
  dsimp only at h
  split at h
  · cases h
  · rename_i bracket below hs
    cases h
    exact ⟨rfl, hs ▸ subset_cons_self bracket below⟩

lemma closeLog_eq_ok {y y' : Yard} (h : y.closeLog = .ok y') :
    (∃ arity, y'.output = .operator .log arity :: (y.release (!·.isOpenLog)).output) ∧
      y'.stack ⊆ (y.release (!·.isOpenLog)).stack := by
  unfold closeLog at h
  generalize y.release (!·.isOpenLog) = z at h ⊢
  dsimp only at h
  split at h
  · cases h
  · rename_i bracket arity below hs
    cases h
    refine ⟨⟨arity, rfl⟩, ?_⟩
    intro t ht
    rw [hs]
    exact mem_cons_of_mem _ (mem_cons_of_mem _ ht)
  · cases h

/-- A token leaves the numbers that are out already alone, and only a number adds one. -/
lemma Numberless.token {y y' : Yard} {t : Token} (hy : Numberless y) (h : y.token t = .ok y') :
    Numberless y' ∧
      y'.output.filterMap number? = (number? t).toList ++ y.output.filterMap number? := by
  match t with
  | .number value =>
    cases h
    exact ⟨hy, rfl⟩
  | .openParen | .openLog | .operator .log _ =>
    cases h
    exact ⟨hy.wait rfl, rfl⟩
  | .operator .add .unary | .operator .sub .unary | .operator .mul .unary
  | .operator .div .unary | .operator .pow .unary =>
    cases h
    exact ⟨hy.wait rfl, rfl⟩
  | .operator .add .binary | .operator .sub .binary | .operator .mul .binary
  | .operator .div .binary | .operator .pow .binary =>
    cases h
    exact ⟨(hy.release _).1.wait rfl, (hy.release _).2⟩
  | .separator =>
    cases h
    exact hy.release _
  | .closeParen =>
    obtain ⟨hnone, hout⟩ := hy.release (!·.isOpenParen)
    obtain ⟨houtput, hstack⟩ := closeParen_eq_ok h
    refine ⟨fun s hs => hnone s (hstack hs), ?_⟩
    rw [houtput, hout]
    rfl
  | .closeLog =>
    obtain ⟨hnone, hout⟩ := hy.release (!·.isOpenLog)
    obtain ⟨⟨arity, houtput⟩, hstack⟩ := closeLog_eq_ok h
    refine ⟨fun s hs => hnone s (hstack hs), ?_⟩
    rw [houtput, ← hout]
    rfl

lemma Numberless.run {y y' : Yard} {tokens : List Token} (hy : Numberless y)
    (h : tokens.foldlM Yard.token y = .ok y') :
    Numberless y' ∧
      y'.output.filterMap number? =
        (tokens.filterMap number?).reverse ++ y.output.filterMap number? := by
  induction tokens generalizing y with
  | nil =>
    cases h
    exact ⟨hy, rfl⟩
  | cons t rest ih =>
    rw [foldlM_cons] at h
    cases ht : y.token t with
    | error e => simp [ht, Bind.bind, Except.bind] at h
    | ok next =>
      simp only [ht, Bind.bind, Except.bind] at h
      obtain ⟨hnext, hstep⟩ := hy.token ht
      obtain ⟨hlast, hrun⟩ := ih hnext h
      refine ⟨hlast, ?_⟩
      rw [hrun, hstep, filterMap_cons]
      cases number? t <;> simp

lemma toPostfixOrder_numbers {tokens sequence : List Token}
    (h : toPostfixOrder tokens = .ok sequence) :
    sequence.filterMap number? = tokens.filterMap number? := by
  unfold toPostfixOrder at h
  cases hy : tokens.foldlM Yard.token {} with
  | error e => simp [hy, Bind.bind, Except.bind] at h
  | ok y =>
    simp only [hy, Bind.bind, Except.bind] at h
    cases h
    have hempty : Numberless {} := fun t ht => (not_mem_nil ht).elim
    obtain ⟨hnone, hout⟩ := hempty.run hy
    calc y.finish.filterMap number?
      _ = (y.output.filterMap number?).reverse ++ y.stack.filterMap number? := by
        rw [Yard.finish, filterMap_append, filterMap_reverse]
      _ = tokens.filterMap number? := by
        rw [hout, filterMap_eq_nil_iff.mpr hnone]
        simp

/-- A postfix sequence is a rearrangement of the tokens that it orders, without those that close
or separate and without as many opening brackets of each kind as are closed. Its numbers stand in
the order in which they came. -/
theorem toPostfixOrder_conserves {tokens sequence : List Token}
    (h : toPostfixOrder tokens = .ok sequence) :
    replicate (tokens.count .closeParen) .openParen ++
        replicate (tokens.count .closeLog) .openLog ++ sequence ~ tokens.filter stays ∧
      sequence.filterMap number? = tokens.filterMap number? := by
  refine ⟨?_, toPostfixOrder_numbers h⟩
  have hperm := toPostfixOrder_perm h
  rw [flatMap_brought] at hperm
  exact ((flatMap_cancelled tokens).symm.append_right sequence).trans hperm

/-- A parenthesis that is closed across the bracket of a logarithm, which comes out as a token, and
a separator outside all brackets. -/
theorem toPostfixOrder_crossed :
    let tokens : List Token := [.openParen, .number ⟨1⟩, .operator .add .binary,
      .operator .log .unary, .openLog, .number ⟨2⟩, .closeParen, .separator, .number ⟨3⟩]
    let sequence : List Token := [.number ⟨1⟩, .number ⟨2⟩, .openLog, .operator .log .unary,
      .operator .add .binary, .number ⟨3⟩]
    toPostfixOrder tokens = .ok sequence ∧
      replicate (tokens.count .closeParen) .openParen ++
        replicate (tokens.count .closeLog) .openLog ++ sequence ~ tokens.filter stays ∧
      sequence.filterMap number? = tokens.filterMap number? :=
  ⟨rfl, toPostfixOrder_conserves rfl⟩

end Reckoner.Proofs
