import Mathlib.Tactic
import Reckoner.Proofs.PrecedenceTree
import Reckoner.Proofs.ReadingSteps

/-!
# Nested token sequences

What is read from a text is nested, whatever else may be wrong with it: each bracket is closed in
its own way, a logarithm has exactly one separator, and no sign follows an operand.
-/

namespace Reckoner.Proofs

/-- The last token ends an operand. -/
def endsOperand (tokens : List Token) : Bool :=
  tokens.getLast?.any Token.endsOperand

@[simp]
lemma endsOperand_singleton (t : Token) : endsOperand [t] = t.endsOperand := rfl

@[simp]
lemma endsOperand_append_cons (tokens : List Token) (t : Token) (block : List Token) :
    endsOperand (tokens ++ t :: block) = endsOperand (t :: block) := by
  simp [endsOperand, List.getLast?_append, List.getLast?_cons]

@[simp]
lemma endsOperand_cons_cons (s t : Token) (block : List Token) :
    endsOperand (s :: t :: block) = endsOperand (t :: block) :=
  endsOperand_append_cons [s] t block

@[simp]
lemma endsOperand_cons_append_cons (s : Token) (tokens : List Token) (t : Token)
    (block : List Token) :
    endsOperand (s :: (tokens ++ t :: block)) = endsOperand (t :: block) := by
  rw [← List.cons_append, endsOperand_append_cons]

inductive Nested : List Token → Prop
  | nil : Nested []
  | number {tokens : List Token} (h : Nested tokens) (value : Binary64) :
    Nested (tokens ++ [.number value])
  | sign {tokens : List Token} {op : Operator} (h : Nested tokens) (hop : isSum op)
    (hends : endsOperand tokens = false) : Nested (tokens ++ [.operator op .unary])
  | joint {tokens : List Token} {op : Operator} (h : Nested tokens) (hop : op ≠ .log) :
    Nested (tokens ++ [.operator op .binary])
  | group {tokens inside : List Token} (h : Nested tokens) (hinside : Nested inside) :
    Nested (tokens ++ .openParen :: (inside ++ [.closeParen]))
  | log {tokens base argument : List Token} (h : Nested tokens) (hbase : Nested base)
    (hargument : Nested argument) :
    Nested (tokens ++ .operator .log .binary :: .openLog ::
      (base ++ .separator :: (argument ++ [.closeLog])))

/-- Token sequences that are nested but for the groups that are still open, the innermost first. -/
inductive Framed : List Group → List Token → Prop
  | outermost {inside : List Token} (hinside : Nested inside) : Framed [] inside
  | plain {groups : List Group} {outer inside : List Token} (offset : Nat)
    (houter : Framed groups outer) (hinside : Nested inside) :
    Framed (.plain offset :: groups) (outer ++ .openParen :: inside)
  | base {groups : List Group} {outer inside : List Token} (offset : Nat)
    (houter : Framed groups outer) (hinside : Nested inside) :
    Framed (.logarithm offset false :: groups)
      (outer ++ .operator .log .binary :: .openLog :: inside)
  | argument {groups : List Group} {outer base inside : List Token} (offset : Nat)
    (houter : Framed groups outer) (hbase : Nested base) (hinside : Nested inside) :
    Framed (.logarithm offset true :: groups)
      (outer ++ .operator .log .binary :: .openLog :: (base ++ .separator :: inside))

namespace Framed

variable {groups : List Group} {tokens : List Token}

/-- What can be put after the innermost part of a sequence can be put after the sequence. -/
lemma append {block : List Token} (h : Framed groups tokens)
    (hblock : ∀ inside, inside <:+ tokens → Nested inside → Nested (inside ++ block)) :
    Framed groups (tokens ++ block) := by
  cases h with
  | outermost hinside => exact .outermost (hblock _ (List.suffix_refl _) hinside)
  | @plain _ outer inside offset houter hinside =>
    have hsuffix : inside <:+ outer ++ .openParen :: inside := ⟨outer ++ [.openParen], by simp⟩
    rw [List.append_assoc]
    exact .plain offset houter (hblock inside hsuffix hinside)
  | @base _ outer inside offset houter hinside =>
    have hsuffix : inside <:+ outer ++ .operator .log .binary :: .openLog :: inside :=
      ⟨outer ++ [.operator .log .binary, .openLog], by simp⟩
    rw [List.append_assoc]
    exact .base offset houter (hblock inside hsuffix hinside)
  | @argument _ outer base inside offset houter hbase hinside =>
    have hsuffix : inside <:+
        outer ++ .operator .log .binary :: .openLog :: (base ++ .separator :: inside) :=
      ⟨outer ++ .operator .log .binary :: .openLog :: (base ++ [.separator]), by simp⟩
    have hframed := Framed.argument offset houter hbase (hblock inside hsuffix hinside)
    simpa only [List.append_assoc, List.cons_append] using hframed

lemma close {group : Group} {token : Token} (h : Framed (group :: groups) tokens)
    (hclosing : closing? group = some token) : Framed groups (tokens ++ [token]) := by
  cases h with
  | plain offset houter hinside =>
    cases hclosing
    rw [List.append_assoc]
    exact houter.append fun inside _ h => .group h hinside
  | base => cases hclosing
  | argument offset houter hbase hinside =>
    cases hclosing
    have hlog := houter.append fun inside _ h => .log h hbase hinside
    simpa only [List.append_assoc, List.cons_append] using hlog

lemma comma {offset : Nat} (h : Framed (.logarithm offset false :: groups) tokens) :
    Framed (.logarithm offset true :: groups) (tokens ++ [.separator]) := by
  cases h with
  | base _ houter hinside =>
    have harg := Framed.argument offset houter hinside .nil
    simpa only [List.append_assoc, List.cons_append] using harg

end Framed

lemma endsOperand_of_suffix {inside tokens : List Token} (h : inside <:+ tokens)
    (hends : endsOperand tokens = false) : endsOperand inside = false := by
  obtain ⟨before, rfl⟩ := h
  cases inside using List.reverseRecOn with
  | nil => rfl
  | append_singleton inside t =>
    rw [← List.append_assoc, endsOperand_append_cons] at hends
    rwa [endsOperand_append_cons]

lemma endsOperand_of_expectant {r : Reading} (h : expectant r = true) :
    endsOperand r.tokens.reverse = false := by
  unfold expectant at h
  unfold endsOperand
  rw [List.getLast?_reverse]
  cases ht : r.tokens.head? with
  | none => rfl
  | some t =>
    rw [ht, Option.all_some] at h
    cases t <;> first | rfl | cases h

lemma Framed.lexeme {last : Option Nat} {found : Lexeme} {start stop : Nat} {r r' : Reading}
    (h : Framed r.groups r.tokens.reverse) (hr : r.lexeme last found start stop = .ok r') :
    Framed r'.groups r'.tokens.reverse := by
  cases found with
  | plus | minus =>
    rcases plusMinus_eq_ok_iff.mp hr with ⟨hexpectant, _, rfl⟩ | ⟨_, rfl⟩
    · have hends := endsOperand_of_expectant hexpectant
      simp only [Reading.push, List.reverse_cons]
      exact h.append fun inside hsuffix hinside =>
        .sign hinside rfl (endsOperand_of_suffix hsuffix hends)
    · simp only [Reading.push, List.reverse_cons]
      exact h.append fun inside _ hinside => .joint hinside nofun
  | star | slash | caret =>
    obtain ⟨_, _, _, rfl⟩ := binaryOnly_eq_ok_iff.mp hr
    simp only [Reading.push, List.reverse_cons]
    exact h.append fun inside _ hinside => .joint hinside nofun
  | leftParen =>
    obtain ⟨_, rfl⟩ := leftParen_eq_ok_iff.mp hr
    simp only [List.reverse_cons]
    exact .plain start h .nil
  | rightParen =>
    obtain ⟨group, outer, token, hg, _, _, hclosing, rfl⟩ := rightParen_eq_ok_iff.mp hr
    simp only [List.reverse_cons]
    exact (hg ▸ h).close hclosing
  | comma =>
    obtain ⟨_, outer, hg, rfl⟩ := comma_eq_ok_iff.mp hr
    simp only [List.reverse_cons]
    exact (hg ▸ h).comma
  | logOpen =>
    cases hr
    simp only [Reading.logOpen, List.reverse_cons, List.append_assoc]
    exact .base (stop - 1) h .nil
  | strayLetter => cases hr
  | number value =>
    cases hr
    simp only [Reading.push, List.reverse_cons]
    exact h.append fun inside _ hinside => .number hinside value

/-- The tokens of a text are nested. -/
theorem nested_of_tokenize {text : String} {tokens : List Token} (h : tokenize text = .ok tokens) :
    Nested tokens := by
  obtain ⟨r, hr, hgroups, _, rfl⟩ := tokenize_eq_ok_iff.mp h
  have hframed : Framed r.groups r.tokens.reverse :=
    foldlM_item_induction (P := fun r => Framed r.groups r.tokens.reverse)
      (fun _ _ _ _ _ _ hs hlexeme => hs.lexeme hlexeme) (.outermost .nil) hr
  rw [hgroups] at hframed
  cases hframed with
  | outermost hinside => exact hinside

end Reckoner.Proofs
