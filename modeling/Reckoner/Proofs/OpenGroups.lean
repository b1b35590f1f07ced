import Mathlib.Tactic
import Reckoner.Proofs.ReadingSteps
import Reckoner.Proofs.Rules

/-!
# Open groups

The groups that a reader keeps open mark the openings that are not yet closed, the innermost first.
The group of a logarithm also notes whether its comma has been met.
-/

namespace Reckoner.Proofs
open Lexeme

/-- What is remembered of an opening and of what has followed it on its own level. -/
def Marks (opening : Item) (inside : List Item) : Group → Prop
  | .plain offset => opening.content = .ok .leftParen ∧ opening.stop = offset + 1
  | .logarithm offset separated => opening.content = .ok .logOpen ∧ opening.stop = offset + 1 ∧
    (separated ↔ ∃ base, Separates base inside)

inductive Opened : List Item → List Group → Prop
  | outermost {inside : List Item} (hinside : Balanced inside) : Opened inside []
  | inner {outer inside : List Item} {groups : List Group} {opening : Item} {group : Group}
    (houter : Opened outer groups) (hinside : Balanced inside)
    (hmarks : Marks opening inside group) :
    Opened (outer ++ opening :: inside) (group :: groups)

section

variable {before inside block : List Item} {opening x : Item} {group : Group} {groups : List Group}

lemma Marks.opens (h : Marks opening inside group) : opening.opens := by
  cases group <;> simp [Item.opens, h.1]

lemma Marks.stop (h : Marks opening inside group) : opening.stop = group.openedAt + 1 :=
  match group, h with
  | .plain _, h => h.2
  | .logarithm _ _, h => h.2.1

lemma Marks.closing_iff {token : Token} (h : Marks opening inside group) :
    closing? group = some token ↔
      (opening.content = .ok .logOpen → ∃ base, Separates base inside) ∧
        token = closeToken opening := by
  match group, h with
  | .plain _, h => simp [closing?, closeToken, h.1, eq_comm]
  | .logarithm _ true, h => simp [closing?, closeToken, h.1, ← h.2.2, eq_comm]
  | .logarithm _ false, h => simp [closing?, h.1, ← h.2.2]

lemma Marks.append (h : Marks opening inside group) (hinside : Balanced inside)
    (hblock : ∀ base, ¬Separates base block) : Marks opening (inside ++ block) group := by
  match group, h with
  | .plain _, h => exact h
  | .logarithm _ _, ⟨hlog, hstop, hseparated⟩ =>
    refine ⟨hlog, hstop, hseparated.trans ⟨?_, ?_⟩⟩
    · rintro ⟨base, hbase⟩
      exact ⟨base, hbase.extend block⟩
    · rintro ⟨base, hbase⟩
      rcases hbase.of_append hinside with hsooner | ⟨base', hlater⟩
      · exact ⟨base, hsooner⟩
      · exact (hblock base' hlater).elim

namespace Opened

lemma append (h : Opened before groups) (hblock : Balanced block)
    (hnone : ∀ base, ¬Separates base block) : Opened (before ++ block) groups := by
  cases h with
  | outermost hinside => exact .outermost (hinside.append hblock)
  | inner houter hinside hmarks =>
    rw [List.append_assoc]
    exact .inner houter (hinside.append hblock) (hmarks.append hinside hnone)

lemma close (h : Opened before (group :: groups)) (hx : x.content = .ok .rightParen) :
    Opened (before ++ [x]) groups := by
  cases h with
  | inner houter hinside hmarks =>
    rw [List.append_assoc]
    exact houter.append (hinside.enclosed hmarks.opens hx) fun base =>
      not_separates_enclosed hmarks.opens hinside hx

lemma comma {offset : Nat} (h : Opened before (.logarithm offset false :: groups))
    (hx : x.content = .ok .comma) : Opened (before ++ [x]) (.logarithm offset true :: groups) := by
  cases h with
  | @inner outer inside _ opening _ houter hinside hmarks =>
    obtain ⟨hlog, hstop, _⟩ := hmarks
    have hlevel : x.level = 0 := by simp [Item.level, hx]
    have hseparates : Separates inside (inside ++ [x]) := ⟨hinside, x, [], rfl, hx⟩
    rw [List.append_assoc]
    exact .inner houter (hinside.append (.single hlevel))
      ⟨hlog, hstop, by simpa using ⟨_, hseparates⟩⟩

lemma innermost (h : Opened before (group :: groups)) :
    ∃ opening inside, Innermost before opening inside ∧ Marks opening inside group := by
  cases h with
  | @inner outer inside _ opening _ _ hinside hmarks =>
    exact ⟨opening, inside, ⟨hmarks.opens, hinside, outer, rfl⟩, hmarks⟩

lemma eq_nil_iff (h : Opened before groups) : groups = [] ↔ Balanced before := by
  cases h with
  | outermost hinside => simpa using hinside
  | inner houter hinside hmarks =>
    simpa using fun hbalanced => Balanced.not_open hbalanced hmarks.opens hinside

lemma of_innermost (h : Opened before groups) (hi : Innermost before opening inside) :
    ∃ group outer, groups = group :: outer ∧ Marks opening inside group := by
  cases groups with
  | nil =>
    have hbalanced := h.eq_nil_iff.mp rfl
    obtain ⟨outer, rfl⟩ := hi.suffix
    exact (hbalanced.not_open hi.opens hi.balanced).elim
  | cons group groups =>
    obtain ⟨opening', inside', hi', hmarks⟩ := h.innermost
    obtain ⟨rfl, rfl⟩ := hi.unique hi'
    exact ⟨group, groups, rfl, hmarks⟩

end Opened

end

end Reckoner.Proofs
