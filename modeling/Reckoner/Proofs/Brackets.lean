import Mathlib.Tactic
import Reckoner.Lexeme

/-!
# Brackets

Which bracket encloses what, told by counting. A stretch of items is balanced if it closes as many
brackets as it opens and has at no point closed more than it opened. An opening encloses what comes
after it as long as the stretch in between is balanced.
-/

namespace Reckoner

namespace Lexeme.Item

def opens (x : Item) : Bool :=
  match x.content with
  | .ok .leftParen | .ok .logOpen => true
  | _ => false

/-- How much deeper it is after the item than before it. -/
def level (x : Item) : Int :=
  match x.content with
  | .ok .leftParen | .ok .logOpen => 1
  | .ok .rightParen => -1
  | _ => 0

lemma level_of_opens {x : Item} (h : x.opens) : x.level = 1 := by
  unfold opens at h
  unfold level
  split at h <;> simp_all

lemma level_of_closes {x : Item} (h : x.content = .ok .rightParen) : x.level = -1 := by
  unfold level
  rw [h]

lemma level_cases (x : Item) :
    x.opens ∧ x.level = 1 ∨ x.content = .ok .rightParen ∧ x.level = -1 ∨
      x.opens = false ∧ x.level = 0 := by
  match hx : x.content with
  | .ok .leftParen | .ok .logOpen => exact .inl (by simp [opens, level, hx])
  | .ok .rightParen => exact .inr (.inl (by simp [level, hx]))
  | .ok .plus | .ok .minus | .ok .star | .ok .slash | .ok .caret | .ok .comma
  | .ok .strayLetter | .ok (.number _) | .error _ => exact .inr (.inr (by simp [opens, level, hx]))

end Lexeme.Item

namespace Proofs
open Lexeme (Item)

/-! ### Counting -/

def excess (items : List Item) : Int :=
  (items.map Item.level).sum

@[simp]
lemma excess_nil : excess [] = 0 := rfl

@[simp]
lemma excess_cons (x : Item) (items : List Item) :
    excess (x :: items) = x.level + excess items := by
  simp [excess]

@[simp]
lemma excess_append (items items' : List Item) :
    excess (items ++ items') = excess items + excess items' := by
  simp [excess]

structure Balanced (items : List Item) : Prop where
  total : excess items = 0
  nonneg : ∀ before, before <+: items → 0 ≤ excess before

namespace Balanced

variable {items items' inside : List Item} {x y : Item}

lemma nil : Balanced [] := by
  refine ⟨rfl, fun before h => ?_⟩
  rw [List.prefix_nil.mp h, excess_nil]

lemma single (hx : x.level = 0) : Balanced [x] := by
  have htotal : excess [x] = 0 := by rw [excess_cons, hx, excess_nil, add_zero]
  refine ⟨htotal, fun before h => ?_⟩
  rcases List.prefix_cons_iff.mp h with rfl | ⟨rest, rfl, hrest⟩
  · exact le_rfl
  · rw [List.prefix_nil.mp hrest, htotal]

lemma append (h : Balanced items) (h' : Balanced items') : Balanced (items ++ items') := by
  refine ⟨by rw [excess_append, h.total, h'.total, add_zero], fun before hbefore => ?_⟩
  rcases List.prefix_or_prefix_of_prefix hbefore (List.prefix_append items items') with hp | hp
  · exact h.nonneg before hp
  · obtain ⟨later, rfl⟩ := hp
    rw [excess_append, h.total, zero_add]
    exact h'.nonneg later ((List.prefix_append_right_inj items).mp hbefore)

lemma of_append (h : Balanced (items ++ items')) (hitems : Balanced items) : Balanced items' := by
  have htotal := h.total
  rw [excess_append, hitems.total, zero_add] at htotal
  refine ⟨htotal, fun before hbefore => ?_⟩
  have hnonneg := h.nonneg (items ++ before) ((List.prefix_append_right_inj items).mpr hbefore)
  rwa [excess_append, hitems.total, zero_add] at hnonneg

lemma enclosed (h : Balanced inside) (hx : x.opens) (hy : y.content = .ok .rightParen) :
    Balanced (x :: (inside ++ [y])) := by
  have hopens := Item.level_of_opens hx
  have hcloses := Item.level_of_closes hy
  have htotal := h.total
  have hexcess : excess (x :: (inside ++ [y])) = 0 := by
    simp only [excess_cons, excess_append, excess_nil]
    omega
  refine ⟨hexcess, fun before hbefore => ?_⟩
  rcases List.prefix_cons_iff.mp hbefore with rfl | ⟨rest, rfl, hrest⟩
  · exact le_rfl
  · rcases List.prefix_concat_iff.mp hrest with rfl | hinside
    · exact hexcess.ge
    · have hnonneg := h.nonneg rest hinside
      rw [excess_cons]
      omega

/-- Nothing that a balanced stretch opens is still open at its end. -/
lemma not_open (h : Balanced (items ++ x :: inside)) (hx : x.opens) (hinside : Balanced inside) :
    False := by
  have htotal := h.total
  have hnonneg := h.nonneg items (List.prefix_append _ _)
  rw [excess_append, excess_cons, Item.level_of_opens hx, hinside.total] at htotal
  omega

/-- Nothing that a balanced stretch closes was open before it. -/
lemma not_closed (h : Balanced (inside ++ y :: items)) (hy : y.content = .ok .rightParen)
    (hinside : Balanced inside) : False := by
  have hprefix : inside ++ [y] <+: inside ++ y :: items := ⟨items, by simp⟩
  have hnonneg := h.nonneg _ hprefix
  rw [excess_append, excess_cons, Item.level_of_closes hy, hinside.total, excess_nil] at hnonneg
  omega

end Balanced

/-! ### The innermost opening -/

/-- The opening encloses what comes after these items, and the rest of them stands between. -/
structure Innermost (before : List Item) (opening : Item) (inside : List Item) : Prop where
  opens : opening.opens
  balanced : Balanced inside
  suffix : opening :: inside <:+ before

lemma Innermost.unique {before inside inside' : List Item} {opening opening' : Item}
    (h : Innermost before opening inside) (h' : Innermost before opening' inside') :
    opening = opening' ∧ inside = inside' := by
  have hlater : ∀ {opening opening' : Item} {inside inside' : List Item},
      Innermost before opening inside → Innermost before opening' inside' →
        opening :: inside <:+ opening' :: inside' → opening = opening' ∧ inside = inside' := by
    intro opening opening' inside inside' h h' hsuffix
    rcases List.suffix_cons_iff.mp hsuffix with heq | ⟨between, rfl⟩
    · exact List.cons.inj heq
    · exact (h'.balanced.not_open h.opens h.balanced).elim
  rcases List.suffix_or_suffix_of_suffix h.suffix h'.suffix with hsuffix | hsuffix
  · exact hlater h h' hsuffix
  · obtain ⟨hopening, hinside⟩ := hlater h' h hsuffix
    exact ⟨hopening.symm, hinside.symm⟩

lemma Innermost.concat {before inside : List Item} {opening x : Item}
    (h : Innermost before opening inside) (hx : x.level = 0) :
    Innermost (before ++ [x]) opening (inside ++ [x]) := by
  obtain ⟨outer, rfl⟩ := h.suffix
  exact ⟨h.opens, h.balanced.append (.single hx), outer, by simp⟩

/-- Where no more is closed than was opened, either everything is closed or some opening is the
innermost one. -/
theorem balanced_or_innermost (before : List Item)
    (h : ∀ earlier, earlier <+: before → 0 ≤ excess earlier) :
    Balanced before ∨ ∃ opening inside, Innermost before opening inside := by
  induction hlength : before.length using Nat.strong_induction_on generalizing before with
  | _ length ih => ?_
  subst hlength
  cases before using List.reverseRecOn with
  | nil => exact .inl .nil
  | append_singleton before x =>
    have hbefore : ∀ earlier, earlier <+: before → 0 ≤ excess earlier := fun earlier hp =>
      h earlier (hp.trans (List.prefix_append _ _))
    have hrest := ih _ (by simp) before hbefore rfl
    rcases x.level_cases with ⟨hopens, _⟩ | ⟨hcloses, hlevel⟩ | ⟨_, hlevel⟩
    · exact .inr ⟨x, [], hopens, .nil, before, rfl⟩
    · rcases hrest with hbalanced | ⟨opening, inside, hinnermost⟩
      · have hnonneg := h _ (List.prefix_refl _)
        rw [excess_append, excess_cons, hbalanced.total, hlevel, excess_nil] at hnonneg
        omega
      -- The bracket is closed, and what encloses it encloses what comes next.
      · obtain ⟨outer, rfl⟩ := hinnermost.suffix
        have hblock := hinnermost.balanced.enclosed hinnermost.opens hcloses
        have houter : ∀ earlier, earlier <+: outer → 0 ≤ excess earlier := fun earlier hp =>
          hbefore earlier (hp.trans (List.prefix_append _ _))
        have hshorter : outer.length < (outer ++ opening :: inside ++ [x]).length := by
          simp only [List.length_append, List.length_cons]
          omega
        rcases ih _ hshorter outer houter rfl with hbalanced | ⟨opening', inside', hinnermost'⟩
        · have hall := hbalanced.append hblock
          rw [← List.cons_append, ← List.append_assoc] at hall
          exact .inl hall
        · obtain ⟨outer', rfl⟩ := hinnermost'.suffix
          refine .inr ⟨opening', _, hinnermost'.opens, hinnermost'.balanced.append hblock,
            outer', ?_⟩
          simp
    · rcases hrest with hbalanced | ⟨opening, inside, hinnermost⟩
      · exact .inl (hbalanced.append (.single hlevel))
      · exact .inr ⟨opening, _, hinnermost.concat hlevel⟩

/-- The first point at which more is closed than was opened is a closing bracket, and what stands
before it is balanced. -/
theorem exists_closing {after : List Item} (h : ∃ earlier, earlier <+: after ∧ excess earlier < 0) :
    ∃ inside closing rest, after = inside ++ closing :: rest ∧ Balanced inside ∧
      closing.content = .ok .rightParen := by
  induction after using List.reverseRecOn with
  | nil =>
    obtain ⟨earlier, hp, hneg⟩ := h
    rw [List.prefix_nil.mp hp, excess_nil] at hneg
    omega
  | append_singleton after x ih =>
    by_cases hsooner : ∃ earlier, earlier <+: after ∧ excess earlier < 0
    · obtain ⟨inside, closing, rest, rfl, hinside, hclosing⟩ := ih hsooner
      exact ⟨inside, closing, rest ++ [x], by simp, hinside, hclosing⟩
    · push Not at hsooner
      obtain ⟨earlier, hp, hneg⟩ := h
      rcases List.prefix_concat_iff.mp hp with rfl | hp
      · have hafter := hsooner after (List.prefix_refl _)
        rw [excess_append, excess_cons, excess_nil, add_zero] at hneg
        rcases x.level_cases with ⟨_, hlevel⟩ | ⟨hcloses, hlevel⟩ | ⟨_, hlevel⟩
        · omega
        · exact ⟨after, x, [], rfl, ⟨by omega, hsooner⟩, hcloses⟩
        · omega
      · have hnonneg := hsooner earlier hp
        omega

end Proofs

end Reckoner
