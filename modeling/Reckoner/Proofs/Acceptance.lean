import Mathlib.Tactic
import Reckoner.Proofs.OpenGroups
import Reckoner.Proofs.Placement

/-!
# Which texts are tokenized

A text is tokenized if and only if its lexemes obey the rules. Besides the open groups a reader has
one token to go by, which tells what the last item was.
-/

namespace Reckoner.Proofs
open Lexeme

/-! ### The last token -/

/-- The token tells as much of the last item as a reader looks at. -/
structure Ends (before : List Item) (x : Item) (t : Token) : Prop where
  expects : t.expectsOperand = (x.isOperator || x.opens)
  follows : t.expectsOperand = false ↔ x.endsOperand ∨ x.content = .ok .comma
  operator : t.isOperator = x.isOperator
  unary : t.isUnary = (x.isSum && awaitsOperand before)
  operand : t.endsOperand = x.endsOperand

lemma isUnary_arityAfter (op : Operator) (before : List Item) :
    (Token.operator op (arityAfter before)).isUnary = awaitsOperand before := by
  unfold arityAfter
  cases awaitsOperand before <;> rfl

lemma ends_closeToken {before : List Item} {x : Item} (hx : x.content = .ok .rightParen)
    (opening : Item) : Ends before x (closeToken opening) := by
  have hclose : closeToken opening = .closeLog ∨ closeToken opening = .closeParen := by
    unfold closeToken
    split <;> simp
  rcases hclose with h | h <;> rw [h] <;> constructor <;>
    simp [Token.expectsOperand, Token.isOperator, Token.isUnary, Token.endsOperand,
      Item.isOperator, Item.isSum, Item.isProduct, Item.opens, Item.endsOperand, hx]

lemma Means.ends {before : List Item} {x : Item} {added : List Token} (h : Means before x added) :
    ∃ earlier t, added = earlier ++ [t] ∧ Ends before x t := by
  cases hx : x.content with
  | error kind => simp [Means, hx] at h
  | ok found =>
    simp only [Means, hx] at h
    cases found with
    | plus | minus =>
      refine ⟨[], _, h, ?_⟩
      constructor <;>
        simp [Token.expectsOperand, Token.isOperator, Token.endsOperand, isUnary_arityAfter,
          Item.isOperator, Item.isSum, Item.opens, Item.endsOperand, hx]
    | star | slash | caret | leftParen | comma | number =>
      refine ⟨[], _, h, ?_⟩
      constructor <;>
        simp [Token.expectsOperand, Token.isOperator, Token.isUnary, Token.endsOperand,
          Item.isOperator, Item.isSum, Item.isProduct, Item.opens, Item.endsOperand, hx]
    | logOpen =>
      refine ⟨[.operator .log .binary], _, h, ?_⟩
      constructor <;>
        simp [Token.expectsOperand, Token.isOperator, Token.isUnary, Token.endsOperand,
          Item.isOperator, Item.isSum, Item.isProduct, Item.opens, Item.endsOperand, hx]
    | rightParen =>
      obtain ⟨opening, inside, _, h⟩ := h
      exact ⟨[], _, h, ends_closeToken hx opening⟩
    | strayLetter => cases h

/-! ### Steps -/

/-- What a reader knows after these items. -/
structure Tracks (before : List Item) (r : Reading) : Prop where
  spells : Spells before r.tokens.reverse
  opened : Opened before r.groups

namespace Tracks

variable {before after : List Item} {r r' : Reading} {last : Option Nat} {x : Item} {op : Operator}

lemma head (h : Tracks before r) : before = [] ∧ r.tokens = [] ∨
    ∃ earlier y t rest, before = earlier ++ [y] ∧ r.tokens = t :: rest ∧ Ends earlier y t := by
  obtain ⟨hspells, _⟩ := h
  generalize htokens : r.tokens.reverse = tokens at hspells
  cases hspells with
  | nil => exact .inl ⟨rfl, List.reverse_eq_nil_iff.mp htokens⟩
  | @snoc earlier spelled added y _ hmeans =>
    obtain ⟨first, t, rfl, hends⟩ := hmeans.ends
    have hrest : r.tokens = t :: (spelled ++ first).reverse := by
      rw [← List.reverse_reverse r.tokens, htokens]
      simp
    exact .inr ⟨earlier, y, t, _, rfl, hrest, hends⟩

lemma expectant_eq (h : Tracks before r) : expectant r = awaitsOperand before := by
  unfold expectant awaitsOperand
  rcases h.head with ⟨rfl, htokens⟩ | ⟨earlier, y, t, rest, rfl, htokens, hends⟩
  · simp [htokens]
  · simp [htokens, hends.expects]

lemma expectant_eq_false_iff (h : Tracks before r) : expectant r = false ↔
    ∃ y ∈ before.getLast?, y.endsOperand ∨ y.content = .ok .comma := by
  unfold expectant
  rcases h.head with ⟨rfl, htokens⟩ | ⟨earlier, y, t, rest, rfl, htokens, hends⟩
  · simp [htokens]
  · simp [htokens, hends.follows]

lemma isUnary_iff (h : Tracks before r) : r.tokens.head?.any Token.isUnary ↔ EndsInSign before := by
  unfold EndsInSign
  rcases h.head with ⟨rfl, htokens⟩ | ⟨earlier, y, t, rest, rfl, htokens, hends⟩
  · simp [htokens]
  · simp [htokens, hends.unary]

lemma isOperator_eq_false_iff (h : Tracks before r) :
    r.tokens.head?.any Token.isOperator = false ↔ ∀ y ∈ before.getLast?, y.isOperator = false := by
  rcases h.head with ⟨rfl, htokens⟩ | ⟨earlier, y, t, rest, rfl, htokens, hends⟩
  · simp [htokens]
  · simp [htokens, hends.operator]

lemma endsOperand_eq_false_iff (h : Tracks before r) :
    r.tokens.head?.any Token.endsOperand = false ↔
      ∀ y ∈ before.getLast?, y.endsOperand = false := by
  rcases h.head with ⟨rfl, htokens⟩ | ⟨earlier, y, t, rest, rfl, htokens, hends⟩
  · simp [htokens]
  · simp [htokens, hends.operand]

lemma plusMinus_eq_ok_iff (h : Tracks before r) {offset : Nat} : r.plusMinus op offset = .ok r' ↔
    ¬EndsInSign before ∧ r' = r.push (.operator op (arityAfter before)) := by
  rw [Proofs.plusMinus_eq_ok_iff, h.expectant_eq, ← Bool.not_eq_true, h.isUnary_iff]
  unfold arityAfter
  cases hawaits : awaitsOperand before with
  | true => simp
  | false =>
    -- A sign awaits its operand, so it cannot be what comes last here.
    have hsign : ¬EndsInSign before := by
      rintro ⟨earlier, y, rfl, hsum, _⟩
      simp [awaitsOperand, Item.isOperator, hsum] at hawaits
    simp [hsign]

/-- What is accepted obeys the rules. -/
theorem accepted (h : Tracks before r) (hx : Placed last before x after)
    (hr : r.item last x = .ok r') : Accepted before x after := by
  obtain ⟨found, hfound, hlexeme⟩ := item_eq_ok_iff.mp hr
  have hcontent : ∀ {found' : Lexeme}, x.content = .ok found' →
      r.lexeme last found' x.start x.stop = .ok r' := by
    intro found' hfound'
    rw [hfound] at hfound'
    cases hfound'
    exact hlexeme
  refine ⟨⟨⟨found, hfound, ?_⟩, fun hsum => ?_, fun hproduct => ?_, fun hgroup => ?_,
    fun hclose => ?_⟩,
    fun hclose => ?_, fun hcomma => ?_⟩
  · rintro rfl
    cases hlexeme
  · rcases Item.content_of_isSum hsum with hplus | hminus
    · exact (h.plusMinus_eq_ok_iff.mp (hcontent hplus)).1
    · exact (h.plusMinus_eq_ok_iff.mp (hcontent hminus)).1
  · have hneeds : ∃ op, r.binaryOnly last op x.start = .ok r' := by
      rcases Item.content_of_isProduct hproduct with hstar | hslash | hcaret
      · exact ⟨_, hcontent hstar⟩
      · exact ⟨_, hcontent hslash⟩
      · exact ⟨_, hcontent hcaret⟩
    obtain ⟨op, hop⟩ := hneeds
    obtain ⟨_, hlast, hexpectant, _⟩ := binaryOnly_eq_ok_iff.mp hop
    exact ⟨h.expectant_eq_false_iff.mp hexpectant, fun hnil => hlast (hx.last_of_nil hproduct hnil)⟩
  · obtain ⟨hoperand, _⟩ := leftParen_eq_ok_iff.mp (hcontent hgroup)
    exact h.endsOperand_eq_false_iff.mp hoperand
  · obtain ⟨_, _, _, _, hoperator, _⟩ := rightParen_eq_ok_iff.mp (hcontent hclose)
    exact h.isOperator_eq_false_iff.mp hoperator
  · obtain ⟨group, outer, token, hgroups, _, hapart, hclosing, _⟩ :=
      rightParen_eq_ok_iff.mp (hcontent hclose)
    obtain ⟨opening, inside, hinnermost, hmarks⟩ := (hgroups ▸ h.opened).innermost
    exact ⟨opening, inside, hinnermost, hmarks.stop ▸ hapart, (hmarks.closing_iff.mp hclosing).1⟩
  · obtain ⟨openedAt, outer, hgroups, _⟩ := comma_eq_ok_iff.mp (hcontent hcomma)
    obtain ⟨opening, inside, hinnermost, hlog, _, hseparated⟩ := (hgroups ▸ h.opened).innermost
    exact ⟨opening, inside, hinnermost, hlog, by simpa using hseparated⟩

lemma push (h : Tracks before r) {t : Token} (hmeans : Means before x [t]) (hlevel : x.level = 0)
    (hcomma : x.content ≠ .ok .comma) : Tracks (before ++ [x]) (r.push t) := by
  refine ⟨?_, h.opened.append (.single hlevel) fun base => not_separates_single hcomma⟩
  simp only [Reading.push, List.reverse_cons]
  exact h.spells.snoc hmeans

/-- A reader that accepts an item knows as much after it. -/
theorem next (h : Tracks before r) (hx : Placed last before x after) (hr : r.item last x = .ok r') :
    Tracks (before ++ [x]) r' := by
  obtain ⟨found, hfound, hlexeme⟩ := item_eq_ok_iff.mp hr
  cases found with
  | plus | minus =>
    obtain ⟨_, rfl⟩ := h.plusMinus_eq_ok_iff.mp hlexeme
    exact h.push (by simp [Means, hfound]) (by simp [Item.level, hfound]) (by simp [hfound])
  | star | slash | caret =>
    obtain ⟨_, _, _, rfl⟩ := binaryOnly_eq_ok_iff.mp hlexeme
    exact h.push (by simp [Means, hfound]) (by simp [Item.level, hfound]) (by simp [hfound])
  | number value =>
    cases hlexeme
    exact h.push (by simp [Means, hfound]) (by simp [Item.level, hfound]) (by simp [hfound])
  | leftParen =>
    obtain ⟨_, rfl⟩ := leftParen_eq_ok_iff.mp hlexeme
    refine ⟨?_, .inner h.opened .nil ⟨hfound, hx.stop_group hfound⟩⟩
    simp only [List.reverse_cons]
    exact h.spells.snoc (by simp [Means, hfound])
  | logOpen =>
    cases hlexeme
    have hstop : x.stop = x.stop - 1 + 1 := by
      have hne := hx.stop_log hfound
      omega
    have hnone : ∀ base, ¬Separates base [] := by
      rintro base ⟨_, comma, rest, heq, _⟩
      simp at heq
    refine ⟨?_, .inner h.opened .nil ⟨hfound, hstop, by simpa using hnone⟩⟩
    simp only [Reading.logOpen, List.reverse_cons, List.append_assoc]
    exact h.spells.snoc (by simp [Means, hfound])
  | rightParen =>
    obtain ⟨group, outer, token, hgroups, _, _, hclosing, rfl⟩ := rightParen_eq_ok_iff.mp hlexeme
    have hopened := hgroups ▸ h.opened
    obtain ⟨opening, inside, hinnermost, hmarks⟩ := hopened.innermost
    obtain ⟨_, rfl⟩ := hmarks.closing_iff.mp hclosing
    refine ⟨?_, hopened.close hfound⟩
    simp only [List.reverse_cons]
    refine h.spells.snoc ?_
    simp only [Means, hfound]
    exact ⟨opening, inside, hinnermost, rfl⟩
  | comma =>
    obtain ⟨openedAt, outer, hgroups, rfl⟩ := comma_eq_ok_iff.mp hlexeme
    have hopened := hgroups ▸ h.opened
    refine ⟨?_, hopened.comma hfound⟩
    simp only [List.reverse_cons]
    exact h.spells.snoc (by simp [Means, hfound])
  | strayLetter => cases hlexeme

lemma exists_binaryOnly (h : Tracks before r) (hx : Placed last before x after)
    (ha : Accepted before x after) (hnext : ∀ y ∈ after.head?, y.Legible) (hproduct : x.isProduct)
    (op : Operator) : ∃ r', r.binaryOnly last op x.start = .ok r' := by
  obtain ⟨hfollows, hafter⟩ := ha.product hproduct
  have hbefore : before ≠ [] := by
    rintro rfl
    simp at hfollows
  obtain ⟨y, rest, rfl⟩ := List.exists_cons_of_ne_nil hafter
  have hlast : some x.start ≠ last := hx.ne_last y rfl (hnext y rfl)
  have hexpectant := h.expectant_eq_false_iff.mpr hfollows
  exact ⟨_, binaryOnly_eq_ok_iff.mpr ⟨hx.start_ne_zero hbefore, hlast, hexpectant, rfl⟩⟩

/-- What obeys the rules is accepted. -/
theorem exists_next (h : Tracks before r) (hx : Placed last before x after)
    (ha : Accepted before x after) (hnext : ∀ y ∈ after.head?, y.Legible) :
    ∃ r', r.item last x = .ok r' := by
  obtain ⟨found, hfound, hstray⟩ := ha.legible
  suffices hlexeme : ∃ r', r.lexeme last found x.start x.stop = .ok r' by
    obtain ⟨r', hr⟩ := hlexeme
    exact ⟨r', item_eq_ok_iff.mpr ⟨found, hfound, hr⟩⟩
  cases found with
  | plus | minus =>
    have hsign := ha.sum (by simp [Item.isSum, hfound])
    exact ⟨_, h.plusMinus_eq_ok_iff.mpr ⟨hsign, rfl⟩⟩
  | star | slash | caret =>
    exact h.exists_binaryOnly hx ha hnext (by simp [Item.isProduct, hfound]) _
  | number value => exact ⟨_, rfl⟩
  | leftParen =>
    have hoperand := h.endsOperand_eq_false_iff.mpr (ha.group hfound)
    exact ⟨_, leftParen_eq_ok_iff.mpr ⟨hoperand, rfl⟩⟩
  | logOpen => exact ⟨_, rfl⟩
  | rightParen =>
    obtain ⟨opening, inside, hinnermost, hapart, hseparated⟩ := ha.closed hfound
    obtain ⟨group, outer, hgroups, hmarks⟩ := h.opened.of_innermost hinnermost
    have hoperator := h.isOperator_eq_false_iff.mpr (ha.close hfound)
    have hclosing := hmarks.closing_iff.mpr ⟨hseparated, rfl⟩
    rw [hmarks.stop] at hapart
    exact ⟨_, rightParen_eq_ok_iff.mpr
      ⟨group, outer, _, hgroups, hoperator, hapart, hclosing, rfl⟩⟩
  | comma =>
    obtain ⟨opening, inside, hinnermost, hlog, hnone⟩ := ha.comma hfound
    obtain ⟨group, outer, hgroups, hmarks⟩ := h.opened.of_innermost hinnermost
    match group, hmarks with
    | .plain _, hmarks => simp [hmarks.1] at hlog
    | .logarithm _ true, hmarks => exact ((not_exists.mpr hnone) (hmarks.2.2.mp rfl)).elim
    | .logarithm offset false, _ => exact ⟨_, comma_eq_ok_iff.mpr ⟨offset, outer, hgroups, rfl⟩⟩
  | strayLetter => exact (hstray rfl).elim

end Tracks

/-! ### Whole texts -/

lemma forall_split_cons {before : List Item} {y : Item} {rest : List Item}
    {P : List Item → Item → List Item → Prop} :
    (∀ earlier x after, y :: rest = earlier ++ x :: after → P (before ++ earlier) x after) ↔
      P before y rest ∧
        ∀ earlier x after, rest = earlier ++ x :: after → P (before ++ [y] ++ earlier) x after := by
  constructor
  · intro h
    refine ⟨by simpa using h [] y rest rfl, fun earlier x after hsplit => ?_⟩
    rw [← List.append_cons]
    exact h (y :: earlier) x after (by rw [hsplit]; rfl)
  · rintro ⟨hhead, htail⟩ earlier x after hsplit
    rcases List.cons_eq_append_iff.mp hsplit with ⟨rfl, heq⟩ | ⟨earlier, rfl, heq⟩
    · obtain ⟨rfl, rfl⟩ := List.cons.inj heq
      simpa using hhead
    · rw [List.append_cons]
      exact htail earlier x after heq

section

variable {before items : List Item} {r r' : Reading} {last : Option Nat}

theorem Tracks.run (h : Tracks before r)
    (hplaced : ∀ earlier x after, items = earlier ++ x :: after →
      Placed last (before ++ earlier) x after)
    (hr : items.foldlM (Reading.item last) r = .ok r') : Tracks (before ++ items) r' := by
  induction items generalizing before r with
  | nil =>
    cases hr
    rwa [List.append_nil]
  | cons x rest ih =>
    obtain ⟨hx, hrest⟩ := forall_split_cons.mp hplaced
    obtain ⟨next, hitem, hfold⟩ := foldlM_item_cons_eq_ok_iff.mp hr
    rw [List.append_cons]
    exact ih (h.next hx hitem) hrest hfold

theorem Tracks.run_iff (h : Tracks before r)
    (hplaced : ∀ earlier x after, items = earlier ++ x :: after →
      Placed last (before ++ earlier) x after) :
    (∃ r', items.foldlM (Reading.item last) r = .ok r') ↔
      ∀ earlier x after, items = earlier ++ x :: after → Accepted (before ++ earlier) x after := by
  induction items generalizing before r with
  | nil => exact ⟨fun _ earlier x after hsplit => by simp at hsplit, fun _ => ⟨r, rfl⟩⟩
  | cons x rest ih =>
    obtain ⟨hx, hrest⟩ := forall_split_cons.mp hplaced
    rw [forall_split_cons]
    constructor
    · rintro ⟨r', hr⟩
      obtain ⟨next, hitem, hfold⟩ := foldlM_item_cons_eq_ok_iff.mp hr
      exact ⟨h.accepted hx hitem, (ih (h.next hx hitem) hrest).mp ⟨r', hfold⟩⟩
    · rintro ⟨hfirst, hlater⟩
      have hlegible : ∀ y ∈ rest.head?, y.Legible := by
        intro y hy
        obtain ⟨after, rfl⟩ := List.head?_eq_some_iff.mp hy
        exact (hlater [] y after rfl).legible
      obtain ⟨next, hitem⟩ := h.exists_next hx hfirst hlegible
      obtain ⟨r', hfold⟩ := (ih (h.next hx hitem) hrest).mpr hlater
      exact ⟨r', foldlM_item_cons_eq_ok_iff.mpr ⟨next, hitem, hfold⟩⟩

end

lemma Spells.eq_nil_iff {items : List Item} {tokens : List Token} (h : Spells items tokens) :
    tokens = [] ↔ items = [] := by
  cases h with
  | nil => simp
  | snoc h hx =>
    obtain ⟨earlier, t, rfl, _⟩ := hx.ends
    simp

/-- A text is tokenized if and only if its lexemes obey the rules, and then its tokens are those
that the lexemes stand for. -/
theorem tokenize_iff_regular (text : String) :
    ((∃ tokens, tokenize text = .ok tokens) ↔ Regular (scan text)) ∧
      ∀ tokens, tokenize text = .ok tokens ↔ Regular (scan text) ∧ Spells (scan text) tokens := by
  have hstart : Tracks [] {} := ⟨.nil, .outermost .nil⟩
  have hplaced : ∀ earlier x after, scan text = earlier ++ x :: after →
      Placed (Text.lastVisible? text.toList) ([] ++ earlier) x after := fun _ _ _ => placed_of_scan
  have hregular : ∀ tokens, tokenize text = .ok tokens →
      Regular (scan text) ∧ Spells (scan text) tokens := by
    intro tokens ht
    obtain ⟨r, hr, hgroups, htokens, rfl⟩ := tokenize_eq_ok_iff.mp ht
    have haccepted := (hstart.run_iff hplaced).mp ⟨r, hr⟩
    obtain ⟨hspells, hopened⟩ := hstart.run hplaced hr
    have hbalanced := hopened.eq_nil_iff.mp hgroups
    have hne : scan text ≠ [] := fun hnil =>
      htokens (List.reverse_eq_nil_iff.mp (hspells.eq_nil_iff.mpr hnil))
    exact ⟨⟨hne, hbalanced, (fits_iff_accepted hbalanced).mpr haccepted⟩, hspells⟩
  have hexists : Regular (scan text) → ∃ tokens, tokenize text = .ok tokens := by
    intro h
    have haccepted := (fits_iff_accepted h.balanced).mp h.fits
    obtain ⟨r, hr⟩ := (hstart.run_iff hplaced).mpr haccepted
    obtain ⟨hspells, hopened⟩ := hstart.run hplaced hr
    have hgroups := hopened.eq_nil_iff.mpr h.balanced
    have htokens : r.tokens ≠ [] := fun hnil =>
      h.nonempty (hspells.eq_nil_iff.mp (List.reverse_eq_nil_iff.mpr hnil))
    exact ⟨_, tokenize_eq_ok_iff.mpr ⟨r, hr, hgroups, htokens, rfl⟩⟩
  refine ⟨⟨fun ⟨tokens, ht⟩ => (hregular tokens ht).1, hexists⟩, fun tokens =>
    ⟨hregular tokens, fun ⟨h, hspells⟩ => ?_⟩⟩
  obtain ⟨tokens', ht⟩ := hexists h
  rw [ht, hspells.unique (hregular tokens' ht).2]

end Reckoner.Proofs
