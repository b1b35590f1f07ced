import Mathlib.Tactic
import Reckoner.Proofs.Brackets
import Reckoner.Token

/-!
# Rules for lexemes

The rules that the lexemes of a text must obey, and the tokens that they then stand for, without
regard to how a reader checks them. Some rules are about neighbours, others about what encloses
what. Of the latter, those on commas look ahead; a reader that only looks back can check as much
by looking at every comma and at every closing bracket.
-/

namespace Reckoner

namespace Lexeme.Item

def isSum (x : Item) : Bool :=
  match x.content with
  | .ok .plus | .ok .minus => true
  | _ => false

def isProduct (x : Item) : Bool :=
  match x.content with
  | .ok .star | .ok .slash | .ok .caret => true
  | _ => false

lemma content_of_isSum {x : Item} (h : x.isSum) :
    x.content = .ok .plus ∨ x.content = .ok .minus := by
  unfold isSum at h
  split at h <;> simp_all

lemma content_of_isProduct {x : Item} (h : x.isProduct) :
    x.content = .ok .star ∨ x.content = .ok .slash ∨ x.content = .ok .caret := by
  unfold isProduct at h
  split at h <;> simp_all

def isOperator (x : Item) : Bool :=
  x.isSum || x.isProduct

def endsOperand (x : Item) : Bool :=
  match x.content with
  | .ok (.number _) | .ok .rightParen => true
  | _ => false

def Legible (x : Item) : Prop :=
  ∃ found, x.content = .ok found ∧ found ≠ .strayLetter

end Lexeme.Item

namespace Proofs
open Lexeme (Item)

/-- Nothing precedes, or an operator or an opening directly does. -/
def awaitsOperand (before : List Item) : Bool :=
  before.getLast?.all fun y => y.isOperator || y.opens

/-- The last item is a sign that itself stands where an operand is expected. -/
def EndsInSign (before : List Item) : Prop :=
  ∃ earlier y, before = earlier ++ [y] ∧ y.isSum ∧ awaitsOperand earlier

/-- There is a comma directly after `base`, at the level on which `base` starts. -/
def Separates (base items : List Item) : Prop :=
  Balanced base ∧ ∃ comma rest, items = base ++ comma :: rest ∧ comma.content = .ok .comma

/-- The rules about neighbours, for the item between `before` and `after`. -/
structure Adjoins (before : List Item) (x : Item) (after : List Item) : Prop where
  legible : x.Legible
  sum : x.isSum → ¬EndsInSign before
  product : x.isProduct →
    (∃ y ∈ before.getLast?, y.endsOperand ∨ y.content = .ok .comma) ∧ after ≠ []
  group : x.content = .ok .leftParen → ∀ y ∈ before.getLast?, y.endsOperand = false
  close : x.content = .ok .rightParen → ∀ y ∈ before.getLast?, y.isOperator = false

/-- All rules for the item between `before` and `after`, but that brackets are balanced. -/
structure Fits (before : List Item) (x : Item) (after : List Item) : Prop
    extends Adjoins before x after where
  apart : x.content = .ok .rightParen →
    ∀ opening inside, Innermost before opening inside → opening.stop ≠ x.start
  comma : x.content = .ok .comma →
    ∃ opening inside, Innermost before opening inside ∧ opening.content = .ok .logOpen
  log : x.content = .ok .logOpen → ∃! base, Separates base after

structure Regular (items : List Item) : Prop where
  nonempty : items ≠ []
  balanced : Balanced items
  fits : ∀ before x after, items = before ++ x :: after → Fits before x after

/-! ### Tokens -/

def arityAfter (before : List Item) : Arity :=
  if awaitsOperand before then .unary else .binary

def closeToken (opening : Item) : Token :=
  match opening.content with
  | .ok .logOpen => .closeLog
  | _ => .closeParen

/-- The tokens that an item stands for after the given ones. -/
def Means (before : List Item) (x : Item) (added : List Token) : Prop :=
  match x.content with
  | .ok .plus => added = [.operator .add (arityAfter before)]
  | .ok .minus => added = [.operator .sub (arityAfter before)]
  | .ok .star => added = [.operator .mul .binary]
  | .ok .slash => added = [.operator .div .binary]
  | .ok .caret => added = [.operator .pow .binary]
  | .ok .leftParen => added = [.openParen]
  | .ok .rightParen =>
    ∃ opening inside, Innermost before opening inside ∧ added = [closeToken opening]
  | .ok .comma => added = [.separator]
  | .ok .logOpen => added = [.operator .log .binary, .openLog]
  | .ok (.number value) => added = [.number value]
  | .ok .strayLetter | .error _ => False

inductive Spells : List Item → List Token → Prop
  | nil : Spells [] []
  | snoc {before : List Item} {tokens added : List Token} {x : Item} (h : Spells before tokens)
    (hx : Means before x added) : Spells (before ++ [x]) (tokens ++ added)

lemma Means.unique {before : List Item} {x : Item} {added added' : List Token}
    (h : Means before x added) (h' : Means before x added') : added = added' := by
  cases hx : x.content with
  | error kind => simp [Means, hx] at h
  | ok found =>
    simp only [Means, hx] at h h'
    cases found with
    | rightParen =>
      obtain ⟨opening, inside, hinnermost, rfl⟩ := h
      obtain ⟨opening', inside', hinnermost', rfl⟩ := h'
      rw [(hinnermost.unique hinnermost').1]
    | strayLetter => cases h
    | plus | minus | star | slash | caret | leftParen | comma | logOpen | number =>
      exact h.trans h'.symm

lemma Spells.unique {items : List Item} {tokens tokens' : List Token} (h : Spells items tokens)
    (h' : Spells items tokens') : tokens = tokens' := by
  induction h generalizing tokens' with
  | nil =>
    generalize hitems : ([] : List Item) = items at h'
    cases h' with
    | nil => rfl
    | snoc => simp at hitems
  | @snoc before tokens added x h hx ih =>
    generalize hitems : before ++ [x] = items at h'
    cases h' with
    | nil => simp at hitems
    | snoc h' hx' =>
      obtain ⟨rfl, hsingle⟩ := List.append_inj' hitems rfl
      obtain rfl := List.singleton_inj.mp hsingle
      rw [ih h', hx.unique hx']

/-! ### Looking back -/

/-- As much of the rules as can be told without knowing the items that follow, except that there are
any. -/
structure Accepted (before : List Item) (x : Item) (after : List Item) : Prop
    extends Adjoins before x after where
  closed : x.content = .ok .rightParen → ∃ opening inside, Innermost before opening inside ∧
    opening.stop ≠ x.start ∧ (opening.content = .ok .logOpen → ∃ base, Separates base inside)
  comma : x.content = .ok .comma → ∃ opening inside, Innermost before opening inside ∧
    opening.content = .ok .logOpen ∧ ∀ base, ¬Separates base inside

section

variable {base base' items items' inside : List Item} {x : Item}

lemma Separates.extend (h : Separates base items) (items' : List Item) :
    Separates base (items ++ items') := by
  obtain ⟨hbase, comma, rest, rfl, hcomma⟩ := h
  exact ⟨hbase, comma, rest ++ items', by simp, hcomma⟩

lemma Separates.of_append (h : Separates base (inside ++ items)) (hinside : Balanced inside) :
    Separates base inside ∨ ∃ base', Separates base' items := by
  obtain ⟨hbase, comma, rest, heq, hcomma⟩ := h
  rcases List.append_eq_append_iff.mp heq with ⟨between, rfl, htail⟩ | ⟨between, rfl, htail⟩
  · exact .inr ⟨between, hbase.of_append hinside, comma, rest, htail, hcomma⟩
  · rcases List.cons_eq_append_iff.mp htail with ⟨rfl, hhead⟩ | ⟨later, rfl, _⟩
    · exact .inr ⟨[], .nil, comma, rest, hhead, hcomma⟩
    · exact .inl ⟨hbase, comma, later, rfl, hcomma⟩

/-- A comma at the level on which a stretch starts stands before that level is left. -/
lemma Separates.before_closing (h : Separates base (inside ++ x :: items))
    (hinside : Balanced inside) (hx : x.content = .ok .rightParen) : Separates base inside := by
  rcases h.of_append hinside with hsooner | ⟨base', hbase', comma, rest, heq, hcomma⟩
  · exact hsooner
  · rcases List.cons_eq_append_iff.mp heq with ⟨rfl, hhead⟩ | ⟨later, rfl, _⟩
    · obtain ⟨rfl, _⟩ := List.cons.inj hhead
      rw [hx] at hcomma
      cases hcomma
    · have hclosed : Balanced ([] ++ x :: later) := hbase'
      exact (hclosed.not_closed hx .nil).elim

/-- A bracket keeps its commas to itself. -/
lemma not_separates_enclosed {y : Item} (hx : x.opens) (hinside : Balanced inside)
    (hy : y.content = .ok .rightParen) : ¬Separates base (x :: (inside ++ [y])) := by
  rintro ⟨hbase, comma, rest, heq, hcomma⟩
  rcases List.cons_eq_append_iff.mp heq with ⟨rfl, hhead⟩ | ⟨base', rfl, htail⟩
  · obtain ⟨rfl, _⟩ := List.cons.inj hhead
    simp [Item.opens, hcomma] at hx
  · have hprefix : base' ++ [comma] <+: inside ++ [y] := ⟨rest, by rw [htail]; simp⟩
    rcases List.prefix_concat_iff.mp hprefix with hlast | hbefore
    · obtain ⟨_, hsame⟩ := List.append_inj' hlast rfl
      rw [List.singleton_inj.mp hsame, hy] at hcomma
      cases hcomma
    · have hnonneg := hinside.nonneg base' ((List.prefix_append _ _).trans hbefore)
      have htotal := hbase.total
      rw [excess_cons, Item.level_of_opens hx] at htotal
      omega

lemma not_separates_single (hx : x.content ≠ .ok .comma) : ¬Separates base [x] := by
  rintro ⟨_, comma, rest, heq, hcomma⟩
  have hmem : comma ∈ [x] := by simp [heq]
  rw [List.mem_singleton.mp hmem] at hcomma
  exact hx hcomma

lemma Separates.eq_or (h : Separates base items) (h' : Separates base' items) :
    base = base' ∨ Separates base base' ∨ Separates base' base := by
  obtain ⟨hbase, comma, rest, rfl, hcomma⟩ := h
  obtain ⟨hbase', comma', rest', heq, hcomma'⟩ := h'
  rcases List.append_eq_append_iff.mp heq with ⟨between, rfl, htail⟩ | ⟨between, rfl, htail⟩
  · rcases List.cons_eq_append_iff.mp htail with ⟨rfl, _⟩ | ⟨later, rfl, _⟩
    · simp
    · exact .inr (.inl ⟨hbase, comma, later, rfl, hcomma⟩)
  · rcases List.cons_eq_append_iff.mp htail with ⟨rfl, _⟩ | ⟨later, rfl, _⟩
    · simp
    · exact .inr (.inr ⟨hbase', comma', later, rfl, hcomma'⟩)

end

section

variable {items before after : List Item} {x : Item}

lemma accepted_of_fits (hitems : Balanced items)
    (h : ∀ before x after, items = before ++ x :: after → Fits before x after)
    (hsplit : items = before ++ x :: after) : Accepted before x after := by
  have hx := h before x after hsplit
  refine ⟨hx.toAdjoins, fun hclose => ?_, fun hcomma => ?_⟩
  · have hnonneg : ∀ earlier, earlier <+: before → 0 ≤ excess earlier := fun earlier hp =>
      hitems.nonneg earlier (hp.trans ⟨x :: after, hsplit.symm⟩)
    rcases balanced_or_innermost before hnonneg with hbefore | ⟨opening, inside, hinnermost⟩
    · exact ((hsplit ▸ hitems).not_closed hclose hbefore).elim
    · refine ⟨opening, inside, hinnermost, hx.apart hclose _ _ hinnermost, fun hlog => ?_⟩
      obtain ⟨outer, rfl⟩ := hinnermost.suffix
      have hopening := h outer opening (inside ++ x :: after) (by rw [hsplit]; simp)
      obtain ⟨base, hbase, _⟩ := hopening.log hlog
      exact ⟨base, hbase.before_closing hinnermost.balanced hclose⟩
  · obtain ⟨opening, inside, hinnermost, hlog⟩ := hx.comma hcomma
    refine ⟨opening, inside, hinnermost, hlog, fun base hbase => ?_⟩
    obtain ⟨outer, rfl⟩ := hinnermost.suffix
    have hopening := h outer opening (inside ++ x :: after) (by rw [hsplit]; simp)
    have hinside : Separates inside (inside ++ x :: after) :=
      ⟨hinnermost.balanced, x, after, rfl, hcomma⟩
    have heq : base = inside := (hopening.log hlog).unique (hbase.extend _) hinside
    obtain ⟨_, comma, rest, hrest, _⟩ := hbase
    have hlength := congrArg List.length hrest
    rw [heq] at hlength
    simp at hlength

/-- What is opened is closed, and then it has a comma. -/
lemma exists_separates (hitems : Balanced items)
    (h : ∀ before x after, items = before ++ x :: after → Accepted before x after)
    (hsplit : items = before ++ x :: after) (hlog : x.content = .ok .logOpen) :
    ∃ base, Separates base after := by
  have hopens : x.opens := by simp [Item.opens, hlog]
  have hneg : excess after < 0 := by
    have htotal := hitems.total
    have hnonneg := hitems.nonneg before ⟨x :: after, hsplit.symm⟩
    rw [hsplit, excess_append, excess_cons, Item.level_of_opens hopens] at htotal
    omega
  obtain ⟨inside, closing, rest, rfl, hinside, hclosing⟩ :=
    exists_closing ⟨after, List.prefix_refl _, hneg⟩
  have hlast := h (before ++ x :: inside) closing rest (by rw [hsplit]; simp)
  obtain ⟨opening, inside', hinnermost, _, hseparated⟩ := hlast.closed hclosing
  have hwithin : Innermost (before ++ x :: inside) x inside := ⟨hopens, hinside, before, rfl⟩
  obtain ⟨rfl, rfl⟩ := hwithin.unique hinnermost
  obtain ⟨base, hbase⟩ := hseparated hlog
  exact ⟨base, hbase.extend _⟩

/-- A second comma would be met by a bracket that has one already. -/
lemma not_separates_twice {base base' : List Item}
    (h : ∀ before x after, items = before ++ x :: after → Accepted before x after)
    (hsplit : items = before ++ x :: after) (hlog : x.content = .ok .logOpen)
    (hbase : Separates base after) : ¬Separates base' base := by
  obtain ⟨hbalanced, comma, rest, rfl, hcomma⟩ := hbase
  have hsecond := h (before ++ x :: base) comma rest (by rw [hsplit]; simp)
  obtain ⟨opening, inside, hinnermost, _, hnone⟩ := hsecond.comma hcomma
  have hwithin : Innermost (before ++ x :: base) x base :=
    ⟨by simp [Item.opens, hlog], hbalanced, before, rfl⟩
  obtain ⟨rfl, rfl⟩ := hwithin.unique hinnermost
  exact hnone base'

lemma fits_of_accepted (hitems : Balanced items)
    (h : ∀ before x after, items = before ++ x :: after → Accepted before x after)
    (hsplit : items = before ++ x :: after) : Fits before x after := by
  have hx := h before x after hsplit
  refine ⟨hx.toAdjoins, fun hclose opening inside hinnermost => ?_, fun hcomma => ?_,
    fun hlog => ?_⟩
  · obtain ⟨opening', inside', hinnermost', hapart, _⟩ := hx.closed hclose
    obtain ⟨rfl, _⟩ := hinnermost.unique hinnermost'
    exact hapart
  · obtain ⟨opening, inside, hinnermost, hlog, _⟩ := hx.comma hcomma
    exact ⟨opening, inside, hinnermost, hlog⟩
  · obtain ⟨base, hbase⟩ := exists_separates hitems h hsplit hlog
    refine ⟨base, hbase, fun base' hbase' => ?_⟩
    rcases hbase'.eq_or hbase with heq | hsooner | hlater
    · exact heq
    · exact (not_separates_twice h hsplit hlog hbase hsooner).elim
    · exact (not_separates_twice h hsplit hlog hbase' hlater).elim

end

/-- Looking back is enough, once brackets are balanced. -/
theorem fits_iff_accepted {items : List Item} (hitems : Balanced items) :
    (∀ before x after, items = before ++ x :: after → Fits before x after) ↔
      ∀ before x after, items = before ++ x :: after → Accepted before x after :=
  ⟨fun h _ _ _ => accepted_of_fits hitems h, fun h _ _ _ => fits_of_accepted hitems h⟩

end Proofs

end Reckoner
