import Mathlib.Tactic
import Reckoner.Proofs.Climbing
import Reckoner.Proofs.PrecedenceTree

/-!
# Climbing reads precedence trees

The recursive parser knows operators by numbers from their table, and a precedence tree is built
in layers without any. They agree on every chain of operands. For each layer there is one
argument: once the pieces are read, so is the chain of them.
-/

namespace Reckoner.Proofs

variable {α β : Type}

/-- A token sequence in which the items of a chain can be read one after another, with joints that
satisfy `q`, up to `stop`. -/
inductive Legible (q : Operator → Prop) (reads : List Token → α → List Token → Prop)
    (stop : List Token) : Chain α → List Token → Prop
  | last {x : α} {tokens : List Token} (h : reads tokens x stop) :
    Legible q reads stop ⟨x, []⟩ tokens
  | cons {x y : α} {op : Operator} {rest : List (Operator × α)} {tokens later : List Token}
    (h : reads tokens x (.operator op .binary :: later)) (hop : q op)
    (hlater : Legible q reads stop ⟨y, rest⟩ later) :
    Legible q reads stop ⟨x, (op, y) :: rest⟩ tokens

/-- A formula is read, and whatever is asked for at a level up to `k` goes on from there. -/
def Climbs (k : Nat) (tokens : List Token) (t : Formula) (next : List Token) : Prop :=
  (∀ j ≤ k, climb j tokens = extend j t next) ∧ Stops k next

def Operates (tokens : List Token) (t : Formula) (next : List Token) : Prop :=
  operand tokens = some (t, next)

section

variable {q : Operator → Prop} {p : Operator → Bool} {stop tokens next : List Token} {k m : Nat}

lemma Stops.mono (h : Stops k next) (hk : k ≤ m) : Stops m next := by
  intro op hop
  exact (h op hop).trans_le hk

lemma stops_cons {op : Operator} (hop : op.entry.binaryPrecedence < k) (later : List Token) :
    Stops k (.operator op .binary :: later) := by
  intro op' hop'
  simp only [joint?, Option.mem_def] at hop'
  split_ifs at hop'
  cases hop'
  exact hop

lemma Climbs.climb {t : Formula} (h : Climbs k tokens t next) :
    climb k tokens = some (t, next) := by
  rw [h.1 k le_rfl, extend_of_stops h.2]

lemma Climbs.mono {t : Formula} (h : Climbs k tokens t next) (hm : m ≤ k) (hs : Stops m next) :
    Climbs m tokens t next :=
  ⟨fun j hj => h.1 j (hj.trans hm), hs⟩

lemma Operates.climbs {t : Formula} (h : Operates tokens t next) (hs : Stops k next) :
    Climbs k tokens t next :=
  ⟨fun j _ => climb_of_operand h j, hs⟩

/-! ### The layers -/

lemma Legible.imp {reads : List Token → α → List Token → Prop}
    {reads' : List Token → β → List Token → Prop} {f : α → β} {c : Chain α}
    (h : Legible q reads stop c tokens) (hstop : Stops k stop)
    (hq : ∀ op, q op → op.entry.binaryPrecedence < k)
    (hf : ∀ ts x next, Stops k next → reads ts x next → reads' ts (f x) next) :
    Legible q reads' stop (c.map f) tokens := by
  induction h with
  | last h => exact .last (hf _ _ _ hstop h)
  | cons h hop _ ih => exact .cons (hf _ _ _ (stops_cons (hq _ hop) _) h) hop ih

lemma Legible.groupRight {c : Chain Formula} (h : Legible q Operates stop c tokens)
    (hq : ∀ op, q op → op ≠ .log ∧ op.entry.binaryPrecedence = k ∧ rightMinimum op = k)
    (hstop : Stops k stop) : Climbs k tokens c.groupRight stop := by
  induction h with
  | last h => exact h.climbs hstop
  | cons h hop _ ih =>
    obtain ⟨hlog, hprec, hright⟩ := hq _ hop
    refine ⟨fun j hj => ?_, hstop⟩
    rw [climb_of_operand h]
    exact extend_join hlog (hprec ▸ hj) (hright ▸ ih.climb) _

lemma Legible.groupLeft {c : Chain Formula} (h : Legible q (Climbs k) stop c tokens)
    (hq : ∀ op, q op → op ≠ .log ∧ m ≤ op.entry.binaryPrecedence ∧ rightMinimum op = k)
    (hm : m ≤ k) (hstop : Stops m stop) : Climbs m tokens c.groupLeft stop := by
  -- The formula so far is handed on from joint to joint, so it is general in the induction.
  have hfold : ∀ {c : Chain Formula} {tokens}, Legible q (Climbs k) stop c tokens → ∀ op t, q op →
      ∀ j ≤ m, extend j t (.operator op .binary :: tokens) =
        extend j (c.rest.foldl (fun t x => .binary x.1 t x.2) (.binary op t c.first)) stop := by
    intro c tokens h
    induction h with
    | last h =>
      intro op t hop j hj
      obtain ⟨hlog, hprec, hright⟩ := hq op hop
      exact extend_join hlog (hj.trans hprec) (hright ▸ h.climb) t
    | cons h hop' _ ih =>
      intro op t hop j hj
      obtain ⟨hlog, hprec, hright⟩ := hq op hop
      rw [extend_join hlog (hj.trans hprec) (hright ▸ h.climb) t]
      exact ih _ _ hop' j hj
  refine ⟨fun j hj => ?_, hstop⟩
  cases h with
  | last h => exact h.1 j (hj.trans hm)
  | cons h hop hlater =>
    rw [h.1 j (hj.trans hm)]
    exact hfold hlater _ _ hop j hj

lemma Legible.cut {reads : List Token → α → List Token → Prop} {c : Chain α}
    (h : Legible q reads stop c tokens) :
    Legible (fun op => q op ∧ p op)
      (fun ts piece next => Legible (fun op => q op ∧ ¬p op) reads next piece ts) stop (c.cut p)
      tokens := by
  induction h with
  | last h => exact .last (.last h)
  | @cons x y op rest tokens later h hop _ ih =>
    change Legible _ _ stop (Chain.cutFrom p x ((op, y) :: rest)) tokens
    change Legible _ _ stop (Chain.cutFrom p y rest) later at ih
    unfold Chain.cutFrom
    split_ifs with hp
    · exact .cons (.last h) ⟨hop, hp⟩ ih
    · generalize Chain.cutFrom p y rest = pieces at ih ⊢
      cases ih with
      | last hpiece => exact .last (.cons h ⟨hop, hp⟩ hpiece)
      | cons hpiece hop' hlater => exact .cons (.cons h ⟨hop, hp⟩ hpiece) hop' hlater

/-! ### The table -/

/-- An operator inside a term: `*`, `/` or `^`. -/
def InTerm (op : Operator) : Prop :=
  op ≠ .log ∧ ¬isSum op

lemma table_sum {op : Operator} (h : isSum op) :
    op.entry.binaryPrecedence = 1 ∧ rightMinimum op = 2 ∧ op.entry.unaryPrecedence = some 2 := by
  revert h
  cases op <;> decide

lemma table_product {op : Operator} (h : isProduct op) :
    op.entry.binaryPrecedence = 3 ∧ rightMinimum op = 4 := by
  revert h
  cases op <;> decide

lemma eq_pow_of_inTerm {op : Operator} (h : InTerm op) (hproduct : ¬isProduct op) : op = .pow := by
  obtain ⟨hlog, hsum⟩ := h
  revert hlog hsum hproduct
  cases op <;> decide

/-! ### Terms -/

lemma product_climbs {c : Chain Formula} (h : Legible InTerm Operates stop c tokens)
    (hstop : Stops 3 stop) : Climbs 3 tokens (product c) stop := by
  have hpowers : Legible (fun op => InTerm op ∧ isProduct op) (Climbs 4) stop
      ((c.cut isProduct).map Chain.groupRight) tokens := by
    have hstop' : Stops 4 stop := hstop.mono (by omega)
    refine h.cut.imp hstop' ?_ ?_
    · intro op hop
      have htable := table_product hop.2
      omega
    · intro ts piece next hnext hpiece
      refine hpiece.groupRight ?_ hnext
      intro op hop
      rw [eq_pow_of_inTerm hop.1 hop.2]
      exact ⟨nofun, rfl, rfl⟩
  refine hpowers.groupLeft ?_ (by omega) hstop
  intro op hop
  have htable := table_product hop.2
  exact ⟨hop.1.1, by omega, htable.2⟩

def signTokens (signs : List Operator) : List Token :=
  signs.map fun op => .operator op .unary

/-- An operand is read behind its signs, each of which is a sign of sums. -/
def OperatesBehind (tokens : List Token) (x : Signed) (next : List Token) : Prop :=
  (∀ op ∈ x.signs, isSum op) ∧
    ∃ later, tokens = signTokens x.signs ++ later ∧ Operates later x.formula next

lemma operates_sign {op : Operator} {t : Formula} (hop : isSum op)
    (h : Climbs 3 tokens t next) :
    Operates (.operator op .unary :: tokens) (.unary op t) next := by
  obtain ⟨_, _, hprecedence⟩ := table_sum hop
  exact operand_sign hprecedence h.climb

lemma climbs_behind {signs : List Operator} {t : Formula} (hsigns : ∀ op ∈ signs, isSum op)
    (h : Climbs 3 tokens t next) : Climbs 3 (signTokens signs ++ tokens) (behind signs t) next := by
  induction signs with
  | nil => exact h
  | cons op rest ih =>
    have hrest := ih fun s hs => hsigns s (List.mem_cons_of_mem _ hs)
    exact (operates_sign (hsigns op List.mem_cons_self) hrest).climbs h.2

lemma operates_behind {signs : List Operator} {t : Formula} (hne : signs ≠ [])
    (hsigns : ∀ op ∈ signs, isSum op) (h : Climbs 3 tokens t next) :
    Operates (signTokens signs ++ tokens) (behind signs t) next := by
  obtain ⟨op, rest, rfl⟩ := List.exists_cons_of_ne_nil hne
  exact operates_sign (hsigns op List.mem_cons_self)
    (climbs_behind (fun s hs => hsigns s (List.mem_cons_of_mem _ hs)) h)

/-- The first sign takes in all that follows, so the operands before it form a chain that has
no signs. -/
lemma Legible.collapse {c : Chain Signed}
    (h : Legible InTerm OperatesBehind stop c tokens)
    (hstop : Stops 3 stop) :
    (∀ op ∈ c.first.signs, isSum op) ∧ ∃ later, tokens = signTokens c.first.signs ++ later ∧
      Legible InTerm Operates stop
        ⟨c.first.formula, collapse c.rest⟩ later := by
  induction h with
  | last h =>
    obtain ⟨hsigns, later, htokens, hread⟩ := h
    exact ⟨hsigns, later, htokens, .last hread⟩
  | @cons x y op rest tokens later h hop _ ih =>
    obtain ⟨hsigns, mid, htokens, hread⟩ := h
    obtain ⟨hsigns', after, hlater, hlegible⟩ := ih
    refine ⟨hsigns, mid, htokens, ?_⟩
    unfold Proofs.collapse
    split_ifs with hy
    · simp only [hy] at hlater
      rw [hlater] at hread
      exact .cons hread hop hlegible
    -- A sign ends the chain: its operand is read up to `stop`.
    · refine .cons hread hop (.last ?_)
      rw [hlater]
      exact operates_behind hy hsigns' (product_climbs hlegible hstop)

lemma term_climbs {c : Chain Signed}
    (h : Legible InTerm OperatesBehind stop c tokens)
    (hstop : Stops 3 stop) : Climbs 3 tokens (term c) stop := by
  obtain ⟨hsigns, later, rfl, hlegible⟩ := h.collapse hstop
  exact climbs_behind hsigns (product_climbs hlegible hstop)

/-- The recursive parser reads the precedence tree of a chain of operands. -/
theorem sum_climbs {c : Chain Signed} (h : Legible (· ≠ .log) OperatesBehind stop c tokens)
    (hstop : Stops 0 stop) : Climbs 0 tokens (sum c) stop := by
  have hterms : Legible (fun op => op ≠ .log ∧ isSum op) (Climbs 2) stop
      ((c.cut isSum).map term) tokens := by
    have hstop' : Stops 2 stop := hstop.mono (by omega)
    refine h.cut.imp hstop' ?_ ?_
    · intro op hop
      have htable := table_sum hop.2
      omega
    · intro ts piece next hnext hpiece
      exact (term_climbs hpiece (hnext.mono (by omega))).mono (by omega) hnext
  refine hterms.groupLeft ?_ (by omega) hstop
  intro op hop
  have htable := table_sum hop.2
  exact ⟨hop.1, by omega, htable.2.1⟩

end

end Reckoner.Proofs
