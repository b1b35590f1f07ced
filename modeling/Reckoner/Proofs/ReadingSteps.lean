import Mathlib.Tactic
import Reckoner.Token.Reading

/-!
# Steps of a reading

What each lexeme does to a reading, and exactly when it is accepted. The token before it is
all that most lexemes look at; brackets and commas also look at the innermost open group.
-/

namespace Reckoner.Proofs
open Reading

/-- An operand is expected after the tokens so far. -/
def expectant (r : Reading) : Bool :=
  r.tokens.head?.all Token.expectsOperand

section

variable {r r' : Reading} {last : Option Nat} {op : Operator} {offset : Nat}

lemma binaryOnly_eq_ok_iff : r.binaryOnly last op offset = .ok r' ↔
    offset ≠ 0 ∧ some offset ≠ last ∧ expectant r = false ∧ r' = r.push (.operator op .binary) := by
  unfold binaryOnly expectant
  by_cases h : offset = 0 ∨ some offset = last
  · simp only [h, if_true, fail, reduceCtorEq, false_iff]
    tauto
  · rw [if_neg h]
    rw [not_or] at h
    match ht : r.tokens with
    | [] => simp [fail]
    | previous :: _ =>
      cases he : previous.expectsOperand <;> simp [fail, h, he, eq_comm]

lemma plusMinus_eq_ok_iff : r.plusMinus op offset = .ok r' ↔
    (expectant r = true ∧ r.tokens.head?.any Token.isUnary = false ∧
      r' = r.push (.operator op .unary)) ∨
    (expectant r = false ∧ r' = r.push (.operator op .binary)) := by
  unfold plusMinus expectant
  match ht : r.tokens with
  | [] => simp [eq_comm]
  | previous :: _ =>
    cases he : previous.expectsOperand <;> cases hu : previous.isUnary <;>
      simp [fail, he, hu, eq_comm]

lemma leftParen_eq_ok_iff : r.leftParen offset = .ok r' ↔
    r.tokens.head?.any Token.endsOperand = false ∧
      r' = { tokens := .openParen :: r.tokens, groups := .plain offset :: r.groups } := by
  unfold leftParen
  cases r.tokens.head?.any Token.endsOperand <;> simp [fail, eq_comm]

/-- The token that closes a group, if the group may be closed. -/
def closing? : Group → Option Token
  | .plain _ => some .closeParen
  | .logarithm _ true => some .closeLog
  | .logarithm _ false => none

lemma rightParen_eq_ok_iff : r.rightParen offset = .ok r' ↔
    ∃ group outer token, r.groups = group :: outer ∧
      r.tokens.head?.any Token.isOperator = false ∧ group.openedAt + 1 ≠ offset ∧
      closing? group = some token ∧ r' = { tokens := token :: r.tokens, groups := outer } := by
  unfold rightParen
  match hg : r.groups with
  | [] => simp [fail]
  | group :: outer =>
    cases r.tokens.head?.any Token.isOperator with
    | true => simp [fail]
    | false =>
      by_cases ho : group.openedAt + 1 = offset
      · simp [fail, ho]
      · simp only [Bool.false_eq_true, if_false, ho]
        match group with
        | .logarithm _ false => simp [fail, closing?]
        | .logarithm _ true => simpa [closing?, eq_comm] using fun _ => ho
        | .plain _ => simpa [closing?, eq_comm] using fun _ => ho

lemma comma_eq_ok_iff : r.comma offset = .ok r' ↔
    ∃ openedAt outer, r.groups = .logarithm openedAt false :: outer ∧
      r' = { tokens := .separator :: r.tokens, groups := .logarithm openedAt true :: outer } := by
  unfold comma
  match hg : r.groups with
  | [] => simp [fail]
  | .plain _ :: _ => simp [fail]
  | .logarithm _ true :: _ => simp [fail]
  | .logarithm _ false :: _ => simp [eq_comm]

/-- The lexemes that an error of the kind may be about. -/
def Accuses (kind : LexErrorKind) (found : Lexeme) : Prop :=
  match kind with
  | .missingOperand => found ∈ [.star, .slash, .caret]
  | .consecutiveUnary => found ∈ [.plus, .minus]
  | .implicitMultiplication => found = .leftParen
  | .invalidParenthesis | .operatorBeforeClose | .invalidLogStatement => found = .rightParen
  | .invalidSeparator => found = .comma
  | .invalidOperator => found = .strayLetter
  | .invalidFloat | .invalidInput | .unbalancedParenthesis | .emptyExpression => False

lemma binaryOnly_eq_error {e : LexError} (h : r.binaryOnly last op offset = .error e) :
    e = ⟨.missingOperand, offset⟩ := by
  unfold binaryOnly fail at h
  split_ifs at h
  · exact (Except.error.inj h).symm
  · split at h
    · exact (Except.error.inj h).symm
    · split_ifs at h
      exact (Except.error.inj h).symm

lemma plusMinus_eq_error {e : LexError} (h : r.plusMinus op offset = .error e) :
    e = ⟨.consecutiveUnary, offset⟩ := by
  unfold plusMinus fail at h
  split at h
  · cases h
  · split_ifs at h
    exact (Except.error.inj h).symm

lemma leftParen_eq_error {e : LexError} (h : r.leftParen offset = .error e) :
    e = ⟨.implicitMultiplication, offset⟩ := by
  unfold leftParen fail at h
  split_ifs at h
  exact (Except.error.inj h).symm

lemma rightParen_eq_error {e : LexError} (h : r.rightParen offset = .error e) :
    e.offset = offset ∧ Accuses e.kind .rightParen := by
  unfold rightParen fail at h
  split at h
  · cases h
    exact ⟨rfl, rfl⟩
  · split_ifs at h
    · cases h
      exact ⟨rfl, rfl⟩
    · cases h
      exact ⟨rfl, rfl⟩
    · split at h
      · cases h
        exact ⟨rfl, rfl⟩
      · cases h
      · cases h

lemma comma_eq_error {e : LexError} (h : r.comma offset = .error e) :
    e = ⟨.invalidSeparator, offset⟩ := by
  unfold comma fail at h
  split at h
  · cases h
  · exact (Except.error.inj h).symm

/-- A lexeme that is refused is blamed where it starts. -/
lemma lexeme_eq_error {found : Lexeme} {start stop : Nat} {e : LexError}
    (h : r.lexeme last found start stop = .error e) :
    e.offset = start ∧ Accuses e.kind found := by
  cases found with
  | plus | minus =>
    obtain rfl := plusMinus_eq_error h
    exact ⟨rfl, by simp [Accuses]⟩
  | star | slash | caret =>
    obtain rfl := binaryOnly_eq_error h
    exact ⟨rfl, by simp [Accuses]⟩
  | leftParen =>
    obtain rfl := leftParen_eq_error h
    exact ⟨rfl, rfl⟩
  | rightParen => exact rightParen_eq_error h
  | comma =>
    obtain rfl := comma_eq_error h
    exact ⟨rfl, rfl⟩
  | strayLetter =>
    cases h
    exact ⟨rfl, rfl⟩
  | number | logOpen => cases h

lemma lexeme_tokens {found : Lexeme} {start stop : Nat}
    (h : r.lexeme last found start stop = .ok r') :
    ∃ added, r'.tokens = added ++ r.tokens ∧ ∀ v, Token.number v ∈ added → found = .number v := by
  cases found with
  | plus | minus =>
    rcases plusMinus_eq_ok_iff.mp h with ⟨_, _, rfl⟩ | ⟨_, rfl⟩ <;>
      exact ⟨[_], rfl, by simp⟩
  | star | slash | caret =>
    obtain ⟨_, _, _, rfl⟩ := binaryOnly_eq_ok_iff.mp h
    exact ⟨[_], rfl, by simp⟩
  | leftParen =>
    obtain ⟨_, rfl⟩ := leftParen_eq_ok_iff.mp h
    exact ⟨[_], rfl, by simp⟩
  | rightParen =>
    obtain ⟨group, _, token, _, _, _, hc, rfl⟩ := rightParen_eq_ok_iff.mp h
    refine ⟨[token], rfl, ?_⟩
    rintro v hv
    obtain rfl := List.mem_singleton.mp hv
    match group with
    | .plain _ => simp [closing?] at hc
    | .logarithm _ true => simp [closing?] at hc
    | .logarithm _ false => simp [closing?] at hc
  | comma =>
    obtain ⟨_, _, _, rfl⟩ := comma_eq_ok_iff.mp h
    exact ⟨[_], rfl, by simp⟩
  | logOpen =>
    cases h
    exact ⟨[_, _], rfl, by simp⟩
  | strayLetter => cases h
  | number value =>
    cases h
    exact ⟨[.number value], rfl, by simp⟩

end

/-! ### Whole texts -/

section

variable {r r' : Reading} {last : Option Nat}

lemma item_eq_ok_iff {i : Lexeme.Item} : r.item last i = .ok r' ↔
    ∃ found, i.content = .ok found ∧ r.lexeme last found i.start i.stop = .ok r' := by
  unfold Reading.item
  cases i.content <;> simp [fail]

lemma item_eq_error {i : Lexeme.Item} {e : LexError} (h : r.item last i = .error e) :
    e.offset = i.start ∧
      (i.content = .error e.kind ∨ ∃ found, i.content = .ok found ∧ Accuses e.kind found) := by
  unfold Reading.item at h
  cases hi : i.content with
  | error kind =>
    rw [hi] at h
    cases h
    exact ⟨rfl, .inl rfl⟩
  | ok found =>
    simp only [hi] at h
    obtain ⟨hoffset, haccuses⟩ := lexeme_eq_error h
    exact ⟨hoffset, .inr ⟨found, rfl, haccuses⟩⟩

lemma foldlM_item_cons_eq_ok_iff {i : Lexeme.Item} {rest : List Lexeme.Item} :
    (i :: rest).foldlM (Reading.item last) r = .ok r' ↔
      ∃ next, r.item last i = .ok next ∧ rest.foldlM (Reading.item last) next = .ok r' := by
  rw [List.foldlM_cons]
  cases r.item last i <;> simp [Bind.bind, Except.bind]

/-- What every accepted lexeme preserves holds after all of them. -/
lemma foldlM_item_induction {P : Reading → Prop} {items : List Lexeme.Item}
    (hstep : ∀ i ∈ items, ∀ found s s', i.content = .ok found → P s →
      s.lexeme last found i.start i.stop = .ok s' → P s')
    (hr : P r) (h : items.foldlM (Reading.item last) r = .ok r') : P r' := by
  induction items generalizing r with
  | nil =>
    cases h
    exact hr
  | cons i rest ih =>
    obtain ⟨next, hi, hrest⟩ := foldlM_item_cons_eq_ok_iff.mp h
    obtain ⟨found, hfound, hlexeme⟩ := item_eq_ok_iff.mp hi
    have hnext : P next := hstep i List.mem_cons_self found r next hfound hr hlexeme
    exact ih (fun j hj => hstep j (List.mem_cons_of_mem _ hj)) hnext hrest

end

lemma finish_eq_ok_iff {r : Reading} {tokens : List Token} : r.finish = .ok tokens ↔
    r.groups = [] ∧ r.tokens ≠ [] ∧ tokens = r.tokens.reverse := by
  unfold Reading.finish
  cases r.groups with
  | cons => simp [fail]
  | nil =>
    cases r.tokens with
    | nil => simp [fail]
    | cons => simp [eq_comm]

theorem tokenize_eq_ok_iff {text : String} {tokens : List Token} : tokenize text = .ok tokens ↔
    ∃ r, (Lexeme.scan text).foldlM (Reading.item (Text.lastVisible? text.toList)) {} = .ok r ∧
      r.groups = [] ∧ r.tokens ≠ [] ∧ tokens = r.tokens.reverse := by
  simp only [← finish_eq_ok_iff]
  unfold tokenize
  cases hr : (Lexeme.scan text).foldlM (Reading.item (Text.lastVisible? text.toList)) {} with
  | error e => simp [hr, Bind.bind, Except.bind]
  | ok r => simp [hr, Bind.bind, Except.bind]

lemma first_cases {P : Except LexErrorKind Lexeme × Nat → Prop} (c : Char) (rest : List Char)
    (hsymbol : ∀ found n, (∀ v, found ≠ .number v) → (found = .logOpen ∨ n = 0) → P (.ok found, n))
    (hnumber : P (Lexeme.ofNumber (c :: rest.takeWhile Lexeme.continuesNumber),
      (rest.takeWhile Lexeme.continuesNumber).length))
    (herror : P (.error .invalidInput, 0)) : P (Lexeme.first c rest) := by
  unfold Lexeme.first
  -- One condition at a time: splitting them all at once would unfold the literal as well.
  iterate 8
    refine iteInduction (motive := P) (fun _ => hsymbol _ _ (by simp) (.inr rfl)) (fun _ => ?_)
  refine iteInduction (motive := P) (fun _ => ?_) (fun _ => ?_)
  · exact iteInduction (motive := P) (fun _ => hsymbol _ _ (by simp) (.inl rfl))
      (fun _ => hsymbol _ _ (by simp) (.inr rfl))
  · exact iteInduction (motive := P) (fun _ => hnumber) (fun _ => herror)

lemma first_number {c : Char} {rest : List Char} {v : Binary64}
    (h : (Lexeme.first c rest).1 = .ok (.number v)) : ∃ literal, v = Literal.value literal := by
  revert h
  refine first_cases (P := fun found => found.1 = .ok (.number v) → _) c rest ?_ ?_ nofun
  · intro found n hn _ h
    exact (hn v (Except.ok.inj h)).elim
  · intro h
    simp only [Lexeme.ofNumber] at h
    split_ifs at h
    simp only [Except.ok.injEq, Lexeme.number.injEq] at h
    exact ⟨_, h.symm⟩

lemma scanFrom_number {offset : Nat} {text : List Char} {i : Lexeme.Item} {v : Binary64}
    (hi : i ∈ Lexeme.scanFrom offset text) (h : i.content = .ok (.number v)) :
    ∃ literal, v = Literal.value literal := by
  fun_induction Lexeme.scanFrom offset text with
  | case1 => simp at hi
  | case2 offset c rest hc ih => exact ih hi
  | case3 offset c rest hc found stop ih =>
    rcases List.mem_cons.mp hi with rfl | hi
    · exact first_number h
    · exact ih hi

/-- Every number among the tokens of a text is the value of a literal. -/
theorem tokenize_number {text : String} {tokens : List Token} (h : tokenize text = .ok tokens)
    {v : Binary64} (hv : Token.number v ∈ tokens) : ∃ literal, v = Literal.value literal := by
  obtain ⟨r, hr, _, _, rfl⟩ := tokenize_eq_ok_iff.mp h
  have hnumbers : ∀ v, Token.number v ∈ r.tokens → ∃ literal, v = Literal.value literal := by
    refine foldlM_item_induction
      (P := fun r => ∀ v, Token.number v ∈ r.tokens → ∃ literal, v = Literal.value literal)
      ?_ (by simp) hr
    intro i hi found s s' hfound hs hlexeme v hv
    obtain ⟨added, hadded, hnumber⟩ := lexeme_tokens hlexeme
    rw [hadded, List.mem_append] at hv
    rcases hv with hv | hv
    · exact scanFrom_number hi (hfound.trans (congrArg _ (hnumber v hv)))
    · exact hs v hv
  exact hnumbers v (List.mem_reverse.mp hv)

end Reckoner.Proofs
