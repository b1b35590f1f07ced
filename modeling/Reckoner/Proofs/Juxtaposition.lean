import Mathlib.Tactic
import Reckoner.Proofs.AnyMemory
import Reckoner.Proofs.Nesting
import Reckoner.Proofs.Sentences

/-!
# Juxtaposed operands

An evaluation counts its operands. An operator that lacks one makes the count fall short, and so do
an empty group and an empty argument; nothing but an operand that follows another one makes up
for it. So a text that is evaluated is a sentence if and only if no operand follows an operand, and
there are others: `1 2+` is evaluated.
-/

namespace Reckoner.Proofs

/-! ### Counting operands -/

/-- What a token adds to the number of operands. -/
def weight : Token → Int
  | .number _ => 1
  | .operator _ .binary => -1
  | _ => 0

def surplus (tokens : List Token) : Int :=
  (tokens.map weight).sum

@[simp]
lemma surplus_nil : surplus [] = 0 := rfl

@[simp]
lemma surplus_cons (t : Token) (tokens : List Token) :
    surplus (t :: tokens) = weight t + surplus tokens := by
  simp [surplus]

@[simp]
lemma surplus_append (tokens tokens' : List Token) :
    surplus (tokens ++ tokens') = surplus tokens + surplus tokens' := by
  simp [surplus]

lemma surplus_perm {tokens tokens' : List Token} (h : tokens.Perm tokens') :
    surplus tokens = surplus tokens' :=
  (h.map weight).sum_eq

lemma surplus_cancelled (tokens : List Token) : surplus (tokens.flatMap cancelled) = 0 := by
  induction tokens with
  | nil => rfl
  | cons t rest ih =>
    have ht : surplus (cancelled t) = 0 := by cases t <;> rfl
    rw [List.flatMap_cons, surplus_append, ht, ih, add_zero]

lemma surplus_brought (tokens : List Token) :
    surplus (tokens.flatMap brought) = surplus tokens := by
  induction tokens with
  | nil => rfl
  | cons t rest ih =>
    have ht : surplus (brought t) = weight t := by cases t <;> simp [brought, weight]
    rw [List.flatMap_cons, surplus_append, ht, ih, surplus_cons]

lemma surplus_of_toPostfixOrder {tokens sequence : List Token}
    (h : toPostfixOrder tokens = .ok sequence) : surplus sequence = surplus tokens := by
  have hperm := surplus_perm (toPostfixOrder_perm h)
  rwa [surplus_append, surplus_cancelled, zero_add, surplus_brought] at hperm

lemma length_of_advances {stack next : List Evaluation} {t : Token} (h : Advances stack t next) :
    (next.length : Int) = stack.length + weight t := by
  cases h <;> simp only [List.length_cons, weight] <;> omega

lemma surplus_of_compute {stack : List Evaluation} {tokens : List Token} {result : Evaluation}
    (h : compute stack tokens = .ok result) : stack.length + surplus tokens = 1 := by
  induction tokens generalizing stack with
  | nil =>
    rw [compute_nil_eq_ok h]
    rfl
  | cons t rest ih =>
    obtain ⟨next, hadvances, hrest⟩ := compute_cons_eq_ok h
    have hnext := ih hrest
    have hlength := length_of_advances hadvances
    rw [surplus_cons]
    omega

/-! ### What has no juxtaposed operands -/

def startsOperand : Token → Bool
  | .number _ | .openParen | .operator .log .binary => true
  | _ => false

/-- No operand directly follows an operand. -/
abbrev Alternates : List Token → Prop :=
  List.IsChain fun a b => a.endsOperand → startsOperand b = false

lemma Alternates.not_endsOperand {tokens block : List Token} {t : Token}
    (h : Alternates (tokens ++ t :: block)) (ht : startsOperand t) :
    endsOperand tokens = false := by
  unfold endsOperand
  cases hlast : tokens.getLast? with
  | none => rfl
  | some s =>
    have hjoint := (List.isChain_append.mp h).2.2 s hlast t rfl
    rw [ht] at hjoint
    simpa using hjoint

abbrev Sentence := Infix Binary64

namespace Sentence

abbrev tokens (e : Sentence) : List Token :=
  Infix.tokens id e

def signed (sign : Sign) : Sentence → Sentence
  | .last signs atom => .last (sign :: signs) atom
  | .join signs atom op rest => .join (sign :: signs) atom op rest

lemma tokens_signed (sign : Sign) (e : Sentence) :
    tokens (e.signed sign) = .operator sign.1 .unary :: tokens e := by
  cases e <;> rfl

def joined : Sentence → Joint → Sentence → Sentence
  | .last signs atom, op, e => .join signs atom op e
  | .join signs atom op' rest, op, e => .join signs atom op' (joined rest op e)

lemma tokens_joined (e : Sentence) (op : Joint) (e' : Sentence) :
    tokens (e.joined op e') = tokens e ++ .operator op.1 .binary :: tokens e' := by
  match e with
  | .last signs atom => rfl
  | .join signs atom op' rest =>
    have ih := tokens_joined rest op e'
    simp only [tokens] at ih
    simp only [joined, tokens, Infix.tokens, ih, List.append_assoc, List.cons_append]

end Sentence

/-- Tokens that are a sentence if they have as many operands as a sentence, and never have more. -/
def Finished (tokens : List Token) : Prop :=
  surplus tokens ≤ 1 ∧ (surplus tokens = 1 → ∃ e : Sentence, e.tokens = tokens)

/-- Tokens before which a sentence is missing, and that make it a longer one if they have as many
operands as operators. -/
def Unfinished (tokens : List Token) : Prop :=
  surplus tokens ≤ 0 ∧
    (surplus tokens = 0 → ∀ e : Sentence, ∃ e' : Sentence, e'.tokens = tokens ++ e.tokens)

def Measured (tokens : List Token) : Prop :=
  if endsOperand tokens then Finished tokens else Unfinished tokens

lemma Measured.finished {tokens : List Token} (h : Measured tokens) : Finished tokens := by
  unfold Measured at h
  split_ifs at h with hends
  · exact h
  · obtain ⟨hle, _⟩ := h
    exact ⟨by omega, by omega⟩

lemma Measured.unfinished {tokens : List Token} (h : Measured tokens)
    (hends : endsOperand tokens = false) : Unfinished tokens := by
  simpa [Measured, hends] using h

lemma Unfinished.operand {tokens block : List Token} (h : Unfinished tokens)
    (hle : surplus block ≤ 1)
    (hblock : surplus block = 1 → ∃ a : Atom Binary64, a.tokens id = block) :
    Finished (tokens ++ block) := by
  obtain ⟨hzero, hawaits⟩ := h
  rw [Finished, surplus_append]
  refine ⟨by omega, fun hone => ?_⟩
  obtain ⟨a, rfl⟩ := hblock (by omega)
  exact hawaits (by omega) (.last [] a)

lemma Unfinished.measured {tokens : List Token} (h : Unfinished tokens)
    (hends : endsOperand tokens = false) : Measured tokens := by
  simpa [Measured, hends] using h

lemma Finished.measured {tokens : List Token} (h : Finished tokens)
    (hends : endsOperand tokens) : Measured tokens := by
  simpa [Measured, hends] using h

/-- Nested tokens without juxtaposed operands have at most one operand more than operators, and if
they have, they are a sentence. -/
theorem Nested.measured {tokens : List Token} (h : Nested tokens) (ha : Alternates tokens) :
    Measured tokens := by
  induction h with
  | nil =>
    have hempty : Unfinished [] := ⟨le_rfl, fun _ e => ⟨e, rfl⟩⟩
    exact hempty.measured rfl
  | @number tokens h value ih =>
    have hends := ha.not_endsOperand rfl
    have hbefore := (ih ha.left_of_append).unfinished hends
    have hfinished : Finished (tokens ++ [.number value]) :=
      hbefore.operand (by simp [weight]) fun _ => ⟨.number value, rfl⟩
    exact hfinished.measured (by simp [Token.endsOperand])
  | @sign tokens op h hop hends ih =>
    obtain ⟨hle, hawaits⟩ := (ih ha.left_of_append).unfinished hends
    have hsurplus : surplus (tokens ++ [.operator op .unary]) = surplus tokens := by
      simp [weight]
    have hunfinished : Unfinished (tokens ++ [.operator op .unary]) := by
      refine ⟨hsurplus ▸ hle, fun hzero e => ?_⟩
      obtain ⟨e', he'⟩ := hawaits (hsurplus ▸ hzero) (e.signed ⟨op, hop⟩)
      exact ⟨e', by rw [he', Sentence.tokens_signed, List.append_assoc]; rfl⟩
    exact hunfinished.measured (by simp [Token.endsOperand])
  | @joint tokens op h hop ih =>
    obtain ⟨hle, hsentence⟩ := (ih ha.left_of_append).finished
    have hsurplus : surplus (tokens ++ [.operator op .binary]) = surplus tokens - 1 := by
      simp [weight, sub_eq_add_neg]
    have hunfinished : Unfinished (tokens ++ [.operator op .binary]) := by
      refine ⟨by omega, fun hzero e => ?_⟩
      obtain ⟨e', rfl⟩ := hsentence (by omega)
      exact ⟨e'.joined ⟨op, hop⟩ e, by rw [Sentence.tokens_joined, List.append_assoc]; rfl⟩
    exact hunfinished.measured (by simp [Token.endsOperand])
  | @group tokens inside h hinside ih ihinside =>
    have hbefore := (ih ha.left_of_append).unfinished (ha.not_endsOperand rfl)
    have hblock := ha.right_of_append.of_cons
    obtain ⟨hle, hsentence⟩ := (ihinside hblock.left_of_append).finished
    have hsurplus : surplus (.openParen :: (inside ++ [.closeParen])) = surplus inside := by
      simp [weight]
    have hfinished : Finished (tokens ++ .openParen :: (inside ++ [.closeParen])) := by
      refine hbefore.operand (hsurplus ▸ hle) fun hone => ?_
      obtain ⟨e, rfl⟩ := hsentence (hsurplus ▸ hone)
      exact ⟨.group e, rfl⟩
    exact hfinished.measured (by simp [Token.endsOperand])
  | @log tokens base argument h hbase hargument ih ihbase ihargument =>
    have hbefore := (ih ha.left_of_append).unfinished (ha.not_endsOperand rfl)
    have hblock := ha.right_of_append.of_cons.of_cons
    obtain ⟨hle, hsentence⟩ := (ihbase hblock.left_of_append).finished
    obtain ⟨hle', hsentence'⟩ := (ihargument hblock.right_of_append.of_cons.left_of_append).finished
    have hsurplus : surplus (.operator .log .binary :: .openLog ::
        (base ++ .separator :: (argument ++ [.closeLog]))) =
          surplus base + surplus argument - 1 := by
      simp only [surplus_cons, surplus_append, surplus_nil, weight]
      omega
    have hfinished : Finished (tokens ++ .operator .log .binary :: .openLog ::
        (base ++ .separator :: (argument ++ [.closeLog]))) := by
      refine hbefore.operand (by omega) fun hone => ?_
      obtain ⟨e, rfl⟩ := hsentence (by omega)
      obtain ⟨e', rfl⟩ := hsentence' (by omega)
      exact ⟨.log e e', rfl⟩
    exact hfinished.measured (by simp [Token.endsOperand])

/-! ### Sentences have none -/

lemma Alternates.cons {t : Token} {tokens : List Token} (h : Alternates tokens)
    (ht : t.endsOperand = false) : Alternates (t :: tokens) := by
  refine List.isChain_cons.mpr ⟨fun _ _ hends => ?_, h⟩
  rw [ht] at hends
  cases hends

lemma Alternates.signs {tokens : List Token} (h : Alternates tokens) (ops : List Operator) :
    Alternates (signTokens ops ++ tokens) := by
  induction ops with
  | nil => exact h
  | cons op rest ih => exact ih.cons rfl

mutual

theorem Atom.alternates (a : Atom Binary64) {after : List Token} (h : Alternates after)
    (hhead : ∀ t ∈ after.head?, startsOperand t = false) : Alternates (a.tokens id ++ after) :=
  match a with
  | .number value => List.isChain_cons.mpr ⟨fun t ht _ => hhead t ht, h⟩
  | .group e => by
    have hclose : Alternates (.closeParen :: after) :=
      List.isChain_cons.mpr ⟨fun t ht _ => hhead t ht, h⟩
    have he := e.alternates hclose (by simp [startsOperand])
    simp only [Atom.tokens, List.cons_append, List.append_assoc, List.nil_append]
    exact he.cons rfl
  | .log base argument => by
    have hclose : Alternates (.closeLog :: after) :=
      List.isChain_cons.mpr ⟨fun t ht _ => hhead t ht, h⟩
    have hargument := argument.alternates hclose (by simp [startsOperand])
    have hseparated : Alternates (.separator :: (argument.tokens id ++ .closeLog :: after)) :=
      hargument.cons rfl
    have hbase := base.alternates hseparated (by simp [startsOperand])
    simp only [Atom.tokens, List.cons_append, List.append_assoc, List.nil_append]
    exact (hbase.cons rfl).cons rfl

theorem Infix.alternates (e : Infix Binary64) {after : List Token} (h : Alternates after)
    (hhead : ∀ t ∈ after.head?, startsOperand t = false) : Alternates (e.tokens id ++ after) :=
  match e with
  | .last signs atom => by
    rw [Infix.tokens, List.append_assoc]
    exact (atom.alternates h hhead).signs _
  | .join signs atom op rest => by
    have hrest : Alternates (.operator op.1 .binary :: (rest.tokens id ++ after)) :=
      (rest.alternates h hhead).cons rfl
    have hjoint : startsOperand (.operator op.1 .binary) = false := by
      match op with
      | ⟨.add, _⟩ | ⟨.sub, _⟩ | ⟨.mul, _⟩ | ⟨.div, _⟩ | ⟨.pow, _⟩ => rfl
      | ⟨.log, h⟩ => exact (h rfl).elim
    rw [Infix.tokens, List.append_assoc, List.append_assoc]
    exact (atom.alternates hrest (by simp [hjoint])).signs _

end

lemma Sentence.alternates (e : Sentence) : Alternates e.tokens := by
  have h := Infix.alternates e .nil (by simp)
  rwa [List.append_nil] at h

/-! ### Texts -/

lemma surplus_of_yields {text : String} {result : Evaluation}
    (h : Yields (Expression.evaluate text) (.ok result)) :
    ∃ tokens, tokenize text = .ok tokens ∧ surplus tokens = 1 := by
  obtain ⟨value, hplain⟩ := h.matches_uncached.swap.exists_ok
  rcases uncached_cases text with ⟨e, _, heq⟩ | ⟨tokens, ht, ⟨e, _, heq⟩ | ⟨ordered, hs, heq⟩⟩
  · rw [hplain] at heq
    cases heq
  · rw [hplain] at heq
    cases heq
  · rw [hplain] at heq
    cases hc : compute [] ordered with
    | error e => simp [hc, Except.mapError] at heq
    | ok evaluation =>
      have hordered := surplus_of_compute hc
      rw [surplus_of_toPostfixOrder hs] at hordered
      exact ⟨tokens, ht, by simpa using hordered⟩

/-- Whatever the memory answers, a text that is evaluated is a sentence if and only if none of its
operands directly follows another one. -/
theorem evaluated_sentence_iff {text : String} {result : Evaluation}
    (h : Yields (Expression.evaluate text) (.ok result)) :
    ∃ tokens, tokenize text = .ok tokens ∧
      ((∃ e : Sentence, e.tokens = tokens) ↔ Alternates tokens) := by
  obtain ⟨tokens, ht, hsurplus⟩ := surplus_of_yields h
  refine ⟨tokens, ht, ?_, fun ha => ?_⟩
  · rintro ⟨e, rfl⟩
    exact e.alternates
  · have hfinished := ((nested_of_tokenize ht).measured ha).finished
    exact hfinished.2 hsurplus

/-- The number 1, the number 2 and a trailing operator between operands are evaluated. -/
theorem juxtaposed_evaluated :
    (uncached "1 2+").isOk ∧
      ∃ tokens, tokenize "1 2+" = .ok tokens ∧ ¬∃ e : Sentence, e.tokens = tokens := by
  refine ⟨by decide +kernel,
    [.number (.nearest 1 1), .number (.nearest 2 1), .operator .add .binary], by decide +kernel, ?_⟩
  rintro ⟨e, he⟩
  have ha := e.alternates
  rw [he] at ha
  have hjoint := (List.isChain_cons_cons.mp ha).1 rfl
  cases hjoint

theorem evaluated_sentence_product : ∃ tokens, tokenize "2*(3)" = .ok tokens ∧
    ((∃ e : Sentence, e.tokens = tokens) ↔ Alternates tokens) := by
  have hok : (uncached "2*(3)").isOk := by decide +kernel
  cases hu : uncached "2*(3)" with
  | error fault =>
    rw [hu] at hok
    cases hok
  | ok result =>
    have hyields : Yields (Expression.evaluate "2*(3)") (uncached "2*(3)") := yields_runOn _ .off
    rw [hu] at hyields
    exact evaluated_sentence_iff hyields

end Reckoner.Proofs
