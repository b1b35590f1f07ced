import Mathlib.Tactic
import Reckoner.Proofs.Lockstep

/-!
# Markers on the stack

At every token, the brackets that wait on the stack of the yard are those of the groups that the
tokenizer has open there, and each logarithm waits right below its own bracket. So an operator that
comes in is compared with the operators above the innermost bracket only. No logarithm is ever among
them, and its precedence in the table decides nothing.
-/

namespace Reckoner.Proofs
open Yard

/-! ### What is compared -/

/-- The waiting tokens that are looked at when an operator comes in: those that yield to it, and the
first that does not. -/
def compared (incoming : Operator) (stack : List Token) : List Token :=
  stack.takeWhile (yields incoming) ++ (stack.dropWhile (yields incoming)).head?.toList

/-- What is released depends on nothing but the tokens that are looked at. -/
lemma release_congr {op : Operator} {y : Yard} {p : Token → Bool}
    (h : ∀ t ∈ compared op y.stack, p t = yields op t) : y.release p = y.release (yields op) := by
  suffices hsame : y.stack.takeWhile p = y.stack.takeWhile (yields op) ∧
      y.stack.dropWhile p = y.stack.dropWhile (yields op) by
    rw [release, release, hsame.1, hsame.2]
  generalize y.stack = stack at h
  induction stack with
  | nil => exact ⟨rfl, rfl⟩
  | cons t rest ih =>
    cases hy : yields op t with
    | true =>
      simp only [compared, List.takeWhile_cons, List.dropWhile_cons, hy, if_true, List.cons_append,
        List.forall_mem_cons] at h
      obtain ⟨ht, hrest⟩ := h
      obtain ⟨htake, hdrop⟩ := ih hrest
      simp only [List.takeWhile_cons, List.dropWhile_cons, hy, ht, if_true, htake, hdrop, and_self]
    | false =>
      have ht : p t = false := by
        rw [← hy]
        exact h t (by simp [compared, hy])
      simp only [List.takeWhile_cons, List.dropWhile_cons, hy, ht, Bool.false_eq_true, if_false,
        and_self]

lemma Waits.ne_log {t : Token} (h : Waits t) (arity : Arity) : t ≠ .operator .log arity := by
  rintro rfl
  cases arity with
  | unary => cases h
  | binary => exact h rfl

/-- No logarithm is looked at, because its bracket is above it and yields to nothing. -/
lemma Mirrors.log_not_compared {groups : List Group} {stack : List Token} (h : Mirrors groups stack)
    (op : Operator) (arity : Arity) : .operator .log arity ∉ compared op stack := by
  induction h with
  | empty => simp [compared]
  | @wait _ stack t ht h ih =>
    have hlog : .operator .log arity ≠ t := (ht.ne_log arity).symm
    cases hy : yields op t with
    | true =>
      simp only [compared, List.takeWhile_cons, List.dropWhile_cons, hy, if_true, List.cons_append]
      exact List.not_mem_cons_of_ne_of_not_mem hlog ih
    | false => simpa [compared, hy] using hlog
  | plain | logarithm => simp [compared, yields]

/-! ### Markers and groups -/

def isMarker (t : Token) : Bool :=
  t.isOpenParen || t.isOpenLog

/-- What an open group leaves on the stack. -/
def marker : Group → Token
  | .plain _ => .openParen
  | .logarithm _ _ => .openLog

/-- Every logarithm waits right below a bracket, and every bracket of a logarithm right above
one. -/
structure Bracketed (stack : List Token) : Prop where
  below : ∀ above arity below, stack = above ++ .operator .log arity :: below →
    above.getLast? = some .openLog
  above : ∀ above below, stack = above ++ .openLog :: below →
    below.head? = some (.operator .log .binary)

lemma bracketed_nil : Bracketed [] :=
  ⟨by simp, by simp⟩

lemma Bracketed.cons {stack : List Token} {t : Token} (h : Bracketed stack)
    (hlog : ∀ arity, t ≠ .operator .log arity) (hbracket : t ≠ .openLog) :
    Bracketed (t :: stack) := by
  constructor
  · rintro (_ | ⟨s, above⟩) arity below heq
    · exact (hlog arity (List.cons.inj heq).1).elim
    · have hlast := h.below above arity below (List.cons.inj heq).2
      rw [List.getLast?_cons, hlast]
      rfl
  · rintro (_ | ⟨s, above⟩) below heq
    · exact (hbracket (List.cons.inj heq).1).elim
    · exact h.above above below (List.cons.inj heq).2

lemma Bracketed.logarithm {stack : List Token} (h : Bracketed stack) :
    Bracketed (.openLog :: .operator .log .binary :: stack) := by
  constructor
  · rintro (_ | ⟨s, _ | ⟨s', above⟩⟩) arity below heq
    · cases heq
    · cases heq
      rfl
    · obtain ⟨-, htail⟩ := List.cons.inj heq
      have hlast := h.below above arity below (List.cons.inj htail).2
      rw [List.getLast?_cons, List.getLast?_cons, hlast]
      rfl
  · rintro (_ | ⟨s, _ | ⟨s', above⟩⟩) below heq
    · cases heq
      rfl
    · cases heq
    · obtain ⟨-, htail⟩ := List.cons.inj heq
      exact h.above above below (List.cons.inj htail).2

namespace Mirrors

variable {groups : List Group} {stack : List Token}

lemma markers (h : Mirrors groups stack) : stack.filter isMarker = groups.map marker := by
  induction h with
  | empty => rfl
  | @wait _ _ t ht _ ih =>
    have hmarker : isMarker t = false := by
      obtain ⟨hparen, hlog⟩ := ht.not_bracket
      rw [isMarker, hparen, hlog, Bool.or_false]
    rw [List.filter_cons_of_neg (by simpa using hmarker), ih]
  | plain _ _ ih => exact congrArg (.openParen :: ·) ih
  | logarithm _ _ _ ih => exact congrArg (.openLog :: ·) ih

lemma bracketed (h : Mirrors groups stack) : Bracketed stack := by
  induction h with
  | empty => exact bracketed_nil
  | @wait _ _ t ht _ ih =>
    refine ih.cons ht.ne_log ?_
    rintro rfl
    exact ht
  | plain _ _ ih => exact ih.cons nofun nofun
  | logarithm _ _ _ ih => exact ih.logarithm

end Mirrors

/-! ### Along a text -/

/-- The tokenizer comes to the reading on its way through a text. -/
def Passes (text : String) (r : Reading) : Prop :=
  ∃ front rest, Lexeme.scan text = front ++ rest ∧
    front.foldlM (Reading.item (Text.lastVisible? text.toList)) {} = .ok r

/-- The yard behind some tokens of a text, with others to come: it is in step with a reading, or
the bracket of a logarithm is the next token. -/
inductive Follows (text : String) : List Token → List Token → Yard → Prop
  | reading {r : Reading} {y : Yard} (hr : Passes text r) (h : InStep r y) (rest : List Token) :
    Follows text r.tokens.reverse rest y
  | logarithm {r : Reading} {y : Yard} (hr : Passes text r) (h : InStep r y) (rest : List Token) :
    Follows text (r.tokens.reverse ++ [.operator .log .binary]) (.openLog :: rest)
      (y.wait (.operator .log .binary))

section

variable {text : String} {r r' : Reading} {y : Yard} {front rest : List Token}

lemma Follows.append (h : Follows text front rest y) (more : List Token) :
    Follows text front (rest ++ more) y := by
  cases h with
  | reading hr h => exact .reading hr h _
  | logarithm hr h rest => exact .logarithm hr h _

/-- A lexeme adds one token, or the two of a logarithm. -/
lemma lexeme_added {last : Option Nat} {found : Lexeme} {start stop : Nat}
    (h : r.lexeme last found start stop = .ok r') :
    ∃ added, r'.tokens.reverse = r.tokens.reverse ++ added ∧
      (added.length = 1 ∨ added = [.operator .log .binary, .openLog]) := by
  cases found with
  | plus | minus =>
    rcases plusMinus_eq_ok_iff.mp h with ⟨_, _, rfl⟩ | ⟨_, rfl⟩
    · exact ⟨[_], List.reverse_cons, .inl rfl⟩
    · exact ⟨[_], List.reverse_cons, .inl rfl⟩
  | star | slash | caret =>
    obtain ⟨_, _, _, rfl⟩ := binaryOnly_eq_ok_iff.mp h
    exact ⟨[_], List.reverse_cons, .inl rfl⟩
  | leftParen =>
    obtain ⟨_, rfl⟩ := leftParen_eq_ok_iff.mp h
    exact ⟨[_], List.reverse_cons, .inl rfl⟩
  | rightParen =>
    obtain ⟨_, _, _, _, _, _, _, rfl⟩ := rightParen_eq_ok_iff.mp h
    exact ⟨[_], List.reverse_cons, .inl rfl⟩
  | comma =>
    obtain ⟨_, _, _, rfl⟩ := comma_eq_ok_iff.mp h
    exact ⟨[_], List.reverse_cons, .inl rfl⟩
  | number value =>
    cases h
    exact ⟨[_], List.reverse_cons, .inl rfl⟩
  | logOpen =>
    cases h
    exact ⟨_, by simp [Reading.logOpen], .inr rfl⟩
  | strayLetter => cases h

/-- The yard follows the tokenizer through a lexeme if it has followed it up to there. -/
lemma exists_follows_of_lexeme {last : Option Nat} {found : Lexeme} {start stop : Nat}
    (hr : Passes text r) (hstep : InStep r y) (hr' : Passes text r')
    (hlexeme : r.lexeme last found start stop = .ok r')
    (hbefore : ∀ front rest, r.tokens.reverse = front ++ rest →
      ∃ y, front.foldlM Yard.token {} = .ok y ∧ Follows text front rest y)
    (hsplit : r'.tokens.reverse = front ++ rest) :
    ∃ y, front.foldlM Yard.token {} = .ok y ∧ Follows text front rest y := by
  obtain ⟨added, htokens, hadded⟩ := lexeme_added hlexeme
  rw [htokens] at hsplit
  rcases List.append_eq_append_iff.mp hsplit with ⟨behind, rfl, hbehind⟩ | ⟨between, hsame, rfl⟩
  · rcases behind with _ | ⟨s, behind⟩
    · rw [List.append_nil]
      exact ⟨y, hstep.run, .reading hr hstep rest⟩
    · rcases rest with _ | ⟨t, rest⟩
      · obtain ⟨y', hstep'⟩ := hstep.lexeme hlexeme
        rw [List.append_nil] at hbehind
        rw [← hbehind, ← htokens]
        exact ⟨y', hstep'.run, .reading hr' hstep' []⟩
      · -- Something has been added on both sides, so a logarithm and its bracket are parted here.
        rcases hadded with hone | rfl
        · rw [hbehind] at hone
          simp at hone
        · obtain ⟨rfl, hrest⟩ := List.cons.inj hbehind
          obtain ⟨rfl, hbracket⟩ := List.append_eq_singleton_iff.mp hrest.symm |>.resolve_right
            fun h => List.cons_ne_nil t rest h.2
          rw [hbracket]
          refine ⟨y.wait (.operator .log .binary), ?_, .logarithm hr hstep []⟩
          rw [List.foldlM_append, hstep.run]
          rfl
  · obtain ⟨y', hy', hfollows⟩ := hbefore front between hsame
    exact ⟨y', hy', hfollows.append added⟩

/-- The yard takes the tokens of a text one by one and follows the tokenizer at each of them. -/
lemma exists_follows {tokens : List Token} (h : tokenize text = .ok tokens)
    (hsplit : tokens = front ++ rest) :
    ∃ y, front.foldlM Yard.token {} = .ok y ∧ Follows text front rest y := by
  obtain ⟨r, hr, -, -, rfl⟩ := tokenize_eq_ok_iff.mp h
  suffices hall : ∀ items later r, Lexeme.scan text = items ++ later →
      items.foldlM (Reading.item (Text.lastVisible? text.toList)) {} = .ok r →
      (∃ y, InStep r y) ∧ ∀ front rest, r.tokens.reverse = front ++ rest →
        ∃ y, front.foldlM Yard.token {} = .ok y ∧ Follows text front rest y from
    (hall _ [] r (List.append_nil _).symm hr).2 front rest hsplit
  intro items
  induction items using List.reverseRecOn with
  | nil =>
    rintro later r hscan hr
    cases hr
    have hstart : InStep {} {} := ⟨rfl, .empty, by simp⟩
    refine ⟨⟨{}, hstart⟩, fun front rest hsplit => ?_⟩
    obtain ⟨rfl, rfl⟩ := List.append_eq_nil_iff.mp hsplit.symm
    exact ⟨{}, rfl, .reading ⟨[], later, hscan, rfl⟩ hstart []⟩
  | append_singleton items item ih =>
    intro later r' hscan hr'
    have hpasses : Passes text r' := ⟨items ++ [item], later, hscan, hr'⟩
    rw [List.append_assoc] at hscan
    rw [List.foldlM_append] at hr'
    cases hr : items.foldlM (Reading.item (Text.lastVisible? text.toList)) {} with
    | error e =>
      rw [hr] at hr'
      cases hr'
    | ok r =>
      rw [hr] at hr'
      obtain ⟨next, hitem, hnext⟩ := foldlM_item_cons_eq_ok_iff.mp hr'
      cases hnext
      obtain ⟨found, -, hlexeme⟩ := item_eq_ok_iff.mp hitem
      obtain ⟨⟨y, hstep⟩, hbefore⟩ := ih _ r hscan hr
      exact ⟨hstep.lexeme hlexeme, fun front rest hsplit =>
        exists_follows_of_lexeme ⟨items, _, hscan, hr⟩ hstep hpasses hlexeme hbefore hsplit⟩

/-! ### What the stack shows -/

/-- On the stack are the markers of the groups that the tokenizer had open behind these tokens, and
each logarithm is paired with its bracket, except that the last one still lacks a bracket if that is
the next token. -/
def Abreast (text : String) (front rest : List Token) (y : Yard) : Prop :=
  ∃ r, Passes text r ∧ y.stack.filter isMarker = r.groups.map marker ∧
    (front = r.tokens.reverse ∧ Bracketed y.stack ∨
      front = r.tokens.reverse ++ [.operator .log .binary] ∧ rest.head? = some .openLog ∧
        y.stack.head? = some (.operator .log .binary) ∧ Bracketed y.stack.tail)

lemma Follows.abreast (h : Follows text front rest y) : Abreast text front rest y := by
  cases h with
  | @reading r _ hr h => exact ⟨r, hr, h.mirrors.markers, .inl ⟨rfl, h.mirrors.bracketed⟩⟩
  | @logarithm r _ hr h rest =>
    exact ⟨r, hr, h.mirrors.markers, .inr ⟨rfl, rfl, rfl, h.mirrors.bracketed⟩⟩

lemma Follows.log_not_compared {op : Operator} {arity arity' : Arity}
    (h : Follows text front (.operator op arity :: rest) y) :
    .operator .log arity' ∉ compared op y.stack := by
  cases h with
  | reading hr h => exact h.mirrors.log_not_compared op arity'

end

/-! ### Other tables -/

/-- Whether a waiting operator is applied before the incoming one is read on, by a table. -/
def executesBeforeBy (table : Operator → Operator.Entry) (top incoming : Operator × Arity) : Bool :=
  let precedence? (x : Operator × Arity) : Option Nat :=
    match x.2 with
    | .unary => (table x.1).unaryPrecedence
    | .binary => some (table x.1).binaryPrecedence
  match precedence? top, precedence? incoming with
  | some t, some i => if (table incoming.1).rightAssociative then i < t else i ≤ t
  | _, _ => false

lemma executesBeforeBy_entry : executesBeforeBy Operator.entry = Operator.executesBefore := by
  funext top incoming
  obtain ⟨op, arity⟩ := top
  obtain ⟨op', arity'⟩ := incoming
  cases arity <;> cases arity' <;> rfl

def yieldsBy (before : Operator × Arity → Operator × Arity → Bool) (incoming : Operator) :
    Token → Bool
  | .operator op arity => before (op, arity) (incoming, .binary)
  | _ => false

/-- Takes one token, with the comparison of operators left open. -/
def tokenBy (before : Operator × Arity → Operator × Arity → Bool) (y : Yard) (t : Token) :
    Except ParseError Yard :=
  match t with
  | .operator op .binary =>
    if op = .log then y.token t else .ok ((y.release (yieldsBy before op)).wait t)
  | _ => y.token t

lemma yieldsBy_executesBefore (op : Operator) :
    yieldsBy Operator.executesBefore op = yields op := by
  funext t
  cases t <;> rfl

lemma tokenBy_executesBefore (y : Yard) (t : Token) :
    tokenBy Operator.executesBefore y t = y.token t := by
  unfold tokenBy
  split
  · split_ifs with hop
    · rfl
    · rw [token_binary hop, yieldsBy_executesBefore]
  · rfl

/-- The postfix order by another table of operators. -/
def postfixOrderBy (table : Operator → Operator.Entry) (tokens : List Token) :
    Except ParseError (List Token) := do
  let yard ← tokens.foldlM (tokenBy (executesBeforeBy table)) {}
  return yard.finish

/-- By the table of operators itself it is the postfix order, of any tokens. -/
lemma postfixOrderBy_entry : postfixOrderBy Operator.entry = toPostfixOrder := by
  funext tokens
  have htoken : tokenBy (executesBeforeBy Operator.entry) = Yard.token := by
    funext y t
    rw [executesBeforeBy_entry, tokenBy_executesBefore]
  rw [postfixOrderBy, htoken, toPostfixOrder]

lemma executesBeforeBy_congr {table : Operator → Operator.Entry}
    (htable : ∀ op, op ≠ .log → table op = op.entry) {top incoming : Operator × Arity}
    (htop : top.1 ≠ .log) (hincoming : incoming.1 ≠ .log) :
    executesBeforeBy table top incoming = Operator.executesBefore top incoming := by
  rw [← executesBeforeBy_entry]
  simp only [executesBeforeBy, htable _ htop, htable _ hincoming]

/-- A table that says something else about logarithms only makes no difference where none is
compared. -/
lemma tokenBy_congr {table : Operator → Operator.Entry}
    (htable : ∀ op, op ≠ .log → table op = op.entry) {y : Yard} {t : Token}
    (h : ∀ op arity arity', t = .operator op arity → .operator .log arity' ∉ compared op y.stack) :
    tokenBy (executesBeforeBy table) y t = y.token t := by
  unfold tokenBy
  split
  · rename_i op
    split_ifs with hop
    · rfl
    · have hyields : ∀ t ∈ compared op y.stack,
          yieldsBy (executesBeforeBy table) op t = yields op t := by
        intro t ht
        rw [← yieldsBy_executesBefore]
        cases t with
        | operator top arity =>
          have htop : top ≠ .log := by
            rintro rfl
            exact h op .binary arity rfl ht
          change executesBeforeBy table (top, arity) (op, .binary) = _
          exact executesBeforeBy_congr htable htop hop
        | number | openParen | closeParen | openLog | closeLog | separator => rfl
      rw [token_binary hop, release_congr hyields]
  · rfl

/-- Two folds agree if their steps agree wherever the one fold comes to. -/
lemma foldlM_congr_of_reached {α β ε : Type} {f g : β → α → Except ε β} {start : β} {l : List α}
    (h : ∀ front a rest b, l = front ++ a :: rest → front.foldlM f start = .ok b → g b a = f b a) :
    l.foldlM g start = l.foldlM f start := by
  induction l generalizing start with
  | nil => rfl
  | cons a rest ih =>
    rw [List.foldlM_cons, List.foldlM_cons, h [] a rest start rfl rfl]
    cases hnext : f start a with
    | error e => rfl
    | ok next =>
      refine ih fun front a' rest' b hsplit hb => h (a :: front) a' rest' b (by rw [hsplit]; rfl) ?_
      rw [List.foldlM_cons, hnext]
      exact hb

/-- The yard takes every token of a text, and at each of them the markers on its stack are those of
the groups that the tokenizer has open there, with every logarithm right below its own bracket. So
an operator that comes in is never compared with a logarithm, and the postfix order is the same by
every table that differs in its entry for logarithms only. -/
theorem markers_of_open_groups {text : String} {tokens : List Token}
    (h : tokenize text = .ok tokens) :
    (∀ front rest, tokens = front ++ rest →
      ∃ y, front.foldlM Yard.token {} = .ok y ∧ Abreast text front rest y ∧
        ∀ op arity arity', rest.head? = some (.operator op arity) →
          .operator .log arity' ∉ compared op y.stack) ∧
      postfixOrderBy Operator.entry = toPostfixOrder ∧
      ∀ table : Operator → Operator.Entry, (∀ op, op ≠ .log → table op = op.entry) →
        postfixOrderBy table tokens = toPostfixOrder tokens := by
  refine ⟨fun front rest hsplit => ?_, postfixOrderBy_entry, fun table htable => ?_⟩
  · obtain ⟨y, hy, hfollows⟩ := exists_follows h hsplit
    refine ⟨y, hy, hfollows.abreast, fun op arity arity' hhead => ?_⟩
    cases rest with
    | nil => cases hhead
    | cons t rest =>
      cases hhead
      exact hfollows.log_not_compared
  · have hfold : tokens.foldlM (tokenBy (executesBeforeBy table)) {} =
        tokens.foldlM Yard.token {} := by
      refine foldlM_congr_of_reached fun front t rest y hsplit hy => ?_
      obtain ⟨y', hy', hfollows⟩ := exists_follows h hsplit
      obtain rfl : y' = y := Except.ok.inj (hy'.symm.trans hy)
      refine tokenBy_congr htable fun op arity arity' ht => ?_
      subst ht
      exact hfollows.log_not_compared
    rw [postfixOrderBy, hfold, toPostfixOrder]

/-- The tokens of `2*log(3,(4+5)^2)`, up to the sum and from there on. -/
def logarithmTokens : List Token × List Token :=
  ([.number ⟨0x4000000000000000⟩, .operator .mul .binary, .operator .log .binary, .openLog,
    .number ⟨0x4008000000000000⟩, .separator, .openParen, .number ⟨0x4010000000000000⟩],
   [.operator .add .binary, .number ⟨0x4014000000000000⟩, .closeParen, .operator .pow .binary,
    .number ⟨0x4000000000000000⟩, .closeLog])

/-- A table by which logarithms bind loosest. -/
def looseLogarithm (op : Operator) : Operator.Entry :=
  if op = .log then ⟨"log", 0, none, true⟩ else op.entry

theorem markers_in_logarithm :
    tokenize "2*log(3,(4+5)^2)" = .ok (logarithmTokens.1 ++ logarithmTokens.2) ∧
      (∃ y, logarithmTokens.1.foldlM Yard.token {} = .ok y ∧
        Abreast "2*log(3,(4+5)^2)" logarithmTokens.1 logarithmTokens.2 y ∧
        y.stack.filter isMarker = [.openParen, .openLog]) ∧
      postfixOrderBy looseLogarithm (logarithmTokens.1 ++ logarithmTokens.2) =
        toPostfixOrder (logarithmTokens.1 ++ logarithmTokens.2) := by
  have htokens : tokenize "2*log(3,(4+5)^2)" = .ok (logarithmTokens.1 ++ logarithmTokens.2) := by
    decide +kernel
  obtain ⟨hpoints, -, htables⟩ := markers_of_open_groups htokens
  obtain ⟨y, hy, habreast, -⟩ := hpoints _ _ rfl
  have hstack : logarithmTokens.1.foldlM Yard.token {} = .ok ⟨_, [.openParen, .openLog,
      .operator .log .binary, .operator .mul .binary]⟩ := rfl
  refine ⟨htokens, ⟨y, hy, habreast, ?_⟩, htables looseLogarithm fun op hop => if_neg hop⟩
  cases hy.symm.trans hstack
  rfl

end Reckoner.Proofs
