import Mathlib.Tactic
import Reckoner.Postfix

/-!
# Steps of a yard

What each token does to the two tracks of a yard whose waiting tokens are known up to the
next bracket. No step invents or loses a token, brackets and separators apart, so a postfix
sequence is a rearrangement of what went in.
-/

namespace Reckoner.Proofs
open Yard List

section

variable {output above below : List Token}

lemma release_append {p : Token → Bool} (habove : ∀ t ∈ above, p t)
    (hbelow : ∀ t ∈ below.head?, p t = false) :
    Yard.release ⟨output, above ++ below⟩ p = ⟨above.reverse ++ output, below⟩ := by
  have hnone : below.takeWhile p = [] ∧ below.dropWhile p = below := by
    cases below with
    | nil => simp
    | cons t rest => simp [hbelow t (by simp)]
  simp only [release]
  rw [List.takeWhile_append_of_pos habove, List.dropWhile_append_of_pos habove, hnone.1, hnone.2,
    List.append_nil]

lemma closeParen_above (habove : ∀ t ∈ above, t.isOpenParen = false) :
    Yard.token ⟨output, above ++ .openParen :: below⟩ .closeParen =
      .ok ⟨above.reverse ++ output, below⟩ := by
  have hr : Yard.release ⟨output, above ++ .openParen :: below⟩ (!·.isOpenParen) =
      ⟨above.reverse ++ output, .openParen :: below⟩ :=
    release_append (by simpa using habove) (by simp [Token.isOpenParen])
  simp only [Yard.token, closeParen, hr]

lemma closeLog_above (habove : ∀ t ∈ above, t.isOpenLog = false) (arity : Arity) :
    Yard.token ⟨output, above ++ .openLog :: .operator .log arity :: below⟩ .closeLog =
      .ok ⟨.operator .log arity :: (above.reverse ++ output), below⟩ := by
  have hr : Yard.release ⟨output, above ++ .openLog :: .operator .log arity :: below⟩
      (!·.isOpenLog) =
        ⟨above.reverse ++ output, .openLog :: .operator .log arity :: below⟩ :=
    release_append (by simpa using habove) (by simp [Token.isOpenLog])
  simp only [Yard.token, closeLog, hr]

lemma separator_above (habove : ∀ t ∈ above, t.isOpenLog = false) :
    Yard.token ⟨output, above ++ .openLog :: below⟩ .separator =
      .ok ⟨above.reverse ++ output, .openLog :: below⟩ := by
  have hr : Yard.release ⟨output, above ++ .openLog :: below⟩ (!·.isOpenLog) =
      ⟨above.reverse ++ output, .openLog :: below⟩ :=
    release_append (by simpa using habove) (by simp [Token.isOpenLog])
  simp only [Yard.token, hr]

lemma token_binary {op : Operator} (hop : op ≠ .log) (y : Yard) :
    y.token (.operator op .binary) = .ok ((y.release (yields op)).wait (.operator op .binary)) := by
  cases op with
  | log => exact (hop rfl).elim
  | add | sub | mul | div | pow => rfl

lemma binary_above {op : Operator} (hop : op ≠ .log) (habove : ∀ t ∈ above, yields op t)
    (hbelow : ∀ t ∈ below.head?, yields op t = false) :
    Yard.token ⟨output, above ++ below⟩ (.operator op .binary) =
      .ok ⟨above.reverse ++ output, .operator op .binary :: below⟩ := by
  have hr : Yard.release ⟨output, above ++ below⟩ (yields op) = ⟨above.reverse ++ output, below⟩ :=
    release_append habove hbelow
  rw [token_binary hop, hr]
  rfl

lemma unary_waits (y : Yard) (op : Operator) :
    y.token (.operator op .unary) = .ok ⟨y.output, .operator op .unary :: y.stack⟩ := by
  cases op <;> rfl

end

lemma foldlM_token_cons {y y' : Yard} {t : Token} (h : y.token t = .ok y') (rest : List Token) :
    (t :: rest).foldlM Yard.token y = rest.foldlM Yard.token y' := by
  rw [List.foldlM_cons, h]
  rfl

/-! ### Tokens that go in -/

def contents (y : Yard) : List Token :=
  y.stack.reverse ++ y.output

/-- The tokens of a yard that a token brings in. -/
def brought : Token → List Token
  | .closeParen | .closeLog | .separator => []
  | t => [t]

/-- The tokens of a yard that go for good when a token is taken. -/
def cancelled : Token → List Token
  | .closeParen => [.openParen]
  | .closeLog => [.openLog]
  | _ => []

lemma contents_release (y : Yard) (p : Token → Bool) :
    contents (y.release p) = contents y := by
  simp only [contents, release]
  rw [← List.append_assoc, ← List.reverse_append, List.takeWhile_append_dropWhile]

lemma contents_perm (y : Yard) : (contents y).Perm (y.stack ++ y.output) :=
  (List.reverse_perm y.stack).append_right y.output

lemma contents_wait (y : Yard) (t : Token) : (contents (y.wait t)).Perm (t :: contents y) :=
  (contents_perm _).trans ((contents_perm y).symm.cons t)

lemma release_stack_head {y : Yard} {p : Token → Bool} {t : Token} {below : List Token}
    (h : (y.release p).stack = t :: below) : p t = false := by
  have hhead := List.head?_dropWhile_not p y.stack
  rw [show y.stack.dropWhile p = t :: below from h] at hhead
  exact hhead

lemma closeParen_perm {y y' : Yard} (h : y.closeParen = .ok y') :
    (.openParen :: contents y').Perm (contents y) := by
  rw [← contents_release y (!·.isOpenParen)]
  cases hs : (y.release (!·.isOpenParen)).stack with
  | nil => simp [closeParen, hs] at h
  | cons bracket below =>
    have hbracket : bracket = .openParen := by
      have hhead := release_stack_head hs
      cases bracket <;> simp [Token.isOpenParen] at hhead ⊢
    simp only [closeParen, hs] at h
    cases h
    refine ((contents_perm _).cons _).trans (.trans ?_ (contents_perm _).symm)
    rw [hs, hbracket]
    exact .refl _

lemma closeLog_perm {y y' : Yard} (h : y.closeLog = .ok y') :
    (.openLog :: contents y').Perm (contents y) := by
  rw [← contents_release y (!·.isOpenLog)]
  have hhead : ∀ t below, (y.release (!·.isOpenLog)).stack = t :: below → (!t.isOpenLog) = false :=
    fun _ _ hs => release_stack_head hs
  unfold closeLog at h
  generalize y.release (!·.isOpenLog) = z at h hhead ⊢
  dsimp only at h
  split at h
  · cases h
  · rename_i bracket arity below hs
    have hbracket : bracket = .openLog := by
      have hopen := hhead _ _ hs
      cases bracket <;> simp [Token.isOpenLog] at hopen ⊢
    cases h
    refine ((contents_perm _).cons _).trans (.trans ?_ (contents_perm _).symm)
    rw [hs, hbracket]
    exact List.perm_middle.cons _
  · cases h

/-- A token loses nothing and adds nothing but itself, brackets and separators apart. -/
lemma token_perm {y y' : Yard} {t : Token} (h : y.token t = .ok y') :
    (cancelled t ++ contents y').Perm (brought t ++ contents y) := by
  match t with
  | .number value =>
    cases h
    exact List.perm_middle
  | .openParen | .openLog | .operator .log _ =>
    cases h
    exact contents_wait y _
  | .operator .add .unary | .operator .sub .unary | .operator .mul .unary
  | .operator .div .unary | .operator .pow .unary =>
    cases h
    exact contents_wait y _
  | .operator .add .binary | .operator .sub .binary | .operator .mul .binary
  | .operator .div .binary | .operator .pow .binary =>
    cases h
    rw [← contents_release y]
    exact contents_wait _ _
  | .closeParen => exact closeParen_perm h
  | .closeLog => exact closeLog_perm h
  | .separator =>
    cases h
    rw [contents_release]
    exact .refl _

lemma foldlM_token_perm {y y' : Yard} {tokens : List Token}
    (h : tokens.foldlM Yard.token y = .ok y') :
    (tokens.flatMap cancelled ++ contents y').Perm (tokens.flatMap brought ++ contents y) := by
  induction tokens generalizing y with
  | nil =>
    cases h
    exact .refl _
  | cons t rest ih =>
    rw [List.foldlM_cons] at h
    cases hy : y.token t with
    | error e => simp [hy, Bind.bind, Except.bind] at h
    | ok next =>
      simp only [hy, Bind.bind, Except.bind] at h
      simp only [List.flatMap_cons, List.append_assoc]
      calc cancelled t ++ (rest.flatMap cancelled ++ contents y')
        _ ~ cancelled t ++ (rest.flatMap brought ++ contents next) := (ih h).append_left _
        _ ~ rest.flatMap brought ++ (cancelled t ++ contents next) := perm_append_comm_assoc ..
        _ ~ rest.flatMap brought ++ (brought t ++ contents y) := (token_perm hy).append_left _
        _ ~ brought t ++ (rest.flatMap brought ++ contents y) := perm_append_comm_assoc ..

/-- A postfix sequence is a rearrangement of the tokens that it orders, without the brackets that
are closed and what closes and separates them. -/
theorem toPostfixOrder_perm {tokens sequence : List Token}
    (h : toPostfixOrder tokens = .ok sequence) :
    tokens.flatMap cancelled ++ sequence ~ tokens.flatMap brought := by
  unfold toPostfixOrder at h
  cases hy : tokens.foldlM Yard.token {} with
  | error e => simp [hy, Bind.bind, Except.bind] at h
  | ok y =>
    simp only [hy, Bind.bind, Except.bind] at h
    cases h
    have hfinish : y.finish ~ y.stack ++ y.output :=
      perm_append_comm.trans ((reverse_perm y.output).append_left y.stack)
    have hcontents : y.finish ~ contents y := hfinish.trans (contents_perm y).symm
    have hall := foldlM_token_perm hy
    rw [show contents {} = [] from rfl, append_nil] at hall
    exact (hcontents.append_left _).trans hall

theorem toPostfixOrder_subset {tokens sequence : List Token}
    (h : toPostfixOrder tokens = .ok sequence) : sequence ⊆ tokens := by
  intro t ht
  have hbrought := (toPostfixOrder_perm h).subset (mem_append_right _ ht)
  obtain ⟨s, hs, hts⟩ := mem_flatMap.mp hbrought
  cases s <;> simp_all [brought]

end Reckoner.Proofs
