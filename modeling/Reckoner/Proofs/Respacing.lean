import Mathlib.Tactic
import Reckoner.Proofs.Acceptance
import Reckoner.Proofs.Spans

/-!
# Blanks between lexemes

Two texts that differ in skipped blanks only, and have the same lexemes, are read in step. A reader
asks for byte offsets at three points. Whether an item is the first of the text or the last that is
visible does not depend on the blanks between lexemes. Whether a group is closed right where it was
opened does: without a blank the closing is an error, and with one the group is passed on empty.
-/

namespace Reckoner.Proofs
open Lexeme Text Reading

/-! ### Texts with other blanks -/

/-- Two texts with the same lexemes that differ in blanks between them only. -/
structure Respaced (t u : String) : Prop where
  visible : t.toList.filter (!isSkipped ·) = u.toList.filter (!isSkipped ·)
  lexemes : (scan t).map Item.content = (scan u).map Item.content

lemma Respaced.symm {t u : String} (h : Respaced t u) : Respaced u t :=
  ⟨h.visible.symm, h.lexemes.symm⟩

section

variable {t u : String} {before after before' after' : List Item} {x x' : Item}

lemma Respaced.last (h : Respaced t u) (ht : scan t = before ++ x :: after)
    (hu : scan u = before' ++ x' :: after') (hx : x.isProduct) (hx' : x'.isProduct)
    (hafter : after.map Item.content = after'.map Item.content)
    (hlast : some x.start = lastVisible? t.toList) : some x'.start = lastVisible? u.toList := by
  obtain ⟨earlier, c, later, htext, hskip, hlater, hiff⟩ := last_iff ht hx
  obtain ⟨earlier', c', later', htext', hskip', hlater', hiff'⟩ := last_iff hu hx'
  have hblank := hiff.mp hlast
  rw [hlater, hlater'] at hafter
  have hcount := length_visible_eq hblank hafter
  -- As many visible characters follow, and the visible characters of both texts are the same.
  have hvisible := h.visible
  rw [htext, htext', List.filter_append, List.filter_append,
    List.filter_cons_of_pos (by simp [hskip]),
    List.filter_cons_of_pos (by simp [hskip'])] at hvisible
  obtain ⟨_, htail⟩ := List.append_inj' hvisible (by simp [hcount])
  refine hiff'.mpr fun d hd => ?_
  cases hskipped : isSkipped d with
  | true => exact skipped_blank hskipped
  | false =>
    have hmem : d ∈ later.filter (!isSkipped ·) := by
      rw [(List.cons.inj htail).2, List.mem_filter]
      exact ⟨hd, by simp [hskipped]⟩
    exact hblank d (List.mem_filter.mp hmem).1

end

/-! ### Reading in step -/

/-- Two groups that were opened by the same lexeme and have come equally far. -/
inductive SameGroup (t u : String) : Group → Group → Prop
  | plain {a b k : Nat} (ht : lexemeAt t a = some k) (hu : lexemeAt u b = some k) :
    SameGroup t u (.plain a) (.plain b)
  | logarithm {a b k : Nat} {separated : Bool} (ht : lexemeAt t a = some k)
    (hu : lexemeAt u b = some k) : SameGroup t u (.logarithm a separated) (.logarithm b separated)

/-- Two texts have been read equally far, with the same tokens. -/
structure ReadAlike (t u : String) (r s : Reading) : Prop where
  tokens : r.tokens = s.tokens
  groups : List.Forall₂ (SameGroup t u) r.groups s.groups

/-- Both readers go on in step, or both fail alike on one lexeme. -/
inductive BothRead (t u : String) : Except LexError Reading → Except LexError Reading → Prop
  | ok {r s : Reading} (h : ReadAlike t u r s) : BothRead t u (.ok r) (.ok s)
  | error {kind : LexErrorKind} {a b k : Nat} (ht : lexemeAt t a = some k)
    (hu : lexemeAt u b = some k) : BothRead t u (.error ⟨kind, a⟩) (.error ⟨kind, b⟩)

namespace ReadAlike

variable {t u : String} {r s : Reading} {a b k : Nat}

lemma push (h : ReadAlike t u r s) (token : Token) : ReadAlike t u (r.push token) (s.push token) :=
  ⟨congrArg (token :: ·) h.tokens, h.groups⟩

lemma plusMinus (h : ReadAlike t u r s) (ht : lexemeAt t a = some k) (hu : lexemeAt u b = some k)
    (op : Operator) : BothRead t u (r.plusMinus op a) (s.plusMinus op b) := by
  simp only [Reading.plusMinus, h.tokens]
  cases s.tokens with
  | nil => exact .ok (h.push _)
  | cons previous rest =>
    simp only
    split_ifs
    · exact .ok (h.push _)
    · exact .error ht hu
    · exact .ok (h.push _)

lemma binaryOnly (h : ReadAlike t u r s) (ht : lexemeAt t a = some k) (hu : lexemeAt u b = some k)
    {last last' : Option Nat}
    (hends : r.tokens ≠ [] → ((a = 0 ∨ some a = last) ↔ b = 0 ∨ some b = last'))
    (op : Operator) : BothRead t u (r.binaryOnly last op a) (s.binaryOnly last' op b) := by
  rw [h.tokens] at hends
  simp only [Reading.binaryOnly, h.tokens]
  cases htokens : s.tokens with
  | nil =>
    simp only [ite_self]
    exact .error ht hu
  | cons previous rest =>
    have hiff := hends (by simp [htokens])
    simp only [hiff]
    split_ifs
    · exact .error ht hu
    · exact .error ht hu
    · exact .ok (h.push _)

lemma leftParen (h : ReadAlike t u r s) (ht : lexemeAt t a = some k) (hu : lexemeAt u b = some k) :
    BothRead t u (r.leftParen a) (s.leftParen b) := by
  simp only [Reading.leftParen, h.tokens]
  split_ifs
  · exact .error ht hu
  · exact .ok ⟨rfl, .cons (.plain ht hu) h.groups⟩

lemma rightParen (h : ReadAlike t u r s) (ht : lexemeAt t a = some k) (hu : lexemeAt u b = some k)
    (hjoint : ∀ g ∈ r.groups.head?, ∀ g' ∈ s.groups.head?,
      g.openedAt + 1 = a ↔ g'.openedAt + 1 = b) :
    BothRead t u (r.rightParen a) (s.rightParen b) := by
  obtain ⟨tokens, groups⟩ := r
  obtain ⟨tokens', groups'⟩ := s
  obtain ⟨rfl, hgroups⟩ := h
  simp only [Reading.rightParen] at hjoint hgroups ⊢
  cases hgroups with
  | nil => exact .error ht hu
  | cons hgroup houter =>
    simp only [hjoint _ rfl _ rfl]
    split_ifs
    · exact .error ht hu
    · exact .error ht hu
    · cases hgroup with
      | plain => exact .ok ⟨rfl, houter⟩
      | @logarithm _ _ _ separated =>
        cases separated with
        | false => exact .error ht hu
        | true => exact .ok ⟨rfl, houter⟩

lemma comma (h : ReadAlike t u r s) (ht : lexemeAt t a = some k) (hu : lexemeAt u b = some k) :
    BothRead t u (r.comma a) (s.comma b) := by
  obtain ⟨tokens, groups⟩ := r
  obtain ⟨tokens', groups'⟩ := s
  obtain ⟨rfl, hgroups⟩ := h
  simp only [Reading.comma] at hgroups ⊢
  cases hgroups with
  | nil => exact .error ht hu
  | cons hgroup houter =>
    cases hgroup with
    | plain => exact .error ht hu
    | @logarithm _ _ _ separated ht' hu' =>
      cases separated with
      | false => exact .ok ⟨rfl, .cons (.logarithm ht' hu') houter⟩
      | true => exact .error ht hu

lemma logOpen (h : ReadAlike t u r s) (ht : lexemeAt t a = some k) (hu : lexemeAt u b = some k) :
    ReadAlike t u (r.logOpen a) (s.logOpen b) :=
  ⟨by simp only [Reading.logOpen, h.tokens], .cons (.logarithm ht hu) h.groups⟩

end ReadAlike

section

variable {t u : String} {before after before' after' : List Item} {x x' : Item} {r s : Reading}

lemma Tracks.group_of_opening {earlier : List Item} {opening : Item}
    (h : Tracks (earlier ++ [opening]) r) (hopens : opening.opens) :
    ∃ group outer, r.groups = group :: outer ∧ Marks opening [] group :=
  h.opened.of_innermost ⟨hopens, .nil, List.suffix_append _ _⟩

/-- A closing bracket directly follows its opening, with nothing in between. -/
def ClosesAtOnce (before : List Item) (x : Item) : Prop :=
  ∃ earlier opening, before = earlier ++ [opening] ∧ opening.opens ∧ opening.stop = x.start

lemma closesAtOnce_iff (h : Tracks before r) (ht : scan t = before ++ x :: after) {group : Group}
    {outer : List Group} (hgroups : r.groups = group :: outer) :
    group.openedAt + 1 = x.start ↔ ClosesAtOnce before x := by
  constructor
  · intro hstart
    obtain ⟨opening, inside, hinnermost, hmarks⟩ := (hgroups ▸ h.opened).innermost
    obtain ⟨earlier, rfl⟩ := hinnermost.suffix
    cases inside with
    | nil => exact ⟨earlier, opening, rfl, hinnermost.opens, hmarks.stop.trans hstart⟩
    | cons y inside =>
      -- Whatever stands inside is at least a byte long.
      have hy : scan t = (earlier ++ [opening]) ++ y :: (inside ++ x :: after) := by simpa using ht
      have hopening := scan_stop_le hy (y := opening) (by simp)
      have hwidth := scan_start_lt_stop hy
      have hstop := scan_stop_le ht (y := y) (by simp)
      have hmarked := hmarks.stop
      omega
  · rintro ⟨earlier, opening, rfl, hopens, hstop⟩
    obtain ⟨group', outer', hgroups', hmarks⟩ := h.group_of_opening hopens
    rw [hgroups] at hgroups'
    cases hgroups'
    rw [← hmarks.stop, hstop]

/-- One item is read in step, if it is joined to its opening in both texts or in neither. -/
theorem ReadAlike.item (h : ReadAlike t u r s) (hrespaced : Respaced t u) (hr : Tracks before r)
    (hs : Tracks before' s) (ht : scan t = before ++ x :: after)
    (hu : scan u = before' ++ x' :: after')
    (hlength : before.length = before'.length) (hcontent : x.content = x'.content)
    (hafter : after.map Item.content = after'.map Item.content)
    (hjoint : x.content = .ok .rightParen → (ClosesAtOnce before x ↔ ClosesAtOnce before' x')) :
    BothRead t u (r.item (lastVisible? t.toList) x) (s.item (lastVisible? u.toList) x') := by
  have hk : lexemeAt t x.start = some before.length := lexemeAt_start ht
  have hk' : lexemeAt u x'.start = some before.length := hlength ▸ lexemeAt_start hu
  have hproduct : x.isProduct → x'.isProduct → r.tokens ≠ [] →
      ((x.start = 0 ∨ some x.start = lastVisible? t.toList) ↔
        x'.start = 0 ∨ some x'.start = lastVisible? u.toList) := by
    intro hx hx' htokens
    have hbefore : before ≠ [] := by
      rintro rfl
      rcases hr.head with ⟨_, hnil⟩ | ⟨earlier, y, _, _, hsplit, _⟩
      · exact htokens hnil
      · simp at hsplit
    have hbefore' : before' ≠ [] := by
      rw [← List.length_pos_iff, ← hlength]
      exact List.length_pos_iff.mpr hbefore
    simp only [(placed_of_scan ht).start_ne_zero hbefore,
      (placed_of_scan hu).start_ne_zero hbefore', false_or]
    exact ⟨hrespaced.last ht hu hx hx' hafter, hrespaced.symm.last hu ht hx' hx hafter.symm⟩
  simp only [Reading.item, ← hcontent]
  cases hx : x.content with
  | error kind => exact .error hk hk'
  | ok found =>
    rw [hx] at hcontent
    cases found with
    | plus | minus => exact h.plusMinus hk hk' _
    | star | slash | caret =>
      exact h.binaryOnly hk hk' (hproduct (by simp [Item.isProduct, hx])
        (by simp [Item.isProduct, ← hcontent])) _
    | leftParen => exact h.leftParen hk hk'
    | rightParen =>
      refine h.rightParen hk hk' fun g hg g' hg' => ?_
      obtain ⟨outer, hgroups⟩ := List.head?_eq_some_iff.mp hg
      obtain ⟨outer', hgroups'⟩ := List.head?_eq_some_iff.mp hg'
      rw [closesAtOnce_iff hr ht hgroups, closesAtOnce_iff hs hu hgroups', hjoint hx]
    | comma => exact h.comma hk hk'
    | number value => exact .ok (h.push _)
    | logOpen =>
      have hwidth := scan_start_lt_stop ht
      have hwidth' := scan_start_lt_stop hu
      have hlast : lexemeAt t (x.stop - 1) = some before.length :=
        lexemeAt_eq ht (by omega) (by omega)
      have hlast' : lexemeAt u (x'.stop - 1) = some before.length :=
        hlength ▸ lexemeAt_eq hu (by omega) (by omega)
      exact .ok (h.logOpen hlast hlast')
    | strayLetter => exact .error hk hk'

lemma isOperator_of_opens (h : x.opens) : x.isOperator = false := by
  unfold Item.opens at h
  split at h <;> simp_all [Item.isOperator, Item.isSum, Item.isProduct]

/-- A group that is closed at once is rejected. -/
lemma item_of_closesAtOnce (h : Tracks before r) (ht : scan t = before ++ x :: after)
    (hx : x.content = .ok .rightParen) (hat : ClosesAtOnce before x) (last : Option Nat) :
    r.item last x = .error ⟨.invalidParenthesis, x.start⟩ := by
  obtain ⟨earlier, opening, rfl, hopens, hstop⟩ := hat
  obtain ⟨group, outer, hgroups, hmarks⟩ := h.group_of_opening hopens
  have hoperator : r.tokens.head?.any Token.isOperator = false := by
    rw [h.isOperator_eq_false_iff]
    simpa using isOperator_of_opens hopens
  have hstart : group.openedAt + 1 = x.start := hmarks.stop ▸ hstop
  simp [Reading.item, hx, Reading.lexeme, Reading.rightParen, hgroups, hoperator, hstart, fail]

/-- Right after an opening, nothing else makes a closing bracket invalid. -/
lemma closesAtOnce_of_item {earlier : List Item} {opening : Item}
    (h : Tracks (earlier ++ [opening]) r) (ht : scan t = earlier ++ [opening] ++ x :: after)
    (hopens : opening.opens) (hx : x.content = .ok .rightParen) {last : Option Nat} {offset : Nat}
    (hitem : r.item last x = .error ⟨.invalidParenthesis, offset⟩) :
    ClosesAtOnce (earlier ++ [opening]) x := by
  obtain ⟨group, outer, hgroups, _⟩ := h.group_of_opening hopens
  rw [← closesAtOnce_iff h ht hgroups]
  by_contra hstart
  simp only [Reading.item, hx, Reading.lexeme, Reading.rightParen, hgroups, if_neg hstart,
    fail] at hitem
  split_ifs at hitem
  · simp at hitem
  · split at hitem <;> simp at hitem

/-- The `k`th lexeme opens a group that the next one, `closing`, closes. Nothing stands between them
in the first text, but something does in the second. -/
def Narrows (t u : String) (k : Nat) (closing : Item) : Prop :=
  ∃ opening opening' closing', (scan t)[k]? = some opening ∧ (scan t)[k + 1]? = some closing ∧
    (scan u)[k]? = some opening' ∧ (scan u)[k + 1]? = some closing' ∧
    opening.opens ∧ closing.content = .ok .rightParen ∧
    opening.stop = closing.start ∧ opening'.stop ≠ closing'.start

lemma narrows_of_split (ht : scan t = before ++ x :: after) (hu : scan u = before' ++ x' :: after')
    (hbefore : before.map Item.content = before'.map Item.content)
    (hx : x.content = .ok .rightParen) (hat : ClosesAtOnce before x)
    (hnot : ¬ClosesAtOnce before' x') : ∃ k, Narrows t u k x := by
  obtain ⟨earlier, opening, rfl, hopens, hstop⟩ := hat
  rcases List.eq_nil_or_concat before' with rfl | ⟨earlier', opening', rfl⟩
  · simp at hbefore
  rw [List.concat_eq_append] at hu hbefore hnot
  simp only [List.map_append, List.map_singleton] at hbefore
  obtain ⟨hearlier, hopening⟩ := List.append_singleton_inj.mp hbefore
  have hlength := congrArg List.length hearlier
  rw [List.length_map, List.length_map] at hlength
  have hopens' : opening'.opens := by
    unfold Item.opens at hopens ⊢
    rwa [← hopening]
  refine ⟨earlier.length, opening, opening', x', ?_, ?_, ?_, ?_, hopens, hx, hstop, fun heq => ?_⟩
  · simp [ht]
  · simp [ht]
  · simp [hu, hlength]
  · simp [hu, hlength]
  · exact hnot ⟨earlier', opening', rfl, hopens', heq⟩

end

section

variable {t u : String} {before before' items items' : List Item} {r s : Reading}

/-- What a reader answers from some item on. -/
def readFrom (text : String) (r : Reading) (items : List Item) : Except LexError Reading :=
  items.foldlM (Reading.item (lastVisible? text.toList)) r

lemma readFrom_cons (text : String) (r : Reading) (x : Item) (items : List Item) :
    readFrom text r (x :: items) =
      (r.item (lastVisible? text.toList) x).bind fun next => readFrom text next items :=
  rfl

/-- Two texts are read in step up to where a group is closed at once in one of them only. -/
theorem bothRead_or_narrows (hrespaced : Respaced t u) (h : ReadAlike t u r s)
    (hr : Tracks before r) (hs : Tracks before' s) (ht : scan t = before ++ items)
    (hu : scan u = before' ++ items')
    (hbefore : before.map Item.content = before'.map Item.content) :
    BothRead t u (readFrom t r items) (readFrom u s items') ∨
      (∃ k closing, Narrows t u k closing ∧
        readFrom t r items = .error ⟨.invalidParenthesis, closing.start⟩) ∨
      ∃ k closing, Narrows u t k closing ∧
        readFrom u s items' = .error ⟨.invalidParenthesis, closing.start⟩ := by
  have hlength := congrArg List.length hbefore
  rw [List.length_map, List.length_map] at hlength
  have hcontents := hrespaced.lexemes
  rw [ht, hu, List.map_append, List.map_append, hbefore, List.append_cancel_left_eq] at hcontents
  induction items generalizing before before' items' r s with
  | nil =>
    obtain rfl := List.map_eq_nil_iff.mp hcontents.symm
    exact .inl (.ok h)
  | cons x after ih =>
    obtain ⟨x', after', rfl, hx, hafter⟩ := List.map_eq_cons_iff.mp hcontents.symm
    by_cases hjoint : x.content = .ok .rightParen →
        (ClosesAtOnce before x ↔ ClosesAtOnce before' x')
    · have hitem := h.item hrespaced hr hs ht hu hlength hx.symm hafter.symm hjoint
      rw [readFrom_cons, readFrom_cons]
      generalize hone : r.item (lastVisible? t.toList) x = one at hitem ⊢
      generalize hother : s.item (lastVisible? u.toList) x' = other at hitem ⊢
      cases hitem with
      | error hk hk' => exact .inl (.error hk hk')
      | ok hnext =>
        have hr' := hr.next (placed_of_scan ht) hone
        have hs' := hs.next (placed_of_scan hu) hother
        rw [List.append_cons] at ht hu
        exact ih hnext hr' hs' ht hu (by simp [hbefore, hx]) (by simp [hlength]) hafter.symm
    · rw [Classical.not_imp, not_iff] at hjoint
      obtain ⟨hclose, hcases⟩ := hjoint
      by_cases hat : ClosesAtOnce before x
      · have hnot : ¬ClosesAtOnce before' x' := fun hat' => hcases.mpr hat' hat
        obtain ⟨k, hnarrows⟩ := narrows_of_split ht hu hbefore hclose hat hnot
        refine .inr (.inl ⟨k, x, hnarrows, ?_⟩)
        rw [readFrom_cons, item_of_closesAtOnce hr ht hclose hat]
        rfl
      · have hclose' : x'.content = .ok .rightParen := hx.trans hclose
        have hat' : ClosesAtOnce before' x' := hcases.mp hat
        obtain ⟨k, hnarrows⟩ := narrows_of_split hu ht hbefore.symm hclose' hat' hat
        refine .inr (.inr ⟨k, x', hnarrows, ?_⟩)
        rw [readFrom_cons, item_of_closesAtOnce hs hu hclose' hat']
        rfl

end

/-! ### Whole texts -/

/-- The tokens are the same, or the error is of the same kind and on the same lexeme. -/
inductive SameReading (t u : String) : Prop
  | tokens {tokens : List Token} (ht : tokenize t = .ok tokens) (hu : tokenize u = .ok tokens)
  | fault {kind : LexErrorKind} {a b k : Nat} (ht : tokenize t = .error ⟨kind, a⟩)
    (hu : tokenize u = .error ⟨kind, b⟩) (hat : lexemeAt t a = some k) (hbt : lexemeAt u b = some k)
  | empty (ht : tokenize t = .error ⟨.emptyExpression, 0⟩)
    (hu : tokenize u = .error ⟨.emptyExpression, 0⟩)

/-- The first text is rejected where it closes a group at once and the second does not. -/
def Pinched (t u : String) : Prop :=
  ∃ k closing, Narrows t u k closing ∧ tokenize t = .error ⟨.invalidParenthesis, closing.start⟩

lemma tokenize_eq_bind (text : String) :
    tokenize text = (readFrom text {} (scan text)).bind Reading.finish :=
  rfl

lemma BothRead.sameReading {t u : String}
    (h : BothRead t u (readFrom t {} (scan t)) (readFrom u {} (scan u))) : SameReading t u := by
  have ht := tokenize_eq_bind t
  have hu := tokenize_eq_bind u
  generalize readFrom t {} (scan t) = one at h ht
  generalize readFrom u {} (scan u) = other at h hu
  cases h with
  | error hat hbt => exact .fault ht hu hat hbt
  | @ok r s h =>
    obtain ⟨tokens, groups⟩ := r
    obtain ⟨tokens', groups'⟩ := s
    obtain ⟨rfl, hgroups⟩ := h
    cases hgroups with
    | cons hgroup _ =>
      cases hgroup with
      | plain hat hbt | logarithm hat hbt => exact .fault ht hu hat hbt
    | nil =>
      cases tokens with
      | nil => exact .empty ht hu
      | cons token rest => exact .tokens ht hu

lemma offset_of_item {last : Option Nat} {r : Reading} {x : Item} {e : LexError}
    (h : r.item last x = .error e) : e.offset = x.start :=
  (item_eq_error h).1

/-- A reader that fails has read all items before one that it cannot read. -/
lemma exists_of_readFrom_error {text : String} {before items : List Item} {r : Reading}
    {e : LexError} (hr : Tracks before r) (ht : scan text = before ++ items)
    (h : readFrom text r items = .error e) :
    ∃ earlier x after r', scan text = earlier ++ x :: after ∧ Tracks earlier r' ∧
      r'.item (lastVisible? text.toList) x = .error e := by
  induction items generalizing before r with
  | nil => cases h
  | cons x after ih =>
    rw [readFrom_cons] at h
    cases hitem : r.item (lastVisible? text.toList) x with
    | error f =>
      rw [hitem] at h
      cases h
      exact ⟨before, x, after, r, ht, hr, hitem⟩
    | ok next =>
      rw [hitem] at h
      have hnext := hr.next (placed_of_scan ht) hitem
      rw [List.append_cons] at ht
      exact ih hnext ht h

lemma tracks_start : Tracks [] {} :=
  ⟨.nil, .outermost .nil⟩

lemma exists_of_invalidParenthesis {text : String} {offset : Nat}
    (h : tokenize text = .error ⟨.invalidParenthesis, offset⟩) :
    ∃ before x after r, scan text = before ++ x :: after ∧ Tracks before r ∧
      r.item (lastVisible? text.toList) x = .error ⟨.invalidParenthesis, offset⟩ := by
  rw [tokenize_eq_bind] at h
  cases hread : readFrom text {} (scan text) with
  | error e =>
    rw [hread] at h
    cases h
    exact exists_of_readFrom_error tracks_start rfl hread
  | ok r =>
    rw [hread] at h
    simp only [Except.bind, Reading.finish, fail] at h
    split at h
    · cases h
    · split_ifs at h
      cases h

lemma split_of_getElem? {items : List Item} {k : Nat} {x : Item} (h : items[k]? = some x) :
    ∃ before after, items = before ++ x :: after ∧ before.length = k := by
  obtain ⟨hk, rfl⟩ := List.getElem?_eq_some_iff.mp h
  refine ⟨items.take k, items.drop (k + 1), ?_, List.length_take_of_le hk.le⟩
  rw [← List.drop_eq_getElem_cons hk, List.take_append_drop]

lemma Respaced.content_eq {t u : String} (h : Respaced t u) {k : Nat} {x x' : Item}
    (ht : (scan t)[k]? = some x) (hu : (scan u)[k]? = some x') : x.content = x'.content := by
  have hcontents := congrArg (·[k]?) h.lexemes
  simpa [ht, hu] using hcontents

lemma Pinched.not_sameReading {t u : String} (h : Pinched t u) (hrespaced : Respaced t u) :
    ¬SameReading t u := by
  obtain ⟨k, closing, ⟨opening, opening', closing', hto, htc, huo, huc, hopens, hclose, _, hnot⟩,
    hp⟩ := h
  intro hsame
  cases hsame with
  | tokens ht hu => simp [hp] at ht
  | empty ht hu => simp [hp] at ht
  | @fault kind a b n ht hu hat hbt =>
    rw [hp] at ht
    cases ht
    obtain ⟨_, _, htsplit, htlength⟩ := split_of_getElem? htc
    rw [lexemeAt_start htsplit, htlength] at hat
    cases hat
    obtain ⟨before, x, after, r, husplit, hr, hitem⟩ := exists_of_invalidParenthesis hu
    have hoffset : b = x.start := offset_of_item hitem
    rw [hoffset, lexemeAt_start husplit, Option.some_inj] at hbt
    obtain rfl : x = closing' := by simpa [husplit, ← hbt] using huc
    rcases List.eq_nil_or_concat before with rfl | ⟨earlier, y, rfl⟩
    · simp at hbt
    rw [List.concat_eq_append] at husplit hr hbt
    obtain rfl : earlier.length = k := by simpa using hbt
    obtain rfl : y = opening' := by simpa [husplit] using huo
    have hopens' : y.opens := by
      unfold Item.opens at hopens ⊢
      rwa [← hrespaced.content_eq hto huo]
    have hclose' := (hrespaced.content_eq htc huc).symm.trans hclose
    obtain ⟨_, _, heq, _, hstop⟩ := closesAtOnce_of_item hr husplit hopens' hclose' hitem
    obtain rfl := (List.append_singleton_inj.mp heq).2
    exact hnot hstop

/-- Blanks between lexemes change neither the tokens nor the kind and the lexeme of an error, unless
a group is closed at once in one of the texts, and only there. -/
theorem sameReading_iff_not_pinched {t u : String} (h : Respaced t u) :
    SameReading t u ↔ ¬Pinched t u ∧ ¬Pinched u t := by
  constructor
  · intro hsame
    refine ⟨fun hp => hp.not_sameReading h hsame, fun hp => hp.not_sameReading h.symm ?_⟩
    cases hsame with
    | tokens ht hu => exact .tokens hu ht
    | fault ht hu hat hbt => exact .fault hu ht hbt hat
    | empty ht hu => exact .empty hu ht
  · rintro ⟨hnot, hnot'⟩
    have hstart : ReadAlike t u {} {} := ⟨rfl, .nil⟩
    have ht : scan t = [] ++ scan t := rfl
    have hu : scan u = [] ++ scan u := rfl
    rcases bothRead_or_narrows h hstart tracks_start tracks_start ht hu rfl with
      hboth | ⟨k, closing, hnarrows, hread⟩ | ⟨k, closing, hnarrows, hread⟩
    · exact hboth.sameReading
    · refine (hnot ⟨k, closing, hnarrows, ?_⟩).elim
      rw [tokenize_eq_bind, hread]
      rfl
    · refine (hnot' ⟨k, closing, hnarrows, ?_⟩).elim
      rw [tokenize_eq_bind, hread]
      rfl

/-- Blanks around brackets, a comma and signs. -/
theorem sameReading_of_logarithm :
    Respaced "log( 2,8) -(-1)" " log(2 , 8)- ( -1\n)" ∧
      SameReading "log( 2,8) -(-1)" " log(2 , 8)- ( -1\n)" := by
  have hrespaced : Respaced "log( 2,8) -(-1)" " log(2 , 8)- ( -1\n)" :=
    ⟨by decide +kernel, by decide +kernel⟩
  have hpinched : ∀ t u, (tokenize t).isOk → ¬Pinched t u := by
    rintro t u hok ⟨_, _, _, herror⟩
    rw [herror] at hok
    cases hok
  refine ⟨hrespaced, (sameReading_iff_not_pinched hrespaced).mpr ⟨?_, ?_⟩⟩
  · exact hpinched _ _ (by decide +kernel)
  · exact hpinched _ _ (by decide +kernel)

/-- A blank in an empty group decides whether the group is rejected. -/
theorem empty_group_not_sameReading :
    ¬∀ t u : String, Respaced t u → SameReading t u := by
  intro h
  have hnarrow : tokenize "()" = .error ⟨.invalidParenthesis, 1⟩ := by decide +kernel
  have hwide : tokenize "( )" = .ok [.openParen, .closeParen] := by decide +kernel
  cases h "()" "( )" ⟨by decide +kernel, by decide +kernel⟩ with
  | tokens ht => simp [hnarrow] at ht
  | fault _ hu => simp [hwide] at hu
  | empty ht => simp [hnarrow] at ht

end Reckoner.Proofs
