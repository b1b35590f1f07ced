import Mathlib.Tactic
import Reckoner.Proofs.Respacing
import Reckoner.Proofs.Tiling

/-!
# Culprits

A lexical error is blamed on a character of the text, and its kind tells what that character is.
Most kinds are about the lexeme at which reading stops. An unbalanced parenthesis is found only at
the end, and then it is the last one that nothing closes. A text is empty if it is blank.
-/

namespace Reckoner.Proofs
open Lexeme Text Reading

/-- How many more parentheses are opened than closed. -/
def overhang (text : List Char) : Int :=
  text.count '(' - text.count ')'

/-- Among these characters is a parenthesis that closes one in front of them. -/
def ClosedIn (after : List Char) : Prop :=
  ∃ inside, inside <+: after ∧ overhang inside < 0

/-- What an error of the kind says of the character that it points at. -/
def Blames {text : String} (kind : LexErrorKind) (s : Stretch text) : Prop :=
  match kind with
  | .missingOperand => s.own = ['*'] ∨ s.own = ['/'] ∨ s.own = ['^']
  | .consecutiveUnary => s.own = ['+'] ∨ s.own = ['-']
  | .implicitMultiplication => s.own = ['('] ∧ ¬['l', 'o', 'g'] <:+ s.before
  | .invalidParenthesis | .operatorBeforeClose | .invalidLogStatement => s.own = [')']
  | .invalidSeparator => s.own = [',']
  | .invalidFloat => ∃ number : Stretch text, number.start = s.start ∧
      Maximal (fun number : Stretch text => Numeric number.own) number ∧ 1 < number.own.count '.'
  | .invalidOperator => s.own = ['l'] ∧ ¬['o', 'g', '('] <+: s.after
  | .invalidInput => ∃ c, s.own = [c] ∧ StartsNothing c
  | .unbalancedParenthesis => s.own = ['('] ∧ ¬ClosedIn s.after ∧
      ∀ between later, s.after = between ++ '(' :: later → ClosedIn later
  | .emptyExpression => False

/-! ### Parentheses in a text -/

@[simp]
lemma overhang_append (text text' : List Char) :
    overhang (text ++ text') = overhang text + overhang text' := by
  simp only [overhang, List.count_append]
  omega

lemma overhang_of_not_mem {text : List Char} (h : '(' ∉ text) (h' : ')' ∉ text) :
    overhang text = 0 := by
  simp [overhang, List.count_eq_zero.mpr h, List.count_eq_zero.mpr h']

/-- A lexeme opens or closes with its last character, if at all. -/
lemma Pattern.overhang_eq {own : List Char} {x : Item} (h : Pattern own x.content) :
    overhang own = x.level ∧ '(' ∉ own.dropLast ∧ ')' ∉ own.dropLast := by
  have hnumeric : Numeric own → x.level = 0 →
      overhang own = x.level ∧ '(' ∉ own.dropLast ∧ ')' ∉ own.dropLast := by
    intro hown hlevel
    have hopen : '(' ∉ own := fun hc => by cases hown.continues _ hc
    have hclose : ')' ∉ own := fun hc => by cases hown.continues _ hc
    exact ⟨(overhang_of_not_mem hopen hclose).trans hlevel.symm,
      fun hc => hopen (List.mem_of_mem_dropLast hc), fun hc => hclose (List.mem_of_mem_dropLast hc)⟩
  cases hx : x.content with
  | error kind => exact hnumeric (hx ▸ h).kind_eq.2.1 (by simp [Item.level, hx])
  | ok found =>
    rw [hx] at h
    cases found with
    | number value => exact hnumeric h.of_number.1 (by simp [Item.level, hx])
    | plus | minus | star | slash | caret | leftParen | rightParen | comma | logOpen
    | strayLetter =>
      rw [h.spelled (by simp)]
      simp [Item.level, hx, spelling, overhang]

/-- An item has as much overhang as it makes a difference of level, and no part of it has any. -/
lemma first_overhang (c : Char) (rest : List Char) {x : Item} (hx : x.content = (first c rest).1) :
    overhang (c :: rest.take (first c rest).2) = x.level ∧
      ∀ part, part <+: c :: rest.take (first c rest).2 → part ≠ c :: rest.take (first c rest).2 →
        overhang part = 0 := by
  have hdecided : overhang (c :: rest.take (first c rest).2) = x.level ∧
      '(' ∉ (c :: rest.take (first c rest).2).dropLast ∧
      ')' ∉ (c :: rest.take (first c rest).2).dropLast := by
    rcases first_longest c rest with ⟨hpattern, _⟩ | ⟨hfirst, hnone⟩
    · exact Pattern.overhang_eq (hx ▸ hpattern)
    · have hopen : c ≠ '(' := by
        rintro rfl
        exact hnone [] _ (.symbol rfl)
      have hclose : c ≠ ')' := by
        rintro rfl
        exact hnone [] _ (.symbol rfl)
      have hlevel : x.level = 0 := by simp [Item.level, hx, hfirst]
      rw [hfirst, hlevel]
      exact ⟨overhang_of_not_mem (by simpa using hopen.symm) (by simpa using hclose.symm),
        by simp, by simp⟩
  obtain ⟨hlevel, hopen, hclose⟩ := hdecided
  refine ⟨hlevel, ?_⟩
  rintro part ⟨more, hmore⟩ hne
  have hproper : more ≠ [] := by
    rintro rfl
    exact hne (by simpa using hmore)
  rw [← hmore, List.dropLast_append_of_ne_nil hproper] at hopen hclose
  exact overhang_of_not_mem (fun hc => hopen (List.mem_append_left _ hc))
    (fun hc => hclose (List.mem_append_left _ hc))

lemma overhang_skipped {c : Char} (hc : isSkipped c) : overhang [c] = 0 := by
  refine overhang_of_not_mem (fun h => ?_) (fun h => ?_)
  all_goals rw [← List.mem_singleton.mp h] at hc; cases hc

/-- Any part of a text from its start has the overhang of some of the items from the first on. -/
lemma exists_excess_eq (offset : Nat) {text part : List Char} (h : part <+: text) :
    ∃ items, items <+: scanFrom offset text ∧ excess items = overhang part := by
  fun_induction scanFrom offset text generalizing part with
  | case1 =>
    rw [List.prefix_nil.mp h]
    exact ⟨[], List.nil_prefix, rfl⟩
  | case2 offset c rest hc ih =>
    rcases List.prefix_cons_iff.mp h with rfl | ⟨part, rfl, hpart⟩
    · exact ⟨[], List.nil_prefix, rfl⟩
    · obtain ⟨items, hitems, hexcess⟩ := ih hpart
      refine ⟨items, hitems, ?_⟩
      rw [hexcess, ← List.singleton_append, overhang_append, overhang_skipped hc, zero_add]
  | case3 offset c rest hc found stop =>
    rename_i ih
    obtain ⟨hlevel, hproper⟩ := first_overhang c rest (x := ⟨found.1, offset, stop⟩) rfl
    have hwhole : c :: rest = (c :: rest.take found.2) ++ rest.drop found.2 := by simp
    rw [hwhole] at h
    by_cases hwithin : part <+: c :: rest.take found.2 ∧ part ≠ c :: rest.take found.2
    · exact ⟨[], List.nil_prefix, (hproper part hwithin.1 hwithin.2).symm⟩
    · obtain ⟨part, rfl⟩ : c :: rest.take found.2 <+: part := by
        rcases List.prefix_or_prefix_of_prefix h (List.prefix_append _ _) with hpart | hpart
        · rw [not_and_not_right] at hwithin
          rw [hwithin hpart]
        · exact hpart
      obtain ⟨items, hitems, hexcess⟩ := ih ((List.prefix_append_right_inj _).mp h)
      refine ⟨_ :: items, List.cons_prefix_cons.mpr ⟨rfl, hitems⟩, ?_⟩
      rw [excess_cons, overhang_append, hlevel, hexcess]

lemma overhang_eq_excess (offset : Nat) (text : List Char) :
    overhang text = excess (scanFrom offset text) := by
  fun_induction scanFrom offset text with
  | case1 => rfl
  | case2 offset c rest hc ih =>
    rw [← ih, ← List.singleton_append, overhang_append, overhang_skipped hc, zero_add]
  | case3 offset c rest hc found stop =>
    rename_i ih
    have hlevel := (first_overhang c rest (x := ⟨found.1, offset, stop⟩) rfl).1
    have hwhole : c :: rest = (c :: rest.take found.2) ++ rest.drop found.2 := by simp
    rw [hwhole, overhang_append, hlevel, ih, excess_cons]

/-- Characters whose items are balanced close every parenthesis that they open, and no other. -/
lemma closedIn_iff_of_balanced {offset : Nat} {text : List Char}
    (h : Balanced (scanFrom offset text)) :
    ¬ClosedIn text ∧ ∀ between later, text = between ++ '(' :: later → ClosedIn later := by
  have hnonneg : ∀ part, part <+: text → 0 ≤ overhang part := by
    intro part hpart
    obtain ⟨items, hitems, hexcess⟩ := exists_excess_eq offset hpart
    rw [← hexcess]
    exact h.nonneg items hitems
  refine ⟨fun ⟨inside, hinside, hneg⟩ => ?_, fun between later htext => ?_⟩
  · have hle := hnonneg inside hinside
    omega
  · refine ⟨later, List.prefix_refl _, ?_⟩
    have htotal : overhang text = 0 := (overhang_eq_excess offset text).trans h.total
    have hle := hnonneg between ⟨_, htext.symm⟩
    have hone : overhang ['('] = 1 := by decide
    rw [htext, ← List.singleton_append, overhang_append, overhang_append, hone] at htotal
    omega

/-! ### Where errors point -/

/-- The offset is that of a character of the text to which an error of the kind applies. -/
def PointsAt (text : String) (e : LexError) : Prop :=
  ∃ s : Stretch text, s.own.length = 1 ∧ e.offset = s.start ∧ Blames e.kind s

section

variable {text : String} {x : Item} {s : Stretch text} {e : LexError}

/-- The parenthesis of a plain group is not that of a logarithm. -/
lemma not_log_before (hx : x ∈ scan text) (hcovers : x.Covers s)
    (hcontent : x.content = .ok .leftParen) (hown : s.own = ['(']) :
    ¬['l', 'o', 'g'] <:+ s.before := by
  rintro ⟨outer, houter⟩
  let log : Stretch text :=
    { before := outer
      own := ['l', 'o', 'g', '(']
      after := s.after
      whole := by rw [← s.whole, ← houter, hown]; simp }
  obtain ⟨y, hy, hcovers', hlog⟩ := (exists_logOpen_iff (s := log)).mpr rfl
  have hstart : s.start = byteLength outer + 3 := by
    rw [Stretch.start, ← houter, byteLength_append]
    rfl
  have hstop : log.stop = byteLength outer + 4 := rfl
  have hlt : s.start < s.stop := by
    rw [Stretch.stop, hown]
    exact Nat.lt_add_of_pos_right (by decide)
  have heq : x = y := by
    refine eq_of_overlap hx hy ?_ ?_
    · rw [hcovers.start, hcovers'.stop]
      omega
    · rw [hcovers.stop, hcovers'.start]
      have hlog : log.start = byteLength outer := rfl
      omega
  rw [← heq, hcontent] at hlog
  cases hlog

lemma blames_of_accuses {found : Lexeme} {kind : LexErrorKind} (hx : x ∈ scan text)
    (hcovers : x.Covers s) (hcontent : x.content = .ok found) (haccuses : Accuses kind found) :
    s.own.length = 1 ∧ Blames kind s := by
  have hspelled : (∀ value, found ≠ .number value) → s.own = spelling found := fun hnumber => by
    cases longestMatch_of_covers hx hcovers with
    | lexeme h _ => exact (hcontent ▸ h).spelled hnumber
    | invalid _ hinvalid _ => simp [hcontent] at hinvalid
  cases kind with
  | missingOperand =>
    simp only [Accuses, List.mem_cons, List.not_mem_nil, or_false] at haccuses
    rcases haccuses with rfl | rfl | rfl <;> simp [Blames, hspelled (by simp), spelling]
  | consecutiveUnary =>
    simp only [Accuses, List.mem_cons, List.not_mem_nil, or_false] at haccuses
    rcases haccuses with rfl | rfl <;> simp [Blames, hspelled (by simp), spelling]
  | implicitMultiplication =>
    obtain rfl : found = .leftParen := haccuses
    have hown : s.own = ['('] := hspelled (by simp)
    exact ⟨by simp [hown], hown, not_log_before hx hcovers hcontent hown⟩
  | invalidParenthesis | operatorBeforeClose | invalidLogStatement =>
    obtain rfl : found = .rightParen := haccuses
    have hown : s.own = [')'] := hspelled (by simp)
    exact ⟨by simp [hown], hown⟩
  | invalidSeparator =>
    obtain rfl : found = .comma := haccuses
    have hown : s.own = [','] := hspelled (by simp)
    exact ⟨by simp [hown], hown⟩
  | invalidOperator =>
    obtain rfl : found = .strayLetter := haccuses
    have hletter := exists_strayLetter_iff.mp ⟨x, hx, hcovers, hcontent⟩
    exact ⟨by simp [hletter.1], hletter⟩
  | invalidFloat | invalidInput | unbalancedParenthesis | emptyExpression => exact haccuses.elim

/-- An error at an item points at the item's first character. -/
lemma pointsAt_of_item {r : Reading} {last : Option Nat} (hx : x ∈ scan text)
    (h : r.item last x = .error e) : PointsAt text e := by
  obtain ⟨s, hcovers, hne, _, hlongest⟩ := exists_stretch_of_mem hx
  obtain ⟨hoffset, hfault⟩ := item_eq_error h
  rw [hcovers.start] at hoffset
  rcases hfault with hcontent | ⟨found, hcontent, haccuses⟩
  · cases hlongest with
    | lexeme hpattern _ =>
      obtain ⟨hkind, hnumeric, hdots⟩ := (hcontent ▸ hpattern).kind_eq
      obtain ⟨d, rest, hown⟩ := List.exists_cons_of_ne_nil hne
      let digit : Stretch text :=
        { before := s.before
          own := [d]
          after := rest ++ s.after
          whole := by rw [← s.whole, hown]; simp }
      refine ⟨digit, rfl, hoffset, ?_⟩
      rw [hkind] at hcontent ⊢
      exact ⟨s, rfl, exists_number_iff.mp ⟨x, hx, hcovers, by simp [Item.isNumber, hcontent]⟩,
        hdots⟩
    | @invalid c hown hinvalid hnone =>
      have hkind : e.kind = .invalidInput := by
        rw [hcontent] at hinvalid
        exact Except.error.inj hinvalid
      refine ⟨s, by simp [hown], hoffset, ?_⟩
      rw [hkind]
      exact ⟨c, hown, hnone⟩
  · obtain ⟨hlength, hblames⟩ := blames_of_accuses hx hcovers hcontent haccuses
    exact ⟨s, hlength, hoffset, hblames⟩

/-- The innermost group that is still open at the end points at the last parenthesis that is not
closed. -/
lemma pointsAt_of_open {r : Reading} (h : Tracks (scan text) r) {group : Group} {outer : List Group}
    (hgroups : r.groups = group :: outer) :
    PointsAt text ⟨.unbalancedParenthesis, group.openedAt⟩ := by
  obtain ⟨opening, inside, hinnermost, hmarks⟩ := (hgroups ▸ h.opened).innermost
  obtain ⟨before, hsplit⟩ := hinnermost.suffix
  obtain ⟨s, hcovers, _, _, hlongest, hinside⟩ := exists_stretch hsplit.symm
  have hstop := hmarks.stop
  rw [hcovers.stop] at hstop
  obtain ⟨letters, hown⟩ : ∃ letters, s.own = letters ++ ['('] := by
    have hopens := hinnermost.opens
    unfold Item.opens at hopens
    split at hopens
    all_goals rename_i hcontent
    · cases hlongest with
      | lexeme hpattern _ => exact ⟨[], (hcontent ▸ hpattern).spelled (by simp)⟩
      | invalid _ hinvalid _ => simp [hcontent] at hinvalid
    · cases hlongest with
      | lexeme hpattern _ => exact ⟨['l', 'o', 'g'], (hcontent ▸ hpattern).spelled (by simp)⟩
      | invalid _ hinvalid _ => simp [hcontent] at hinvalid
    · cases hopens
  let parenthesis : Stretch text :=
    { before := s.before ++ letters
      own := ['(']
      after := s.after
      whole := by rw [← s.whole, hown]; simp }
  refine ⟨parenthesis, rfl, ?_, rfl, closedIn_iff_of_balanced
    (?_ : Balanced (scanFrom s.stop s.after))⟩
  · have hone : byteLength ['('] = 1 := rfl
    simp only [Stretch.stop, Stretch.start, hown, byteLength_append, hone] at hstop
    simp only [Stretch.start, parenthesis, byteLength_append]
    omega
  · rw [← hinside]
    exact hinnermost.balanced

end

lemma scan_eq_nil_iff {text : String} : scan text = [] ↔ ∀ c ∈ text.toList, isSkipped c := by
  refine ⟨scanFrom_eq_nil, fun hblank => ?_⟩
  have hscan := scanFrom_blanks hblank 0 []
  rwa [List.append_nil, scanFrom] at hscan

/-- Reading fails at an item, or at the end: with a group left open, or without any items. -/
lemma tokenize_eq_error {text : String} {e : LexError} (h : tokenize text = .error e) :
    PointsAt text e ∨ e = ⟨.emptyExpression, 0⟩ ∧ scan text = [] := by
  rw [tokenize_eq_bind] at h
  cases hread : readFrom text {} (scan text) with
  | error e' =>
    rw [hread] at h
    cases h
    obtain ⟨before, x, after, r, hsplit, _, hitem⟩ :=
      exists_of_readFrom_error tracks_start rfl hread
    exact .inl (pointsAt_of_item (by simp [hsplit]) hitem)
  | ok r =>
    rw [hread] at h
    have htracks : Tracks (scan text) r :=
      tracks_start.run (fun _ _ _ => placed_of_scan) hread
    simp only [Except.bind, Reading.finish, fail] at h
    split at h
    · rename_i group outer hgroups
      cases h
      exact .inl (pointsAt_of_open htracks hgroups)
    · split_ifs at h with hempty
      cases h
      have hnil : r.tokens.reverse = [] := by simpa using hempty
      exact .inr ⟨rfl, htracks.spells.eq_nil_iff.mp hnil⟩

lemma not_pointsAt_empty {text : String} {offset : Nat} :
    ¬PointsAt text ⟨.emptyExpression, offset⟩ := by
  rintro ⟨_, _, _, hblames⟩
  exact hblames

/-- A lexical error points at a character of the text that is at fault, unless the text is blank,
and that is the only way to get an empty expression. -/
theorem lexError_points_at_culprit (text : String) :
    (∀ e, tokenize text = .error e → e.kind ≠ .emptyExpression → PointsAt text e) ∧
      ∀ offset, tokenize text = .error ⟨.emptyExpression, offset⟩ ↔
        offset = 0 ∧ ∀ c ∈ text.toList, c ∈ [' ', '\t', '\r', '\n', '\x0c'] := by
  refine ⟨fun e he hkind => ?_, fun offset => ⟨fun he => ?_, ?_⟩⟩
  · rcases tokenize_eq_error he with hpoints | ⟨rfl, _⟩
    · exact hpoints
    · exact (hkind rfl).elim
  · rcases tokenize_eq_error he with hpoints | ⟨hempty, hscan⟩
    · exact (not_pointsAt_empty hpoints).elim
    · cases hempty
      exact ⟨rfl, fun c hc => isSkipped_iff.mp (scan_eq_nil_iff.mp hscan c hc)⟩
  · rintro ⟨rfl, hblank⟩
    have hscan := scan_eq_nil_iff.mpr fun c hc => isSkipped_iff.mpr (hblank c hc)
    rw [tokenize_eq_bind, hscan]
    rfl

/-- The group of the logarithm is left open; the one behind it is closed. -/
theorem error_at_open_logarithm :
    tokenize "(1)*log(2,(3)+1" = .error ⟨.unbalancedParenthesis, 7⟩ ∧
      LexErrorKind.unbalancedParenthesis ≠ .emptyExpression ∧
      PointsAt "(1)*log(2,(3)+1" ⟨.unbalancedParenthesis, 7⟩ := by
  have herror : tokenize "(1)*log(2,(3)+1" = .error ⟨.unbalancedParenthesis, 7⟩ := by decide +kernel
  have hkind : LexErrorKind.unbalancedParenthesis ≠ .emptyExpression := by decide
  exact ⟨herror, hkind, (lexError_points_at_culprit _).1 _ herror hkind⟩

end Reckoner.Proofs
