import Mathlib.Tactic
import Reckoner.Proofs.Patterns
import Reckoner.Proofs.Spans

/-!
# Stretches of a text

Every raw lexeme takes up a stretch of whole characters, every visible character lies in such a
stretch, and two lexemes never have a byte in common. What comes after a lexeme is scanned as if
nothing had been before it.
-/

namespace Reckoner

namespace Text

/-- Some characters of a text, with all that stand before and after them. -/
structure Stretch (text : String) where
  before : List Char
  own : List Char
  after : List Char
  whole : before ++ own ++ after = text.toList

lemma byteLength_eq_zero_iff {text : List Char} : byteLength text = 0 ↔ text = [] :=
  ⟨fun h => by_contra fun hne => Proofs.byteLength_ne_zero hne h, fun h => by rw [h]; rfl⟩

lemma prefix_of_byteLength_le {a b text : List Char} (ha : a <+: text) (hb : b <+: text)
    (h : byteLength a ≤ byteLength b) : a <+: b := by
  rcases List.prefix_or_prefix_of_prefix ha hb with hab | ⟨rest, rfl⟩
  · exact hab
  · rw [byteLength_append] at h
    have hrest : rest = [] := byteLength_eq_zero_iff.mp (by omega)
    rw [hrest, List.append_nil]

namespace Stretch

variable {text : String} {s s' : Stretch text}

def start (s : Stretch text) : Nat :=
  byteLength s.before

def stop (s : Stretch text) : Nat :=
  s.start + byteLength s.own

/-- One stretch lies within the other. -/
instance : LE (Stretch text) :=
  ⟨fun s s' => s'.start ≤ s.start ∧ s.stop ≤ s'.stop⟩

lemma before_prefix (s : Stretch text) : s.before <+: text.toList :=
  ⟨s.own ++ s.after, by rw [← s.whole, List.append_assoc]⟩

lemma stop_eq (s : Stretch text) : s.stop = byteLength (s.before ++ s.own) :=
  (byteLength_append _ _).symm

lemma exists_of_le (h : s ≤ s') : ∃ left right, s'.own = left ++ s.own ++ right ∧
    s.before = s'.before ++ left ∧ s.after = right ++ s'.after := by
  obtain ⟨hstart, hstop⟩ := h
  rw [s.stop_eq, s'.stop_eq] at hstop
  obtain ⟨left, hleft⟩ := prefix_of_byteLength_le s'.before_prefix s.before_prefix hstart
  obtain ⟨right, hright⟩ := prefix_of_byteLength_le ⟨_, s.whole⟩ ⟨_, s'.whole⟩ hstop
  rw [← hleft, List.append_assoc, List.append_assoc, List.append_cancel_left_eq] at hright
  refine ⟨left, right, by rw [← hright, List.append_assoc], hleft.symm, ?_⟩
  have hwhole := s.whole.trans s'.whole.symm
  simp only [← hleft, ← hright, List.append_assoc, List.append_cancel_left_eq] at hwhole
  exact hwhole

lemma eq_of_bounds (hstart : s.start = s'.start) (hstop : s.stop = s'.stop) : s = s' := by
  obtain ⟨left, right, hown, hbefore, hafter⟩ := exists_of_le ⟨hstart.ge, hstop.le⟩
  have hlengths := congrArg byteLength hown
  have hlengths' := congrArg byteLength hbefore
  simp only [byteLength_append] at hlengths hlengths'
  simp only [start, stop] at hstart hstop
  have hleft : left = [] := byteLength_eq_zero_iff.mp (by omega)
  have hright : right = [] := byteLength_eq_zero_iff.mp (by omega)
  subst hleft hright
  cases s
  cases s'
  simp_all

end Stretch

end Text

namespace Lexeme.Item

/-- The item spans exactly the characters of the stretch. -/
structure Covers {text : String} (x : Item) (s : Text.Stretch text) : Prop where
  start : x.start = s.start
  stop : x.stop = s.stop

lemma Covers.unique {text : String} {x : Item} {s s' : Text.Stretch text} (h : x.Covers s)
    (h' : x.Covers s') : s = s' :=
  Text.Stretch.eq_of_bounds (h.start.symm.trans h'.start) (h.stop.symm.trans h'.stop)

/-- Whether an item is a number, be it a valid one or not. -/
def isNumber (x : Item) : Bool :=
  match x.content with
  | .ok (.number _) | .error .invalidFloat => true
  | _ => false

/-- The item as it lies in a text with `offset` more bytes in front. -/
def shift (offset : Nat) (x : Item) : Item :=
  ⟨x.content, offset + x.start, offset + x.stop⟩

end Lexeme.Item

namespace Proofs
open Lexeme Text

/-- The item is what a longest match from its first character gives. Where nothing matches, it is
that one character. -/
inductive LongestMatch {text : String} (x : Item) (s : Stretch text) : Prop
  | lexeme (h : Pattern s.own x.content) (hlongest : ∀ longer content,
    longer <+: s.own ++ s.after → Pattern longer content → longer.length ≤ s.own.length)
  | invalid {c : Char} (hown : s.own = [c]) (hcontent : x.content = .error .invalidInput)
    (hnone : StartsNothing c)

lemma scanFrom_shift (k offset : Nat) (text : List Char) :
    scanFrom (k + offset) text = (scanFrom offset text).map (Item.shift k) := by
  fun_induction scanFrom offset text with
  | case1 => simp [scanFrom]
  | case2 offset c rest hc ih => rw [scanFrom, if_pos hc, Nat.add_assoc, ih]
  | case3 offset c rest hc found stop ih =>
    have hstop : k + offset + c.utf8Size + byteLength (rest.take found.2) = k + stop := by
      simp only [stop, Nat.add_assoc]
    rw [scanFrom, if_neg hc, List.map_cons, ← ih, ← hstop]
    simp only [Item.shift, ← hstop, found]

section

variable {text : String} {before after : List Item} {x y : Item}

/-- Every item takes up a stretch of the text, a longest match, and what comes after the stretch is
scanned on its own. -/
lemma exists_stretch (h : scan text = before ++ x :: after) : ∃ s : Stretch text, x.Covers s ∧
    s.own ≠ [] ∧ (∀ c ∈ s.own, isSkipped c = false) ∧ LongestMatch x s ∧
    after = scanFrom s.stop s.after := by
  obtain ⟨earlier, c, later, htext, _, hskip, hcontent, hstart, hstop, hafter⟩ := scanFrom_split h
  let s : Stretch text :=
    { before := earlier
      own := c :: later.take (first c later).2
      after := later.drop (first c later).2
      whole := by simp [htext] }
  have hcovers : x.Covers s := by
    refine ⟨by rw [hstart, Nat.zero_add]; rfl, ?_⟩
    rw [hstop, hstart, Nat.zero_add, Nat.add_assoc]
    rfl
  have hjoined : s.own ++ s.after = c :: later := by simp [s]
  refine ⟨s, hcovers, by simp [s], ?_, ?_, by rw [hafter, hcovers.stop]⟩
  all_goals rcases first_longest c later with ⟨hpattern, hlongest⟩ | ⟨hfirst, hnone⟩
  · exact hpattern.visible
  · intro d hd
    have hd : d = c := by simpa [s, hfirst] using hd
    rwa [hd]
  · refine .lexeme (by rwa [hcontent]) fun longer content hprefix hlonger => ?_
    rw [hjoined] at hprefix
    rcases List.prefix_cons_iff.mp hprefix with rfl | ⟨rest, rfl, hrest⟩
    · exact Nat.zero_le _
    · have hle := (hlongest rest content hrest hlonger).length_le
      simpa [s] using hle
  · exact .invalid (c := c) (by simp [s, hfirst]) (by rw [hcontent, hfirst]) hnone

lemma exists_stretch_of_mem (hx : x ∈ scan text) : ∃ s : Stretch text, x.Covers s ∧ s.own ≠ [] ∧
    (∀ c ∈ s.own, isSkipped c = false) ∧ LongestMatch x s := by
  obtain ⟨before, after, h⟩ := List.append_of_mem hx
  obtain ⟨s, hcovers, hne, hvisible, hlongest, _⟩ := exists_stretch h
  exact ⟨s, hcovers, hne, hvisible, hlongest⟩

lemma eq_of_overlap (hx : x ∈ scan text) (hy : y ∈ scan text) (h : x.start < y.stop)
    (h' : y.start < x.stop) : x = y := by
  let Apart (x y : Item) : Prop := x.start < y.stop → y.start < x.stop → x = y
  have hsymm : Std.Symm Apart := ⟨fun x y hxy h h' => (hxy h' h).symm⟩
  have hpairs : (scan text).Pairwise Apart :=
    (scanFrom_ordered 0 text.toList).2.imp fun hle h h' => absurd h' (by omega)
  exact hpairs.forall_of_forall (fun _ _ _ _ => rfl) hx hy h h'

/-- Every character that is not skipped lies in an item. -/
lemma scanFrom_surrounds (offset : Nat) (earlier later : List Char) {c : Char}
    (hc : isSkipped c = false) : ∃ x ∈ scanFrom offset (earlier ++ c :: later),
      x.start ≤ offset + byteLength earlier ∧
        offset + byteLength earlier + c.utf8Size ≤ x.stop := by
  generalize htext : earlier ++ c :: later = text
  fun_induction scanFrom offset text generalizing earlier with
  | case1 => simp at htext
  | case2 offset d rest hd ih =>
    cases earlier with
    | nil =>
      obtain ⟨rfl, rfl⟩ := List.cons.inj htext
      simp [hc] at hd
    | cons e earlier =>
      obtain ⟨rfl, htail⟩ := List.cons.inj htext
      obtain ⟨x, hx, hstart, hstop⟩ := ih _ htail
      rw [byteLength_cons]
      exact ⟨x, hx, by omega, by omega⟩
  | case3 offset d rest hd found stop =>
    rename_i ih
    cases earlier with
    | nil =>
      obtain ⟨rfl, rfl⟩ := List.cons.inj htext
      refine ⟨_, List.mem_cons_self, le_rfl, ?_⟩
      simp only [byteLength_nil, stop]
      omega
    | cons e earlier =>
      rw [List.cons_append] at htext
      obtain ⟨rfl, rfl⟩ := List.cons.inj htext
      rw [byteLength_cons]
      rcases Nat.lt_or_ge earlier.length found.2 with hlt | hge
      · refine ⟨_, List.mem_cons_self, Nat.le_add_right _ _, ?_⟩
        obtain ⟨n, hn⟩ : ∃ n, found.2 = earlier.length + (n + 1) :=
          ⟨found.2 - earlier.length - 1, by omega⟩
        simp only [stop, hn, List.take_length_add_append, List.take_succ_cons, byteLength_append,
          byteLength_cons]
        omega
      · have hsplit : (earlier ++ c :: later).drop found.2 = earlier.drop found.2 ++ c :: later :=
          List.drop_append_of_le_length hge
        have htake : (earlier ++ c :: later).take found.2 = earlier.take found.2 :=
          List.take_append_of_le_length hge
        obtain ⟨x, hx, hstart, hstop⟩ := ih _ hsplit.symm
        have hlength := congrArg byteLength (List.take_append_drop found.2 earlier)
        rw [byteLength_append] at hlength
        simp only [stop, htake] at hstart hstop
        exact ⟨x, List.mem_cons_of_mem _ hx, by omega, by omega⟩

/-- A visible character lies in the stretch of an item. -/
lemma exists_around (s : Stretch text) {c : Char} {rest : List Char} (hown : s.own = c :: rest)
    (hc : isSkipped c = false) : ∃ x ∈ scan text, ∃ s' : Stretch text, x.Covers s' ∧
      LongestMatch x s' ∧
        ∃ left right, s'.own = left ++ c :: right ∧ s.before = s'.before ++ left := by
  have htext : text.toList = s.before ++ c :: (rest ++ s.after) := by rw [← s.whole, hown]; simp
  obtain ⟨x, hx, hstart, hstop⟩ := scanFrom_surrounds 0 s.before (rest ++ s.after) hc
  rw [← htext] at hx
  rw [Nat.zero_add] at hstart hstop
  obtain ⟨s', hcovers, _, _, hlongest⟩ := exists_stretch_of_mem hx
  let single : Stretch text := ⟨s.before, [c], rest ++ s.after, by simp [htext]⟩
  have hle : single ≤ s' := ⟨hcovers.start ▸ hstart, hcovers.stop ▸ hstop⟩
  obtain ⟨left, right, hown', hbefore, _⟩ := Stretch.exists_of_le hle
  rw [List.append_assoc] at hown'
  exact ⟨x, hx, s', hcovers, hlongest, left, right, hown', hbefore⟩

lemma longestMatch_of_covers {s : Stretch text} (hx : x ∈ scan text) (hcovers : x.Covers s) :
    LongestMatch x s := by
  obtain ⟨s', hcovers', _, _, hlongest⟩ := exists_stretch_of_mem hx
  obtain rfl := hcovers'.unique hcovers
  exact hlongest

end

end Proofs

end Reckoner
