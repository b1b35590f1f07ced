import Mathlib.Tactic
import Reckoner.Proofs.JsonGrammar

/-!
# One text, one value

No text denotes two values. Where a value ends is decided by what may follow it: a blank, a comma or
a closing bracket, none of which can be a part of a number, and all others end by themselves.
-/

namespace Reckoner.Proofs
open Json

/-! ### Blanks -/

lemma isBlank_iff {c : Char} : isBlank c ↔ ((c = ' ' ∨ c = '\t') ∨ c = '\n') ∨ c = '\r' := by
  simp only [isBlank, Bool.or_eq_true, beq_iff_eq]

lemma blanks_inj {blanks blanks' rest rest' : List Char} {c c' : Char}
    (h : ∀ c ∈ blanks, isBlank c) (h' : ∀ c ∈ blanks', isBlank c) (hc : isBlank c = false)
    (hc' : isBlank c' = false) (heq : blanks ++ c :: rest = blanks' ++ c' :: rest') :
    blanks = blanks' ∧ c = c' ∧ rest = rest' := by
  induction blanks generalizing blanks' with
  | nil =>
    cases blanks' with
    | nil => exact ⟨rfl, List.cons.inj heq⟩
    | cons b blanks' =>
      obtain ⟨rfl, -⟩ := List.cons.inj heq
      rw [h' c List.mem_cons_self] at hc
      cases hc
  | cons b blanks ih =>
    cases blanks' with
    | nil =>
      obtain ⟨rfl, -⟩ := List.cons.inj heq
      rw [h b List.mem_cons_self] at hc'
      cases hc'
    | cons b' blanks' =>
      obtain ⟨rfl, htail⟩ := List.cons.inj heq
      obtain ⟨rfl, hrest⟩ := ih (List.forall_mem_of_forall_mem_cons h)
        (List.forall_mem_of_forall_mem_cons h') htail
      exact ⟨rfl, hrest⟩

/-! ### Quoted texts -/

lemma exists_of_map_ok {α β ε : Type} {f : α → β} {x : Except ε α} {b : β}
    (h : x.map f = .ok b) : ∃ a, x = .ok a ∧ f a = b := by
  cases x with
  | error e => cases h
  | ok a => exact ⟨a, rfl, Except.ok.inj h⟩

/-- What follows the closing quote does not matter. -/
lemma textLength_append {text : List Char} {n : Nat} (h : textLength text = .ok n)
    (more : List Char) : textLength (text ++ more) = .ok n := by
  fun_induction textLength text generalizing n with
  | case1 | case3 | case5 | case6 | case8 | case9 => cases h
  | case2 =>
    rw [List.cons_append, textLength]
    exact h
  | case4 a b c d rest unit hunit ih =>
    obtain ⟨m, hm, rfl⟩ := exists_of_map_ok h
    exact (textLength_unit hunit).trans (congrArg (Except.map (· + 6)) (ih hm))
  | case7 e rest _ hunit hnamed ih =>
    obtain ⟨m, hm, rfl⟩ := exists_of_map_ok h
    obtain ⟨c, hc⟩ := Option.isSome_iff_exists.mp hnamed
    exact (textLength_named hc (by simpa using hunit)).trans
      (congrArg (Except.map (· + 2)) (ih hm))
  | case10 c rest hquote hend _ hescape hcontrol ih =>
    obtain ⟨m, hm, rfl⟩ := exists_of_map_ok h
    have hslash : c ≠ '\\' := by
      intro hc
      cases rest with
      | nil => exact hend hc rfl
      | cons e rest => exact hescape e rest hc rfl
    exact (textLength_plain hquote hslash hcontrol).trans (congrArg (Except.map (· + 1)) (ih hm))

lemma IsQuoted.inj {text text' rest rest' : List Char} {content content' : String}
    (h : IsQuoted text content) (h' : IsQuoted text' content')
    (heq : text ++ rest = text' ++ rest') : text = text' ∧ content = content' := by
  obtain ⟨body, rfl, hcontent, hlength⟩ := h
  obtain ⟨body', rfl, hcontent', hlength'⟩ := h'
  have htail : body ++ rest = body' ++ rest' := (List.cons.inj heq).2
  have hlengths : body.length = body'.length := by
    have hfirst := textLength_append hlength rest
    rw [htail, textLength_append hlength' rest'] at hfirst
    exact (Except.ok.inj hfirst).symm
  obtain ⟨rfl, -⟩ := List.append_inj htail hlengths
  rw [hcontent] at hcontent'
  exact ⟨rfl, String.toList_inj.mp (Except.ok.inj hcontent')⟩

/-! ### Numbers -/

/-- The characters that numbers are made of. -/
def isNumberChar (c : Char) : Bool :=
  c.isDigit || c == '+' || c == '-' || c == '.' || c == 'e' || c == 'E'

lemma isNumberChar_of_isDigits {text : List Char} (h : IsDigits text) :
    ∀ c ∈ text, isNumberChar c := by
  intro c hc
  rw [isNumberChar, h.2 c hc]
  rfl

lemma isNumberChar_of_sign {sign : List Char} (h : sign ∈ [[], ['+'], ['-']]) :
    ∀ c ∈ sign, isNumberChar c := by
  simp only [List.mem_cons, List.not_mem_nil, or_false] at h
  rcases h with rfl | rfl | rfl
  · simp
  · exact List.forall_mem_singleton.mpr rfl
  · exact List.forall_mem_singleton.mpr rfl

lemma IsNumber.isNumberChar {text : List Char} (h : IsNumber text) :
    ∀ c ∈ text, isNumberChar c := by
  obtain ⟨sign, _, rfl, hsign, whole, fraction, exponent, rfl, hwhole, hfraction, hexponent⟩ := h
  simp only [List.forall_mem_append]
  refine ⟨?_, isNumberChar_of_isDigits hwhole.1, ?_, ?_⟩
  · exact isNumberChar_of_sign (by fin_cases hsign <;> simp)
  · rcases hfraction with rfl | ⟨digits, rfl, hdigits⟩
    · simp
    · exact List.forall_mem_cons.mpr ⟨rfl, isNumberChar_of_isDigits hdigits⟩
  · rcases hexponent with rfl | ⟨mark, sign', digits, rfl, hmark, hsign', hdigits⟩
    · simp
    · have hletter : Proofs.isNumberChar mark := by fin_cases hmark <;> rfl
      exact List.forall_mem_cons.mpr ⟨hletter, List.forall_mem_append.mpr
        ⟨isNumberChar_of_sign hsign', isNumberChar_of_isDigits hdigits⟩⟩

/-- What may follow a value. -/
def EndsValue (rest : List Char) : Prop :=
  ∀ c ∈ rest.head?, isBlank c ∨ c = ',' ∨ c = '\x7d'

lemma EndsValue.not_isNumberChar {rest : List Char} (h : EndsValue rest) :
    ∀ c ∈ rest.head?, isNumberChar c = false := by
  intro c hc
  rcases h c hc with hblank | rfl | rfl
  · rcases isBlank_iff.mp hblank with ((rfl | rfl) | rfl) | rfl <;> decide
  · decide
  · decide

/-- A number ends where the first other character stands. -/
lemma IsNumber.takeWhile {text rest : List Char} (h : IsNumber text) (hrest : EndsValue rest) :
    (text ++ rest).takeWhile Proofs.isNumberChar = text := by
  rw [List.takeWhile_append_of_pos h.isNumberChar]
  cases rest with
  | nil => simp
  | cons c rest =>
    have hc := hrest.not_isNumberChar c rfl
    rw [List.takeWhile_cons_of_neg (by simp [hc]), List.append_nil]

lemma IsNumber.inj {text text' rest rest' : List Char} (h : IsNumber text) (h' : IsNumber text')
    (hrest : EndsValue rest) (hrest' : EndsValue rest') (heq : text ++ rest = text' ++ rest') :
    text = text' := by
  rw [← h.takeWhile hrest, heq, h'.takeWhile hrest']

/-! ### First characters -/

/-- The first character of a text that denotes the value. -/
def StartsWith (c : Char) : Json → Prop
  | .null => c = 'n'
  | .number _ => c = '-' ∨ c.isDigit
  | .string _ => c = '"'
  | .object _ => c = '\x7b'

lemma IsNumber.exists_first {text : List Char} (h : IsNumber text) :
    ∃ c rest, text = c :: rest ∧ (c = '-' ∨ c.isDigit) := by
  obtain ⟨sign, _, rfl, hsign, whole, fraction, exponent, rfl, hwhole, -⟩ := h
  obtain ⟨c, digits, hdigits⟩ := List.exists_cons_of_ne_nil hwhole.1.1
  have hc : c.isDigit := hwhole.1.2 c (by simp [hdigits])
  rw [hdigits]
  fin_cases hsign
  · exact ⟨c, _, rfl, .inr hc⟩
  · exact ⟨'-', _, rfl, .inl rfl⟩

lemma Denotes.exists_first {text : List Char} {value : Json} (h : Denotes text value) :
    ∃ c rest, text = c :: rest ∧ StartsWith c value := by
  cases h with
  | null => exact ⟨_, _, rfl, rfl⟩
  | number h => exact h.exists_first
  | string h =>
    obtain ⟨body, rfl, -⟩ := h
    exact ⟨_, _, rfl, rfl⟩
  | object h => exact ⟨_, _, rfl, rfl⟩

lemma StartsWith.not_isBlank {c : Char} {value : Json} (h : StartsWith c value) :
    isBlank c = false := by
  cases value with
  | null | string | object =>
    cases h
    rfl
  | number text =>
    rcases h with rfl | hdigit
    · rfl
    · by_contra hblank
      rw [Bool.not_eq_false, isBlank_iff] at hblank
      rcases hblank with ((rfl | rfl) | rfl) | rfl <;> simp at hdigit

/-- The first character tells the kind of the value. -/
def kindOf (c : Char) : Nat :=
  if c = 'n' then 0 else if c = '"' then 1 else if c = '\x7b' then 2 else 3

def valueKind : Json → Nat
  | .null => 0
  | .string _ => 1
  | .object _ => 2
  | .number _ => 3

lemma StartsWith.kind_eq {c : Char} {value : Json} (h : StartsWith c value) :
    valueKind value = kindOf c := by
  cases value with
  | null | string | object =>
    cases h
    rfl
  | number text =>
    rcases h with rfl | hdigit
    · rfl
    · have hletter : c ≠ 'n' := by rintro rfl; simp at hdigit
      have hquote : c ≠ '"' := by rintro rfl; simp at hdigit
      have hbrace : c ≠ '\x7b' := by rintro rfl; simp at hdigit
      rw [kindOf, if_neg hletter, if_neg hquote, if_neg hbrace, valueKind]

/-- A member begins with the quote of its key, and no bracket closes an object there. -/
lemma DenotesMember.not_closing {text blanks rest rest' : List Char} {key : String} {value : Json}
    (h : DenotesMember text key value) (hblanks : ∀ c ∈ blanks, isBlank c) :
    blanks ++ '\x7d' :: rest ≠ text ++ rest' := by
  intro heq
  cases h with
  | @mk front _ gap gap' _ back _ _ hblanks' hkey _ =>
    obtain ⟨body, rfl, -⟩ := hkey
    simp only [List.forall_mem_append] at hblanks'
    rw [List.append_assoc] at heq
    exact absurd (blanks_inj hblanks hblanks'.1.1.1 rfl rfl heq).2.1 (by decide)

/-! ### Values -/

/-- Two members that a text begins with agree up to their values. -/
lemma member_front_inj {front front' keyText keyText' gap gap' mid mid' rest rest' : List Char}
    {key key' : String} {c c' : Char} (hfront : ∀ c ∈ front ++ gap ++ mid, isBlank c)
    (hfront' : ∀ c ∈ front' ++ gap' ++ mid', isBlank c) (hkey : IsQuoted keyText key)
    (hkey' : IsQuoted keyText' key') (hc : isBlank c = false) (hc' : isBlank c' = false)
    (heq : front ++ (keyText ++ (gap ++ ':' :: (mid ++ c :: rest))) =
      front' ++ (keyText' ++ (gap' ++ ':' :: (mid' ++ c' :: rest')))) :
    front = front' ∧ keyText = keyText' ∧ key = key' ∧ gap = gap' ∧ mid = mid' ∧
      c :: rest = c' :: rest' := by
  simp only [List.forall_mem_append] at hfront hfront'
  have hquotes : front = front' ∧ keyText ++ (gap ++ ':' :: (mid ++ c :: rest)) =
      keyText' ++ (gap' ++ ':' :: (mid' ++ c' :: rest')) := by
    obtain ⟨body, rfl, -⟩ := hkey
    obtain ⟨body', rfl, -⟩ := hkey'
    obtain ⟨rfl, -, htail⟩ := blanks_inj hfront.1.1 hfront'.1.1 rfl rfl heq
    exact ⟨rfl, congrArg (List.cons '"') htail⟩
  obtain ⟨rfl, hquotes⟩ := hquotes
  obtain ⟨rfl, rfl⟩ := hkey.inj hkey' hquotes
  obtain ⟨rfl, -, hvalue⟩ :=
    blanks_inj hfront.1.2 hfront'.1.2 rfl rfl (List.append_cancel_left hquotes)
  obtain ⟨rfl, rfl, rfl⟩ := blanks_inj hfront.2 hfront'.2 hc hc' hvalue
  exact ⟨rfl, rfl, rfl, rfl, rfl, rfl⟩

lemma endsValue_blanks {blanks rest : List Char} {c : Char} (h : ∀ c ∈ blanks, isBlank c)
    (hc : c = ',' ∨ c = '\x7d') : EndsValue (blanks ++ c :: rest) := by
  cases blanks with
  | nil =>
    intro d hd
    cases hd
    exact .inr hc
  | cons b blanks =>
    intro d hd
    cases hd
    exact .inl (h b List.mem_cons_self)

mutual

/-- Two values that a text begins with are the same. -/
theorem Denotes.inj {text : List Char} {value : Json} (h : Denotes text value) :
    ∀ {text' rest rest' : List Char} {value' : Json}, Denotes text' value' → EndsValue rest →
      EndsValue rest' → text ++ rest = text' ++ rest' → text = text' ∧ value = value' := by
  intro text' rest rest' value' h' hrest hrest' heq
  have hkind : valueKind value = valueKind value' := by
    obtain ⟨c, front, hfirst, hstart⟩ := h.exists_first
    obtain ⟨c', front', hfirst', hstart'⟩ := h'.exists_first
    rw [hfirst, hfirst'] at heq
    rw [hstart.kind_eq, hstart'.kind_eq, (List.cons.inj heq).1]
  match h, h' with
  | .null, .null => exact ⟨rfl, rfl⟩
  | .number hnumber, .number hnumber' =>
    have htext := hnumber.inj hnumber' hrest hrest' heq
    exact ⟨htext, congrArg Json.number (String.toList_inj.mp htext)⟩
  | .string hquoted, .string hquoted' =>
    obtain ⟨htext, hcontent⟩ := hquoted.inj hquoted' heq
    exact ⟨htext, congrArg Json.string hcontent⟩
  | .object hmembers, .object hmembers' =>
    rw [List.cons_append, List.cons_append, List.append_assoc, List.append_assoc] at heq
    obtain ⟨rfl, rfl⟩ := hmembers.inj hmembers' (List.cons.inj heq).2
    exact ⟨rfl, rfl⟩

theorem DenotesMembers.inj {text : List Char} {members : Members}
    (h : DenotesMembers text members) :
    ∀ {text' rest rest' : List Char} {members' : Members}, DenotesMembers text' members' →
      text ++ '\x7d' :: rest = text' ++ '\x7d' :: rest' → text = text' ∧ members = members' := by
  intro text' rest rest' members' h' heq
  match h, h' with
  | .none hblanks, .none hblanks' =>
    exact ⟨(blanks_inj hblanks hblanks' rfl rfl heq).1, rfl⟩
  | .one hmember, .one hmember' =>
    obtain ⟨rfl, rfl, rfl, -⟩ := hmember.inj hmember' (.inr rfl) (.inr rfl) heq
    exact ⟨rfl, rfl⟩
  | .more hmember hmembers, .more hmember' hmembers' =>
    rw [List.append_assoc, List.append_assoc] at heq
    obtain ⟨rfl, rfl, rfl, -, htail⟩ := hmember.inj hmember' (.inl rfl) (.inl rfl) heq
    obtain ⟨rfl, hmore⟩ := hmembers.inj hmembers' htail
    exact ⟨rfl, congrArg (Members.cons _ _) hmore⟩
  | .one hmember, .more hmember' _ =>
    rw [List.append_assoc] at heq
    exact absurd (hmember.inj hmember' (.inr rfl) (.inl rfl) heq).2.2.2.1 (by decide)
  | .more hmember _, .one hmember' =>
    rw [List.append_assoc] at heq
    exact absurd (hmember.inj hmember' (.inl rfl) (.inr rfl) heq).2.2.2.1 (by decide)
  | .none hblanks, .one hmember => exact absurd heq (hmember.not_closing hblanks)
  | .one hmember, .none hblanks => exact absurd heq.symm (hmember.not_closing hblanks)
  | .none hblanks, .more hmember _ =>
    rw [List.append_assoc] at heq
    exact absurd heq (hmember.not_closing hblanks)
  | .more hmember _, .none hblanks =>
    rw [List.append_assoc] at heq
    exact absurd heq.symm (hmember.not_closing hblanks)

theorem DenotesMember.inj {text : List Char} {key : String} {value : Json}
    (h : DenotesMember text key value) :
    ∀ {text' rest rest' : List Char} {key' : String} {value' : Json} {c c' : Char},
      DenotesMember text' key' value' → c = ',' ∨ c = '\x7d' → c' = ',' ∨ c' = '\x7d' →
        text ++ c :: rest = text' ++ c' :: rest' →
          text = text' ∧ key = key' ∧ value = value' ∧ c = c' ∧ rest = rest' := by
  intro text' rest rest' key' value' c c' h' hc hc' heq
  match h, h' with
  | .mk hblanks hkey hvalue, .mk hblanks' hkey' hvalue' =>
    obtain ⟨b, body, hfirst, hstart⟩ := hvalue.exists_first
    obtain ⟨b', body', hfirst', hstart'⟩ := hvalue'.exists_first
    obtain ⟨hfront, hback⟩ := List.forall_mem_append.mp hblanks
    obtain ⟨hfront', hback'⟩ := List.forall_mem_append.mp hblanks'
    simp only [List.append_assoc, List.cons_append, hfirst, hfirst'] at heq
    obtain ⟨rfl, rfl, rfl, rfl, rfl, htail⟩ := member_front_inj hfront hfront' hkey hkey'
      hstart.not_isBlank hstart'.not_isBlank heq
    rw [← List.cons_append, ← List.cons_append, ← hfirst, ← hfirst'] at htail
    obtain ⟨rfl, rfl⟩ := hvalue.inj hvalue' (endsValue_blanks hback hc)
      (endsValue_blanks hback' hc') htail
    have hblank : ∀ {c : Char}, c = ',' ∨ c = '\x7d' → isBlank c = false := by
      rintro c (rfl | rfl) <;> rfl
    obtain ⟨rfl, rfl, rfl⟩ := blanks_inj hback hback' (hblank hc) (hblank hc')
      (List.append_cancel_left htail)
    exact ⟨rfl, rfl, rfl, rfl, rfl⟩

end

/-- No text denotes two values. -/
theorem Denotes.iff {text : List Char} {value : Json} (h : Denotes text value) (value' : Json) :
    Denotes text value' ↔ value' = value := by
  have hend : EndsValue [] := by simp [EndsValue]
  constructor
  · intro h'
    exact (h'.inj h hend hend rfl).2
  · rintro rfl
    exact h

end Reckoner.Proofs
