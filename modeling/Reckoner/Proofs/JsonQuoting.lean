import Mathlib.Tactic
import Reckoner.Json.Token
import Reckoner.Json.Value

/-!
# Quoted texts

Every text is read back from its quoted form, and the closing quote is found, also by a reader that
skips over the text. Each character is escaped by itself: by name, by its code unit, or not at all.
-/

namespace Reckoner.Proofs
open Json

/-! ### One character -/

section
variable {c e : Char} {rest : List Char}

lemma textContent_plain (hquote : c ≠ '"') (hslash : c ≠ '\\') (hcontrol : ¬c.toNat < 0x20) :
    textContent (c :: rest) = (textContent rest).map (c :: ·) := by
  rw [textContent]
  · rw [if_neg hcontrol]
  all_goals simp_all

lemma textLength_plain (hquote : c ≠ '"') (hslash : c ≠ '\\') (hcontrol : ¬c.toNat < 0x20) :
    textLength (c :: rest) = (textLength rest).map (· + 1) := by
  rw [textLength]
  · rw [if_neg hcontrol]
  all_goals simp_all

lemma textContent_named (h : namedEscape? e = some c) (hunit : e ≠ 'u') :
    textContent ('\\' :: e :: rest) = (textContent rest).map (c :: ·) := by
  rw [textContent]
  · simp only [beq_iff_eq, hunit, if_false, h]
  all_goals simp_all

lemma textLength_named (h : namedEscape? e = some c) (hunit : e ≠ 'u') :
    textLength ('\\' :: e :: rest) = (textLength rest).map (· + 2) := by
  rw [textLength]
  · simp only [beq_iff_eq, hunit, if_false, h, Option.isSome_some, if_true]
  all_goals simp_all

end

section
variable {a b c d : Char} {unit : Nat} {rest : List Char}

lemma textContent_unit (h : hexUnit? a b c d = some unit) (hcontrol : unit < 0x20) :
    textContent ('\\' :: 'u' :: a :: b :: c :: d :: rest) =
      (textContent rest).map (Char.ofNat unit :: ·) := by
  have htrailing : isTrailing unit = false := by
    simp only [isTrailing, Bool.and_eq_false_iff, decide_eq_false_iff_not]
    omega
  have hleading : isLeading unit = false := by
    simp only [isLeading, Bool.and_eq_false_iff, decide_eq_false_iff_not]
    omega
  rw [textContent]
  simp only [h, htrailing, hleading, Bool.false_eq_true, if_false]

lemma textLength_unit (h : hexUnit? a b c d = some unit) :
    textLength ('\\' :: 'u' :: a :: b :: c :: d :: rest) = (textLength rest).map (· + 6) := by
  rw [textLength]
  simp only [h]

end

/-- The characters are read as the one character, by both readers. -/
structure ReadAs (escape : List Char) (c : Char) : Prop where
  content : ∀ rest, textContent (escape ++ rest) = (textContent rest).map (c :: ·)
  length : ∀ rest, textLength (escape ++ rest) = (textLength rest).map (· + escape.length)

lemma readAs_named {c e : Char} (h : namedEscape? e = some c) (hunit : e ≠ 'u') :
    ReadAs ['\\', e] c :=
  ⟨fun _ => textContent_named h hunit, fun _ => textLength_named h hunit⟩

/-- The two last digits of a code unit below a blank. -/
lemma hexUnit?_control :
    ∀ n < 32, Nat.toDigits 16 (n % 16) = [Nat.digitChar (n % 16)] ∧
      hexUnit? '0' '0' (if n < 0x10 then '0' else '1') (Nat.digitChar (n % 16)) = some n := by
  decide

lemma readAs_control {c : Char} (h : c.toNat < 0x20) :
    ReadAs ("\\u00" ++ (if c.toNat < 0x10 then "0" else "1") ++
      Text.hex (c.toNat % 16)).toList c := by
  obtain ⟨hdigits, hunit⟩ := hexUnit?_control c.toNat h
  have hescape : ("\\u00" ++ (if c.toNat < 0x10 then "0" else "1") ++
      Text.hex (c.toNat % 16)).toList =
        ['\\', 'u', '0', '0', if c.toNat < 0x10 then '0' else '1',
          Nat.digitChar (c.toNat % 16)] := by
    simp only [String.toList_append, Text.hex, hdigits, String.toList_ofList]
    split_ifs <;> rfl
  rw [hescape]
  refine ⟨fun rest => ?_, fun rest => textLength_unit hunit⟩
  rw [List.cons_append, List.cons_append, List.cons_append, List.cons_append, List.cons_append,
    List.cons_append, List.nil_append, textContent_unit hunit h, Char.ofNat_toNat]

lemma readAs_escaped (c : Char) : ReadAs (escaped c).toList c := by
  unfold escaped
  simp only [beq_iff_eq]
  split_ifs with hquote hslash hback hfeed hline hreturn htab hcontrol hlow
  · subst hquote
    exact readAs_named rfl (by decide)
  · subst hslash
    exact readAs_named rfl (by decide)
  · subst hback
    exact readAs_named rfl (by decide)
  · subst hfeed
    exact readAs_named rfl (by decide)
  · subst hline
    exact readAs_named rfl (by decide)
  · subst hreturn
    exact readAs_named rfl (by decide)
  · subst htab
    exact readAs_named rfl (by decide)
  · have hread := readAs_control hcontrol
    rwa [if_pos hlow] at hread
  · have hread := readAs_control hcontrol
    rwa [if_neg hlow] at hread
  · change ReadAs (String.singleton c).toList c
    rw [String.toList_singleton]
    exact ⟨fun _ => textContent_plain hquote hslash hcontrol,
      fun _ => textLength_plain hquote hslash hcontrol⟩

/-! ### A whole text -/

/-- The characters of a text between its quotes. -/
def quotedBody (chars : List Char) : List Char :=
  chars.flatMap fun c => (escaped c).toList

lemma quote_toList (s : String) : (quote s).toList = '"' :: (quotedBody s.toList ++ ['"']) := by
  simp only [quote, String.toList_append, String.toList_join, List.flatMap_map]
  rfl

lemma textContent_quotedBody (chars rest : List Char) :
    textContent (quotedBody chars ++ '"' :: rest) = .ok chars := by
  induction chars with
  | nil => rfl
  | cons c chars ih =>
    rw [quotedBody, List.flatMap_cons, List.append_assoc, (readAs_escaped c).content]
    rw [quotedBody] at ih
    rw [ih]
    rfl

lemma textLength_quotedBody (chars rest : List Char) :
    textLength (quotedBody chars ++ '"' :: rest) = .ok ((quotedBody chars).length + 1) := by
  induction chars with
  | nil => rfl
  | cons c chars ih =>
    rw [quotedBody, List.flatMap_cons, List.append_assoc, (readAs_escaped c).length]
    rw [quotedBody] at ih
    rw [ih, List.length_append]
    simp only [Except.map, Except.ok.injEq]
    omega

lemma tokens_quoteMark {rest : List Char} {n : Nat} (h : textLength rest = .ok n) :
    tokens ('"' :: rest) =
      .text ((textContent rest).map String.ofList) :: tokens (rest.drop n) := by
  rw [tokens]
  simp [isBlank, h]

/-- A quoted text is one token, and the text is its content. -/
theorem tokens_quote (s : String) (rest : List Char) :
    tokens ((quote s).toList ++ rest) = .text (.ok s) :: tokens rest := by
  have hlength := textLength_quotedBody s.toList rest
  have hdrop :
      (quotedBody s.toList ++ '"' :: rest).drop ((quotedBody s.toList).length + 1) = rest := by
    rw [List.drop_length_add_append]
    rfl
  rw [quote_toList, List.cons_append, List.append_assoc, List.singleton_append,
    tokens_quoteMark hlength, textContent_quotedBody, hdrop]
  rw [Except.map, String.ofList_toList]

end Reckoner.Proofs
