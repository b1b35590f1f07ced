import Mathlib.Tactic
import Reckoner.Proofs.JsonQuoting

/-!
# The grammar of written values

Which texts denote which value, with blanks wherever the grammar of JSON allows them. Every value
that is written denotes itself at any level, as long as its numbers have the form of numbers.
-/

namespace Reckoner.Proofs
open Json

/-! ### Grammar -/

def IsDigits (text : List Char) : Prop :=
  text ≠ [] ∧ ∀ c ∈ text, c.isDigit

/-- A leading zero stands alone. -/
def IsWhole (text : List Char) : Prop :=
  IsDigits text ∧ (text.head? = some '0' → text = ['0'])

def IsFraction (text : List Char) : Prop :=
  text = [] ∨ ∃ digits, text = '.' :: digits ∧ IsDigits digits

def IsExponent (text : List Char) : Prop :=
  text = [] ∨ ∃ mark sign digits, text = mark :: (sign ++ digits) ∧ mark ∈ ['e', 'E'] ∧
    sign ∈ [[], ['+'], ['-']] ∧ IsDigits digits

def IsMagnitude (text : List Char) : Prop :=
  ∃ whole fraction exponent, text = whole ++ (fraction ++ exponent) ∧
    IsWhole whole ∧ IsFraction fraction ∧ IsExponent exponent

def IsNumber (text : List Char) : Prop :=
  ∃ sign magnitude, text = sign ++ magnitude ∧ sign ∈ [[], ['-']] ∧ IsMagnitude magnitude

/-- A text between quotes, which are closed where the text ends and nowhere else. -/
def IsQuoted (text : List Char) (content : String) : Prop :=
  ∃ body, text = '"' :: body ∧ textContent body = .ok content.toList ∧
    textLength body = .ok body.length

mutual

/-- The text denotes the value. No value here is an array or a truth value. -/
inductive Denotes : List Char → Json → Prop
  | null : Denotes ['n', 'u', 'l', 'l'] .null
  | number {text : String} (h : IsNumber text.toList) : Denotes text.toList (.number text)
  | string {text : List Char} {content : String} (h : IsQuoted text content) :
    Denotes text (.string content)
  | object {text : List Char} {members : Members} (h : DenotesMembers text members) :
    Denotes ('\x7b' :: (text ++ ['\x7d'])) (.object members)

/-- The text between the brackets of an object denotes the members. -/
inductive DenotesMembers : List Char → Members → Prop
  | none {blanks : List Char} (h : ∀ c ∈ blanks, isBlank c) : DenotesMembers blanks .nil
  | one {text : List Char} {key : String} {value : Json} (h : DenotesMember text key value) :
    DenotesMembers text (.cons key value .nil)
  | more {text rest : List Char} {key next : String} {value value' : Json} {members : Members}
    (h : DenotesMember text key value) (hrest : DenotesMembers rest (.cons next value' members)) :
    DenotesMembers (text ++ ',' :: rest) (.cons key value (.cons next value' members))

/-- The text denotes the one member. -/
inductive DenotesMember : List Char → String → Json → Prop
  | mk {front keyText gap gap' text back : List Char} {key : String} {value : Json}
    (hblanks : ∀ c ∈ front ++ gap ++ gap' ++ back, isBlank c) (hkey : IsQuoted keyText key)
    (hvalue : Denotes text value) :
    DenotesMember (front ++ (keyText ++ (gap ++ ':' :: (gap' ++ (text ++ back))))) key value

end

/-! ### Written texts -/

/-- The text of a value whose first line starts at the given level. -/
def valueText (level : Nat) (value : Json) : String :=
  String.join (value.pieces level [])

/-- The text of members on lines at the given level. -/
def membersText (level : Nat) (members : Members) : String :=
  String.join (memberPieces level [] members)

mutual

/-- The pieces that follow a value have no part in its text. -/
theorem join_pieces (level : Nat) (rest : List String) : ∀ value : Json,
    String.join (value.pieces level rest) = valueText level value ++ String.join rest
  | .null => by simp [valueText, pieces]
  | .number text => by simp [valueText, pieces]
  | .string text => by simp [valueText, pieces]
  | .object .nil => by simp [valueText, pieces]
  | .object (.cons key value members) => by
    rw [valueText, pieces, pieces, String.join_cons, String.join_cons, join_memberPieces,
      join_memberPieces]
    simp [String.append_assoc]

theorem join_memberPieces (level : Nat) (rest : List String) : ∀ members : Members,
    String.join (memberPieces level rest members) = membersText level members ++ String.join rest
  | .nil => by simp [membersText, memberPieces]
  | .cons key value .nil => by
    simp only [membersText, memberPieces, String.join_cons]
    rw [join_pieces, join_pieces]
    simp [String.append_assoc]
  | .cons key value (.cons next value' members) => by
    simp only [membersText, memberPieces, String.join_cons]
    rw [join_pieces, join_pieces, String.join_cons, String.join_cons, join_memberPieces,
      join_memberPieces]
    simp [String.append_assoc]

end

lemma valueText_object (level : Nat) (key : String) (value : Json) (members : Members) :
    valueText level (.object (.cons key value members)) =
      "\x7b\n" ++ membersText (level + 1) (.cons key value members) ++ "\n" ++ margin level ++
        "\x7d" := by
  rw [valueText, pieces, String.join_cons, join_memberPieces]
  simp [String.append_assoc]

lemma membersText_one (level : Nat) (key : String) (value : Json) :
    membersText level (.cons key value .nil) =
      margin level ++ quote key ++ ": " ++ valueText level value := by
  rw [membersText, memberPieces, String.join_cons, String.join_cons, String.join_cons, join_pieces]
  simp [String.append_assoc]

lemma membersText_more (level : Nat) (key next : String) (value value' : Json)
    (members : Members) :
    membersText level (.cons key value (.cons next value' members)) =
      margin level ++ quote key ++ ": " ++ valueText level value ++ ",\n" ++
        membersText level (.cons next value' members) := by
  rw [membersText, memberPieces, String.join_cons, String.join_cons, String.join_cons, join_pieces,
    String.join_cons, join_memberPieces]
  simp [String.append_assoc]

/-! ### Written values denote themselves -/

lemma isQuoted_quote (s : String) : IsQuoted (quote s).toList s := by
  refine ⟨quotedBody s.toList ++ ['"'], quote_toList s, textContent_quotedBody s.toList [], ?_⟩
  rw [List.length_append, List.length_singleton]
  exact textLength_quotedBody s.toList []

lemma isBlank_margin (level : Nat) : ∀ c ∈ (margin level).toList, isBlank c := by
  intro c hc
  rw [margin, String.toList_ofList] at hc
  rw [List.eq_of_mem_replicate hc]
  rfl

/-- A member on a line of its own, with blanks on either side. -/
lemma denotesMember_line {level : Nat} {front back : List Char} {key : String} {value : Json}
    {text : String} (hfront : ∀ c ∈ front, isBlank c) (hback : ∀ c ∈ back, isBlank c)
    (hvalue : Denotes text.toList value) :
    DenotesMember (front ++ ((margin level ++ quote key ++ ": " ++ text).toList ++ back)) key
      value := by
  have hblanks : ∀ c ∈ (front ++ (margin level).toList) ++ [] ++ [' '] ++ back, isBlank c := by
    have hmargin := isBlank_margin level
    have hgap : isBlank ' ' := rfl
    simp only [List.forall_mem_append, List.forall_mem_singleton]
    exact ⟨⟨⟨⟨hfront, hmargin⟩, by simp⟩, hgap⟩, hback⟩
  have hline := DenotesMember.mk hblanks (isQuoted_quote key) hvalue
  simpa using hline

mutual

/-- All numbers in the value have the form of numbers. -/
def ProperNumbers : Json → Prop
  | .number text => IsNumber text.toList
  | .null | .string _ => True
  | .object members => ProperMembers members

def ProperMembers : Members → Prop
  | .nil => True
  | .cons _ value rest => ProperNumbers value ∧ ProperMembers rest

end

mutual

/-- The text of a value denotes the value. -/
theorem denotes_valueText (level : Nat) : ∀ value : Json, ProperNumbers value →
    Denotes (valueText level value).toList value
  | .null, _ => by
    have htext : (valueText level .null).toList = ['n', 'u', 'l', 'l'] := by
      simp [valueText, pieces]
    rw [htext]
    exact .null
  | .number text, h => by
    have htext : valueText level (.number text) = text := by simp [valueText, pieces]
    rw [htext]
    exact .number h
  | .string text, _ => by
    have htext : valueText level (.string text) = quote text := by simp [valueText, pieces]
    rw [htext]
    exact .string (isQuoted_quote text)
  | .object .nil, _ => by
    have htext : (valueText level (.object .nil)).toList = '\x7b' :: ([] ++ ['\x7d']) := by
      simp [valueText, pieces]
    rw [htext]
    exact .object (.none (by simp))
  | .object (.cons key value members), h => by
    have hclosing : ∀ c ∈ '\n' :: (margin level).toList, isBlank c :=
      List.forall_mem_cons.mpr ⟨rfl, isBlank_margin level⟩
    have hmembers := denotes_membersText (level + 1) ['\n'] ('\n' :: (margin level).toList)
      (by simp [isBlank]) hclosing (.cons key value members) h
    have hobject := Denotes.object hmembers
    rw [valueText_object]
    simpa using hobject

/-- The text of members denotes them, with blanks on either side. -/
theorem denotes_membersText (level : Nat) (front back : List Char)
    (hfront : ∀ c ∈ front, isBlank c) (hback : ∀ c ∈ back, isBlank c) :
    ∀ members : Members, ProperMembers members →
      DenotesMembers (front ++ ((membersText level members).toList ++ back)) members
  | .nil, _ => by
    have htext : membersText level .nil = "" := by simp [membersText, memberPieces]
    rw [htext]
    exact .none (List.forall_mem_append.mpr ⟨hfront, hback⟩)
  | .cons key value .nil, h => by
    rw [membersText_one]
    exact .one (denotesMember_line hfront hback (denotes_valueText level value h.1))
  | .cons key value (.cons next value' members), h => by
    have hfirst : DenotesMember
        (front ++ ((margin level ++ quote key ++ ": " ++ valueText level value).toList ++ [])) key
          value :=
      denotesMember_line hfront (by simp) (denotes_valueText level value h.1)
    have hrest := denotes_membersText level ['\n'] back (by simp [isBlank]) hback
      (.cons next value' members) h.2
    rw [membersText_more]
    simpa using DenotesMembers.more hfirst hrest

end

end Reckoner.Proofs
