import Reckoner.Number.Arithmetic
import Reckoner.Number.Literal
import Reckoner.Text.Blank
/-!
Tokens of a JSON text. Texts and numbers that are skipped over have to satisfy less than those that
are read, so a token says both what is wrong with it when read and, by a fault after it, what is
wrong with it in any case.
-/
namespace Reckoner.Json

/-- Why a JSON text is refused: it is malformed, it ends early, or it is well-formed but not of
the form that is read. -/
inductive Fault where
  | syntactic
  | ended
  | data
deriving DecidableEq, Repr

inductive Bracket where
  | brace
  | square
deriving DecidableEq, Repr

inductive Token where
  | opening (bracket : Bracket)
  | closing (bracket : Bracket)
  | colon
  | comma
  /-- One of `null`, `true` and `false`, possibly cut short or misspelt. -/
  | word (isNull : Bool) (spelling : Except Fault Unit)
  /-- A number, with the fault of reading it where something else is wanted. -/
  | number (fault : Fault)
  | text (content : Except Fault String)
  | wrong (fault : Fault)

def isBlank (c : Char) : Bool :=
  c == ' ' || c == '\t' || c == '\n' || c == '\r'

/-- Checks the letters of a word. -/
def spell : List Char → List Char → Except Fault Unit
  | [], _ => .ok ()
  | _ :: _, [] => .error .ended
  | letter :: letters, c :: rest => if c == letter then spell letters rest else .error .syntactic

def hexDigit? (c : Char) : Option Nat :=
  if '0' ≤ c ∧ c ≤ '9' then some (c.toNat - '0'.toNat)
  else if 'a' ≤ c ∧ c ≤ 'f' then some (c.toNat - 'a'.toNat + 10)
  else if 'A' ≤ c ∧ c ≤ 'F' then some (c.toNat - 'A'.toNat + 10)
  else none

def hexUnit? (a b c d : Char) : Option Nat := do
  return ((← hexDigit? a) * 16 + (← hexDigit? b)) * 256 + (← hexDigit? c) * 16 + (← hexDigit? d)

/-- The fault of an escape without four hexadecimal digits. The text has ended only if fewer than
four bytes are left. -/
def shortEscape (rest : List Char) : Fault :=
  if Text.byteLength rest < 4 then .ended else .syntactic

/-- The character that a one-letter escape stands for. -/
def namedEscape? (c : Char) : Option Char :=
  if c == '"' then some '"'
  else if c == '\\' then some '\\'
  else if c == '/' then some '/'
  else if c == 'b' then some '\x08'
  else if c == 'f' then some '\x0c'
  else if c == 'n' then some '\n'
  else if c == 'r' then some '\r'
  else if c == 't' then some '\t'
  else none

/-- Number of characters to the closing quote and with it, for a text that is skipped over: code
units may stand unpaired in it. -/
def textLength : List Char → Except Fault Nat
  | [] => .error .ended
  | '"' :: _ => .ok 1
  | ['\\'] => .error .ended
  | '\\' :: 'u' :: a :: b :: c :: d :: rest =>
    match hexUnit? a b c d with
    | some _ => (textLength rest).map (· + 6)
    | none => .error (shortEscape (a :: b :: c :: d :: rest))
  | '\\' :: e :: rest =>
    if e == 'u' then .error (shortEscape rest)
    else if (namedEscape? e).isSome then (textLength rest).map (· + 2)
    else .error .syntactic
  | c :: rest => if c.toNat < 0x20 then .error .syntactic else (textLength rest).map (· + 1)

/-- A leading code unit of a pair. -/
def isLeading (unit : Nat) : Bool :=
  0xD800 ≤ unit && unit ≤ 0xDBFF

/-- A trailing code unit of a pair. -/
def isTrailing (unit : Nat) : Bool :=
  0xDC00 ≤ unit && unit ≤ 0xDFFF

def pair (leading trailing : Nat) : Char :=
  Char.ofNat ((leading - 0xD800) * 0x400 + (trailing - 0xDC00) + 0x10000)

/-- What is wrong when no escaped code unit follows a leading one. -/
def unpaired : List Char → Fault
  | [] => .ended
  | ['\\'] => .ended
  | '\\' :: 'u' :: rest => shortEscape rest
  | _ => .syntactic

/-- The characters up to the closing quote, with escapes resolved. -/
def textContent : List Char → Except Fault (List Char)
  | [] => .error .ended
  | '"' :: _ => .ok []
  | ['\\'] => .error .ended
  | '\\' :: 'u' :: a :: b :: c :: d :: rest =>
    match hexUnit? a b c d with
    | none => .error (shortEscape (a :: b :: c :: d :: rest))
    | some unit =>
      if isTrailing unit then .error .syntactic
      else if isLeading unit then
        match rest with
        | '\\' :: 'u' :: a' :: b' :: c' :: d' :: rest' =>
          match hexUnit? a' b' c' d' with
          | none => .error (shortEscape (a' :: b' :: c' :: d' :: rest'))
          | some unit' =>
            if isTrailing unit' then (textContent rest').map (pair unit unit' :: ·)
            else .error .syntactic
        | other => .error (unpaired other)
      else (textContent rest).map (Char.ofNat unit :: ·)
  | '\\' :: e :: rest =>
    if e == 'u' then .error (shortEscape rest)
    else
      match namedEscape? e with
      | some c => (textContent rest).map (c :: ·)
      | none => .error .syntactic
  | c :: rest => if c.toNat < 0x20 then .error .syntactic else (textContent rest).map (c :: ·)

def digitRun (s : List Char) : Nat :=
  (s.takeWhile Char.isDigit).length

/-- Number of characters of an exponent, its letter included; nothing where there is none. -/
def exponentLength (s : List Char) : Except Fault Nat :=
  match s with
  | c :: rest =>
    if c == 'e' || c == 'E' then
      let sign := match rest with
        | '+' :: _ | '-' :: _ => 1
        | _ => 0
      let digits := digitRun (rest.drop sign)
      if digits = 0 then .error .syntactic else .ok (1 + sign + digits)
    else .ok 0
  | [] => .ok 0

/-- Number of characters of a fraction, its point included; nothing where there is none. -/
def fractionLength (s : List Char) : Except Fault Nat :=
  match s with
  | '.' :: rest => if digitRun rest = 0 then .error .syntactic else .ok (1 + digitRun rest)
  | _ => .ok 0

/-- Number of characters of a number without its sign. A leading zero stands alone. -/
def numberLength (s : List Char) : Except Fault Nat := do
  let whole := digitRun s
  if whole = 0 ∨ (s.head? = some '0' ∧ 1 < whole) then throw .syntactic
  let fraction ← fractionLength (s.drop whole)
  let exponent ← exponentLength (s.drop (whole + fraction))
  return whole + fraction + exponent

/-- Adds digits to a significand until the next one would need more than 64 bits. Gives the
significand and the digits that are left over. -/
def absorb (significand : Nat) : List Char → Nat × List Char
  | [] => (significand, [])
  | c :: rest =>
    let next := significand * 10 + Literal.digitValue c
    if next < 1 <<< 64 then absorb next rest else (significand, c :: rest)

/-- Whether `significand * 10 ^ exponent` is beyond every finite number. Both factors are rounded
before the product is. -/
def outOfRange (significand : Nat) (exponent : Int) : Bool :=
  significand != 0 && 0 ≤ exponent &&
    (308 < exponent ||
      (Binary64.nearest significand 1 * Binary64.nearest (Nat.pow 10 exponent.toNat) 1).isInfinite)

def rangeFault (significand : Nat) (exponent : Int) : Fault :=
  if outOfRange significand exponent then .syntactic else .data

/-- What is wrong with an exponent, or with the number that it ends. -/
def exponentFault (significand : Nat) (exponent : Int) (s : List Char) : Fault :=
  match s with
  | c :: rest =>
    if c == 'e' || c == 'E' then
      let negative := rest.head? == some '-'
      let body := if negative || rest.head? == some '+' then rest.drop 1 else rest
      let digits := body.takeWhile Char.isDigit
      if digits.isEmpty then (if body.isEmpty then .ended else .syntactic)
      else
        let written := Literal.digitsValue digits
        if 1 <<< 31 ≤ written then (if significand != 0 && !negative then .syntactic else .data)
        else rangeFault significand (if negative then exponent - written else exponent + written)
    else rangeFault significand exponent
  | [] => rangeFault significand exponent

/-- What is wrong with a number that is read where something else is wanted: its form, its range,
or else only that it is a number. -/
def numberFault (s : List Char) : Fault :=
  let whole := s.takeWhile Char.isDigit
  let afterWhole := s.drop whole.length
  if whole.isEmpty then (if s.isEmpty then .ended else .syntactic)
  else if whole.head? == some '0' && 1 < whole.length then .syntactic
  else
    let (significand, dropped) := absorb 0 whole
    let exponent : Int := dropped.length
    match afterWhole with
    | '.' :: rest =>
      let digits := rest.takeWhile Char.isDigit
      if digits.isEmpty then (if rest.isEmpty then .ended else .syntactic)
      else
        let (significand', left) := absorb significand digits
        let used : Int := (digits.length - left.length : Nat)
        exponentFault significand' (exponent - used) (rest.drop digits.length)
    | _ => exponentFault significand exponent afterWhole

/-- Tokens of a text. After a fault there are none. -/
def tokens : List Char → List Token
  | [] => []
  | c :: rest =>
    if isBlank c then tokens rest
    else if c == '\x7b' then .opening .brace :: tokens rest
    else if c == '\x7d' then .closing .brace :: tokens rest
    else if c == '[' then .opening .square :: tokens rest
    else if c == ']' then .closing .square :: tokens rest
    else if c == ':' then .colon :: tokens rest
    else if c == ',' then .comma :: tokens rest
    else if c == 'n' then .word true (spell ['u', 'l', 'l'] rest) :: tokens (rest.drop 3)
    else if c == 't' then .word false (spell ['r', 'u', 'e'] rest) :: tokens (rest.drop 3)
    else if c == 'f' then .word false (spell ['a', 'l', 's', 'e'] rest) :: tokens (rest.drop 4)
    else if c == '"' then
      let content := (textContent rest).map String.ofList
      match textLength rest with
      | .ok n => .text content :: tokens (rest.drop n)
      | .error fault => [.text content, .wrong fault]
    else if c == '-' then
      match numberLength rest with
      | .ok n => .number (numberFault rest) :: tokens (rest.drop n)
      | .error fault => [.number (numberFault rest), .wrong fault]
    else if c.isDigit then
      match numberLength (c :: rest) with
      | .ok n => .number (numberFault (c :: rest)) :: tokens (rest.drop (n - 1))
      | .error fault => [.number (numberFault (c :: rest)), .wrong fault]
    else [.wrong .syntactic]
termination_by s => s.length
decreasing_by
  all_goals simp only [List.length_drop, List.length_cons]; omega

end Reckoner.Json
