import Mathlib.Tactic
import Reckoner.Expression
import Reckoner.Proofs.Drawings
import Reckoner.Proofs.JsonNumbers
import Reckoner.Proofs.JsonTrees
import Reckoner.Proofs.JsonUnambiguity

/-!
# Outcomes as JSON

The text of an outcome is one JSON object with the members that the outcome has. Its tree goes
through a value whose members are ordered by key, and still has the text that the tree has by
itself, one level further in; so it is read back as the tree that is drawn.
-/

namespace Reckoner.Proofs
open Json Reckoner.Tree

/-! ### Trees as values -/

/-- Members in the order of a list. -/
def membersOf (members : List (String × Json)) : Members :=
  members.foldr (fun m rest => .cons m.1 m.2 rest) .nil

/-- The members of a node in the order of their declaration. -/
def nodeMembers : Tree → List (String × Json)
  | leaf label => [("label", .string label)]
  | left label child => [("label", .string label), ("left", child.toJson)]
  | right label child => [("label", .string label), ("right", child.toJson)]
  | both label l r => [("label", .string label), ("left", l.toJson), ("right", r.toJson)]

lemma insert_behind {key first : String} (h : ¬ key < first) (hne : key ≠ first)
    (value value' : Json) (rest : Members) :
    (Members.cons first value' rest).insert key value =
      .cons first value' (rest.insert key value) := by
  rw [Members.insert, if_neg h, if_neg hne]

lemma insert_nil (key : String) (value : Json) :
    Members.nil.insert key value = .cons key value .nil := by
  rw [Members.insert]

/-- The order of the declaration is the alphabetical one. -/
lemma toJson_eq (t : Tree) : t.toJson = .object (membersOf (nodeMembers t)) := by
  have hleft : ¬ "left" < "label" := by decide
  have hright : ¬ "right" < "label" := by decide
  have hboth : ¬ "right" < "left" := by decide
  cases t with
  | leaf label =>
    simp only [toJson, ofMembers, List.foldl, insert_nil, membersOf, nodeMembers, List.foldr]
  | left label child =>
    simp only [toJson, ofMembers, List.foldl, insert_nil, insert_behind hleft (by decide),
      membersOf, nodeMembers, List.foldr]
  | right label child =>
    simp only [toJson, ofMembers, List.foldl, insert_nil, insert_behind hright (by decide),
      membersOf, nodeMembers, List.foldr]
  | both label l r =>
    simp only [toJson, ofMembers, List.foldl, insert_nil, insert_behind hleft (by decide),
      insert_behind hright (by decide), insert_behind hboth (by decide), membersOf, nodeMembers,
      List.foldr]

lemma memberLine_eq {key : String} (hkey : quote key = "\"" ++ key ++ "\"") (level : Nat)
    (value : String) : memberLine level key value = margin level ++ quote key ++ ": " ++ value := by
  rw [memberLine, hkey]
  simp [String.append_assoc]

/-- Members whose keys need no escapes stand on the lines of members. -/
lemma membersText_membersOf (level : Nat) (first : String × Json) (rest : List (String × Json))
    (hkeys : ∀ m ∈ first :: rest, quote m.1 = "\"" ++ m.1 ++ "\"") :
    membersText level (membersOf (first :: rest)) = ",\n".intercalate
      ((first :: rest).map fun m => memberLine level m.1 (valueText level m.2)) := by
  obtain ⟨hfirst, hrest⟩ := List.forall_mem_cons.mp hkeys
  induction rest generalizing first with
  | nil =>
    rw [List.map_singleton, String.intercalate_singleton, memberLine_eq hfirst]
    exact membersText_one level first.1 first.2
  | cons next rest ih =>
    obtain ⟨hnext, hafter⟩ := List.forall_mem_cons.mp hrest
    have hlines := ih next hrest hnext hafter
    rw [List.map_cons] at hlines ⊢
    rw [List.map_cons, String.intercalate_cons_cons, ← hlines, memberLine_eq hfirst]
    exact membersText_more level first.1 next.1 first.2 next.2 (membersOf rest)

lemma valueText_string (level : Nat) (text : String) :
    valueText level (.string text) = quote text := by
  simp [valueText, pieces]

/-- A node has the text of its members. -/
lemma valueText_toJson_eq (level : Nat) (t : Tree) : valueText level t.toJson =
    nodeText level ((nodeMembers t).map fun m =>
      memberLine (level + 1) m.1 (valueText (level + 1) m.2)) := by
  have hkeys : ∀ m ∈ nodeMembers t, quote m.1 = "\"" ++ m.1 ++ "\"" := by
    have hlabel : quote "label" = "\"" ++ "label" ++ "\"" := by decide
    have hleft : quote "left" = "\"" ++ "left" ++ "\"" := by decide
    have hright : quote "right" = "\"" ++ "right" ++ "\"" := by decide
    cases t <;> simp [nodeMembers, hlabel, hleft, hright]
  obtain ⟨first, rest, hmembers⟩ : ∃ first rest, nodeMembers t = first :: rest := by
    cases t <;> exact ⟨_, _, rfl⟩
  rw [hmembers] at hkeys
  rw [toJson_eq, nodeText, hmembers, ← membersText_membersOf (level + 1) first rest hkeys]
  exact valueText_object level first.1 first.2 (membersOf rest)

/-- A tree has the same text by way of a value. -/
theorem valueText_toJson (level : Nat) (t : Tree) :
    valueText level t.toJson = t.writeJson level := by
  induction t generalizing level with
  | leaf label =>
    rw [valueText_toJson_eq, nodeMembers, List.map_singleton, valueText_string, writeJson]
  | left label child ih | right label child ih =>
    rw [valueText_toJson_eq, nodeMembers, List.map_cons, List.map_singleton, valueText_string, ih,
      writeJson]
  | both label l r ihl ihr =>
    rw [valueText_toJson_eq, nodeMembers, List.map_cons, List.map_cons, List.map_singleton,
      valueText_string, ihl, ihr, writeJson]

lemma properNumbers_toJson (t : Tree) : ProperNumbers t.toJson := by
  induction t with
  | leaf label =>
    rw [toJson_eq]
    exact ⟨trivial, trivial⟩
  | left label child ih | right label child ih =>
    rw [toJson_eq]
    exact ⟨trivial, ih, trivial⟩
  | both label l r ihl ihr =>
    rw [toJson_eq]
    exact ⟨trivial, ihl, ihr, trivial⟩

/-! ### Indentation -/

/-- A character, and two blanks behind it if it ends a line. -/
def indentedChar (c : Char) : List Char :=
  if c = '\n' then ['\n', ' ', ' '] else [c]

/-- A text with all its lines but the first two blanks further in. -/
def indented (s : String) : String :=
  String.ofList (s.toList.flatMap indentedChar)

lemma indented_append (s s' : String) : indented (s ++ s') = indented s ++ indented s' := by
  rw [indented, String.toList_append, List.flatMap_append, String.ofList_append]
  rfl

lemma indented_of_oneLine {s : String} (h : OneLine s) : indented s = s := by
  have hchars : ∀ chars : List Char, '\n' ∉ chars → chars.flatMap indentedChar = chars := by
    intro chars hchars
    induction chars with
    | nil => rfl
    | cons c rest ih =>
      have hc : c ≠ '\n' := fun hc => hchars (hc ▸ List.mem_cons_self)
      rw [List.flatMap_cons, ih (List.not_mem_of_not_mem_cons hchars), indentedChar, if_neg hc,
        List.singleton_append]
  rw [indented, hchars s.toList h, String.ofList_toList]

lemma oneLine_escaped (c : Char) : OneLine (escaped c) := by
  have hcontrols : ∀ n < 32,
      OneLine ("\\u00" ++ (if n < 0x10 then "0" else "1") ++ Text.hex (n % 16)) := by decide
  unfold escaped
  simp only [beq_iff_eq]
  split_ifs with hquote hslash hback hfeed hline hreturn htab hcontrol hlow
  any_goals decide
  · have hlines := hcontrols c.toNat hcontrol
    rwa [if_pos hlow] at hlines
  · have hlines := hcontrols c.toNat hcontrol
    rwa [if_neg hlow] at hlines
  · change '\n' ∉ (String.singleton c).toList
    rw [String.toList_singleton, List.mem_singleton]
    exact Ne.symm hline

lemma oneLine_quote (s : String) : OneLine (quote s) := by
  rw [OneLine, quote_toList, List.mem_cons, List.mem_append, quotedBody, List.mem_flatMap]
  rintro (h | ⟨c, -, h⟩ | h)
  · exact absurd h (by decide)
  · exact oneLine_escaped c h
  · exact absurd h (by decide)

lemma margin_succ (level : Nat) : margin (level + 1) = "  " ++ margin level := by
  rw [margin, margin, Nat.mul_succ, Nat.add_comm, List.replicate_add, String.ofList_append]
  rfl

lemma oneLine_margin (level : Nat) : OneLine (margin level) := by
  intro hmem
  rw [margin, String.toList_ofList] at hmem
  exact absurd (List.eq_of_mem_replicate hmem) (by decide)

/-- A member's line begins with the blanks of the level. -/
lemma indented_memberLine {level : Nat} {key : String} (hkey : OneLine key) (value : String) :
    "  " ++ indented (memberLine level key value) =
      memberLine (level + 1) key (indented value) := by
  have hquote : indented "\"" = "\"" := by decide
  have hcolon : indented "\": " = "\": " := by decide
  rw [memberLine, memberLine, indented_append, indented_append, indented_append, indented_append,
    indented_of_oneLine (oneLine_margin level), indented_of_oneLine hkey, hquote, hcolon,
    margin_succ]
  simp only [String.append_assoc]

lemma indented_lines (first : String) (rest : List String) :
    "  " ++ indented (",\n".intercalate (first :: rest)) =
      ",\n".intercalate ((first :: rest).map fun line => "  " ++ indented line) := by
  have hcomma : indented ",\n" = ",\n" ++ "  " := by decide
  induction rest generalizing first with
  | nil => rw [List.map_singleton, String.intercalate_singleton, String.intercalate_singleton]
  | cons next rest ih =>
    have hrest := ih next
    rw [List.map_cons] at hrest ⊢
    rw [List.map_cons, String.intercalate_cons_cons, String.intercalate_cons_cons, ← hrest,
      indented_append, indented_append, hcomma]
    simp only [String.append_assoc]

/-- One level further in, a node has its lines one level further in. -/
lemma indented_nodeText (level : Nat) (first : String) (rest : List String) :
    indented (nodeText level (first :: rest)) =
      nodeText (level + 1) ((first :: rest).map fun line => "  " ++ indented line) := by
  have hopening : indented "\x7b\n" = "\x7b\n" ++ "  " := by decide
  have hbreak : indented "\n" = "\n" ++ "  " := by decide
  have hclosing : indented "\x7d" = "\x7d" := by decide
  rw [nodeText, nodeText, indented_append, indented_append, indented_append, indented_append,
    hopening, hbreak, hclosing, indented_of_oneLine (oneLine_margin level), margin_succ,
    ← indented_lines]
  simp only [String.append_assoc]

theorem writeJson_succ (level : Nat) (t : Tree) :
    t.writeJson (level + 1) = indented (t.writeJson level) := by
  have hlabel : OneLine "label" := by decide
  have hleft : OneLine "left" := by decide
  have hright : OneLine "right" := by decide
  have hquote : ∀ label, indented (quote label) = quote label :=
    fun label => indented_of_oneLine (oneLine_quote label)
  induction t generalizing level with
  | leaf label =>
    rw [writeJson, writeJson, indented_nodeText, List.map_singleton, indented_memberLine hlabel,
      hquote]
  | left label child ih =>
    rw [writeJson, writeJson, indented_nodeText, List.map_cons, List.map_singleton,
      indented_memberLine hlabel, indented_memberLine hleft, hquote, ih]
  | right label child ih =>
    rw [writeJson, writeJson, indented_nodeText, List.map_cons, List.map_singleton,
      indented_memberLine hlabel, indented_memberLine hright, hquote, ih]
  | both label l r ihl ihr =>
    rw [writeJson, writeJson, indented_nodeText, List.map_cons, List.map_cons, List.map_singleton,
      indented_memberLine hlabel, indented_memberLine hleft, indented_memberLine hright, hquote,
      ihl, ihr]

/-! ### Outcomes -/

lemma toJson_error (fault : Fault) : Outcome.toJson (.error fault) =
    .object (membersOf [("error", .string fault.message)]) := by
  simp only [Outcome.toJson, ofMembers, List.foldl, insert_nil, membersOf, List.foldr]

/-- The tree comes first. -/
lemma toJson_ok (e : Evaluation) : Outcome.toJson (.ok e) =
    .object (membersOf [("tree", e.tree.toJson), ("value", Outcome.jsonNumber e.value)]) := by
  have htree : "tree" < "value" := by decide
  simp only [Outcome.toJson, ofMembers, List.foldl, Members.insert, if_pos htree, membersOf,
    List.foldr]

lemma properNumbers_jsonNumber (x : Binary64) : ProperNumbers (Outcome.jsonNumber x) := by
  unfold Outcome.jsonNumber
  split_ifs with h
  · trivial
  · rw [Bool.or_eq_true, not_or, Bool.not_eq_true, Bool.not_eq_true] at h
    exact isNumber_text .json h.1 h.2

lemma jsonNumber_eq_null_iff (x : Binary64) :
    Outcome.jsonNumber x = .null ↔ x.isNaN ∨ x.isInfinite := by
  unfold Outcome.jsonNumber
  split_ifs with h
  · simpa using h
  · simpa using h

/-- A number has one text at every level. -/
lemma valueText_jsonNumber (level : Nat) (x : Binary64) :
    valueText level (Outcome.jsonNumber x) = (Outcome.jsonNumber x).write := by
  unfold Outcome.jsonNumber
  split_ifs <;> simp [valueText, write, pieces]

lemma denotes_write {value : Json} (h : ProperNumbers value) : Denotes value.write.toList value :=
  denotes_valueText 0 value h

lemma render_json_ok (e : Evaluation) : Outcome.render .json (.ok e) =
    "\x7b\n  \"tree\": " ++ indented e.tree.jsonText ++ ",\n  \"value\": " ++
      (Outcome.jsonNumber e.value).write ++ "\n\x7d" := by
  have htree : margin 1 ++ quote "tree" = "  \"tree\"" := by decide
  have hvalue : margin 1 ++ quote "value" = "  \"value\"" := by decide
  have hmargin : margin 0 = "" := rfl
  have hfirst : "\x7b\n  \"tree\": " = "\x7b\n" ++ "  \"tree\": " := by decide
  have hsecond : ",\n  \"value\": " = ",\n" ++ "  \"value\": " := by decide
  have hlast : "\n\x7d" = "\n" ++ "\x7d" := by decide
  have hlines : membersText 1 (.cons "tree" e.tree.toJson
      (.cons "value" (Outcome.jsonNumber e.value) .nil)) =
        "  \"tree\": " ++ indented e.tree.jsonText ++ ",\n" ++
          ("  \"value\": " ++ (Outcome.jsonNumber e.value).write) := by
    rw [membersText_more, membersText_one, valueText_jsonNumber, valueText_toJson, writeJson_succ,
      htree, hvalue]
    rfl
  change valueText 0 (Outcome.toJson (.ok e)) = _
  rw [toJson_ok, membersOf, List.foldr, List.foldr, List.foldr, valueText_object, hlines, hmargin,
    hfirst, hsecond, hlast]
  simp only [String.append_assoc, String.empty_append]

/-- As JSON, a failure is an object with the message, and a success is an object with the tree and
the number, where infinite numbers and those that are none become `null`. The tree has its own JSON
text there, one level further in, and is read back from it as it is drawn, unless it is too deep to
be read. -/
theorem render_json_denotes :
    (∀ (fault : Fault) (value : Json), Denotes (Outcome.render .json (.error fault)).toList value ↔
      value = .object (membersOf [("error", .string fault.message)])) ∧
    ∀ e : Evaluation,
      let tree := indented e.tree.jsonText
      let number := Outcome.jsonNumber e.value
      Outcome.render .json (.ok e) =
        "\x7b\n  \"tree\": " ++ tree ++ ",\n  \"value\": " ++ number.write ++ "\n\x7d" ∧
      (∀ value, Denotes (Outcome.render .json (.ok e)).toList value ↔
        value = .object (membersOf [("tree", e.tree.toJson), ("value", number)])) ∧
      Denotes tree.toList e.tree.toJson ∧ Denotes number.write.toList number ∧
      (number = .null ↔ e.value.isNaN ∨ e.value.isInfinite) ∧
      Outcome.render .text (.ok e) = numberText e.value ++ "\n" ++ e.tree.draw ∧
      (e.tree.depth ≤ 127 → readTree tree = .ok e.tree) := by
  constructor
  · intro fault value
    have hproper : ProperNumbers (Outcome.toJson (.error fault)) := by
      rw [toJson_error]
      exact ⟨trivial, trivial⟩
    have hdenotes : Denotes (Outcome.render .json (.error fault)).toList
        (Outcome.toJson (.error fault)) := denotes_write hproper
    rw [hdenotes.iff, toJson_error]
  · intro e tree number
    have htree : tree = e.tree.writeJson 1 := (writeJson_succ 0 e.tree).symm
    have hproper : ProperNumbers (Outcome.toJson (.ok e)) := by
      rw [toJson_ok]
      exact ⟨properNumbers_toJson e.tree, properNumbers_jsonNumber e.value, trivial⟩
    have hdenotes : Denotes (Outcome.render .json (.ok e)).toList (Outcome.toJson (.ok e)) :=
      denotes_write hproper
    refine ⟨render_json_ok e, fun value => ?_, ?_,
      denotes_write (properNumbers_jsonNumber e.value), jsonNumber_eq_null_iff e.value, rfl,
      fun hdepth => ?_⟩
    · rw [hdenotes.iff, toJson_ok]
    · rw [htree, ← valueText_toJson]
      exact denotes_valueText 1 e.tree.toJson (properNumbers_toJson e.tree)
    · rw [htree, readTree_writeJson]
      exact if_pos hdepth

/-- The outcome of a division by zero. -/
def quotientByZero : Evaluation :=
  ⟨⟨0x7ff0000000000000⟩, both "/" (leaf "1.0") (leaf "0.0")⟩

theorem json_of_quotient :
    Outcome.render .json ((Expression.evaluate "1/0").runOn .off).1 =
        Outcome.render .json (.ok quotientByZero) ∧
      Outcome.render .json (.ok quotientByZero) =
        "\x7b
  \"tree\": \x7b
    \"label\": \"/\",
    \"left\": \x7b
      \"label\": \"1.0\"
    \x7d,
    \"right\": \x7b
      \"label\": \"0.0\"
    \x7d
  \x7d,
  \"value\": null
\x7d" ∧
      quotientByZero.tree.depth ≤ 127 ∧
      readTree (indented quotientByZero.tree.jsonText) = .ok quotientByZero.tree := by
  have hdepth : quotientByZero.tree.depth ≤ 127 := by
    rw [depth_eq_height]
    decide
  obtain ⟨htext, -, -, -, -, -, hread⟩ := render_json_denotes.2 quotientByZero
  exact ⟨by decide +kernel, htext.trans (by decide +kernel), hdepth, hread hdepth⟩

end Reckoner.Proofs
