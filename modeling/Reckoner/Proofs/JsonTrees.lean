import Mathlib.Tactic
import Reckoner.Json.Reader
import Reckoner.Proofs.JsonGrammar
import Reckoner.Proofs.TreeWalks
import Reckoner.Tree.Json

/-!
# Trees written and read back

The JSON text of a tree is cut into the tokens of its nodes, with no trace of the margins. A reader
that is fed the tokens of a subtree hands the subtree on to the node that it is a child of, unless
some node of it is nested too deep; so every tree comes back up to the limit, and is refused beyond.
-/

namespace Reckoner.Proofs
open Json Reckoner.Tree

/-! ### From the text to the tokens -/

/-- The tokens of a member of a node. -/
def member (key : String) (value : List Json.Token) : List Json.Token :=
  .text (.ok key) :: .colon :: value

/-- The tokens of a tree. -/
def treeTokens : Tree → List Json.Token
  | leaf label =>
    .opening .brace :: (member "label" [.text (.ok label)] ++ [.closing .brace])
  | left label child =>
    .opening .brace :: (member "label" [.text (.ok label)] ++
      .comma :: (member "left" (treeTokens child) ++ [.closing .brace]))
  | right label child =>
    .opening .brace :: (member "label" [.text (.ok label)] ++
      .comma :: (member "right" (treeTokens child) ++ [.closing .brace]))
  | both label l r =>
    .opening .brace :: (member "label" [.text (.ok label)] ++
      .comma :: (member "left" (treeTokens l) ++
        .comma :: (member "right" (treeTokens r) ++ [.closing .brace])))

lemma tokens_blanks {blanks : List Char} (h : ∀ c ∈ blanks, isBlank c = true) (rest : List Char) :
    tokens (blanks ++ rest) = tokens rest := by
  induction blanks with
  | nil => rfl
  | cons c blanks ih =>
    obtain ⟨hc, hblanks⟩ := List.forall_mem_cons.mp h
    rw [List.cons_append, tokens, if_pos hc]
    exact ih hblanks

lemma tokens_margin (level : Nat) (rest : List Char) :
    tokens ((margin level).toList ++ rest) = tokens rest :=
  tokens_blanks (isBlank_margin level) rest

lemma tokens_opening (rest : List Char) :
    tokens ('\x7b' :: '\n' :: rest) = .opening .brace :: tokens rest := by
  rw [tokens]
  simp [isBlank, tokens]

lemma tokens_closing (level : Nat) (rest : List Char) :
    tokens ('\n' :: ((margin level).toList ++ '\x7d' :: rest)) =
      .closing .brace :: tokens rest := by
  rw [tokens]
  simp [isBlank, tokens_margin, tokens]

lemma tokens_comma (rest : List Char) :
    tokens (',' :: '\n' :: rest) = .comma :: tokens rest := by
  rw [tokens]
  simp [isBlank, tokens]

lemma tokens_colon (rest : List Char) :
    tokens (':' :: ' ' :: rest) = .colon :: tokens rest := by
  rw [tokens]
  simp [isBlank, tokens]

/-- A key that needs no escapes is read as a quoted text. -/
lemma tokens_memberLine {level : Nat} {key : String} (hkey : quote key = "\"" ++ key ++ "\"")
    (value : String) (rest : List Char) :
    tokens ((memberLine level key value).toList ++ rest) =
      .text (.ok key) :: .colon :: tokens (value.toList ++ rest) := by
  have hline : (memberLine level key value).toList ++ rest =
      (margin level).toList ++ ((quote key).toList ++ ':' :: ' ' :: (value.toList ++ rest)) := by
    rw [hkey]
    simp [memberLine]
  rw [hline, tokens_margin, tokens_quote, tokens_colon]

lemma tokens_labelLine (level : Nat) (label : String) (rest : List Char) :
    tokens ((memberLine level "label" (quote label)).toList ++ rest) =
      member "label" [.text (.ok label)] ++ tokens rest := by
  rw [tokens_memberLine (by decide), tokens_quote]
  rfl

/-- A node's text is cut into brackets around what its lines are cut into. -/
lemma tokens_nodeText (level : Nat) (lines : List String) (rest : List Char) :
    tokens ((nodeText level lines).toList ++ rest) =
      .opening .brace :: tokens ((",\n".intercalate lines).toList ++
        '\n' :: ((margin level).toList ++ '\x7d' :: rest)) := by
  rw [← tokens_opening]
  simp [nodeText]

lemma tokens_two_lines (first second : String) (rest : List Char) :
    (",\n".intercalate [first, second]).toList ++ rest =
      first.toList ++ ',' :: '\n' :: (second.toList ++ rest) := by
  change (first ++ ",\n" ++ second).toList ++ rest = _
  simp

lemma tokens_three_lines (first second third : String) (rest : List Char) :
    (",\n".intercalate [first, second, third]).toList ++ rest =
      first.toList ++ ',' :: '\n' :: (second.toList ++ ',' :: '\n' :: (third.toList ++ rest)) := by
  change (first ++ ",\n" ++ second ++ ",\n" ++ third).toList ++ rest = _
  simp

/-- The text of a tree is cut into the tree's tokens, whatever follows it. -/
theorem tokens_writeJson (level : Nat) (t : Tree) (rest : List Char) :
    tokens ((t.writeJson level).toList ++ rest) = treeTokens t ++ tokens rest := by
  have hleft : quote "left" = "\"" ++ "left" ++ "\"" := by decide
  have hright : quote "right" = "\"" ++ "right" ++ "\"" := by decide
  induction t generalizing level rest with
  | leaf label =>
    rw [writeJson, tokens_nodeText, String.intercalate_singleton, tokens_labelLine, tokens_closing]
    simp only [treeTokens, List.cons_append, List.append_assoc, List.nil_append]
  | left label child ih =>
    rw [writeJson, tokens_nodeText, tokens_two_lines, tokens_labelLine, tokens_comma,
      tokens_memberLine hleft, ih, tokens_closing]
    simp only [treeTokens, member, List.cons_append, List.append_assoc, List.nil_append]
  | right label child ih =>
    rw [writeJson, tokens_nodeText, tokens_two_lines, tokens_labelLine, tokens_comma,
      tokens_memberLine hright, ih, tokens_closing]
    simp only [treeTokens, member, List.cons_append, List.append_assoc, List.nil_append]
  | both label l r ihl ihr =>
    rw [writeJson, tokens_nodeText, tokens_three_lines, tokens_labelLine, tokens_comma,
      tokens_memberLine hleft, ihl, tokens_comma, tokens_memberLine hright, ihr, tokens_closing]
    simp only [treeTokens, member, List.cons_append, List.append_assoc, List.nil_append]

/-! ### From the tokens to the tree -/

/-- The reader after the tokens. -/
def feed (r : Reader) (tokens : List Json.Token) : Except Json.Fault Reader :=
  tokens.foldlM Reader.token r

lemma feed_cons {r r' : Reader} {t : Json.Token} (h : r.token t = .ok r')
    (rest : List Json.Token) : feed r (t :: rest) = feed r' rest := by
  rw [feed, List.foldlM_cons, h]
  rfl

lemma feed_cons_error {r : Reader} {t : Json.Token} {fault : Json.Fault}
    (h : r.token t = .error fault) (rest : List Json.Token) :
    feed r (t :: rest) = .error fault := by
  rw [feed, List.foldlM_cons, h]
  rfl

/-- The reader wants a tree, as the whole text or as a child. -/
inductive WantsTree : Reader → Prop
  | root : WantsTree ⟨[], .root⟩
  | left (frame : Frame) (outer : List Frame) (h : frame.field = .left) :
    WantsTree ⟨frame :: outer, .value⟩
  | right (frame : Frame) (outer : List Frame) (h : frame.field = .right) :
    WantsTree ⟨frame :: outer, .value⟩

lemma WantsTree.token_opening {r : Reader} (h : WantsTree r) :
    r.token (.opening .brace) = Reader.openNode r.stack .brace := by
  cases h with
  | root => rfl
  | left frame outer h => simp only [Reader.token, Reader.takeValue, h, Reader.takeTree]
  | right frame outer h => simp only [Reader.token, Reader.takeValue, h, Reader.takeTree]

/-- The reader once a tree has been read inside the open nodes. -/
def handOn (t : Tree) : List Frame → Reader
  | [] => ⟨[], .nothing t⟩
  | frame :: outer => ⟨frame.setChild (some t) :: outer, .after⟩

/-- An open node whose label has been read. -/
def labelled (label : String) : Frame :=
  { bracket := .brace, fields := { label := some label } }

/-- A node is opened and its label is read, if it is not nested too deep. -/
lemma feed_label {r : Reader} (h : WantsTree r) (label : String) (rest : List Json.Token) :
    feed r (.opening .brace :: (member "label" [.text (.ok label)] ++ rest)) =
      if r.stack.length < Reader.depthLimit then feed ⟨labelled label :: r.stack, .after⟩ rest
      else .error .syntactic := by
  by_cases hdepth : r.stack.length < Reader.depthLimit
  · have hopen : r.token (.opening .brace) =
        .ok ⟨{ bracket := .brace } :: r.stack, .firstKey⟩ := by
      rw [h.token_opening, Reader.openNode, if_neg (not_le.mpr hdepth)]
    rw [if_pos hdepth, feed_cons hopen]
    rfl
  · have hopen : r.token (.opening .brace) = .error .syntactic := by
      rw [h.token_opening, Reader.openNode, if_pos (not_lt.mp hdepth)]
    rw [if_neg hdepth, feed_cons_error hopen]

/-- A node is closed and handed on. -/
lemma feed_closing {frame : Frame} {t : Tree} (hbracket : frame.bracket = .brace)
    (ht : frame.fields.tree = .ok t) (outer : List Frame) (rest : List Json.Token) :
    feed ⟨frame :: outer, .after⟩ (.closing .brace :: rest) = feed (handOn t outer) rest := by
  apply feed_cons
  simp only [Reader.token, Reader.takeAfter, hbracket, if_true, Reader.close, ht]
  cases outer <;> rfl

/-- The reader goes on to the next child of a node. -/
lemma feed_key {frame : Frame} {key : String} {field : Field} (hbracket : frame.bracket = .brace)
    (hkey : Field.ofKey key = field) (hnew : frame.fields.has field = false) (outer : List Frame)
    (value rest : List Json.Token) :
    feed ⟨frame :: outer, .after⟩ (.comma :: (member key value ++ rest)) =
      feed ⟨{ frame with field } :: outer, .value⟩ (value ++ rest) := by
  have hcomma : Reader.token ⟨frame :: outer, .after⟩ .comma = .ok ⟨frame :: outer, .key⟩ := by
    simp only [Reader.token, Reader.takeAfter, hbracket]
  have htext : Reader.token ⟨frame :: outer, .key⟩ (.text (.ok key)) =
      .ok ⟨{ frame with field } :: outer, .colon⟩ := by
    simp only [Reader.token, Reader.takeKey, hkey, hnew, Bool.false_eq_true, if_false]
  rw [feed_cons hcomma, member, List.cons_append, feed_cons htext, List.cons_append]
  exact feed_cons rfl _

/-- Wherever a reader wants a tree, it takes this one whole and hands it on, unless a node of it
would be nested too deep. -/
def TakenWhole (t : Tree) : Prop :=
  ∀ (r : Reader) (rest : List Json.Token), WantsTree r →
    feed r (treeTokens t ++ rest) =
      if r.stack.length + t.height ≤ Reader.depthLimit then feed (handOn t r.stack) rest
      else .error .syntactic

/-- A child is read into its node. -/
lemma TakenWhole.feed_child {t : Tree} (ht : TakenWhole t) {frame : Frame} {key : String}
    {field : Field} (hwants : ∀ outer, WantsTree ⟨{ frame with field } :: outer, .value⟩)
    (hbracket : frame.bracket = .brace) (hkey : Field.ofKey key = field)
    (hnew : frame.fields.has field = false) (outer : List Frame) (rest : List Json.Token) :
    feed ⟨frame :: outer, .after⟩ (.comma :: (member key (treeTokens t) ++ rest)) =
      if outer.length + 1 + t.height ≤ Reader.depthLimit then
        feed ⟨{ frame with field }.setChild (some t) :: outer, .after⟩ rest
      else .error .syntactic := by
  rw [feed_key hbracket hkey hnew, ht _ rest (hwants outer)]
  rfl

/-- A node and its only child fit if the child fits below the node. -/
lemma fits_child {outer height : Nat} :
    outer < Reader.depthLimit ∧ outer + 1 + height ≤ Reader.depthLimit ↔
      outer + (height + 1) ≤ Reader.depthLimit := by
  omega

theorem takenWhole (t : Tree) : TakenWhole t := by
  have hleft : Field.ofKey "left" = .left := by decide
  have hright : Field.ofKey "right" = .right := by decide
  induction t with
  | leaf label =>
    intro r rest h
    simp only [treeTokens, List.cons_append, List.append_assoc, List.nil_append]
    rw [feed_label h, feed_closing rfl rfl]
    simp only [height, Nat.succ_le_iff]
    rfl
  | left label child ih =>
    intro r rest h
    simp only [treeTokens, List.cons_append, List.append_assoc, List.nil_append]
    -- the depth is tested once for the node and once for the child, which comes to one test
    rw [feed_label h, ih.feed_child (fun _ => .left _ _ rfl) rfl hleft rfl, feed_closing rfl rfl,
      ← ite_and, if_congr fits_child rfl rfl]
    rfl
  | right label child ih =>
    intro r rest h
    simp only [treeTokens, List.cons_append, List.append_assoc, List.nil_append]
    rw [feed_label h, ih.feed_child (fun _ => .right _ _ rfl) rfl hright rfl, feed_closing rfl rfl,
      ← ite_and, if_congr fits_child rfl rfl]
    rfl
  | both label l r ihl ihr =>
    intro reader rest h
    have hfits : (reader.stack.length < Reader.depthLimit ∧
        reader.stack.length + 1 + l.height ≤ Reader.depthLimit) ∧
          reader.stack.length + 1 + r.height ≤ Reader.depthLimit ↔
            reader.stack.length + (both label l r).height ≤ Reader.depthLimit := by
      simp only [height]
      omega
    simp only [treeTokens, List.cons_append, List.append_assoc, List.nil_append]
    rw [feed_label h, ihl.feed_child (fun _ => .left _ _ rfl) rfl hleft rfl,
      ihr.feed_child (fun _ => .right _ _ rfl) rfl hright rfl, feed_closing rfl rfl,
      ← ite_and, ← ite_and, if_congr hfits rfl rfl]
    rfl

/-! ### There and back -/

/-- The level at which a tree is written does not matter to the reader. -/
lemma readTree_writeJson (level : Nat) (t : Tree) : readTree (t.writeJson level) =
    if t.depth ≤ Reader.depthLimit then .ok t else .error .syntactic := by
  have htokens := tokens_writeJson level t []
  simp only [List.append_nil, tokens] at htokens
  have htaken := takenWhole t {} [] .root
  rw [List.append_nil] at htaken
  rw [readTree, htokens]
  change (feed {} (treeTokens t) >>= fun reader => reader.finish) = _
  rw [htaken, depth_eq_height, List.length_nil, Nat.zero_add]
  split_ifs <;> rfl

lemma readTree_jsonText_eq (t : Tree) :
    readTree t.jsonText = if t.depth ≤ Reader.depthLimit then .ok t else .error .syntactic :=
  readTree_writeJson 0 t

/-- A tree is read back from its JSON text as it was if it is at most 127 nodes deep, and a deeper
one is refused for its form. -/
theorem readTree_jsonText (t : Tree) :
    (t.depth ≤ 127 → readTree t.jsonText = .ok t) ∧
      (127 < t.depth → readTree t.jsonText = .error .syntactic) := by
  rw [readTree_jsonText_eq, Reader.depthLimit]
  exact ⟨fun h => if_pos h, fun h => if_neg (not_le.mpr h)⟩

end Reckoner.Proofs
