import Mathlib.Data.List.DropRight
import Mathlib.Tactic
import Reckoner.Batch
import Reckoner.World

/-!
# Lines read from bytes

A file is cut behind the bytes that are line feeds, before anything is decoded. No other character
has that byte in its encoding, so the pieces decode when the whole does, to the lines of the text
that the whole decodes to.
-/

namespace Reckoner.Proofs
open Text (dropReturn dropEnding line? lineFeed lines linesFrom pieces)

/-- The bytes of characters. -/
def encoded (cs : List Char) : List UInt8 :=
  cs.flatMap String.utf8EncodeChar

@[simp]
lemma encoded_append (cs ds : List Char) : encoded (cs ++ ds) = encoded cs ++ encoded ds :=
  List.flatMap_append

@[simp]
lemma encoded_singleton (c : Char) : encoded [c] = String.utf8EncodeChar c :=
  List.flatMap_singleton ..

lemma encoded_cons (c : Char) (cs : List Char) :
    encoded (c :: cs) = String.utf8EncodeChar c ++ encoded cs :=
  List.flatMap_cons

lemma encode_lineFeed : String.utf8EncodeChar '\n' = [lineFeed] := rfl

lemma decode_encoding (c : Char) (tail : List UInt8) :
    ByteArray.utf8DecodeChar? (String.utf8EncodeChar c ++ tail).toByteArray 0 = some c := by
  rw [List.toByteArray_append]
  exact ByteArray.utf8DecodeChar?_utf8EncodeChar_append

/-- A byte that is a line feed stands for a line feed: it is the first byte of an encoding, and then
the encoding decodes to a line feed. -/
lemma lineFeed_mem_encodeChar {c : Char} (h : lineFeed ∈ String.utf8EncodeChar c) : c = '\n' := by
  obtain ⟨i, hi, hbyte⟩ := List.getElem_of_mem h
  have hfirst : ((String.utf8EncodeChar c)[i]).IsUTF8FirstByte := by
    rw [hbyte]
    decide
  obtain rfl := UInt8.isUTF8FirstByte_getElem_utf8EncodeChar.mp hfirst
  cases hbytes : String.utf8EncodeChar c with
  | nil => exact absurd hbytes String.utf8EncodeChar_ne_nil
  | cons b tail =>
    simp only [hbytes, List.getElem_cons_zero] at hbyte
    have hsame : String.utf8EncodeChar c ++ [] = String.utf8EncodeChar '\n' ++ tail := by
      rw [hbytes, hbyte, List.append_nil, encode_lineFeed, List.singleton_append]
    have hdecoded := decode_encoding c []
    rw [hsame, decode_encoding] at hdecoded
    exact (Option.some.inj hdecoded).symm

lemma isValidUTF8_iff {bytes : List UInt8} :
    bytes.toByteArray.IsValidUTF8 ↔ ∃ cs, bytes = encoded cs := by
  constructor
  · rintro ⟨cs, hcs⟩
    exact ⟨cs, List.toByteArray_inj.mp hcs⟩
  · rintro ⟨cs, rfl⟩
    exact ⟨cs, rfl⟩

lemma fromUTF8?_encoded (cs : List Char) :
    String.fromUTF8? (encoded cs).toByteArray = some (String.ofList cs) := by
  rw [String.fromUTF8?, dif_pos (isValidUTF8_iff.mpr ⟨cs, rfl⟩)]
  rfl

/-! ### Pieces -/

lemma pieces_cons_of_ne {b : UInt8} (hb : b ≠ lineFeed) (held rest : List UInt8) :
    pieces held (b :: rest) = pieces (b :: held) rest := by
  rw [pieces, if_neg (by simpa using hb)]

lemma pieces_lineFeed (held rest : List UInt8) :
    pieces held (lineFeed :: rest) = (lineFeed :: held).reverse :: pieces [] rest := by
  rw [pieces, if_pos (beq_self_eq_true _)]

lemma pieces_unbroken {front : List UInt8} (h : lineFeed ∉ front) (held rest : List UInt8) :
    pieces held (front ++ rest) = pieces (front.reverse ++ held) rest := by
  induction front generalizing held with
  | nil => rfl
  | cons b front ih =>
    have hb : b ≠ lineFeed := fun hb => h (hb ▸ List.mem_cons_self)
    have hfront : lineFeed ∉ front := List.not_mem_of_not_mem_cons h
    rw [List.cons_append, pieces_cons_of_ne hb, ih hfront, List.reverse_cons, List.append_assoc,
      List.singleton_append]

/-- Cutting loses nothing. -/
lemma flatten_pieces (held bytes : List UInt8) :
    (pieces held bytes).flatten = held.reverse ++ bytes := by
  induction bytes generalizing held with
  | nil => cases held <;> simp [pieces]
  | cons b rest ih =>
    by_cases hb : b = lineFeed
    · rw [hb, pieces_lineFeed, List.flatten_cons, ih]
      simp
    · rw [pieces_cons_of_ne hb, ih]
      simp

/-- What follows the last line feed. -/
def unended (bytes : List UInt8) : List UInt8 :=
  bytes.rtakeWhile (· != lineFeed)

lemma unended_append_lineFeed (front rest : List UInt8) :
    unended (front ++ lineFeed :: rest) = unended rest := by
  induction rest using List.reverseRecOn with
  | nil => exact List.rtakeWhile_concat_neg _ _ _ (by simp)
  | append_singleton rest b ih =>
    unfold unended at ih ⊢
    rw [← List.cons_append, ← List.append_assoc, List.rtakeWhile_concat, ih, List.rtakeWhile_concat]

/-- Every line feed ends a piece, and what follows the last one is a piece of its own. -/
lemma length_pieces {held : List UInt8} (h : lineFeed ∉ held) (bytes : List UInt8) :
    (pieces held bytes).length =
      bytes.count lineFeed + if unended (held.reverse ++ bytes) = [] then 0 else 1 := by
  induction bytes generalizing held with
  | nil =>
    have hheld : unended held.reverse = held.reverse := by
      refine List.rtakeWhile_eq_self_iff.mpr fun b hb => ?_
      simpa using fun hfeed : b = lineFeed => h (hfeed ▸ List.mem_reverse.mp hb)
    rw [List.append_nil, hheld]
    cases held <;> simp [pieces]
  | cons b rest ih =>
    by_cases hb : b = lineFeed
    · rw [hb, pieces_lineFeed, List.length_cons, ih List.not_mem_nil, unended_append_lineFeed,
        List.count_cons_self, List.reverse_nil, List.nil_append]
      omega
    · rw [pieces_cons_of_ne hb, ih (List.not_mem_cons_of_ne_of_not_mem (Ne.symm hb) h),
        List.count_cons_of_ne hb, List.reverse_cons, List.append_assoc, List.singleton_append]

/-! ### Lines -/

lemma line?_encoded (cs : List Char) :
    line? (encoded cs) = some (String.ofList (dropEnding cs.reverse).reverse) := by
  rw [line?, fromUTF8?_encoded, Option.map_some, String.toList_ofList]

lemma exists_encoded_of_line? {piece : List UInt8} {line : String} (h : line? piece = some line) :
    ∃ cs, piece = encoded cs := by
  by_contra hinvalid
  rw [← isValidUTF8_iff] at hinvalid
  rw [line?, String.fromUTF8?, dif_neg hinvalid] at h
  cases h

lemma dropEnding_of_not_mem {cs : List Char} (h : '\n' ∉ cs) : dropEnding cs = cs := by
  unfold dropEnding
  split
  · simp at h
  · rfl

/-- The pieces of an encoded text are its lines. -/
lemma mapM_pieces_encoded {held : List Char} (h : '\n' ∉ held) (cs : List Char) :
    (pieces (encoded held.reverse).reverse (encoded cs)).mapM line? = some (linesFrom held cs) := by
  induction cs generalizing held with
  | nil =>
    cases held with
    | nil => rfl
    | cons c held =>
      have hline := line?_encoded (c :: held).reverse
      rw [List.reverse_reverse, dropEnding_of_not_mem h] at hline
      rw [show encoded [] = [] from rfl, pieces, List.isEmpty_reverse,
        if_neg (by simp), List.reverse_reverse, List.mapM_cons, hline]
      rfl
  | cons c cs ih =>
    by_cases hc : c = '\n'
    · have hpiece : (lineFeed :: (encoded held.reverse).reverse).reverse =
          encoded ('\n' :: held).reverse := by simp [encode_lineFeed]
      have hrest : (pieces [] (encoded cs)).mapM line? = some (linesFrom [] cs) :=
        ih List.not_mem_nil
      rw [hc, encoded_cons, encode_lineFeed, List.singleton_append, pieces_lineFeed, linesFrom,
        if_pos (beq_self_eq_true _), List.mapM_cons, hpiece, line?_encoded, List.reverse_reverse,
        hrest]
      rfl
    · have hnew : '\n' ∉ c :: held := List.not_mem_cons_of_ne_of_not_mem (Ne.symm hc) h
      have hheld : (String.utf8EncodeChar c).reverse ++ (encoded held.reverse).reverse =
          (encoded (c :: held).reverse).reverse := by simp
      have hunbroken : lineFeed ∉ String.utf8EncodeChar c :=
        fun hmem => hc (lineFeed_mem_encodeChar hmem)
      rw [encoded_cons, pieces_unbroken hunbroken, hheld, ih hnew, linesFrom,
        if_neg (by simpa using hc)]

lemma forall₂_of_mapM {α β : Type} {f : α → Option β} {xs : List α} {ys : List β}
    (h : xs.mapM f = some ys) : List.Forall₂ (fun x y => f x = some y) xs ys := by
  induction xs generalizing ys with
  | nil =>
    cases h
    exact .nil
  | cons x xs ih =>
    rw [List.mapM_cons] at h
    obtain ⟨y, hy, h⟩ := Option.bind_eq_some_iff.mp h
    obtain ⟨ys', hys, h⟩ := Option.bind_eq_some_iff.mp h
    cases h
    exact .cons hy (ih hys)

/-- Pieces that all hold lines make up an encoded text. -/
lemma exists_encoded_of_lines {parts : List (List UInt8)} {ls : List String}
    (h : List.Forall₂ (fun piece line => line? piece = some line) parts ls) :
    ∃ cs, parts.flatten = encoded cs := by
  induction h with
  | nil => exact ⟨[], rfl⟩
  | cons hline _ ih =>
    obtain ⟨cs, hcs⟩ := exists_encoded_of_line? hline
    obtain ⟨ds, hds⟩ := ih
    exact ⟨cs ++ ds, by rw [List.flatten_cons, hcs, hds, encoded_append]⟩

/-- Decoding every line on its own finds the lines of the whole, decoded at once. -/
lemma lines?_eq (bytes : ByteArray) :
    Text.lines? bytes = (String.fromUTF8? bytes).map lines := by
  obtain ⟨bytes, rfl⟩ : ∃ list : List UInt8, bytes = list.toByteArray :=
    ⟨bytes.data.toList, ByteArray.ext (by rw [List.data_toByteArray])⟩
  rw [Text.lines?, List.toList_data_toByteArray]
  by_cases hvalid : bytes.toByteArray.IsValidUTF8
  · obtain ⟨cs, rfl⟩ := isValidUTF8_iff.mp hvalid
    rw [fromUTF8?_encoded, Option.map_some, lines, String.toList_ofList]
    exact mapM_pieces_encoded List.not_mem_nil cs
  · rw [String.fromUTF8?, dif_neg hvalid, Option.map_none, Option.eq_none_iff_forall_ne_some]
    intro ls hls
    obtain ⟨cs, hcs⟩ := exists_encoded_of_lines (forall₂_of_mapM hls)
    rw [flatten_pieces, List.reverse_nil, List.nil_append] at hcs
    exact hvalid (isValidUTF8_iff.mpr ⟨cs, hcs⟩)

lemma lines?_toUTF8 (text : String) : Text.lines? text.toUTF8 = some (lines text) := by
  have hvalid : text.toUTF8.IsValidUTF8 := text.isValidUTF8
  rw [lines?_eq, String.fromUTF8?, dif_pos hvalid, Option.map_some]
  rfl

lemma length_of_lines? {bytes : ByteArray} {ls : List String} (h : Text.lines? bytes = some ls) :
    ls.length = bytes.data.toList.count lineFeed +
      if unended bytes.data.toList = [] then 0 else 1 := by
  rw [← (forall₂_of_mapM h).length_eq, length_pieces List.not_mem_nil]
  rfl

/-! ### Lines with their endings -/

/-- How a line may end. -/
inductive Ending where
  | lineFeed
  | returnLineFeed

def Ending.text : Ending → String
  | lineFeed => "\n"
  | returnLineFeed => "\r\n"

/-- Lines with their endings, and what follows the last ending. -/
def fileText : List (String × Ending) → String → String
  | [], last => last
  | (line, ending) :: rest, last => line ++ ending.text ++ fileText rest last

/-- A line that no ending can be mistaken for a part of. -/
structure Plain (line : String) : Prop where
  unbroken : '\n' ∉ line.toList
  noReturn : line.toList.getLast? ≠ some '\r'

lemma linesFrom_unbroken {front : List Char} (h : '\n' ∉ front) (held rest : List Char) :
    linesFrom held (front ++ rest) = linesFrom (front.reverse ++ held) rest := by
  induction front generalizing held with
  | nil => rfl
  | cons c front ih =>
    have hc : c ≠ '\n' := fun hc => h (hc ▸ List.mem_cons_self)
    have hfront : '\n' ∉ front := List.not_mem_of_not_mem_cons h
    rw [List.cons_append, linesFrom, if_neg (by simpa using hc), ih hfront, List.reverse_cons,
      List.append_assoc, List.singleton_append]

lemma linesFrom_lineFeed (held rest : List Char) :
    linesFrom held ('\n' :: rest) =
      String.ofList (dropReturn held).reverse :: linesFrom [] rest := by
  rw [linesFrom, if_pos (beq_self_eq_true _)]

lemma dropReturn_of_plain {line : String} (h : Plain line) :
    dropReturn line.toList.reverse = line.toList.reverse := by
  cases hline : line.toList.reverse with
  | nil => rfl
  | cons c rest =>
    have hlast : line.toList.getLast? = some c := by
      rw [← List.head?_reverse, hline, List.head?_cons]
    have hc : c ≠ '\r' := fun hc => h.noReturn (hc ▸ hlast)
    unfold dropReturn
    split
    · next heq => exact absurd (List.cons.inj heq).1 hc
    · rfl

lemma lines_unended {last : String} (h : '\n' ∉ last.toList) :
    lines last = if last = "" then [] else [last] := by
  have hlines := linesFrom_unbroken h [] []
  rw [List.append_nil, List.append_nil] at hlines
  rw [lines, hlines, linesFrom, List.reverse_reverse, String.ofList_toList]
  simp [String.toList_eq_nil_iff]

/-- A line ends at a line feed, without the return right before it. -/
lemma lines_append_lineFeed {line : String} (h : '\n' ∉ line.toList) (rest : String) :
    lines (line ++ "\n" ++ rest) =
      String.ofList (dropReturn line.toList.reverse).reverse :: lines rest := by
  have hfeed : "\n".toList = ['\n'] := rfl
  rw [lines, String.toList_append, String.toList_append, List.append_assoc,
    linesFrom_unbroken h, List.append_nil, hfeed, List.singleton_append, linesFrom_lineFeed, lines]

/-- A line with its ending is read back, whatever follows. -/
lemma lines_ended {line : String} (h : Plain line) (ending : Ending) (rest : String) :
    lines (line ++ ending.text ++ rest) = line :: lines rest := by
  have hline : String.ofList line.toList.reverse.reverse = line := by
    rw [List.reverse_reverse, String.ofList_toList]
  cases ending with
  | lineFeed => rw [Ending.text, lines_append_lineFeed h.unbroken, dropReturn_of_plain h, hline]
  | returnLineFeed =>
    have hreturn : (line ++ "\r").toList.reverse = '\r' :: line.toList.reverse := by
      rw [String.toList_append, List.reverse_append]
      rfl
    have hunbroken : '\n' ∉ (line ++ "\r").toList := by
      rw [String.toList_append, List.mem_append]
      exact not_or.mpr ⟨h.unbroken, by decide⟩
    have htext : Ending.returnLineFeed.text = "\r" ++ "\n" := rfl
    rw [htext, ← String.append_assoc, lines_append_lineFeed hunbroken, hreturn, dropReturn, hline]

lemma lines_fileText {ended : List (String × Ending)} {last : String}
    (hended : ∀ line ∈ ended, Plain line.1) (hlast : '\n' ∉ last.toList) :
    lines (fileText ended last) = ended.map Prod.fst ++ if last = "" then [] else [last] := by
  induction ended with
  | nil => exact lines_unended hlast
  | cons line rest ih =>
    obtain ⟨hline, hrest⟩ := List.forall_mem_cons.mp hended
    rw [fileText, lines_ended hline, ih hrest, List.map_cons, List.cons_append]

/-! ### Reading -/

lemma readLines_run {path : Path} {world : World} {bytes : ByteArray}
    (h : world.disk.read path = .ok bytes) :
    (Batch.readLines path).run world =
      ((Text.lines? bytes).elim (.error .invalidData) .ok, world) := by
  simp only [Batch.readLines, bind, Job.bind, Job.run, pure, h]
  cases Text.lines? bytes <;> rfl

/-- Lines are read back from their bytes, whatever endings they have, and with or without one behind
the last. A file can be read as lines exactly if all of it is UTF-8, and then it has as many lines
as line feeds, and one more if anything follows the last. -/
theorem readLines_exact (path : Path) (world : World) :
    (∀ ended last, world.disk.read path = .ok (fileText ended last).toUTF8 →
      (∀ line ∈ ended, Plain line.1) → '\n' ∉ last.toList →
      (Batch.readLines path).run world =
        (.ok (ended.map Prod.fst ++ if last = "" then [] else [last]), world)) ∧
    ∀ bytes, world.disk.read path = .ok bytes →
      (bytes.IsValidUTF8 → ∃ ls, (Batch.readLines path).run world = (.ok ls, world) ∧
        ls.length = bytes.data.toList.count lineFeed +
          if unended bytes.data.toList = [] then 0 else 1) ∧
      (¬ bytes.IsValidUTF8 → (Batch.readLines path).run world = (.error .invalidData, world)) := by
  refine ⟨fun ended last hread hended hlast => ?_, fun bytes hread => ⟨fun hvalid => ?_, ?_⟩⟩
  · rw [readLines_run hread, lines?_toUTF8, lines_fileText hended hlast]
    rfl
  · have hlines : Text.lines? bytes = some (lines (String.fromUTF8 bytes hvalid)) := by
      rw [lines?_eq, String.fromUTF8?, dif_pos hvalid, Option.map_some]
    refine ⟨_, ?_, length_of_lines? hlines⟩
    rw [readLines_run hread, hlines]
    rfl
  · intro hinvalid
    rw [readLines_run hread, lines?_eq, String.fromUTF8?, dif_neg hinvalid]
    rfl

/-- Lines with both endings, a blank one among them. -/
def mixedLines : List (String × Ending) :=
  [("1+2", .returnLineFeed), ("", .lineFeed)]

/-- A line, and the first byte of a character of two. -/
def tornBytes : ByteArray :=
  ⟨#[0x31, 0x0a, 0xc3]⟩

def mixedWorld : World where
  memory := .off
  disk := ⟨[(["mixed.txt".toList], .file (fileText mixedLines "3\r4").toUTF8),
    (["torn.txt".toList], .file tornBytes)], []⟩

theorem lines_of_mixed_endings :
    (Batch.readLines ⟨"mixed.txt"⟩).run mixedWorld = (.ok ["1+2", "", "3\r4"], mixedWorld) ∧
      (∃ ls, (Batch.readLines ⟨"mixed.txt"⟩).run mixedWorld = (.ok ls, mixedWorld) ∧
        ls.length = 3) ∧
      (Batch.readLines ⟨"torn.txt"⟩).run mixedWorld = (.error .invalidData, mixedWorld) := by
  have hplain : ∀ line ∈ mixedLines, Plain line.1 := by
    intro line hline
    fin_cases hline <;> exact ⟨by decide, by decide⟩
  have hmixed : mixedWorld.disk.read ⟨"mixed.txt"⟩ = .ok (fileText mixedLines "3\r4").toUTF8 := by
    decide +kernel
  have htorn : mixedWorld.disk.read ⟨"torn.txt"⟩ = .ok tornBytes := by decide +kernel
  have hinvalid : ¬ tornBytes.IsValidUTF8 := by decide +kernel
  obtain ⟨hread, hcount⟩ := readLines_exact ⟨"mixed.txt"⟩ mixedWorld
  obtain ⟨ls, hls, hlength⟩ := (hcount _ hmixed).1 (String.isValidUTF8 _)
  exact ⟨hread mixedLines "3\r4" hmixed hplain (by decide),
    ⟨ls, hls, hlength.trans (by decide +kernel)⟩,
    ((readLines_exact ⟨"torn.txt"⟩ mixedWorld).2 tornBytes htorn).2 hinvalid⟩

end Reckoner.Proofs
