import Mathlib
import Docroot.Proofs.Caching
import Docroot.Proofs.Names

/-!
Texts and bytes.

* `decode?_eq_some_iff`: a byte string is UTF-8 exactly if it is what some text is written as, so
  that lines of bytes and lines of text are the same.
* `document`: what reading makes of a text as a whole. `read?_encode` and `encoded_of_read?` say
  that reading line by line gives the document of the text that the bytes spell, and fails if they
  spell none.
* `text_is_document`: so the text of a path is the document in its bytes.
-/

namespace Docroot

namespace Utf8

/-! ## What decodes was encoded -/

theorem encodeChar_char2 {a b : UInt8} (first : within 0xC2 0xDF a) (second : within 0x80 0xBF b) :
    String.utf8EncodeChar (char2 a b) = [a, b] := by
  simp only [within, Bool.and_eq_true, decide_eq_true_eq] at first second
  have value : (char2 a b).val.toNat = a.toNat % 32 * 64 + b.toNat % 64 :=
    toNat_ofNat_of_valid (by omega)
  unfold String.utf8EncodeChar
  simp only [value]
  rw [if_neg (by omega), if_pos (by omega)]
  simp only [List.cons.injEq, and_true, ← UInt8.toNat_inj, UInt8.toNat_ofNat']
  omega

theorem encodeChar_char3 {a b c : UInt8} (first : within 0xE0 0xEF a)
    (second : within (secondOfThree a.toNat).1 (secondOfThree a.toNat).2 b)
    (third : within 0x80 0xBF c) : String.utf8EncodeChar (char3 a b c) = [a, b, c] := by
  have bounds : 0x80 ≤ b.toNat ∧ b.toNat ≤ 0xBF ∧ (a.toNat = 0xE0 → 0xA0 ≤ b.toNat) ∧
      (a.toNat = 0xED → b.toNat ≤ 0x9F) := by
    grind [within, secondOfThree]
  simp only [within, Bool.and_eq_true, decide_eq_true_eq] at first third
  have value : (char3 a b c).val.toNat =
      a.toNat % 16 * 4096 + b.toNat % 64 * 64 + c.toNat % 64 := toNat_ofNat_of_valid (by omega)
  unfold String.utf8EncodeChar
  simp only [value]
  rw [if_neg (by omega), if_neg (by omega), if_pos (by omega)]
  simp only [List.cons.injEq, and_true, ← UInt8.toNat_inj, UInt8.toNat_ofNat']
  omega

theorem encodeChar_char4 {a b c d : UInt8} (first : within 0xF0 0xF4 a)
    (second : within (secondOfFour a.toNat).1 (secondOfFour a.toNat).2 b)
    (third : within 0x80 0xBF c) (fourth : within 0x80 0xBF d) :
    String.utf8EncodeChar (char4 a b c d) = [a, b, c, d] := by
  have bounds : 0x80 ≤ b.toNat ∧ b.toNat ≤ 0xBF ∧ (a.toNat = 0xF0 → 0x90 ≤ b.toNat) ∧
      (a.toNat = 0xF4 → b.toNat ≤ 0x8F) := by
    grind [within, secondOfFour]
  simp only [within, Bool.and_eq_true, decide_eq_true_eq] at first third fourth
  have value : (char4 a b c d).val.toNat = a.toNat % 8 * 262144 + b.toNat % 64 * 4096 +
      c.toNat % 64 * 64 + d.toNat % 64 := toNat_ofNat_of_valid (by omega)
  unfold String.utf8EncodeChar
  simp only [value]
  rw [if_neg (by omega), if_neg (by omega), if_neg (by omega)]
  simp only [List.cons.injEq, and_true, ← UInt8.toNat_inj, UInt8.toNat_ofNat']
  omega

/-- A character that is read was written there. -/
theorem encodeChar_of_next {a : UInt8} {rest : Bytes} {c : Char}
    (read : (next a rest).1 = some c) :
    a :: rest = String.utf8EncodeChar c ++ (next a rest).2 := by
  fun_cases next a rest with
  | case1 small =>
    simp only [next, small, if_true, Option.some.injEq] at read
    subst read
    have value : (Char.ofNat a.toNat).val.toNat = a.toNat := toNat_ofNat_of_valid (by omega)
    simp only [String.utf8EncodeChar, value, show a.toNat ≤ 0x7f by omega, if_true,
      UInt8.ofNat_toNat, List.singleton_append]
  | case2 large first =>
    rw [next, if_neg large, if_pos first] at read
    fun_cases next2 a rest with
    | case1 b rest second =>
      simp only [next2, second, if_true, Option.some.injEq] at read
      rw [← read, encodeChar_char2 first second]
      rfl
    | case2 b rest second => simp [next2, second] at read
    | case3 => cases read
  | case3 large no2 first =>
    rw [next, if_neg large, if_neg no2, if_pos first] at read
    fun_cases next3 a rest with
    | case1 b second c' rest third =>
      simp only [next3, second, third, if_true, Option.some.injEq] at read
      rw [← read, encodeChar_char3 first second third]
      rfl
    | case2 b second c' rest third => simp [next3, second, third] at read
    | case3 b second => simp [next3, second] at read
    | case4 b rest second => simp [next3, second] at read
    | case5 => cases read
  | case4 large no2 no3 first =>
    rw [next, if_neg large, if_neg no2, if_neg no3, if_pos first] at read
    fun_cases next4 a rest with
    | case1 b second c' third d rest fourth =>
      simp only [next4, second, third, fourth, if_true, Option.some.injEq] at read
      rw [← read, encodeChar_char4 first second third fourth]
      rfl
    | case2 b second c' third d rest fourth => simp [next4, second, third, fourth] at read
    | case3 b second c' third => simp [next4, second, third] at read
    | case4 b second c' rest third => simp [next4, second, third] at read
    | case5 b second => simp [next4, second] at read
    | case6 b rest second => simp [next4, second] at read
    | case7 => cases read
  | case5 large no2 no3 no4 =>
    rw [next, if_neg large, if_neg no2, if_neg no3, if_neg no4] at read
    cases read

/-- The byte strings that are UTF-8 are those that a text is written as. -/
theorem decode?_eq_some_iff {bs : Bytes} {cs : List Char} :
    decode? bs = some cs ↔ bs = encode cs := by
  constructor
  · intro read
    induction cs generalizing bs with
    | nil =>
      cases bs with
      | nil => rfl
      | cons a rest => rw [decode?_cons] at read; simp [Option.bind_eq_some_iff] at read
    | cons c cs ih =>
      cases bs with
      | nil => simp [decode?] at read
      | cons a rest =>
        rw [decode?_cons, Option.bind_eq_some_iff] at read
        obtain ⟨d, first, read⟩ := read
        obtain ⟨ds, behind, same⟩ := Option.map_eq_some_iff.mp read
        obtain ⟨rfl, rfl⟩ := List.cons.inj same
        rw [encodeChar_of_next first, ih behind]
        rfl
  · rintro rfl
    exact decode?_encode cs

end Utf8

namespace Lines

open Utf8 (Bytes decode? encode)

/-! ## The document in a text -/

/-- A line without one carriage return at its end. -/
def dropReturn (line : List Char) : List Char :=
  if line.getLast? = some '\r' then line.dropLast else line

/-- The lines of a text. Each line feed ends one, and one carriage return before it goes as well.
What is behind the last line feed is a line as it is, unless it is empty. -/
def ofText (text : List Char) : List (List Char) :=
  let parts := text.splitOn '\n'
  let rest := parts.getLastD []
  parts.dropLast.map dropReturn ++ if rest = [] then [] else [rest]

/-- Lines without one byte order mark in front of the first. -/
def dropMark : List (List Char) → List (List Char)
  | (c :: first) :: rest => (if c = '\uFEFF' then first else c :: first) :: rest
  | lines => lines

/-- The lines of a text, each followed by a line feed. -/
def document (text : List Char) : List Char :=
  (dropMark (ofText text)).flatMap (· ++ ['\n'])

theorem splitOn_eq {α : Type} [BEq α] (a : α) (xs : List α) :
    ∃ front last, xs.splitOn a = front ++ [last] :=
  ⟨_, _, (List.dropLast_concat_getLast (List.splitOn_ne_nil a xs)).symm⟩

theorem ofText_eq {text last : List Char} {front : List (List Char)}
    (parts : text.splitOn '\n' = front ++ [last]) :
    ofText text = front.map dropReturn ++ if last = [] then [] else [last] := by
  simp [ofText, parts, List.getLastD_eq_getLast?]

theorem split_eq {content last : Bytes} {front : List Bytes}
    (pieces : content.splitOn lf = front ++ [last]) :
    split content = front.map stripReturn ++ if last = [] then [] else [last] := by
  simp [split, pieces, List.getLastD_eq_getLast?]

theorem join_eq (lines : List (List Char)) :
    join lines = (dropMark lines).flatMap (· ++ ['\n']) := by
  have separator : separator.toList = ['\n'] := by decide
  cases lines with
  | nil => rfl
  | cons first rest =>
    rw [join, separator]
    cases first <;> rfl

/-- Only the empty text is an empty document. -/
theorem document_eq_nil {text : List Char} : document text = [] ↔ text = [] := by
  constructor
  · intro empty
    obtain ⟨front, last, parts⟩ := splitOn_eq '\n' text
    have none : ofText text = [] := by
      cases lines : ofText text with
      | nil => rfl
      | cons first rest => cases first <;> simp [document, lines, dropMark] at empty
    rw [ofText_eq parts] at none
    obtain ⟨front, last⟩ : front = [] ∧ last = [] := by simpa using none
    subst front last
    have whole : ['\n'].intercalate (text.splitOn '\n') = text := List.intercalate_splitOn '\n'
    rw [← whole, parts]
    rfl
  · rintro rfl
    decide

/-! ## Bytes and their text -/

/-- The line feed is a byte of its own in what a text is written as. -/
theorem lf_mem_encode {text : List Char} : lf ∈ encode text ↔ '\n' ∈ text := by
  constructor
  · exact Utf8.mem_encode (by decide)
  · intro mem
    exact List.mem_flatMap.mpr ⟨'\n', mem, by decide⟩

theorem encode_intercalate (parts : List (List Char)) :
    encode (['\n'].intercalate parts) = [lf].intercalate (parts.map encode) := by
  induction parts with
  | nil => rfl
  | cons part rest ih =>
    cases rest with
    | nil => simp
    | cons next rest =>
      simp only [List.map_cons, List.intercalate_cons_cons] at ih ⊢
      rw [Utf8.encode_append, Utf8.encode_append, ih]
      rfl

theorem splitOn_encode (text : List Char) :
    (encode text).splitOn lf = (text.splitOn '\n').map encode := by
  have apart : ∀ part ∈ (text.splitOn '\n').map encode, lf ∉ part := by
    intro part mem
    obtain ⟨line, isPart, rfl⟩ := List.mem_map.mp mem
    rw [lf_mem_encode]
    intro there
    simpa using Key.not_mem_of_mem_splitOnP isPart '\n' there
  have some' : (text.splitOn '\n').map encode ≠ [] := by
    simp [List.splitOn_ne_nil]
  have parts := List.splitOn_intercalate lf apart some'
  rw [← encode_intercalate, List.intercalate_splitOn] at parts
  exact parts

theorem stripReturn_encode (line : List Char) :
    stripReturn (encode line) = encode (dropReturn line) := by
  rcases List.eq_nil_or_concat line with rfl | ⟨front, c, rfl⟩
  · rfl
  · rw [List.concat_eq_append, Utf8.encode_append]
    have some' : encode [c] ≠ [] := by simp [encode]
    by_cases isReturn : c = '\r'
    · subst isReturn
      have last : encode ['\r'] = [cr] := by decide
      simp [stripReturn, dropReturn, last]
    · have other : (encode front ++ encode [c]).getLast? ≠ some cr := by
        intro last
        rw [List.getLast?_append, Option.or_of_isSome (by simpa using some')] at last
        have there := Utf8.mem_encode (b := cr) (by decide) (List.mem_of_getLast? last)
        exact isReturn (List.mem_singleton.mp there).symm
      rw [stripReturn, if_neg other, dropReturn, if_neg (by simpa using isReturn),
        Utf8.encode_append]

/-- The lines of what a text is written as are what its lines are written as. -/
theorem split_encode (text : List Char) : split (encode text) = (ofText text).map encode := by
  obtain ⟨front, last, parts⟩ := splitOn_eq '\n' text
  have pieces : (encode text).splitOn lf = front.map encode ++ [encode last] := by
    rw [splitOn_encode, parts, List.map_append]
    rfl
  rw [split_eq pieces, ofText_eq parts, List.map_append, List.map_map, List.map_map]
  congr 1
  · exact List.map_congr_left fun line _ => stripReturn_encode line
  · simp only [Utf8.encode_eq_nil]
    split <;> rfl

theorem mapM_decode?_eq_some_iff {pieces : List Bytes} {lines : List (List Char)} :
    pieces.mapM decode? = some lines ↔ pieces = lines.map encode := by
  induction pieces generalizing lines with
  | nil => cases lines <;> simp
  | cons piece pieces ih =>
    simp only [List.mapM_cons, Option.bind_eq_bind, Option.bind_eq_some_iff, ih,
      Utf8.decode?_eq_some_iff, Option.pure_def, Option.some.injEq]
    constructor
    · rintro ⟨line, rfl, rest, rfl, rfl⟩
      rfl
    · intro all
      cases lines with
      | nil => cases all
      | cons line rest =>
        obtain ⟨rfl, rfl⟩ := List.cons.inj all
        exact ⟨line, rfl, rest, rfl, rfl⟩

/-- What a text is written as reads as its document. -/
theorem read?_encode (text : List Char) :
    read? (encode text) = some (String.ofList (document text)) := by
  have lines := mapM_decode?_eq_some_iff.mpr (split_encode text)
  rw [read?, lines, Option.map_some, join_eq]
  rfl

theorem encoded_of_stripReturn {piece : Bytes} {line : List Char}
    (stripped : stripReturn piece = encode line) : ∃ whole, piece = encode whole := by
  rw [stripReturn] at stripped
  split at stripped
  · rename_i last
    obtain ⟨front, rfl⟩ := List.getLast?_eq_some_iff.mp last
    rw [List.dropLast_concat] at stripped
    refine ⟨line ++ ['\r'], ?_⟩
    rw [stripped, Utf8.encode_append]
    rfl
  · exact ⟨line, stripped⟩

/-- Only what a text is written as reads as a document. -/
theorem encoded_of_read? {content : Bytes} {t : String} (read : read? content = some t) :
    ∃ text, content = encode text := by
  obtain ⟨lines, decoded, _⟩ := Option.map_eq_some_iff.mp read
  have all := mapM_decode?_eq_some_iff.mp decoded
  obtain ⟨front, last, pieces⟩ := splitOn_eq lf content
  rw [split_eq pieces] at all
  have line {l : Bytes} (mem : l ∈ lines.map encode) : ∃ text, l = encode text := by
    obtain ⟨text, _, rfl⟩ := List.mem_map.mp mem
    exact ⟨text, rfl⟩
  -- Each piece between line feeds is a line, but for a carriage return or if it is the empty rest.
  have encoded : ∀ piece ∈ content.splitOn lf, ∃ text, piece = encode text := by
    intro piece mem
    rw [pieces] at mem
    rcases List.mem_append.mp mem with mem | mem
    · obtain ⟨text, stripped⟩ := line (all ▸ List.mem_append_left _ (List.mem_map_of_mem mem))
      exact encoded_of_stripReturn stripped
    · obtain rfl := List.mem_singleton.mp mem
      by_cases empty : piece = []
      · exact ⟨[], empty⟩
      · rw [if_neg empty] at all
        exact line (all ▸ List.mem_append_right _ (List.mem_singleton_self piece))
  choose! text same using encoded
  have whole : (content.splitOn lf).map (encode ∘ text) = content.splitOn lf :=
    (List.map_congr_left fun piece mem => (same piece mem).symm).trans (List.map_id _)
  refine ⟨['\n'].intercalate ((content.splitOn lf).map text), ?_⟩
  rw [encode_intercalate, List.map_map, whole, List.intercalate_splitOn]

end Lines

namespace Server

open Utf8 (Bytes)

variable {s : Server} {p : Nat}

theorem readBytes_strict (strict : (s.configOf (s.node p)).ioPolicy = .strict) :
    (s.readBytes p).1 =
      if !(s.node p).present then .ok []
      else if (s.node p).isFolder then .error (.isDirectory (s.node p).diskPath)
      else match s.disk.read (Utf8.ofText (s.node p).diskPath) with
        | .ok content => .ok content
        | .error e => .error (.ofIo e (s.node p).diskPath) := by
  simp only [readBytes, strict]
  split
  · rfl
  · split
    · rfl
    · cases s.disk.read (Utf8.ofText (s.node p).diskPath) <;> rfl

theorem readText_strict (strict : (s.configOf (s.node p)).ioPolicy = .strict)
    (uncached : (s.cache (s.system (s.node p).system).cache).peek (s.node p).key = none) :
    (s.readText p).1 =
      if !(s.node p).present then .ok ""
      else if (s.node p).isFolder then .error (.isDirectory (s.node p).diskPath)
      else match textOnDisk s.disk (Utf8.ofText (s.node p).diskPath) with
        | .ok text => .ok text
        | .error e => .error (.ofIo e (s.node p).diskPath) := by
  rw [readText_missed uncached]
  simp only [strict]
  split
  · rfl
  · split
    · rfl
    · cases textOnDisk s.disk (Utf8.ofText (s.node p).diskPath) <;> rfl

/-- The text of a path that is read anew is read from its bytes. -/
theorem readText_of_readBytes (strict : (s.configOf (s.node p)).ioPolicy = .strict)
    (uncached : (s.cache (s.system (s.node p).system).cache).peek (s.node p).key = none) :
    (s.readText p).1 =
      match (s.readBytes p).1 with
      | .error e => .error e
      | .ok content =>
        match Lines.read? content with
        | some t => .ok t
        | none => .error (.invalidUtf8 (s.node p).diskPath) := by
  rw [readBytes_strict strict, readText_strict strict uncached]
  split
  · rfl
  · split
    · rfl
    · rw [textOnDisk]
      cases s.disk.read (Utf8.ofText (s.node p).diskPath) with
      | error e => rfl
      | ok content =>
        dsimp only
        cases Lines.read? content with
        | some t => rfl
        | none => rfl

/-- **A text is the document in the bytes.** In any state, take a path whose text is not in its
content cache, of a file system with the strict policy.

* If the bytes of the path can be read, its text can be read exactly if they are UTF-8 as a whole.
  The text is then the document in what they spell: its lines without their ends and without a byte
  order mark in front of the first, each followed by a line feed. It is empty only if there are no
  bytes, and a byte order mark alone is one empty line.
* If the bytes are not UTF-8, the answer says so.
* If the bytes cannot be read, the text cannot be read for the same reason. -/
theorem text_is_document (strict : (s.configOf (s.node p)).ioPolicy = .strict)
    (uncached : (s.cache (s.system (s.node p).system).cache).peek (s.node p).key = none) :
    (∀ content, (s.readBytes p).1 = .ok content →
      ((∃ t, (s.readText p).1 = .ok t) ↔ ∃ text, content = Utf8.encode text) ∧
      (∀ text, content = Utf8.encode text → ∃ t, (s.readText p).1 = .ok t ∧
        t.toList = Lines.document text ∧ (t = "" → content = []) ∧
        (text = ['\uFEFF'] → t = "\n")) ∧
      ((∀ text, content ≠ Utf8.encode text) →
        (s.readText p).1 = .error (.invalidUtf8 (s.node p).diskPath))) ∧
    ∀ e, (s.readBytes p).1 = .error e → (s.readText p).1 = .error e := by
  rw [readText_of_readBytes strict uncached]
  refine ⟨fun content bytes => ?_, fun e failed => by rw [failed]⟩
  rw [bytes]
  dsimp only
  refine ⟨⟨fun ⟨t, readable⟩ => ?_, ?_⟩, ?_, fun damaged => ?_⟩
  · cases read : Lines.read? content with
    | some t => exact Lines.encoded_of_read? read
    | none =>
      rw [read] at readable
      cases readable
  · rintro ⟨text, rfl⟩
    rw [Lines.read?_encode]
    exact ⟨_, rfl⟩
  · rintro text rfl
    rw [Lines.read?_encode]
    refine ⟨_, rfl, String.toList_ofList, fun empty => ?_, ?_⟩
    · rw [← String.toList_inj, String.toList_ofList, String.toList_empty,
        Lines.document_eq_nil] at empty
      rw [empty]
      rfl
    · rintro rfl
      decide
  · cases read : Lines.read? content with
    | some t =>
      obtain ⟨text, same⟩ := Lines.encoded_of_read? read
      exact absurd same (damaged text)
    | none => rfl

/-- A byte order mark, a line with CR LF at its end, and a rest with CR at its end. -/
def markedText : List Char := ['\uFEFF', 'a', '\r', '\n', 'b', '\r']

/-- A server over a disk with one file, which was asked for under the strict policy. -/
def markedServer : Server where
  disk := (Tree.lone (Utf8.ofText "x.txt") (Utf8.encode markedText)).1
  caches := #[.memory]
  systems := #[⟨"/", 0, { ioPolicy := .strict }, .empty, 1⟩]
  nodes := #[⟨0, "x.txt", false, "/x.txt", true, none⟩]

theorem marked_document : (markedServer.configOf (markedServer.node 0)).ioPolicy = .strict ∧
    (markedServer.cache (markedServer.system (markedServer.node 0).system).cache).peek
      (markedServer.node 0).key = none ∧
    (markedServer.readBytes 0).1 = .ok (Utf8.encode markedText) ∧
    (markedServer.readText 0).1 = .ok "a\nb\r\n" := by
  have bytes : (markedServer.readBytes 0).1 = .ok (Utf8.encode markedText) := by
    cbv
  obtain ⟨t, text, lines, _⟩ :=
    ((text_is_document (s := markedServer) (p := 0) rfl rfl).1 _ bytes).2.1 markedText rfl
  refine ⟨rfl, rfl, bytes, ?_⟩
  rw [text, ← String.ofList_toList (s := t), lines]
  decide

end Server

end Docroot
