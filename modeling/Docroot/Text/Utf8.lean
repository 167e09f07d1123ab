/-!
Text as UTF-8 bytes.

A byte string is read character by character. A place where no character starts is left behind
together with the bytes that could still have started one (the longest such run), so that damaged
text is repaired with one replacement character for each such run. `decode?_encode` says that
what is written is read back.
-/
namespace Docroot.Utf8

abbrev Bytes := List UInt8

def encode (cs : List Char) : Bytes := cs.flatMap String.utf8EncodeChar

/-- The bytes of a text. -/
def ofText (s : String) : Bytes := encode s.toList

/-- A byte that continues a character, within the bounds for its place. -/
def within (low high : Nat) (b : UInt8) : Bool := low ≤ b.toNat && b.toNat ≤ high

/-- The bounds for the second byte after the first byte `a` of a character of three bytes. -/
def secondOfThree (a : Nat) : Nat × Nat :=
  if a = 0xE0 then (0xA0, 0xBF) else if a = 0xED then (0x80, 0x9F) else (0x80, 0xBF)

/-- The bounds for the second byte after the first byte `a` of a character of four bytes. -/
def secondOfFour (a : Nat) : Nat × Nat :=
  if a = 0xF0 then (0x90, 0xBF) else if a = 0xF4 then (0x80, 0x8F) else (0x80, 0xBF)

def char2 (a b : UInt8) : Char :=
  Char.ofNat (a.toNat % 32 * 64 + b.toNat % 64)

def char3 (a b c : UInt8) : Char :=
  Char.ofNat (a.toNat % 16 * 4096 + b.toNat % 64 * 64 + c.toNat % 64)

def char4 (a b c d : UInt8) : Char :=
  Char.ofNat (a.toNat % 8 * 262144 + b.toNat % 64 * 4096 + c.toNat % 64 * 64 + d.toNat % 64)

/-- Reads on after the first byte `a` of a character of two bytes. -/
def next2 (a : UInt8) : Bytes → Option Char × Bytes
  | b :: rest => if within 0x80 0xBF b then (some (char2 a b), rest) else (none, b :: rest)
  | [] => (none, [])

/-- Reads on after the first byte `a` of a character of three bytes. -/
def next3 (a : UInt8) : Bytes → Option Char × Bytes
  | b :: rest =>
    if within (secondOfThree a.toNat).1 (secondOfThree a.toNat).2 b then
      match rest with
      | c :: rest => if within 0x80 0xBF c then (some (char3 a b c), rest) else (none, c :: rest)
      | [] => (none, [])
    else (none, b :: rest)
  | [] => (none, [])

/-- Reads on after the first byte `a` of a character of four bytes. -/
def next4 (a : UInt8) : Bytes → Option Char × Bytes
  | b :: rest =>
    if within (secondOfFour a.toNat).1 (secondOfFour a.toNat).2 b then
      match rest with
      | c :: rest =>
        if within 0x80 0xBF c then
          match rest with
          | d :: rest =>
            if within 0x80 0xBF d then (some (char4 a b c d), rest) else (none, d :: rest)
          | [] => (none, [])
        else (none, c :: rest)
      | [] => (none, [])
    else (none, b :: rest)
  | [] => (none, [])

/-- The character that starts with byte `a`, if one does, and what is left to read. -/
def next (a : UInt8) (rest : Bytes) : Option Char × Bytes :=
  if a.toNat < 0x80 then (some (Char.ofNat a.toNat), rest)
  else if within 0xC2 0xDF a then next2 a rest
  else if within 0xE0 0xEF a then next3 a rest
  else if within 0xF0 0xF4 a then next4 a rest
  else (none, rest)

theorem length_next_le (a : UInt8) (rest : Bytes) : (next a rest).2.length ≤ rest.length := by
  unfold next next2 next3 next4
  grind

/-- The text of a byte string that is UTF-8 throughout. -/
def decode? : Bytes → Option (List Char)
  | [] => some []
  | a :: rest =>
    (next a rest).1.bind fun c => (decode? (next a rest).2).map (c :: ·)
termination_by bs => bs.length
decreasing_by
  have := length_next_le a rest
  simp only [List.length_cons]
  omega

/-- The character that stands for damaged bytes. -/
def replacement : Char := '\uFFFD'

/-- The text of a byte string, with one replacement character for each run of damaged bytes. -/
def repair : Bytes → List Char
  | [] => []
  | a :: rest => ((next a rest).1.getD replacement) :: repair (next a rest).2
termination_by bs => bs.length
decreasing_by
  have := length_next_le a rest
  simp only [List.length_cons]
  omega

theorem decode?_cons (a : UInt8) (rest : Bytes) :
    decode? (a :: rest) =
      (next a rest).1.bind fun c => (decode? (next a rest).2).map (c :: ·) := by
  rw [decode?]

/-- Text without damage needs no repair. -/
theorem repair_of_decode? {bs : Bytes} {cs : List Char} (h : decode? bs = some cs) :
    repair bs = cs := by
  induction cs generalizing bs with
  | nil =>
    cases bs with
    | nil => simp [repair]
    | cons a rest => rw [decode?_cons] at h; simp [Option.bind_eq_some_iff] at h
  | cons c cs ih =>
    cases bs with
    | nil => simp [decode?] at h
    | cons a rest =>
      rw [decode?_cons, Option.bind_eq_some_iff] at h
      obtain ⟨d, hd, h⟩ := h
      obtain ⟨ds, hds, heq⟩ := Option.map_eq_some_iff.mp h
      obtain ⟨rfl, rfl⟩ := List.cons.inj heq
      rw [repair, hd, ih hds]
      rfl

theorem toNat_val_lt (c : Char) :
    c.val.toNat < 0xD800 ∨ 0xDFFF < c.val.toNat ∧ c.val.toNat < 0x110000 :=
  c.valid

theorem ofNat_val (c : Char) : Char.ofNat c.val.toNat = c := Char.ofNat_toNat c

theorem next_two {a b : UInt8} {tail : Bytes} (ha : within 0xC2 0xDF a) (hb : within 0x80 0xBF b) :
    next a (b :: tail) = (some (char2 a b), tail) := by
  simp only [within, Bool.and_eq_true, decide_eq_true_eq] at ha hb
  grind [next, next2, within]

theorem next_three {a b c : UInt8} {tail : Bytes} (ha : within 0xE0 0xEF a)
    (hb : within (secondOfThree a.toNat).1 (secondOfThree a.toNat).2 b) (hc : within 0x80 0xBF c) :
    next a (b :: c :: tail) = (some (char3 a b c), tail) := by
  have h := ha
  simp only [within, Bool.and_eq_true, decide_eq_true_eq] at h
  rw [next, if_neg (by omega), if_neg (by simp [within]; omega), if_pos ha, next3, if_pos hb]
  simp [hc]

theorem next_four {a b c d : UInt8} {tail : Bytes} (ha : within 0xF0 0xF4 a)
    (hb : within (secondOfFour a.toNat).1 (secondOfFour a.toNat).2 b) (hc : within 0x80 0xBF c)
    (hd : within 0x80 0xBF d) :
    next a (b :: c :: d :: tail) = (some (char4 a b c d), tail) := by
  have h := ha
  simp only [within, Bool.and_eq_true, decide_eq_true_eq] at h
  rw [next, if_neg (by omega), if_neg (by simp [within]; omega), if_neg (by simp [within]; omega),
    if_pos ha, next4, if_pos hb]
  simp [hc, hd]

/-- Reading what one character was written as gives the character and stops behind it. -/
theorem next_encodeChar (c : Char) (tail : Bytes) :
    ∃ a rest, String.utf8EncodeChar c ++ tail = a :: rest ∧ next a rest = (some c, tail) := by
  have bound := toNat_val_lt c
  have back := ofNat_val c
  have small (n : Nat) (h : n < 256) : (UInt8.ofNat n).toNat = n := by
    simp [Nat.mod_eq_of_lt h]
  generalize hv : c.val.toNat = v at bound back
  unfold String.utf8EncodeChar
  simp only [hv]
  split
  · refine ⟨UInt8.ofNat v, tail, rfl, ?_⟩
    have e := small v (by omega)
    rw [next, e, if_pos (by omega), back]
  split
  · have e₁ := small (v / 64 % 32 + 192) (by omega)
    have e₂ := small (v % 64 + 128) (by omega)
    have value : (v / 64 % 32 + 192) % 32 * 64 + (v % 64 + 128) % 64 = v := by omega
    refine ⟨_, _ :: tail, rfl, ?_⟩
    rw [next_two (by simp [within]; omega) (by simp [within]; omega),
      char2, e₁, e₂, value, back]
  split
  · have e₁ := small (v / 4096 % 16 + 224) (by omega)
    have e₂ := small (v / 64 % 64 + 128) (by omega)
    have e₃ := small (v % 64 + 128) (by omega)
    have value : (v / 4096 % 16 + 224) % 16 * 4096 + (v / 64 % 64 + 128) % 64 * 64
        + (v % 64 + 128) % 64 = v := by omega
    refine ⟨_, _ :: _ :: tail, rfl, ?_⟩
    rw [next_three (by simp [within]; omega) (by simp [within, secondOfThree]; grind)
        (by simp [within]; omega), char3, e₁, e₂, e₃, value, back]
  · have e₁ := small (v / 262144 % 8 + 240) (by omega)
    have e₂ := small (v / 4096 % 64 + 128) (by omega)
    have e₃ := small (v / 64 % 64 + 128) (by omega)
    have e₄ := small (v % 64 + 128) (by omega)
    have value : (v / 262144 % 8 + 240) % 8 * 262144 + (v / 4096 % 64 + 128) % 64 * 4096
        + (v / 64 % 64 + 128) % 64 * 64 + (v % 64 + 128) % 64 = v := by omega
    refine ⟨_, _ :: _ :: _ :: tail, rfl, ?_⟩
    rw [next_four (by simp [within]; omega) (by simp [within, secondOfFour]; grind)
        (by simp [within]; omega) (by simp [within]; omega),
      char4, e₁, e₂, e₃, e₄, value, back]

theorem decode?_encodeChar_append (c : Char) (tail : Bytes) :
    decode? (String.utf8EncodeChar c ++ tail) = (decode? tail).map (c :: ·) := by
  obtain ⟨a, rest, h, read⟩ := next_encodeChar c tail
  rw [h, decode?_cons, read]
  rfl

/-- What is written is read back. -/
theorem decode?_encode (cs : List Char) : decode? (encode cs) = some cs := by
  induction cs with
  | nil => simp [encode, decode?]
  | cons c cs ih =>
    rw [encode, List.flatMap_cons, decode?_encodeChar_append, ← encode, ih]
    rfl

/-- Two texts with the same bytes are the same text. -/
theorem encode_injective {cs ds : List Char} (h : encode cs = encode ds) : cs = ds := by
  have := congrArg decode? h
  simpa [decode?_encode] using this

end Docroot.Utf8
