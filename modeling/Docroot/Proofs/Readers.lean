import Mathlib
import Docroot.Server.Respond

/-!
Readers of a frozen response.

Freezing keeps the whole body, wherever its stream stood, and freezing a snapshot again keeps it
too. Every reader has a stream of its own: whatever the others do meanwhile, its reads give the body
from the start, as far as their buffers reach together.
-/

namespace Docroot

open Utf8 (Bytes)

/-- What is done with the snapshots of a response. Snapshots and streams go by the order in which
they were made. -/
inductive Use where
  /-- Freezes a snapshot once more. -/
  | freeze (a : Nat)
  /-- Opens a stream of a snapshot for one more reader. -/
  | stream (a : Nat)
  /-- One read of a stream, into a buffer for `n` bytes. -/
  | read (i n : Nat)

/-- One read: of which stream, into a buffer for how many bytes, and what it gave. -/
structure Reading where
  stream : Nat
  asked : Nat
  got : Bytes

namespace Reading

/-- How many bytes the buffers of all reads of a stream have room for. -/
def asksOf (i : Nat) (l : List Reading) : Nat :=
  ((l.filter fun r => r.stream = i).map Reading.asked).sum

/-- What all reads of a stream gave, one after the other. -/
def bytesOf (i : Nat) (l : List Reading) : Bytes :=
  (l.filter fun r => r.stream = i).flatMap Reading.got

variable {i j : Nat} {l : List Reading}

theorem asksOf_self (n : Nat) (got : Bytes) : asksOf i (l ++ [⟨i, n, got⟩]) = asksOf i l + n := by
  simp [asksOf]

theorem asksOf_other (other : i ≠ j) (n : Nat) (got : Bytes) :
    asksOf j (l ++ [⟨i, n, got⟩]) = asksOf j l := by
  simp [asksOf, other]

theorem bytesOf_self (n : Nat) (got : Bytes) :
    bytesOf i (l ++ [⟨i, n, got⟩]) = bytesOf i l ++ got := by
  simp [bytesOf]

theorem bytesOf_other (other : i ≠ j) (n : Nat) (got : Bytes) :
    bytesOf j (l ++ [⟨i, n, got⟩]) = bytesOf j l := by
  simp [bytesOf, other]

theorem nothing_of_unread (unread : ∀ r ∈ l, r.stream ≠ i) : asksOf i l = 0 ∧ bytesOf i l = [] := by
  have none : (l.filter fun r => r.stream = i) = [] := by
    rw [List.filter_eq_nil_iff]
    intro r mem
    simpa using unread r mem
  constructor
  · simp [asksOf, none]
  · simp [bytesOf, none]

end Reading

/-- The snapshots of a response, their streams, and the reads so far, the latest last. -/
structure Readers where
  server : Server
  snapshots : List Snapshot
  streams : List KnownStream
  reads : List Reading

namespace Readers

/-- A snapshot that nobody has read yet. -/
def of (s : Server) (x : Snapshot) : Readers := ⟨s, [x], [], []⟩

def step (r : Readers) : Use → Option Readers
  | .freeze a => r.snapshots[a]?.map fun x =>
    match r.server.freeze (.replayed x) with
    | (.ok y, s) => { r with server := s, snapshots := r.snapshots ++ [y] }
    | (.error _, s) => { r with server := s }
  | .stream a => r.snapshots[a]?.map fun x =>
    let (k, s) := r.server.streamOf x
    { r with server := s, streams := r.streams ++ [k] }
  | .read i n => r.streams[i]?.map fun k =>
    let (got, k) := k.read n
    { r with streams := r.streams.set i k, reads := r.reads ++ [⟨i, n, got⟩] }

def run (r : Readers) : List Use → Option Readers
  | [] => some r
  | u :: rest => (r.step u).bind fun r => r.run rest

end Readers

/-! ## Freezing -/

namespace Snapshot

/-- All that a snapshot takes over from a response of known length: its header, whether it is text,
and its whole buffer. -/
structure Captures (x : Snapshot) (r : Response) (k : KnownStream) : Prop where
  stream : r.stream = .known k
  header : x.header = r.header
  isText : x.isText = r.isText
  body : x.body = k.data

/-- Snapshots of the same response, which differ in their identifiers at most. -/
structure Alike (x y : Snapshot) : Prop where
  header : x.header = y.header
  isText : x.isText = y.isText
  body : x.body = y.body

theorem Alike.refl (x : Snapshot) : x.Alike x := ⟨rfl, rfl, rfl⟩

theorem Alike.trans {x y z : Snapshot} (h : x.Alike y) (h' : y.Alike z) : x.Alike z where
  header := h.header.trans h'.header
  isText := h.isText.trans h'.isText
  body := h.body.trans h'.body

/-- What captures the replay of a snapshot is like the snapshot. -/
theorem Captures.alike {x y : Snapshot} {k : KnownStream} (h : y.Captures x.replay k) :
    y.Alike x where
  header := h.header
  isText := h.isText
  body := by
    have same : x.stream = k := BodyStream.known.inj h.stream
    rw [h.body, ← same]
    rfl

end Snapshot

namespace Server

/-- A body can be frozen exactly if it tells its length. -/
theorem freeze_cases (s : Server) (b : Body) :
    (∃ k x, (s.freeze b).1 = .ok x ∧ x.Captures (s.deliver b).1 k) ∨
    ((s.deliver b).1.stream.known? = none ∧ ∃ e, (s.freeze b).1 = .error e) := by
  have same : (({ s with nextId := s.nextId + 1 } : Server).deliver b).1 = (s.deliver b).1 := by
    cases b <;> rfl
  rcases delivered : ({ s with nextId := s.nextId + 1 } : Server).deliver b with ⟨r, t⟩
  rw [delivered] at same
  rw [← same]
  cases length : r.stream with
  | known k =>
    left
    refine ⟨k, ⟨⟨s.nextId⟩, r.header, r.isText, k.data⟩, ?_, length, rfl, rfl, rfl⟩
    simp [freeze, delivered, Snapshot.freeze, length, BodyStream.known?]
  | unknown rest =>
    right
    refine ⟨rfl, .unknownLength ⟨s.nextId⟩, ?_⟩
    simp [freeze, delivered, Snapshot.freeze, length, BodyStream.known?]

/-- Freezing a snapshot once more gives the same response. -/
theorem freeze_replayed (s : Server) (x : Snapshot) :
    ∃ y, (s.freeze (.replayed x)).1 = .ok y ∧ y.Alike x := by
  rcases s.freeze_cases (.replayed x) with ⟨k, y, frozen, captures⟩ | ⟨unknown, _⟩
  · exact ⟨y, frozen, captures.alike⟩
  · cases unknown

/-- A response that tells its length can be frozen. -/
theorem freeze_known (s : Server) {r : Response} {k : KnownStream} (known : r.stream = .known k) :
    ∃ x t, s.freeze (.fresh r) = (.ok x, t) ∧ x.Captures r k := by
  have unread : (s.deliver (.fresh r)).1 = r := rfl
  rcases s.freeze_cases (.fresh r) with ⟨k', x, frozen, captures⟩ | ⟨unknown, _⟩
  · rw [unread] at captures
    obtain rfl : k' = k := BodyStream.known.inj (captures.stream.symm.trans known)
    exact ⟨x, _, Prod.ext frozen rfl, captures⟩
  · rw [unread, known] at unknown
    cases unknown

end Server

/-! ## Reading -/

namespace KnownStream

/-- Where a stream of `body` stands after reads into buffers with room for `n` bytes. -/
structure Past (k : KnownStream) (body : Bytes) (n : Nat) : Prop where
  data : k.data = body
  position : k.position = min n body.length

variable {k : KnownStream} {body : Bytes} {m : Nat}

theorem Past.new (body : Bytes) : (KnownStream.new body).Past body 0 := ⟨rfl, (Nat.zero_min _).symm⟩

/-- The position never leaves the buffer. -/
theorem Past.inside (past : k.Past body m) : k.position ≤ k.data.length := by
  have data := past.data
  have position := past.position
  rw [data]
  omega

theorem Past.remaining (past : k.Past body m) : k.remaining = body.length - min m body.length := by
  rw [KnownStream.remaining, past.data, past.position]

theorem Past.rest (past : k.Past body m) : k.data.drop k.position = body.drop m := by
  rw [past.data, past.position]
  by_cases inside : m ≤ body.length
  · rw [Nat.min_eq_left inside]
  · have beyond : body.length ≤ m := by omega
    rw [Nat.min_eq_right beyond, List.drop_length, List.drop_eq_nil_of_le beyond]

theorem Past.read (past : k.Past body m) (n : Nat) :
    (k.read n).2.Past body (m + n) ∧ body.take m ++ (k.read n).1 = body.take (m + n) := by
  have got : (k.read n).1 = (body.drop m).take n := by
    rw [KnownStream.read, past.rest]
  have moved : (k.read n).2.position = k.position + (k.read n).1.length := rfl
  constructor
  · constructor
    · exact past.data
    · rw [moved, got, past.position, List.length_take, List.length_drop]
      omega
  · rw [got, List.take_add]

/-- Reading to the end gives all that the reads before left. -/
theorem Past.readAll (past : k.Past body m) : k.readAll.1 = body.drop m := by
  have rest : k.readAll.1 = (k.data.drop k.position).take k.remaining := rfl
  have length : (body.drop m).length ≤ k.remaining := by
    rw [past.remaining, List.length_drop]
    omega
  rw [rest, past.rest, List.take_of_length_le length]

/-- Where a buffer has room, a read gives nothing exactly at the end. -/
theorem Past.read_eq_nil_iff (past : k.Past body m) {n : Nat} (room : 0 < n) :
    (k.read n).1 = [] ↔ k.remaining = 0 := by
  have length : (k.read n).1.length = min n k.remaining := by
    simp [KnownStream.read, KnownStream.remaining]
  have inside := past.inside
  rw [← List.length_eq_zero_iff, length]
  omega

end KnownStream

namespace Readers

variable {x : Snapshot} {r t : Readers}

/-- What holds of the readers of a snapshot, whatever they do. -/
structure Sound (x : Snapshot) (r : Readers) : Prop where
  copies : ∀ y ∈ r.snapshots, y.Alike x
  streams : ∀ i k, r.streams[i]? = some k → k.Past x.body (Reading.asksOf i r.reads) ∧
    Reading.bytesOf i r.reads = x.body.take (Reading.asksOf i r.reads)
  known : ∀ e ∈ r.reads, e.stream < r.streams.length

theorem sound_of (s : Server) (x : Snapshot) : (of s x).Sound x where
  copies := by
    intro y mem
    rw [List.mem_singleton.mp mem]
    exact .refl x
  streams := by
    intro i k opened
    cases opened
  known := by
    intro e mem
    cases mem

theorem Sound.freeze (sound : r.Sound x) {a : Nat} (done : r.step (.freeze a) = some t) :
    t.Sound x := by
  simp only [step, Option.map_eq_some_iff] at done
  obtain ⟨y, there, done⟩ := done
  obtain ⟨z, frozen, alike⟩ := r.server.freeze_replayed y
  rcases answer : r.server.freeze (.replayed y) with ⟨result, s⟩
  rw [answer] at frozen done
  dsimp only at frozen
  subst frozen
  subst done
  refine ⟨?_, sound.streams, sound.known⟩
  intro w mem
  rcases List.mem_append.mp mem with old | new
  · exact sound.copies w old
  · rw [List.mem_singleton.mp new]
    exact alike.trans (sound.copies y (List.mem_of_getElem? there))

theorem Sound.stream (sound : r.Sound x) {a : Nat} (done : r.step (.stream a) = some t) :
    t.Sound x := by
  simp only [step, Option.map_eq_some_iff] at done
  obtain ⟨y, there, rfl⟩ := done
  have alike := sound.copies y (List.mem_of_getElem? there)
  refine ⟨sound.copies, ?_, ?_⟩
  · intro i k opened
    rw [List.getElem?_append] at opened
    split at opened
    · exact sound.streams i k opened
    · rename_i beyond
      have unread : ∀ e ∈ r.reads, e.stream ≠ i := by
        intro e mem same
        have := sound.known e mem
        omega
      obtain ⟨asked, got⟩ := Reading.nothing_of_unread unread
      have new : k = .new y.body := (List.mem_singleton.mp (List.mem_of_getElem? opened))
      rw [asked, got, new, alike.body]
      exact ⟨.new x.body, rfl⟩
  · intro e mem
    have := sound.known e mem
    rw [List.length_append]
    omega

theorem Sound.read (sound : r.Sound x) {i n : Nat} (done : r.step (.read i n) = some t) :
    t.Sound x := by
  simp only [step, Option.map_eq_some_iff] at done
  obtain ⟨k, there, rfl⟩ := done
  obtain ⟨inside, _⟩ := List.getElem?_eq_some_iff.mp there
  refine ⟨sound.copies, ?_, ?_⟩
  · intro j k' opened
    rw [List.getElem?_set] at opened
    by_cases same : i = j
    · subst same
      obtain ⟨past, got⟩ := sound.streams i k there
      obtain ⟨past', more⟩ := past.read n
      simp only [inside, if_true, Option.some.injEq] at opened
      subst opened
      dsimp only
      rw [Reading.asksOf_self, Reading.bytesOf_self, got]
      exact ⟨past', more⟩
    · rw [if_neg same] at opened
      dsimp only
      rw [Reading.asksOf_other same, Reading.bytesOf_other same]
      exact sound.streams j k' opened
  · intro e mem
    rw [List.length_set]
    rcases List.mem_append.mp mem with old | new
    · exact sound.known e old
    · rw [List.mem_singleton.mp new]
      exact inside

theorem Sound.step (sound : r.Sound x) {u : Use} (done : r.step u = some t) : t.Sound x := by
  cases u with
  | freeze a => exact sound.freeze done
  | stream a => exact sound.stream done
  | read i n => exact sound.read done

theorem Sound.run (sound : r.Sound x) {uses : List Use} (ran : r.run uses = some t) :
    t.Sound x := by
  induction uses generalizing r with
  | nil =>
    cases ran
    exact sound
  | cons u rest ih =>
    obtain ⟨r', first, ran⟩ := Option.bind_eq_some_iff.mp ran
    exact ih (sound.step first) ran

end Readers

namespace Readers

/-- What a stream gave and what it still has to give are the whole body. -/
theorem Sound.whole {x : Snapshot} {r : Readers} (sound : r.Sound x) {i : Nat} {k : KnownStream}
    (opened : r.streams[i]? = some k) : Reading.bytesOf i r.reads ++ k.readAll.1 = x.body := by
  obtain ⟨past, got⟩ := sound.streams i k opened
  rw [got, past.readAll, List.take_append_drop]

end Readers

/-- **Streams of a snapshot are complete and independent.** A body can be frozen exactly if it is a
stream of known length, and the snapshot takes over the header, the text mark and the whole buffer,
wherever the stream stood. Let then the snapshot be frozen again, its streams be opened and read in
any order, any number of times and into buffers of any size. All snapshots are alike, and each can
be frozen once more. What the reads of a stream gave is the beginning of the body, as long as their
buffers together; the rest remains, the stream never leaves its buffer, and a read into a buffer
that has room gives nothing exactly at the end. -/
theorem streams_complete_and_independent (s : Server) (b : Body) :
    ((∃ x, (s.freeze b).1 = .ok x) ↔ ∃ k, (s.deliver b).1.stream = .known k) ∧
    ∀ x t, s.freeze b = (.ok x, t) →
      (∃ k, x.Captures (s.deliver b).1 k) ∧
      ∀ uses r, (Readers.of t x).run uses = some r →
        (∀ y ∈ r.snapshots, y.Alike x ∧
          ∃ z, (r.server.freeze (.replayed y)).1 = .ok z ∧ z.Alike x) ∧
        ∀ i k, r.streams[i]? = some k →
          k.data = x.body ∧ k.position ≤ k.data.length ∧
          Reading.bytesOf i r.reads =
            x.body.take (min (Reading.asksOf i r.reads) x.body.length) ∧
          k.remaining = x.body.length - min (Reading.asksOf i r.reads) x.body.length ∧
          ∀ n, 0 < n → ((k.read n).1 = [] ↔ k.remaining = 0) := by
  constructor
  · rcases s.freeze_cases b with ⟨k, x, frozen, captures⟩ | ⟨unknown, e, failed⟩
    · exact ⟨fun _ => ⟨k, captures.stream⟩, fun _ => ⟨x, frozen⟩⟩
    · constructor
      · rintro ⟨x, frozen⟩
        rw [failed] at frozen
        cases frozen
      · rintro ⟨k, known⟩
        rw [known] at unknown
        cases unknown
  · intro x t done
    constructor
    · rcases s.freeze_cases b with ⟨k, y, frozen, captures⟩ | ⟨_, e, failed⟩
      · rw [done] at frozen
        cases frozen
        exact ⟨k, captures⟩
      · rw [done] at failed
        cases failed
    · intro uses r ran
      have sound := (Readers.sound_of t x).run ran
      constructor
      · intro y mem
        have alike := sound.copies y mem
        obtain ⟨z, frozen, again⟩ := r.server.freeze_replayed y
        exact ⟨alike, z, frozen, again.trans alike⟩
      · intro i k opened
        obtain ⟨past, got⟩ := sound.streams i k opened
        refine ⟨past.data, past.inside, ?_, past.remaining, fun n => past.read_eq_nil_iff⟩
        rw [got, List.take_eq_take_min]

/-- A response whose stream was partly read before. -/
def partlyRead : Response := ⟨.ok 0, .known ⟨[1, 2, 3], 2⟩, false⟩

/-- Two readers of its snapshot, one of them through a copy. -/
theorem two_readers : ∃ x t r, (default : Server).freeze (.fresh partlyRead) = (.ok x, t) ∧
    (Readers.of t x).run [.stream 0, .freeze 0, .read 0 2, .stream 1, .read 1 5, .read 0 0] =
      some r ∧
    Reading.bytesOf 0 r.reads = [1, 2] ∧ Reading.bytesOf 1 r.reads = [1, 2, 3] := by
  obtain ⟨x, t, frozen, body, r, ran, ⟨k, first, asked⟩, ⟨k', second, asked'⟩⟩ : ∃ x t,
      (default : Server).freeze (.fresh partlyRead) = (.ok x, t) ∧ x.body = [1, 2, 3] ∧ ∃ r,
      (Readers.of t x).run [.stream 0, .freeze 0, .read 0 2, .stream 1, .read 1 5, .read 0 0] =
        some r ∧
      (∃ k, r.streams[0]? = some k ∧ Reading.asksOf 0 r.reads = 2) ∧
      ∃ k, r.streams[1]? = some k ∧ Reading.asksOf 1 r.reads = 5 :=
    ⟨_, _, rfl, rfl, _, rfl, ⟨_, rfl, rfl⟩, ⟨_, rfl, rfl⟩⟩
  have all := (streams_complete_and_independent _ _).2 x t frozen
  obtain ⟨_, _, bytes, _⟩ := (all.2 _ r ran).2 0 k first
  obtain ⟨_, _, bytes', _⟩ := (all.2 _ r ran).2 1 k' second
  refine ⟨x, t, r, frozen, ran, ?_, ?_⟩
  · rw [bytes, asked, body]
    rfl
  · rw [bytes', asked', body]
    rfl

end Docroot
