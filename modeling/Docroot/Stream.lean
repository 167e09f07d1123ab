import Docroot.Text.Quoted
import Docroot.Text.Utf8
/-!
Byte streams of response bodies.

A stream of known length reads from a buffer that never changes; only its position moves. A stream
of unknown length is known by what it will still give.
-/
namespace Docroot

open Utf8 (Bytes)

/-- A buffer and how far it was read. -/
structure KnownStream where
  data : Bytes
  position : Nat
  deriving DecidableEq, Repr, Inhabited

namespace KnownStream

/-- A stream at the start of its buffer. -/
def new (data : Bytes) : KnownStream := ⟨data, 0⟩

/-- The length of the whole buffer, wherever the position is. -/
def length (s : KnownStream) : Nat := s.data.length

def isEmpty (s : KnownStream) : Bool := s.data.isEmpty

/-- How many bytes are left to read. -/
def remaining (s : KnownStream) : Nat := s.data.length - s.position

/-- One read into a buffer for `n` bytes. -/
def read (s : KnownStream) (n : Nat) : Bytes × KnownStream :=
  let got := (s.data.drop s.position).take n
  (got, { s with position := s.position + got.length })

/-- Reads all that is left. -/
def readAll (s : KnownStream) : Bytes × KnownStream := s.read s.remaining

def describe (s : KnownStream) : String :=
  Quoted.record "KnownLengthStream"
    [("len", toString s.length), ("position", toString s.position)]

end KnownStream

inductive BodyStream where
  | known (stream : KnownStream)
  /-- Made on the fly; `rest` is what is still to come. -/
  | unknown (rest : Bytes)
  deriving DecidableEq, Repr

instance : Inhabited BodyStream := ⟨.unknown []⟩

namespace BodyStream

/-- The length of the whole body, where it is known before reading. -/
def length? : BodyStream → Option Nat
  | known s => some s.length
  | unknown _ => none

/-- The stream of known length, if this is one. -/
def known? : BodyStream → Option KnownStream
  | known s => some s
  | unknown _ => none

def read (b : BodyStream) (n : Nat) : Bytes × BodyStream :=
  match b with
  | known s => let (got, s) := s.read n; (got, known s)
  | unknown rest => (rest.take n, unknown (rest.drop n))

/-- Reads all that is left. -/
def readAll (b : BodyStream) : Bytes × BodyStream :=
  match b with
  | known s => let (got, s) := s.readAll; (got, known s)
  | unknown rest => (rest, unknown [])

def describe : BodyStream → String
  | known s => Quoted.wrap "Known" s.describe
  | unknown _ => "Unknown"

end BodyStream

end Docroot
