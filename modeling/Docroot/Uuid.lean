/-!
Identifiers of 128 bits and their text: 32 digits in groups of 8, 4, 4, 4 and 12.
-/
namespace Docroot

structure Uuid where
  value : Nat
  deriving DecidableEq, Repr, Inhabited

namespace Uuid

def digits (id : Uuid) : List Char :=
  let ds := Nat.toDigits 16 (id.value % (1 <<< 128))
  List.replicate (32 - ds.length) '0' ++ ds

def text (id : Uuid) : String :=
  let ds := id.digits
  String.ofList (ds.take 8 ++ '-' :: (ds.drop 8).take 4 ++ '-' :: (ds.drop 12).take 4 ++
    '-' :: (ds.drop 16).take 4 ++ '-' :: ds.drop 20)

/-- The value of a hexadecimal digit of either case. -/
def digit? (c : Char) : Option Nat :=
  if '0' ≤ c ∧ c ≤ '9' then some (c.toNat - '0'.toNat)
  else if 'a' ≤ c ∧ c ≤ 'f' then some (c.toNat - 'a'.toNat + 10)
  else if 'A' ≤ c ∧ c ≤ 'F' then some (c.toNat - 'A'.toNat + 10)
  else none

/-- Reads 32 digits. -/
def ofDigits? (ds : List Char) : Option Uuid :=
  if ds.length = 32 then (ds.mapM digit?).map fun ds => ⟨ds.foldl (fun n d => 16 * n + d) 0⟩
  else none

/-- Reads 32 digits with the hyphens between the groups. -/
def ofGroups? (cs : List Char) : Option Uuid :=
  if cs.length = 36 ∧ [8, 13, 18, 23].all (fun i => cs[i]? == some '-') then
    ofDigits? (cs.filter (· ≠ '-'))
  else none

/-- What may stand in front of the groups. -/
def scheme : List Char := "urn:uuid:".toList

/-- Reads an identifier: its digits alone, or the groups of them, bare, between braces or behind
the scheme in either case. -/
def ofText? (s : String) : Option Uuid :=
  let cs := s.toList
  if cs.length = 32 then ofDigits? cs
  else if cs.head? = some '\x7b' ∧ cs.getLast? = some '\x7d' then ofGroups? (cs.drop 1).dropLast
  else if scheme = (cs.take scheme.length).map Char.toLower then ofGroups? (cs.drop scheme.length)
  else ofGroups? cs

end Uuid

end Docroot
