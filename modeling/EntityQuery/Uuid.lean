import EntityQuery.Text.Basic

/-!
# Universally unique identifiers

An identifier is a number of 128 bits.  It is written in groups of 8, 4, 4, 4 and 12 lower-case
hexadecimal digits, and read in any case, in groups or without, in braces or as a resource name.
-/

namespace EntityQuery

/-- An identifier of 128 bits. -/
structure Uuid where
  bits : BitVec 128
  deriving DecidableEq, Repr

namespace Uuid

/-- Identifiers are ordered by their bits, the most significant first. -/
protected def compare (a b : Uuid) : Ordering := compare a.bits.toNat b.bits.toNat

/-! ## Reading -/

/-- An identifier of exactly 32 digits. -/
def ofDigits? (cs : List Char) : Option Uuid :=
  if cs.length = 32 then (Text.hexNumber? cs).map fun n => ⟨BitVec.ofNat 128 n⟩ else none

/-- An identifier in groups. -/
def ofGroups? (cs : List Char) : Option Uuid :=
  let groups := cs.splitOn '-'
  if groups.map List.length = [8, 4, 4, 4, 12] then ofDigits? groups.flatten else none

/-- The text between braces. -/
def inBraces? : List Char → Option (List Char)
  | '\x7b' :: rest => if rest.getLast? = some '\x7d' then some rest.dropLast else none
  | _ => none

/-- What follows the name space of identifiers, written in any case. -/
def asResource? (cs : List Char) : Option (List Char) :=
  if (cs.take 9).map Char.toLower = "urn:uuid:".toList then some (cs.drop 9) else none

/-- The identifier of a text. -/
def read? (text : String) : Option Uuid :=
  let cs := text.toList
  ofDigits? cs
    <|> ofGroups? cs
    <|> (inBraces? cs).bind ofGroups?
    <|> (asResource? cs).bind ofGroups?

/-! ## Writing -/

/-- The 32 hexadecimal digits. -/
def digits (u : Uuid) : List Char :=
  let ds := Nat.toDigits 16 u.bits.toNat
  List.replicate (32 - ds.length) '0' ++ ds

/-- The text of an identifier. -/
def text (u : Uuid) : String :=
  let ds := u.digits
  String.ofList (ds.take 8 ++ '-' :: (ds.drop 8).take 4 ++ '-' :: (ds.drop 12).take 4 ++ '-' ::
    (ds.drop 16).take 4 ++ '-' :: ds.drop 20)

end Uuid

end EntityQuery
