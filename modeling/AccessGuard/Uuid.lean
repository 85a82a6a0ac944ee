import AccessGuard.Text.Hex

/-!
# Identifiers of principals

Universally unique identifiers: 32 hexadecimal digits. They are read in four spellings, all
letters in either case, and written in one.

* `Uuid.read?`: plain, with hyphens, in braces, and as a name in the `urn:uuid:` space.
* `Uuid.text`: with hyphens, in lower case.
-/

namespace AccessGuard

/-- An identifier by its digits. -/
structure Uuid where
  digits : List (Fin 16)
  length_eq : digits.length = 32
deriving DecidableEq

namespace Uuid

/-- The identifier of 32 digits without hyphens. -/
def ofDigits? (cs : List Char) : Option Uuid :=
  match cs.mapM hexDigit? with
  | some digits => if h : digits.length = 32 then some ⟨digits, h⟩ else none
  | none => none

/-- Hyphens stand after 8, 12, 16 and 20 digits. -/
def ofGroups? (cs : List Char) : Option Uuid :=
  match cs.splitOn '-' with
  | [a, b, c, d, e] =>
    if [a, b, c, d, e].map List.length = [8, 4, 4, 4, 12] then ofDigits? (a ++ b ++ c ++ d ++ e)
    else none
  | _ => none

/-- Whether a text stands in the `urn:uuid:` space, whose name is read in either case. -/
def inUrnSpace (cs : List Char) : Bool :=
  (cs.take 9).map Char.toLower == ['u', 'r', 'n', ':', 'u', 'u', 'i', 'd', ':']

/-- Reads an identifier in any of its spellings. Within braces and in the `urn:uuid:` space the
hyphens are needed. -/
def read? (text : String) : Option Uuid :=
  match text.toList with
  | '\x7b' :: cs =>
    match cs.reverse with
    | '\x7d' :: inner => ofGroups? inner.reverse
    | _ => none
  | cs =>
    if inUrnSpace cs then ofGroups? (cs.drop 9)
    else if cs.contains '-' then ofGroups? cs
    else ofDigits? cs

/-- Digits with a hyphen before each group but the first. -/
def groupedText (cs : List Char) : List Char :=
  cs.take 8 ++ '-' :: (cs.drop 8).take 4 ++ '-' :: (cs.drop 12).take 4 ++
    '-' :: (cs.drop 16).take 4 ++ '-' :: cs.drop 20

/-- The one spelling in which identifiers are written. -/
def text (u : Uuid) : String := .ofList (groupedText (u.digits.map fun d => Nat.digitChar d.val))

/-- The version is the thirteenth digit. -/
def version (u : Uuid) : Nat := (u.digits[12]?.map Fin.val).getD 0

/-- An identifier made from a time in milliseconds and 74 bits of chance: the time first, so
that later identifiers are greater, then the version 7, and the variant before the rest. -/
def ofTime (milliseconds chance : Nat) : Uuid :=
  let digit (n i : Nat) : Fin 16 := lastDigit (n / Nat.pow 16 i)
  let time := (List.range 12).reverse.map (digit milliseconds)
  let high := (List.range 3).reverse.map (digit chance)
  let low := (List.range 15).reverse.map (digit (chance / 0x1000))
  let variant := lastDigit (8 + chance / 0x1000000000000000000 % 4)
  ⟨time ++ lastDigit 7 :: high ++ variant :: low, rfl⟩

end Uuid

end AccessGuard
