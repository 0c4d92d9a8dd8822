import MongoShell.Bytes.Hex

/-!
UUIDs in text: 32 hexadecimal digits, or the same in groups of 8, 4, 4, 4 and 12 parted by hyphens;
the grouped form may stand in braces or behind `urn:uuid:`, in letters of either case.
-/

namespace MongoShell

/-- The digits of a text in groups, if its hyphens are where they belong. -/
def ungroupUuid? (text : List Char) : Option (List Char) :=
  let hyphens := [8, 13, 18, 23]
  if text.length = 36 ∧ hyphens.all (text[·]? == some '-') then
    some (text.take 8 ++ (text.drop 9).take 4 ++ (text.drop 14).take 4 ++ (text.drop 19).take 4
      ++ text.drop 24)
  else none

/-- The grouped form inside the braces or behind the scheme, if there are such. -/
def unwrapUuid (text : List Char) : List Char :=
  if text.length = 38 ∧ text.head? = some '{' ∧ text.getLast? = some '}' then
    (text.drop 1).dropLast
  else if text.length = 45 ∧ (text.take 9).map Char.toLower = "urn:uuid:".toList then text.drop 9
  else text

/-- The 16 bytes of a UUID. -/
def uuidBytes? (text : List Char) : Option (List UInt8) :=
  if text.length = 32 then hexBytes? text
  else (ungroupUuid? (unwrapUuid text)).bind hexBytes?

end MongoShell
