/-! Writing JSON without blanks. -/
namespace RowSpec.Json

def hexDigit (n : Nat) : Char := Nat.digitChar n

def writeChar (c : Char) : List Char :=
  if c = '"' then ['\\', '"']
  else if c = '\\' then ['\\', '\\']
  else if c = '\x08' then ['\\', 'b']
  else if c = '\x0c' then ['\\', 'f']
  else if c = '\n' then ['\\', 'n']
  else if c = '\r' then ['\\', 'r']
  else if c = '\t' then ['\\', 't']
  else if c < ' ' then ['\\', 'u', '0', '0', hexDigit (c.toNat / 16), hexDigit (c.toNat % 16)]
  else [c]

def writeString (s : String) : List Char := '"' :: (s.toList.flatMap writeChar ++ ['"'])

def separate : List (List Char) → List Char
  | [] => []
  | [item] => item
  | item :: items => item ++ ',' :: separate items

def writeList (items : List (List Char)) : List Char := '[' :: (separate items ++ [']'])

def writeMember (member : String × List Char) : List Char :=
  writeString member.1 ++ ':' :: member.2

def writeObject (members : List (String × List Char)) : List Char :=
  '\x7b' :: (separate (members.map writeMember) ++ ['\x7d'])

end RowSpec.Json
