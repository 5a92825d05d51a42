import RowSpec.Text.Hidden

/-! Text in double quotes with every character visible: quotes, backslashes and line breaks are
escaped, and a character that does not show is given by its number. -/
namespace RowSpec.Text

def escapeByNumber (c : Char) : List Char :=
  ['\\', 'u', '\x7b'] ++ Nat.toDigits 16 c.toNat ++ ['\x7d']

def showChar (c : Char) : List Char :=
  if c = '\x00' then ['\\', '0']
  else if c = '\t' then ['\\', 't']
  else if c = '\r' then ['\\', 'r']
  else if c = '\n' then ['\\', 'n']
  else if c = '\\' ∨ c = '"' then ['\\', c]
  else if isHidden c then escapeByNumber c
  else [c]

def visible (s : String) : String :=
  String.ofList ('"' :: (s.toList.flatMap showChar ++ ['"']))

end RowSpec.Text
