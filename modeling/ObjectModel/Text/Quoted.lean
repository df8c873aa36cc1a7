import ObjectModel.Text.Hidden

/-!
# Texts in quotes

The quoted form of a text escapes quotes, backslashes and every character without a visible form
of its own, so that it can be read on one line.
-/

namespace ObjectModel.Quoted

def code (char : Char) : List Char :=
  '\\' :: 'u' :: '\x7b' :: (Nat.toDigits 16 char.toNat ++ ['\x7d'])

/-- A character inside quotes. -/
def escape (char : Char) : List Char :=
  if char = '"' || char = '\\' then ['\\', char]
  else if char = '\n' then ['\\', 'n']
  else if char = '\r' then ['\\', 'r']
  else if char = '\t' then ['\\', 't']
  else if char = '\x00' then ['\\', '0']
  else if Hidden.contains char then code char
  else [char]

def quote (text : String) : String :=
  String.ofList ('"' :: (text.toList.flatMap escape ++ ['"']))

end ObjectModel.Quoted
