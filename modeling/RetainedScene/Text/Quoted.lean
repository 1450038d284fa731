import RetainedScene.Text.Printable

/-!
# Quoted text

`quoted` writes a text between double quotes so that every character of it can be seen: a quote
and a backslash take a backslash, the tab, the two line breaks and NUL have a letter of their own,
and a character that is not printable is written by its code point.  An apostrophe stays.
-/

namespace RetainedScene.Text

/-- A code point as `\u` and its hexadecimal digits between braces. -/
def codePoint (c : Char) : List Char :=
  ['\\', 'u', '\x7b'] ++ Nat.toDigits 16 c.toNat ++ ['\x7d']

/-- The written form of one character. -/
def escaped (c : Char) : List Char :=
  match c with
  | '"' => ['\\', '"']
  | '\\' => ['\\', '\\']
  | '\t' => ['\\', 't']
  | '\n' => ['\\', 'n']
  | '\r' => ['\\', 'r']
  | '\x00' => ['\\', '0']
  | _ => if isPrintable c then [c] else codePoint c

def quoted (s : String) : String :=
  String.ofList ('"' :: s.toList.flatMap escaped ++ ['"'])

end RetainedScene.Text
