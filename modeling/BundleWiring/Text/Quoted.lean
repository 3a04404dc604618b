import BundleWiring.Text.Unprintable

/-!
# Quoted Texts

A quoted text stands between double quotes. Quotes and backslashes inside are preceded by a
backslash, tab, newline, carriage return and the null character have short names, and other
unprintable characters are written by their number in hexadecimal.
-/

namespace BundleWiring.Text

/-- One character inside a quoted text. -/
def quotedChar (c : Char) : List Char :=
  match c with
  | '"' => ['\\', '"']
  | '\\' => ['\\', '\\']
  | '\t' => ['\\', 't']
  | '\n' => ['\\', 'n']
  | '\r' => ['\\', 'r']
  | '\x00' => ['\\', '0']
  | c =>
    if isUnprintable c then '\\' :: 'u' :: '\x7b' :: Nat.toDigits 16 c.toNat ++ ['\x7d'] else [c]

/-- The quoted form of a text. -/
def quoted (s : String) : String :=
  String.ofList ('"' :: s.toList.flatMap quotedChar ++ ['"'])

end BundleWiring.Text
