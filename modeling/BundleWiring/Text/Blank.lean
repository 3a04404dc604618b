/-!
# Blank Characters

The characters that are ignored around versions, numbers, header keys and header values: those
with the Unicode property `White_Space`. Texts are handled as lists of characters; `trimText` is
the same operation on `String`.
-/

namespace BundleWiring.Text

/-- The characters with the Unicode property `White_Space`. The zero width space, the byte order
mark and the information separators are not among them. -/
def isBlank (c : Char) : Bool :=
  let n := c.toNat
  (0x09 ≤ n && n ≤ 0x0D) || n == 0x20 || n == 0x85 || n == 0xA0 || n == 0x1680 ||
    (0x2000 ≤ n && n ≤ 0x200A) || n == 0x2028 || n == 0x2029 || n == 0x202F || n == 0x205F ||
    n == 0x3000

/-- A text without the blanks it starts with. -/
def trimStart (s : List Char) : List Char :=
  s.dropWhile isBlank

/-- A text without the blanks it ends with. -/
def trimEnd (s : List Char) : List Char :=
  (s.reverse.dropWhile isBlank).reverse

/-- A text without the blanks at either end. -/
def trim (s : List Char) : List Char :=
  trimEnd (trimStart s)

/-- `trim` on strings. -/
def trimText (s : String) : String :=
  String.ofList (trim s.toList)

end BundleWiring.Text
