import BundleWiring.Text.Blank

/-!
# Delimited Lists

A delimited list is a text that delimiters cut into tokens. A backslash takes the next character
literally and is dropped, and between double quotes no delimiter cuts; the quotes stay in the
token. There is no malformed list. An empty token at the end is left out.
-/

namespace BundleWiring.Text

/-- The first token of a text and the tokens after it. `inside` says whether the text starts
between quotes. A backslash at the very end is dropped. -/
def splitTokens (isDelimiter : Char → Bool) : Bool → List Char → List Char × List (List Char)
  | _, [] => ([], [])
  | _, ['\\'] => ([], [])
  | inside, '\\' :: c :: s => (splitTokens isDelimiter inside s).map (c :: ·) id
  | inside, c :: s =>
    if !inside && isDelimiter c then
      let (token, tokens) := splitTokens isDelimiter false s
      ([], token :: tokens)
    else
      (splitTokens isDelimiter (inside != (c == '"')) s).map (c :: ·) id

/-- The tokens of a list, without an empty one at the end. -/
def tokens (isDelimiter : Char → Bool) (s : List Char) : List (List Char) :=
  let (first, others) := splitTokens isDelimiter false s
  let all := first :: others
  if all.getLast? = some [] then all.dropLast else all

/-- The tokens of a list as strings. With `trimmed`, blanks around them are removed; this does not
decide which token is empty and left out. -/
def delimited (text delimiters : String) (trimmed : Bool) : List String :=
  (tokens delimiters.toList.contains text.toList).map fun token =>
    String.ofList (if trimmed then trim token else token)

end BundleWiring.Text
