import LoadOrder.Toml.Quoted

/-!
# Writing TOML

Lines of keys with their values.  An array of more than one text has a line for each of them.
-/

namespace LoadOrder.Toml

/-- An array of texts. -/
def arrayText : List String → List Char
  | [] => ['[', ']']
  | [item] => '[' :: (quote item ++ [']'])
  | items => '[' :: '\n' :: (items.flatMap fun item =>
      "    ".toList ++ quote item ++ [',', '\n']) ++ [']']

/-- A line with a bare key and the text of its value. -/
def keyLine (key : String) (value : List Char) : List Char :=
  key.toList ++ " = ".toList ++ value ++ ['\n']

end LoadOrder.Toml
