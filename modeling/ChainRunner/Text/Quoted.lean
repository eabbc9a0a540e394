import ChainRunner.Text.Hidden

/-!
Texts in double quotes, every character that would not show written as an escape.
-/

namespace ChainRunner.Text

/-- Lower-case hexadecimal digits. -/
def hex (n : Nat) : String := String.ofList (Nat.toDigits 16 n)

def escape (special : List Char) (c : Char) : String :=
  if c = '\x00' then "\\0"
  else if c = '\t' then "\\t"
  else if c = '\n' then "\\n"
  else if c = '\r' then "\\r"
  else if c ∈ special then "\\" ++ c.toString
  else if isHidden c then "\\u\x7b" ++ hex c.toNat ++ "\x7d"
  else c.toString

def quoteWith (special : List Char) (s : String) : String :=
  "\"" ++ String.join (s.toList.map (escape special)) ++ "\""

/-- A text in quotes; quotes and backslashes are escaped. -/
def quote (s : String) : String := quoteWith ['"', '\\'] s

/-- A path in quotes; an apostrophe is escaped too. -/
def quotePath (s : String) : String := quoteWith ['"', '\\', '\''] s

end ChainRunner.Text
