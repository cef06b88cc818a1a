import CallByNeed.Text.Combining

/-!
# Quoted names

A listing shows the name of an identifier or an operator between double quotes.  Names hold
letters, numerals, underscores, apostrophes and operator characters, so neither a quote nor a
backslash can occur in one; what has to be spelled by number are the combining characters and the
fillers.
-/

namespace CallByNeed.Text

/-- A character of a quoted name: a combining character or a filler by its hexadecimal number, any
other as it is. -/
def quotedChar (c : Char) : List Char :=
  if isCombining c || isFiller c then
    "\\u\x7b".toList ++ Nat.toDigits 16 c.toNat ++ ['\x7d']
  else [c]

/-- A name between double quotes. -/
def quoted (s : String) : String :=
  String.ofList ('"' :: s.toList.flatMap quotedChar ++ ['"'])

end CallByNeed.Text
