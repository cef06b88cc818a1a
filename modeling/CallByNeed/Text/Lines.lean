/-!
# Lines of a text

A newline ends a line.  The carriage return right before a newline belongs to the line's end and
not to the line, and the empty stretch behind the last newline is not a line.
-/

namespace CallByNeed.Text

/-- Cuts at every newline; what stands behind the last newline is the last piece. -/
def pieces : List Char → List (List Char)
  | [] => [[]]
  | c :: cs =>
    match pieces cs with
    | [] => [[c]]
    | piece :: rest => if c = '\n' then [] :: piece :: rest else (c :: piece) :: rest

/-- Drops a carriage return from the end of a line. -/
def dropReturn (cs : List Char) : List Char :=
  if cs.getLast? = some '\r' then cs.dropLast else cs

/-- Strips the carriage return of every line that a newline ends, and drops the last piece if
nothing stands in it. -/
def closeLines : List (List Char) → List (List Char)
  | [] => []
  | [last] => if last.isEmpty then [] else [last]
  | line :: rest => dropReturn line :: closeLines rest

/-- The lines of a text. -/
def lines (s : String) : List String :=
  (closeLines (pieces s.toList)).map String.ofList

end CallByNeed.Text
