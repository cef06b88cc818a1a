/-!
# Positions in a source text

A position names a place in a text three ways at once: by the number of bytes before it, and by
the line and the column it is written in.  Lines and columns count from one, and columns count
characters.  A span is the stretch between two positions; its end index is exclusive while its
end column is inclusive, so that a span of one character starts and ends in the same column.
-/

namespace CallByNeed

/-- A place in a text: `index` bytes from its beginning, in line `line` and column `column`. -/
structure Position where
  index : Nat
  line : Nat
  column : Nat
deriving DecidableEq, Repr, Inhabited

namespace Position

/-- The beginning of every text. -/
def start : Position :=
  ⟨0, 1, 1⟩

/-- The place behind `c`, when `c` stands at `p`. -/
def after (p : Position) (c : Char) : Position :=
  if c = '\n' then ⟨p.index + c.utf8Size, p.line + 1, 1⟩
  else ⟨p.index + c.utf8Size, p.line, p.column + 1⟩

/-- The place behind the characters `cs`, when they stand at `p`. -/
def advance (p : Position) (cs : List Char) : Position :=
  cs.foldl after p

@[simp]
theorem advance_nil (p : Position) : p.advance [] = p :=
  rfl

@[simp]
theorem advance_cons (p : Position) (c : Char) (cs : List Char) :
    p.advance (c :: cs) = (p.after c).advance cs :=
  rfl

/-- **Advancing is done in any number of steps.** -/
theorem advance_append (p : Position) (cs ds : List Char) :
    p.advance (cs ++ ds) = (p.advance cs).advance ds :=
  List.foldl_append

end Position

/-- The stretch of a text from `start` to `stop`. -/
structure Span where
  start : Position
  stop : Position
deriving DecidableEq, Repr, Inhabited

namespace Span

/-- The span of what does not come from a text: six zeros. -/
def unknown : Span :=
  ⟨⟨0, 0, 0⟩, ⟨0, 0, 0⟩⟩

/-- The empty stretch at a place. -/
def point (p : Position) : Span :=
  ⟨p, p⟩

/-- The stretch between two places, the second of which is the place behind the last character:
the end column is that of the last character itself. -/
def between (p q : Position) : Span :=
  ⟨p, { q with column := q.column - 1 }⟩

/-- The smallest stretch that covers both spans: the start with the smaller index and the end with
the larger one, those of `a` if the indices are equal. -/
def merge (a b : Span) : Span where
  start := if a.start.index > b.start.index then b.start else a.start
  stop := if a.stop.index < b.stop.index then b.stop else a.stop

/-- The line and column in which a span starts, as `line:column`. -/
def text (s : Span) : String :=
  toString s.start.line ++ ":" ++ toString s.start.column

@[simp]
theorem merge_self (s : Span) : s.merge s = s := by
  simp [merge]

end Span

/-- A value together with the span it was read from. -/
structure Located (α : Type) where
  value : α
  span : Span
deriving DecidableEq, Repr, Inhabited

end CallByNeed
