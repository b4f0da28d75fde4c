/-!
# Source positions

A position is a line and a column, both counted from one.  Columns count characters, and only a
line feed ends a line.

## Main definitions

* `Position.step p c`: the position after the character `c` at `p`
* `Position.advance p cs`: the position after the characters `cs` at `p`
-/

namespace MonkeyLang

/-- A place in a source text: line and column, both counted from one. -/
structure Position where
  /-- The line, counted from one. -/
  line : Nat
  /-- The column in characters, counted from one. -/
  column : Nat
deriving DecidableEq

namespace Position

/-- The position of the first character of a text. -/
def start : Position := ⟨1, 1⟩

/-- The position after `c`: a line feed opens the next line, any other character takes one
column. -/
def step (p : Position) (c : Char) : Position :=
  if c = '\n' then ⟨p.line + 1, 1⟩ else ⟨p.line, p.column + 1⟩

/-- The position after all the characters `cs`. -/
def advance (p : Position) (cs : List Char) : Position := cs.foldl step p

@[simp]
theorem advance_nil (p : Position) : p.advance [] = p := rfl

@[simp]
theorem advance_cons (p : Position) (c : Char) (cs : List Char) :
    p.advance (c :: cs) = (p.step c).advance cs := rfl

/-- Two stretches of text advance a position one after the other. -/
theorem advance_append (p : Position) (cs ds : List Char) :
    p.advance (cs ++ ds) = (p.advance cs).advance ds := by
  simp [advance]

end Position

end MonkeyLang
