import MonkeyLang.Diagnostic
import MonkeyLang.Token.Scan

/-!
# Reading a token stream

A reader goes through the tokens of a source text from left to right.  Its state is the tokens
from the current one on; behind the last of them the end token stands for ever.  A reader either
succeeds with a result or fails, and in both cases it leaves the tokens it has not read and the
diagnostics it has recorded, the most recent one first.

Readers look at two tokens: the current one, and the one behind it.  By convention a reader starts
with its first token as the current one and ends with its last token as the current one.

The grammar is written in terms of a few elementary readers, and not of how they read.

## Main definitions

* `ParseState`, `ParseState.current`, `ParseState.peek`: the two tokens in view
* `Reading`: what has the elementary readers, with `Reading.expect` and `Reading.skip` made of them
* `Parse`: readers as functions of the state, with their composition
-/

namespace MonkeyLang

universe u

/-- The state of a reader. -/
structure ParseState where
  /-- The tokens from the current one on. -/
  ahead : List Token
  /-- Where the text ends. -/
  stop : Position
  /-- What has been found wrong, the most recent first. -/
  diagnostics : List Diagnostic

namespace ParseState

/-- The state at the start of a token stream. -/
def start (stream : TokenStream) : ParseState := ⟨stream.tokens, stream.stop, []⟩

/-- The current token. -/
def current (s : ParseState) : Token := s.ahead.headD (.finish s.stop)

/-- The token behind the current one. -/
def peek (s : ParseState) : Token := s.ahead.tail.headD (.finish s.stop)

/-- How many tokens are left, the current one included. -/
def remaining (s : ParseState) : Nat := s.ahead.length

end ParseState

/-- What has the elementary readers, of which the grammar is made. -/
class Reading (M : Type → Type u) [Monad M] where
  /-- The current token. -/
  current : M Token
  /-- The token behind the current one. -/
  peek : M Token
  /-- Goes to the next token. -/
  advance : M Unit
  /-- Fails with a diagnostic at a place. -/
  complain {α : Type} (position : Position) (c : Complaint) : M α
  /-- Runs a reader and never fails: the result says whether it did. -/
  attempt {α : Type} (inner : M α) : M (Option α)
  /-- Repeats a reader as long as `more` holds of the state, and fails if one round fails.  A round
  that reads no token is the last. -/
  many {α : Type} (more : ParseState → Bool) (round : M α) : M (List α)

namespace Reading

variable {M : Type → Type u} [Monad M] [Reading M]

/-- Goes to the next token if it is of the kind that is due, and complains about it otherwise. -/
def expect (due : Token.Kind) : M Unit := do
  let next : Token ← peek
  if next.kind = due then advance else complain next.position (.unexpected due next)

/-- Goes to the next token if it is of the given kind. -/
def skip (kind : Token.Kind) : M Unit := do
  let next : Token ← peek
  if next.kind = kind then advance else return

end Reading

/-- A reader of tokens with results in `α`. -/
def Parse (α : Type) : Type := ParseState → Option α × ParseState

namespace Parse

variable {α β : Type}

/-- One reader behind the other; a failure of the first is a failure of both. -/
def andThen (p : Parse α) (f : α → Parse β) : Parse β := fun s =>
  match p s with
  | (none, s') => (none, s')
  | (some a, s') => f a s'

instance : Monad Parse where
  pure a := fun s => (some a, s)
  bind := andThen

/-- The rounds of a repetition, from a state on. -/
def rounds (more : ParseState → Bool) (p : Parse α) : Parse (List α) := fun s =>
  if more s then
    match p s with
    | (none, s') => (none, s')
    | (some a, s') =>
      if s'.remaining < s.remaining then
        match rounds more p s' with
        | (none, s'') => (none, s'')
        | (some as, s'') => (some (a :: as), s'')
      else (some [a], s')
  else (some [], s)
termination_by s => s.remaining

instance : Reading Parse where
  current := fun s => (some s.current, s)
  peek := fun s => (some s.peek, s)
  advance := fun s => (some (), { s with ahead := s.ahead.tail })
  complain position c := fun s =>
    (none, { s with diagnostics := ⟨position, c.message⟩ :: s.diagnostics })
  attempt p := fun s =>
    match p s with
    | (a?, s') => (some a?, s')
  many := rounds

/-! The elementary readers, as functions of the state. -/

abbrev current : Parse Token := Reading.current

abbrev peek : Parse Token := Reading.peek

abbrev advance : Parse Unit := Reading.advance

abbrev complain (position : Position) (c : Complaint) : Parse α := Reading.complain position c

abbrev attempt (p : Parse α) : Parse (Option α) := Reading.attempt p

abbrev many (more : ParseState → Bool) (p : Parse α) : Parse (List α) := Reading.many more p

abbrev expect (due : Token.Kind) : Parse Unit := Reading.expect due

abbrev skip (kind : Token.Kind) : Parse Unit := Reading.skip kind

end Parse

end MonkeyLang
