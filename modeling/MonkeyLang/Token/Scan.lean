import MonkeyLang.Token

/-!
# Scanning a source text

A source text is cut into tokens from left to right, always taking the longest token that starts
at the next character which is not blank.  Scanning never fails: a character that starts no token
is an illegal token by itself, and a string without its closing quote runs to the end of the
text.

`lexeme` says which token starts at a character and how many characters it covers.  `scan` walks
the text once, one character at a time, so the position it gives to a token is the number of
line feeds and columns before it.  `Cursor.next` reads a single token and leaves a cursor behind
it; at the end of the text it gives the same end token for ever.

## Main definitions

* `Token.isBlank`, `Token.isWordStart`, `Token.isWordPart`: classes of characters
* `Token.quotedBody`: the contents of a string and the characters they take
* `Token.lexeme`: the token that starts at a character
* `TokenStream`, `scan`: all tokens of a text
* `Cursor.next`: one token at a time
-/

namespace MonkeyLang

namespace Token

/-- The characters that separate tokens: space, tab, carriage return and line feed. -/
def isBlank (c : Char) : Bool := c == ' ' || c == '\t' || c == '\r' || c == '\n'

/-- The characters an identifier or a reserved word starts with. -/
def isWordStart (c : Char) : Bool := c.isAlpha || c == '_'

/-- The characters an identifier or a reserved word goes on with. -/
def isWordPart (c : Char) : Bool := c.isAlphanum || c == '_'

/-- The two characters that open a string; the same one closes it. -/
def isQuote (c : Char) : Bool := c == '"' || c == '\x27'

/-- What a character stands for after a backslash: three letters name control characters, and
every other character stands for itself. -/
def unescape : Char → Char
  | 'n' => '\n'
  | 't' => '\t'
  | 'r' => '\r'
  | c => c

/-- The contents of a string opened by `quote`, and the number of characters up to and with its
closing quote.  Without a closing quote the string runs to the end of the text; a backslash that
is the last character of the text stands for nothing. -/
def quotedBody (quote : Char) : List Char → List Char × Nat
  | [] => ([], 0)
  | c :: cs =>
    if c = quote then ([], 1)
    else if c = '\\' then
      match cs with
      | [] => ([], 1)
      | e :: ds =>
        let body := quotedBody quote ds
        (unescape e :: body.1, body.2 + 2)
    else
      let body := quotedBody quote cs
      (c :: body.1, body.2 + 1)

/-- A token without its place: kind, literal, and the number of characters it covers. -/
structure Lexeme where
  /-- What the token is. -/
  kind : Kind
  /-- The literal of the token. -/
  literal : List Char
  /-- How many characters of the text the token covers. -/
  size : Nat

namespace Lexeme

/-- The lexeme whose literal is exactly the text it covers. -/
def plain (kind : Kind) (text : List Char) : Lexeme := ⟨kind, text, text.length⟩

/-- A number that starts with the digit `c`: digits, and a fraction if a point with a digit
behind it follows. -/
def number (c : Char) (cs : List Char) : Lexeme :=
  let whole := c :: cs.takeWhile Char.isDigit
  match cs.dropWhile Char.isDigit with
  | '.' :: d :: ds =>
    if d.isDigit then plain .float (whole ++ '.' :: d :: ds.takeWhile Char.isDigit)
    else plain .int whole
  | _ => plain .int whole

/-- A reserved word or an identifier that starts with `c`. -/
def word (c : Char) (cs : List Char) : Lexeme :=
  let text := c :: cs.takeWhile isWordPart
  plain ((Kind.keyword? text).getD .ident) text

/-- A string opened by the quote `c`. -/
def quoted (c : Char) (cs : List Char) : Lexeme :=
  let body := quotedBody c cs
  ⟨.string, body.1, body.2 + 1⟩

/-- The symbol `c` by itself, or `c` with the equality sign behind it. -/
def withEquals (alone paired : Kind) (c : Char) : List Char → Lexeme
  | '=' :: _ => plain paired [c, '=']
  | _ => plain alone [c]

end Lexeme

/-- The token that starts at the character `c`, which is not blank, with `cs` behind it. -/
def lexeme (c : Char) (cs : List Char) : Lexeme :=
  if c = '=' then .withEquals .assign .eq c cs
  else if c = '!' then .withEquals .bang .notEq c cs
  else match Kind.symbol? c with
    | some kind => .plain kind [c]
    | none =>
      if isQuote c then .quoted c cs
      else if c.isDigit then .number c cs
      else if isWordStart c then .word c cs
      else .plain .illegal [c]

/-- The token made of a lexeme at a place. -/
def ofLexeme (l : Lexeme) (p : Position) : Token := ⟨l.kind, String.ofList l.literal, p⟩

/-- The tokens of a text that starts at `p`, and the position behind its last character.  The
first `covered` characters belong to a token that has already been given out. -/
def scanFrom : List Char → Position → (covered : Nat) → List Token × Position
  | [], p, _ => ([], p)
  | c :: cs, p, covered + 1 => scanFrom cs (p.step c) covered
  | c :: cs, p, 0 =>
    if isBlank c then scanFrom cs (p.step c) 0
    else
      let l := lexeme c cs
      let rest := scanFrom cs (p.step c) (l.size - 1)
      (ofLexeme l p :: rest.1, rest.2)

end Token

/-- The tokens of a text, and where the text ends. -/
structure TokenStream where
  /-- The tokens in the order of the text. -/
  tokens : List Token
  /-- The position behind the last character. -/
  stop : Position

/-- All tokens of a source text. -/
def scan (source : String) : TokenStream :=
  let found := Token.scanFrom source.toList .start 0
  ⟨found.1, found.2⟩

/-- The tokens of the stream with the end token behind them. -/
def TokenStream.toList (stream : TokenStream) : List Token :=
  stream.tokens ++ [.finish stream.stop]

/-- A place in a text from which the next token is read. -/
structure Cursor where
  /-- The characters not read yet. -/
  rest : List Char
  /-- The position of the first of them. -/
  here : Position

/-- The cursor at the start of a text. -/
def Cursor.start (source : String) : Cursor := ⟨source.toList, .start⟩

/-- The cursor behind the last token of a stream. -/
def TokenStream.cursor (stream : TokenStream) : Cursor := ⟨[], stream.stop⟩

/-- The next token, and the cursor behind it. -/
def Cursor.next (cursor : Cursor) : Token × Cursor :=
  let here := cursor.here.advance (cursor.rest.takeWhile Token.isBlank)
  match cursor.rest.dropWhile Token.isBlank with
  | [] => (.finish here, ⟨[], here⟩)
  | c :: cs =>
    let l := Token.lexeme c cs
    (.ofLexeme l here, ⟨(c :: cs).drop l.size, here.advance ((c :: cs).take l.size)⟩)

/-- The next `n` tokens from a cursor. -/
def Cursor.take : Nat → Cursor → List Token
  | 0, _ => []
  | n + 1, cursor => cursor.next.1 :: take n cursor.next.2

end MonkeyLang
