import MonkeyLang.Position

/-!
# Tokens

The words of the language.  A token has a kind, a literal and the position of its first
character.  The literal is the text the token covers, except that a string token carries its
contents with the escapes resolved.

## Main definitions

* `Token.Kind`, `Token.Kind.name`: the kinds and the names that messages use for them
* `Token.Kind.keyword?`, `Token.Kind.symbol?`: the reserved words and the one-character symbols
* `Token`, `Token.finish`: a token, and the token that stands for the end of the input
-/

namespace MonkeyLang

namespace Token

/-- What a token is. -/
inductive Kind where
  /-- A character that starts no token of the language. -/
  | illegal
  /-- The end of the input. -/
  | eof
  | ident
  | int
  | float
  | string
  /-- The assignment sign `=`. -/
  | assign
  /-- The plus sign `+`. -/
  | plus
  /-- The minus sign `-`. -/
  | minus
  /-- The exclamation sign `!`. -/
  | bang
  /-- The star sign `*`. -/
  | asterisk
  /-- The slash sign `/`. -/
  | slash
  /-- The less-than sign `<`. -/
  | lt
  /-- The greater-than sign `>`. -/
  | gt
  /-- The equality sign `==`. -/
  | eq
  /-- The inequality sign `!=`. -/
  | notEq
  | comma
  | semicolon
  | colon
  | leftParen
  | rightParen
  | leftBrace
  | rightBrace
  | leftBracket
  | rightBracket
  /-- The word `fn`. -/
  | fnWord
  /-- The word `let`. -/
  | letWord
  /-- The word `true`. -/
  | trueWord
  /-- The word `false`. -/
  | falseWord
  /-- The word `if`. -/
  | ifWord
  /-- The word `else`. -/
  | elseWord
  /-- The word `return`. -/
  | returnWord
deriving DecidableEq

namespace Kind

/-- The name of a kind in diagnostics and token listings.  Symbols are named by themselves. -/
def name : Kind → String
  | illegal => "ILLEGAL"
  | eof => "EOF"
  | ident => "IDENT"
  | int => "INT"
  | float => "FLOAT"
  | string => "STRING"
  | assign => "="
  | plus => "+"
  | minus => "-"
  | bang => "!"
  | asterisk => "*"
  | slash => "/"
  | lt => "<"
  | gt => ">"
  | eq => "=="
  | notEq => "!="
  | comma => ","
  | semicolon => ";"
  | colon => ":"
  | leftParen => "("
  | rightParen => ")"
  | leftBrace => "\x7b"
  | rightBrace => "\x7d"
  | leftBracket => "["
  | rightBracket => "]"
  | fnWord => "FUNCTION"
  | letWord => "LET"
  | trueWord => "TRUE"
  | falseWord => "FALSE"
  | ifWord => "IF"
  | elseWord => "ELSE"
  | returnWord => "RETURN"

/-- The kind of a reserved word; every other word is an identifier. -/
def keyword? (word : List Char) : Option Kind :=
  if word = ['f', 'n'] then some fnWord
  else if word = ['l', 'e', 't'] then some letWord
  else if word = ['t', 'r', 'u', 'e'] then some trueWord
  else if word = ['f', 'a', 'l', 's', 'e'] then some falseWord
  else if word = ['i', 'f'] then some ifWord
  else if word = ['e', 'l', 's', 'e'] then some elseWord
  else if word = ['r', 'e', 't', 'u', 'r', 'n'] then some returnWord
  else none

/-- The kind of a character that is a token by itself, whatever follows it. -/
def symbol? : Char → Option Kind
  | '+' => some plus
  | '-' => some minus
  | '*' => some asterisk
  | '/' => some slash
  | '<' => some lt
  | '>' => some gt
  | ',' => some comma
  | ';' => some semicolon
  | ':' => some colon
  | '(' => some leftParen
  | ')' => some rightParen
  | '\x7b' => some leftBrace
  | '\x7d' => some rightBrace
  | '[' => some leftBracket
  | ']' => some rightBracket
  | _ => none

end Kind

end Token

/-- A word of the language with the place it stands at. -/
structure Token where
  /-- What the token is. -/
  kind : Token.Kind
  /-- The text of the token; the contents, for a string. -/
  literal : String
  /-- Where the first character of the token stands. -/
  position : Position
deriving DecidableEq

/-- The token that stands for the end of the input. -/
def Token.finish (position : Position) : Token := ⟨.eof, "", position⟩

end MonkeyLang
