import MonkeyLang.Token.Scan
import MonkeyLang.Text.Json

/-!
# Token listings

A token listing has one line for each token of a text, without the end token.  A line is a JSON
object with the name of the token's kind and its literal, in ASCII.

## Main definitions

* `Token.record`: the line of a token, without its line feed
* `dump`: the listing of a source text
-/

namespace MonkeyLang

/-- The JSON object of a token. -/
def Token.record (t : Token) : List Char :=
  "\x7b\"Type\":".toList ++ Text.Json.string t.kind.name.toList ++
    ",\"Literal\":".toList ++ Text.Json.string t.literal.toList ++ ['\x7d']

/-- The token listing of a source text, one line a token. -/
def dump (source : String) : String :=
  String.ofList ((scan source).tokens.flatMap fun t => t.record ++ ['\n'])

end MonkeyLang
