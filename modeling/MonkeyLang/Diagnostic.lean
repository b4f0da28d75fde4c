import MonkeyLang.Token

/-!
# Diagnostics

What is wrong with a source text, and where.  A reader of programs collects diagnostics with the
most recent one first, and that is the order in which they are reported.

## Main definitions

* `Complaint`, `Complaint.message`: the faults a source text can have, and their wording
* `Diagnostic`, `Diagnostic.text`: a message with its place
* `summary`: all diagnostics in one line
* `report`: all diagnostics as shown to the author of the text
-/

namespace MonkeyLang

/-- A fault of a source text. -/
inductive Complaint where
  /-- Expressions are nested beyond the limit. -/
  | nestedTooDeeply
  /-- No expression starts with a token of this kind. -/
  | noOperand (kind : Token.Kind)
  /-- An integer literal beyond the largest word. -/
  | integerTooLarge (literal : String)
  /-- Another token was due. -/
  | unexpected (due : Token.Kind) (found : Token)

/-- The wording of a fault. -/
def Complaint.message : Complaint → String
  | nestedTooDeeply => "expression nested too deeply"
  | noOperand kind => "no prefix parse function for " ++ kind.name ++ " found"
  | integerTooLarge literal =>
    "could not parse " ++ literal ++ " as integer: number too large to fit in target type"
  | unexpected due found =>
    "expecting token " ++ due.name ++ ", but got " ++ found.kind.name ++ " with literal " ++
      found.literal ++ " instead"

/-- A message about a place in a source text. -/
structure Diagnostic where
  /-- The place. -/
  position : Position
  /-- What is wrong there. -/
  message : String
deriving DecidableEq

/-- The message with its place. -/
def Diagnostic.text (d : Diagnostic) : String :=
  d.message ++ " (line " ++ toString d.position.line ++ ", column " ++
    toString d.position.column ++ ")"

/-- All diagnostics in one line, ending in the words for what failed. -/
def summary (diagnostics : List Diagnostic) : String :=
  String.join (diagnostics.map fun d => d.text ++ ": ") ++ "parse error"

/-- The face above a report. -/
def face : String :=
  "            __,__\n" ++
  "   .--.  .-\"     \"-.  .--.\n" ++
  "  / .. \\/  .-. .-.  \\/ .. \\\n" ++
  " | |  '|  /   Y   \\  |'  | |\n" ++
  " | \\   \\  \\ 0 | 0 /  /   / |\n" ++
  "  \\ '- ,\\.-\"\"\"\"\"\"\"-./, -' /\n" ++
  "   ''-' /_   ^ ^   _\\ '-''\n" ++
  "       |  \\._   _./  |\n" ++
  "       \\   \\ '~' /   /\n" ++
  "        '._ '-=-' _.'\n" ++
  "           '-----'\n"

/-- The report shown to the author of a text: the face, a heading, and a line for each
diagnostic. -/
def report (diagnostics : List Diagnostic) : String :=
  face ++ "Woops! We ran into some monkey business here!\n parser errors:\n" ++
    String.join (diagnostics.map fun d => "\t" ++ d.text ++ "\n")

end MonkeyLang
