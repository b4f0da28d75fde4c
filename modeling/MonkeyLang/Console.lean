import MonkeyLang.Session
import MonkeyLang.Text.Blank
import MonkeyLang.Token.Dump

/-!
# Consoles

A console reads lines from its input and answers each of them, after a prompt.  In one mode the
lines run in a session, in the other one their tokens are listed.  The input is bytes: a line ends
with a line feed or with the input, and it has to be valid UTF-8.  Blanks at the ends of a line do
not count, and a line that says `exit` or `exit()` ends the console.

## Main definitions

* `Console.Mode`, `Console.Settings`: what a console does with a line, and its prompt
* `Console.lines`: the lines of an input
* `Console.Transcript`, `Console.Ending`: all that is written, and why the console ended
* `Console.step`: what is done with one line
* `Console.run`: the transcript of a console on an input
-/

namespace MonkeyLang

namespace Console

/-- What a console does with a line. -/
inductive Mode where
  /-- Runs it in the session. -/
  | evaluate
  /-- Lists its tokens. -/
  | tokens
deriving DecidableEq

/-- The settings of a console. -/
structure Settings where
  /-- Written before each line is read. -/
  prompt : String
  /-- What is done with a line. -/
  mode : Mode

/-- The lines of an input, each with its line feed.  An input that does not end with a line feed has
a last line without one. -/
def lines : List UInt8 → List (List UInt8)
  | [] => []
  | byte :: rest =>
    if byte = 10 then [byte] :: lines rest
    else match lines rest with
      | [] => [[byte]]
      | line :: more => (byte :: line) :: more

/-- The text of bytes, if they are valid UTF-8. -/
def decode? (bytes : List UInt8) : Option String := String.fromUTF8? ⟨bytes.toArray⟩

/-- A piece of what is written. -/
inductive Chunk where
  /-- Printed by a program. -/
  | printed (text : String)
  /-- Shown by the console. -/
  | shown (text : String)

/-- Why a console ended. -/
inductive Ending where
  /-- The input ended, or a line asked for it. -/
  | finished
  /-- A line is no valid UTF-8. -/
  | invalidText
  /-- A program reached the limit of nested calls. -/
  | exhausted
deriving DecidableEq

/-- All that is written, in order, and why the console ended. -/
structure Transcript where
  /-- The pieces in the order in which they are written. -/
  chunks : List Chunk
  /-- Why the console ended. -/
  ending : Ending

namespace Transcript

/-- All that the console shows. -/
def shown (t : Transcript) : String :=
  String.join (t.chunks.map fun | .shown text => text | .printed _ => "")

/-- All that programs print. -/
def printed (t : Transcript) : String :=
  String.join (t.chunks.map fun | .printed text => text | .shown _ => "")

/-- All that is written. -/
def text (t : Transcript) : String :=
  String.join (t.chunks.map fun | .printed text => text | .shown text => text)

/-- The transcript with pieces before it. -/
def after (chunks : List Chunk) (t : Transcript) : Transcript :=
  { t with chunks := chunks ++ t.chunks }

end Transcript

/-- Whether a line ends the console. -/
def isExit (source : List Char) : Bool :=
  source = "exit".toList || source = "exit()".toList

/-- The answer to a line, without blanks at its ends. -/
def answer (limit : Nat) (mode : Mode) (session : Session) (source : String) :
    Option (Response × Session) :=
  match mode with
  | .evaluate => session.line limit source
  | .tokens => some (⟨"", dump source⟩, session)

/-- What a console does after it has read a line. -/
inductive Step where
  /-- Answers, and goes on with the session. -/
  | next (response : Response) (session : Session)
  /-- Ends. -/
  | stop (ending : Ending)

/-- What a console does with a line of bytes. -/
def step (limit : Nat) (mode : Mode) (session : Session) (line : List UInt8) : Step :=
  match decode? line with
  | none => .stop .invalidText
  | some text =>
    let source := Text.trim text.toList
    if isExit source then .stop .finished
    else match answer limit mode session (String.ofList source) with
      | none => .stop .exhausted
      | some (response, session') => .next response session'

/-- The transcript of a console that still has these lines to read. -/
def runLines (limit : Nat) (settings : Settings) : Session → List (List UInt8) → Transcript
  | _, [] => ⟨[.shown settings.prompt], .finished⟩
  | session, line :: rest =>
    match step limit settings.mode session line with
    | .stop ending => ⟨[.shown settings.prompt], ending⟩
    | .next response session' =>
      (runLines limit settings session' rest).after
        [.shown settings.prompt, .printed response.printed, .shown response.shown]

/-- The transcript of a console on an input, from a fresh session. -/
def run (limit : Nat) (settings : Settings) (input : List UInt8) : Transcript :=
  runLines limit settings .start (lines input)

end Console

end MonkeyLang
