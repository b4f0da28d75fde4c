import MonkeyLang.Script

/-!
# The command line

`monkey [--tokens] [--prompt TEXT] [SCRIPT]` runs a script, or a console on the standard input if no
script is given.  With `--tokens` tokens are listed instead of programs run.
-/

namespace MonkeyLang

/-- What the command line asks for. -/
structure Request where
  /-- Run programs or list tokens. -/
  mode : Console.Mode
  /-- The prompt of a console. -/
  prompt : String
  /-- The script to run, if there is one. -/
  script : Option String

/-- Reads the arguments of the command line, or nothing if they make no sense. -/
def Request.ofArgs? (request : Request) : List String → Option Request
  | [] => some request
  | "--tokens" :: rest => ofArgs? { request with mode := .tokens } rest
  | ["--prompt"] => none
  | "--prompt" :: prompt :: rest => ofArgs? { request with prompt := prompt } rest
  | word :: rest =>
    if word.startsWith "--prompt=" then
      ofArgs? { request with prompt := String.ofList (word.toList.drop 9) } rest
    else if request.script.isSome || word.startsWith "--" then none
    else ofArgs? { request with script := some word } rest

/-- How many calls of functions can be nested on the command line. -/
def callLimit : Nat := 10000

/-- Complains about a program that reached the limit. -/
def overflow : IO UInt32 := do
  let stderr ← IO.getStderr
  stderr.putStrLn "calls nested too deeply"
  return 134

/-- Reads the bytes of a line with its line feed; nothing, at the end of the input. -/
partial def readLine (stdin : IO.FS.Stream) (found : Array UInt8) : IO (List UInt8) := do
  let byte ← stdin.read 1
  let found := found ++ byte.data
  if byte.isEmpty || byte.data.contains 10 then return found.toList
  else readLine stdin found

/-- Reads and answers lines until the console ends. -/
partial def interact (settings : Console.Settings) (session : Session) : IO UInt32 := do
  let stdout ← IO.getStdout
  stdout.putStr settings.prompt
  stdout.flush
  let line ← readLine (← IO.getStdin) #[]
  if line.isEmpty then return 0
  match Console.step callLimit settings.mode session line with
  | .next response session' =>
    stdout.putStr (response.printed ++ response.shown)
    interact settings session'
  | .stop .finished => return 0
  | .stop .invalidText =>
    let stderr ← IO.getStderr
    stderr.putStrLn "Error: stream did not contain valid UTF-8"
    return 1
  | .stop .exhausted => overflow

/-- Writes what a run has to write and gives its exit code. -/
def finish (run? : Option Run) : IO UInt32 := do
  match run? with
  | some run =>
    let stdout ← IO.getStdout
    stdout.putStr run.output
    stdout.flush
    return run.exitCode
  | none => overflow

/-- Runs what the command line asks for. -/
def serve (request : Request) : IO UInt32 := do
  match request.script with
  | some path =>
    let bytes? ← (some <$> IO.FS.readBinFile path) <|> pure none
    match bytes? with
    | some bytes => finish (Script.run callLimit request.mode bytes.toList)
    | none =>
      let stderr ← IO.getStderr
      stderr.putStrLn ("Error: failed to read " ++ path)
      return 1
  | none => interact ⟨request.prompt, request.mode⟩ .start

end MonkeyLang

/-- The command line program. -/
def main (args : List String) : IO UInt32 := do
  match MonkeyLang.Request.ofArgs? ⟨.evaluate, ">> ", none⟩ args with
  | some request => MonkeyLang.serve request
  | none =>
    let stderr ← IO.getStderr
    stderr.putStrLn "Usage: monkey [--tokens] [--prompt <PROMPT>] [SCRIPT]"
    return 2
