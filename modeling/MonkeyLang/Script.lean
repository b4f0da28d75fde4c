import MonkeyLang.Console

/-!
# Scripts

A script is a whole source text that runs by itself.  Its result is shown behind what it prints, and
the run fails if the text cannot be read or if the result is an error.

## Main definitions

* `Run`: what is written, and whether the run succeeded
* `Script.run`: a script from its bytes
* `Console.Transcript.toRun`: the run of a console
-/

namespace MonkeyLang

/-- A finished run of the interpreter. -/
structure Run where
  /-- All that is written. -/
  output : String
  /-- Whether the run succeeded. -/
  success : Bool

/-- The exit code of a run. -/
def Run.exitCode (r : Run) : UInt32 := if r.success then 0 else 1

namespace Script

/-- Runs a source text.  There is no answer at the limit of nested calls. -/
def runText (limit : Nat) (source : String) : Option Run :=
  let parsed := parse source
  if parsed.diagnostics ≠ [] then some ⟨report parsed.diagnostics, false⟩
  else
    match Store.empty.enclose none with
    | (scope, store) =>
      match evaluate (.withLimit .standard limit) scope (.program parsed.program) store with
      | (.done result, store') => some ⟨store'.printed ++ result.text ++ "\n", !result.isError⟩
      | _ => none

/-- Runs a script, or lists its tokens.  A script that is no valid UTF-8 writes nothing and
fails. -/
def run (limit : Nat) (mode : Console.Mode) (bytes : List UInt8) : Option Run :=
  match Console.decode? bytes with
  | none => some ⟨"", false⟩
  | some source =>
    match mode with
    | .tokens => some ⟨dump source, true⟩
    | .evaluate => runText limit source

end Script

/-- The run of a console: it fails if a line cannot be read. -/
def Console.Transcript.toRun (t : Transcript) : Option Run :=
  match t.ending with
  | .finished => some ⟨t.text, true⟩
  | .invalidText => some ⟨t.text, false⟩
  | .exhausted => none

end MonkeyLang
