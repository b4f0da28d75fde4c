import MonkeyLang.Evaluation.Rules
import MonkeyLang.Grammar.Expression

/-!
# Sessions

A session evaluates one line of source text after the other in one scope, so a line sees what the
lines before it have bound.  What a line prints and what the session shows for it are kept apart.

## Main definitions

* `Session`, `Session.start`: the store and the scope of a session
* `Session.line`: one line, with what is printed and shown for it
-/

namespace MonkeyLang

/-- The state between two lines. -/
structure Session where
  /-- All that the lines so far have changed. -/
  store : Store
  /-- The scope of all lines. -/
  scope : ScopeId

/-- A session before its first line. -/
def Session.start : Session :=
  match Store.empty.enclose none with
  | (scope, store) => ⟨store, scope⟩

/-- What comes of a line. -/
structure Response where
  /-- What the program printed. -/
  printed : String
  /-- What the session shows behind that. -/
  shown : String

/-- Whether the result of a program is shown: an error always is, and any other result unless the
program ends in a binding. -/
def showsResult (p : Program) (result : Value) : Bool := !p.endsInBind || result.isError

/-- Runs a line and answers with what is printed and shown.  A line that cannot be read shows its
diagnostics and changes nothing.  There is no answer at the limit of nested calls. -/
def Session.line (limit : Nat) (session : Session) (source : String) :
    Option (Response × Session) :=
  let parsed := parse source
  if parsed.diagnostics ≠ [] then some (⟨"", report parsed.diagnostics⟩, session)
  else
    let machine := Machine.withLimit .standard limit
    match evaluate machine session.scope (.program parsed.program) session.store with
    | (.done result, store) =>
      let shown := if showsResult parsed.program result then result.text ++ "\n" else ""
      some (⟨store.printed, shown⟩, ⟨store.clearPrinted, session.scope⟩)
    | _ => none

end MonkeyLang
