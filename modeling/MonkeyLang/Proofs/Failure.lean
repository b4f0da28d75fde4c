import MonkeyLang.Program.Equality
import MonkeyLang.Proofs.Reach
import MonkeyLang.Script

/-!
# Faults and errors

A fault ends an evaluation.  Only then it becomes a value, an error, and no rule and no standard
builtin makes one.  So if no error is within reach of a scope, the result of a program there is an
error exactly if the program ended in a fault, and no error is within reach afterwards.

The fronts of the interpreter tell a failure by its error.  By the above they tell it right: the
exit code of a script, and whether a session shows anything for a line that ends in a binding.

## Main definitions

* `Value.NoError`, `Store.Clean`: values that are no error, and scopes without one within reach
* `Fails`: programs that end in a fault
* `Session.Reached`: the sessions that lines lead to

## Main results

* `isError_iff_fails`: a result is an error exactly if the program ends in a fault
* `Session.Reached.clean`: no line leaves an error behind
* `failure_iff_fault`: errors, exit codes and shown lines all mean a fault
-/

namespace MonkeyLang

/-- The value itself is no error. -/
def Value.NoError (v : Value) : Prop := v.isError = false

/-- No error is within reach of the scope. -/
def Store.Clean (store : Store) (scope : ScopeId) : Prop :=
  ∀ w, store.Holds scope w → w.NoError

/-- No rule makes an error. -/
theorem lasting_noError : Lasting Value.NoError fun _ _ => True where
  scalar {v} h := by
    cases v with
    | error => cases h
    | _ => rfl
  array := rfl
  hash := rfl
  builtin := rfl
  returned _ := rfl
  function_iff := ⟨fun _ => trivial, fun _ => rfl⟩
  body _ _ _ _ _ _ := trivial

/-- The program ends in a fault. -/
def Fails (limit : Nat) (scope : ScopeId) (p : Program) (store : Store) : Prop :=
  ∃ f, (execute (.withLimit .standard limit) scope p store).1 = .fault f

section Programs

variable (limit : Nat) {scope : ScopeId} {store : Store}

theorem execute_noError (clean : store.Clean scope) (p : Program) :
    let run := execute (.withLimit .standard limit) scope p store
    run.2.Clean scope ∧ store.Keeps Value.NoError scope run.2 ∧
      ∀ v, run.1 = .done v → v.Every Value.NoError := by
  obtain ⟨clean', scopes, meets⟩ :=
    node_lasting lasting_noError limit clean (.program p) fun _ _ _ _ _ => trivial
  refine ⟨clean', scopes, fun v done => ?_⟩
  rw [show Node.eval _ _ (.program p) store = execute _ _ p store from rfl, done] at meets
  obtain ⟨v, every, rfl⟩ := meets
  exact every.unwrap

theorem clean_evaluate (clean : store.Clean scope) (p : Program) :
    (evaluate (.withLimit .standard limit) scope (.program p) store).2.Clean scope := by
  rw [evaluate, Eval.caught_store]
  exact (execute_noError limit clean p).1

/-- The result of a program is an error exactly if the program ends in a fault. -/
theorem isError_iff_fails (clean : store.Clean scope) (p : Program) :
    (∃ v, (evaluate (.withLimit .standard limit) scope (.program p) store).1 = .done v ∧
      v.isError) ↔ Fails limit scope p store := by
  obtain ⟨-, -, every⟩ := execute_noError limit clean p
  constructor
  · rintro ⟨v, done, error⟩
    rcases Eval.caught_done_iff.mp done with done | ⟨f, fault, -⟩
    · have none : v.isError = false := every v done v (.root v)
      rw [none] at error
      cases error
    · exact ⟨f, fault⟩
  · rintro ⟨f, fault⟩
    exact ⟨.error f.message, Eval.caught_done_iff.mpr (.inr ⟨f, fault, rfl⟩), rfl⟩

end Programs

/-! ## Scripts -/

/-- Nothing is within reach of a scope that has just been made in an empty store. -/
theorem clean_enclose_empty (parent : Option ScopeId) (scope : ScopeId) :
    (Store.empty.enclose parent).2.Clean scope := by
  refine fun w held => held.of_every fun i s found name v bound => ?_
  rw [Store.getElem?_enclose] at found
  split at found
  · cases found
    cases bound
  · cases found

/-- The bytes of a text are read back as the text. -/
theorem decode?_toUTF8 (source : String) :
    Console.decode? source.toUTF8.data.toList = some source := by
  unfold Console.decode? String.fromUTF8?
  rw [Array.toArray_toList, String.toUTF8_eq_toByteArray, dif_pos source.isValidUTF8]
  rfl

theorem Console.decode?_eq_some_iff {bytes : List UInt8} {text : String} :
    Console.decode? bytes = some text ↔ text.toUTF8.data.toList = bytes := by
  constructor
  · intro decoded
    unfold Console.decode? String.fromUTF8? at decoded
    split at decoded
    · cases decoded
      rfl
    · contradiction
  · rintro rfl
    exact decode?_toUTF8 text

theorem Console.decode?_eq_none_iff {bytes : List UInt8} :
    Console.decode? bytes = none ↔ ∀ text : String, text.toUTF8.data.toList ≠ bytes := by
  rw [Option.eq_none_iff_forall_ne_some]
  exact forall_congr' fun text => not_congr Console.decode?_eq_some_iff

theorem exitCode_eq_one_iff {r : Run} : r.exitCode = 1 ↔ r.success = false := by
  unfold Run.exitCode
  cases r.success
  all_goals decide

/-- What comes of a script that can be read. -/
theorem Script.runText_eq_some_iff {limit : Nat} {source : String} {r : Run}
    (read : (parse source).diagnostics = []) :
    Script.runText limit source = some r ↔ ∃ result store,
      evaluate (.withLimit .standard limit) 0 (.program (parse source).program)
        (Store.empty.enclose none).2 = (.done result, store) ∧
      r = ⟨store.printed ++ result.text ++ "\n", !result.isError⟩ := by
  rw [Script.runText, if_neg (not_not_intro read)]
  dsimp only [Store.enclose]
  split
  · rename_i result store ended
    constructor
    · rintro ⟨⟩
      exact ⟨result, store, ended, rfl⟩
    · rintro ⟨_, _, ended', rfl⟩
      cases ended.symm.trans ended'
      rfl
  · rename_i other
    refine ⟨nofun, ?_⟩
    rintro ⟨result, store, ended, -⟩
    exact absurd ended (other result store)

/-- A script that can be read fails exactly if its result is an error. -/
theorem runText_fails_iff {limit : Nat} {source : String} (read : (parse source).diagnostics = []) :
    (∃ r, Script.runText limit source = some r ∧ r.success = false) ↔
      ∃ v, (evaluate (.withLimit .standard limit) 0 (.program (parse source).program)
        (Store.empty.enclose none).2).1 = .done v ∧ v.isError := by
  simp only [Script.runText_eq_some_iff read]
  constructor
  · rintro ⟨_, ⟨result, store, ended, rfl⟩, failed⟩
    exact ⟨result, by rw [ended], by simpa using failed⟩
  · rintro ⟨v, done, error⟩
    exact ⟨_, ⟨v, _, Prod.ext done rfl, rfl⟩, by simp [error]⟩

/-- A script fails exactly if its text cannot be read or its program ends in a fault. -/
theorem script_fails_iff (limit : Nat) (source : String) :
    (∃ r, Script.run limit .evaluate source.toUTF8.data.toList = some r ∧ r.exitCode = 1) ↔
      (parse source).diagnostics ≠ [] ∨
        Fails limit 0 (parse source).program (Store.empty.enclose none).2 := by
  have run :
      Script.run limit .evaluate source.toUTF8.data.toList = Script.runText limit source := by
    rw [Script.run, decode?_toUTF8]
  simp only [run, exitCode_eq_one_iff]
  by_cases read : (parse source).diagnostics = []
  · have error := isError_iff_fails limit (clean_enclose_empty none 0) (parse source).program
    rw [runText_fails_iff read, error]
    exact ⟨.inr, fun h => h.resolve_left (not_not_intro read)⟩
  · refine ⟨fun _ => .inl read, fun _ => ⟨⟨report (parse source).diagnostics, false⟩, ?_, rfl⟩⟩
    rw [Script.runText, if_pos read]

/-- Bytes that are no text in UTF-8 are not run at all. -/
theorem Script.run_of_invalid {bytes : List UInt8}
    (invalid : ∀ source : String, source.toUTF8.data.toList ≠ bytes) (limit : Nat)
    (mode : Console.Mode) : Script.run limit mode bytes = some ⟨"", false⟩ := by
  rw [Script.run, Console.decode?_eq_none_iff.mpr invalid]

/-! ## Sessions -/

/-- No error is within reach of the session. -/
def Session.Clean (session : Session) : Prop := session.store.Clean session.scope

/-- What comes of a line that can be read. -/
theorem Session.line_eq_some_iff {session session' : Session} {limit : Nat} {source : String}
    {response : Response} (read : (parse source).diagnostics = []) :
    session.line limit source = some (response, session') ↔ ∃ result store,
      evaluate (.withLimit .standard limit) session.scope (.program (parse source).program)
        session.store = (.done result, store) ∧
      response = ⟨store.printed,
        if showsResult (parse source).program result then result.text ++ "\n" else ""⟩ ∧
      session' = ⟨store.clearPrinted, session.scope⟩ := by
  rw [Session.line, if_neg (not_not_intro read)]
  dsimp only
  split
  · rename_i result store ended
    constructor
    · rintro ⟨⟩
      exact ⟨result, store, ended, rfl, rfl⟩
    · rintro ⟨_, _, ended', rfl, rfl⟩
      cases ended.symm.trans ended'
      rfl
  · rename_i other
    refine ⟨nofun, ?_⟩
    rintro ⟨result, store, ended, -⟩
    exact absurd ended (other result store)

namespace Session.Clean

variable {session : Session} {limit : Nat} {source : String}

/-- A line leaves no error behind. -/
theorem line (clean : session.Clean) {response : Response} {session' : Session}
    (answered : session.line limit source = some (response, session')) : session'.Clean := by
  by_cases read : (parse source).diagnostics = []
  · obtain ⟨result, store, ended, -, rfl⟩ := (Session.line_eq_some_iff read).mp answered
    have after := clean_evaluate limit clean (parse source).program
    rw [ended] at after
    have same : store.clearPrinted.scopes = store.scopes := rfl
    exact fun w held => after w (.of_scopes_eq same held)
  · rw [Session.line, if_pos read] at answered
    cases answered
    exact clean

/-- For a line that can be read and ends in a binding, something is shown exactly if its program
ends in a fault. -/
theorem shows_iff (clean : session.Clean) (read : (parse source).diagnostics = [])
    (ends : (parse source).program.endsInBind) :
    (∃ response session', session.line limit source = some (response, session') ∧
      response.shown ≠ "") ↔ Fails limit session.scope (parse source).program session.store := by
  rw [← isError_iff_fails limit clean]
  simp only [Session.line_eq_some_iff read]
  constructor
  · rintro ⟨_, _, ⟨result, store, ended, rfl, rfl⟩, shown⟩
    refine ⟨result, by rw [ended], ?_⟩
    simpa [showsResult, ends] using shown
  · rintro ⟨v, done, error⟩
    refine ⟨_, _, ⟨v, _, Prod.ext done rfl, rfl, rfl⟩, ?_⟩
    simp [showsResult, error]

end Session.Clean

/-- The sessions that lines lead to from a fresh one. -/
inductive Session.Reached (limit : Nat) : Session → Prop where
  | start : Reached limit .start
  | line {session session' : Session} {source : String} {response : Response}
      (reached : Reached limit session)
      (answered : session.line limit source = some (response, session')) : Reached limit session'

/-- No error is within reach of a session, whatever its lines have been. -/
theorem Session.Reached.clean {limit : Nat} {session : Session}
    (reached : Session.Reached limit session) : session.Clean := by
  induction reached with
  | start => exact clean_enclose_empty none 0
  | line _ answered ih => exact ih.line answered

/-! ## Failures -/

/-- An error means exactly a fault.  Without an error within reach, a program gives and leaves none,
so that its evaluation gives an error exactly if the program ends in a fault.  A script exits with
`1` exactly if it cannot be read or ends in a fault; bytes that are no text in UTF-8 hold no
program, and with them a run writes nothing and fails.  All sessions are without an error within
reach, and for a line that ends in a binding they show something exactly if it ends in a fault. -/
theorem failure_iff_fault (limit : Nat) :
    (∀ scope store, store.Clean scope → ∀ p,
      let run := execute (.withLimit .standard limit) scope p store
      (∀ v, run.1 = .done v → v.Every Value.NoError) ∧ store.Keeps Value.NoError scope run.2 ∧
      ((∃ v, (evaluate (.withLimit .standard limit) scope (.program p) store).1 = .done v ∧
        v.isError) ↔ Fails limit scope p store)) ∧
    (∀ source,
      (∃ r, Script.run limit .evaluate source.toUTF8.data.toList = some r ∧ r.exitCode = 1) ↔
        (parse source).diagnostics ≠ [] ∨
          Fails limit 0 (parse source).program (Store.empty.enclose none).2) ∧
    (∀ bytes mode, (∀ source : String, source.toUTF8.data.toList ≠ bytes) →
      Script.run limit mode bytes = some ⟨"", false⟩) ∧
    (∀ session, Session.Reached limit session → session.Clean) ∧
    ∀ session : Session, session.Clean → ∀ source, (parse source).diagnostics = [] →
      (parse source).program.endsInBind →
      ((∃ response session', session.line limit source = some (response, session') ∧
        response.shown ≠ "") ↔
        Fails limit session.scope (parse source).program session.store) := by
  refine ⟨fun scope store clean p => ?_, script_fails_iff limit,
    fun bytes mode invalid => Script.run_of_invalid invalid limit mode,
    fun _ => Session.Reached.clean, fun session clean source => clean.shows_iff⟩
  obtain ⟨-, scopes, every⟩ := execute_noError limit clean p
  exact ⟨every, scopes, isError_iff_fails limit clean p⟩

/-- The line ends in a binding, but fails inside of the array that it should bind. -/
theorem failure_iff_fault_in_binding :
    (parse "let a = [1, 2()];").diagnostics = [] ∧
      (parse "let a = [1, 2()];").program.endsInBind ∧ Session.start.Clean ∧
      ∃ response session', Session.start.line 0 "let a = [1, 2()];" = some (response, session') ∧
        response.shown ≠ "" := by
  have read : (parse "let a = [1, 2()];").diagnostics = [] := by decide +kernel
  have program : (parse "let a = [1, 2()];").program =
      ⟨[.bind "a" (.array [.int 1, .call (.int 2) []])]⟩ := by decide +kernel
  have ends : (parse "let a = [1, 2()];").program.endsInBind := by rw [program]; rfl
  obtain ⟨-, -, -, clean, shown⟩ := failure_iff_fault 0
  have start := clean .start .start
  refine ⟨read, ends, start, (shown .start start _ read ends).mpr ?_⟩
  rw [program]
  exact ⟨.notCallable .int, rfl⟩

end MonkeyLang
