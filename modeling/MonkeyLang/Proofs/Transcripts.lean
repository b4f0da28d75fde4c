import MonkeyLang.Console
import MonkeyLang.Proofs.Failure
import Mathlib.Data.List.Forall2

/-!
# What a console writes

A console is the fold of its answers over the lines of its input.  It answers the lines up to the
first one that ends it, with the prompt before each of them and once more at the end.  Its answers
are what one session answers to the lines one after the other, or the listings of their tokens.
What ends it is the end of the input, a line that is no valid UTF-8, a line that asks for it, or a
program at the limit of nested calls.

## Main definitions

* `Console.IsSplit`: an input and its lines
* `Console.HasText`, `Console.Asks`: the text on a line, and a line that is to be answered
* `Session.Answers`: the answer of a session to a line
* `Console.replies`: the answers to texts, one after the other in one session
* `Console.Ends`: what ends a console
* `Console.Recounts`: the transcript that the answers to lines make up

## Main results

* `Session.line_iff_answers`: a session answers a line by its diagnostics or by its result
* `Console.isSplit_iff`: an input has exactly its lines
* `Console.recounts_runLines`: a console writes its answers to the lines before its end
* `Console.endsWithin_of_last`: what comes behind a line that ends every console does not matter
* `Console.endsWithin_or_adds`: a line that leaves every session as it is adds its own answer only
* `Console.run_recounts_lines`: all of that for the bytes of an input
-/

namespace MonkeyLang

/-! ## Sessions -/

/-- The answer of a session to a line, and the session behind it.  A line that cannot be read is
answered by its diagnostics, and nothing changes.  Any other line is answered by what its program
prints, and by the result unless it ends in a binding that does not fail. -/
inductive Session.Answers (limit : Nat) (session : Session) (source : String) :
    Response → Session → Prop where
  | unreadable (wrong : (parse source).diagnostics ≠ []) :
      Answers limit session source ⟨"", report (parse source).diagnostics⟩ session
  | result {v : Value} {store : Store} (read : (parse source).diagnostics = [])
      (done : evaluate (.withLimit .standard limit) session.scope
        (.program (parse source).program) session.store = (.done v, store))
      (shown : (parse source).program.endsInBind = false ∨ v.isError) :
      Answers limit session source ⟨store.printed, v.text ++ "\n"⟩
        ⟨store.clearPrinted, session.scope⟩
  | bound {v : Value} {store : Store} (read : (parse source).diagnostics = [])
      (done : evaluate (.withLimit .standard limit) session.scope
        (.program (parse source).program) session.store = (.done v, store))
      (binds : (parse source).program.endsInBind) (going : v.isError = false) :
      Answers limit session source ⟨store.printed, ""⟩ ⟨store.clearPrinted, session.scope⟩

theorem Session.line_of_unreadable {source : String} (wrong : (parse source).diagnostics ≠ [])
    (limit : Nat) (session : Session) :
    session.line limit source = some (⟨"", report (parse source).diagnostics⟩, session) :=
  if_pos wrong

theorem Session.line_iff_answers {limit : Nat} {session session' : Session} {source : String}
    {response : Response} :
    session.line limit source = some (response, session') ↔
      session.Answers limit source response session' := by
  constructor
  · intro answered
    by_cases read : (parse source).diagnostics = []
    · obtain ⟨v, store, done, rfl, rfl⟩ := (line_eq_some_iff read).mp answered
      cases binds : (parse source).program.endsInBind with
      | false =>
        have shown : showsResult (parse source).program v := by simp [showsResult, binds]
        rw [if_pos shown]
        exact .result read done (.inl binds)
      | true =>
        cases error : v.isError with
        | false =>
          have hidden : ¬ showsResult (parse source).program v := by
            simp [showsResult, binds, error]
          rw [if_neg hidden]
          exact .bound read done binds error
        | true =>
          have shown : showsResult (parse source).program v := by simp [showsResult, error]
          rw [if_pos shown]
          exact .result read done (.inr error)
    · rw [line_of_unreadable read] at answered
      cases answered
      exact .unreadable read
  · intro answers
    cases answers with
    | unreadable wrong => exact line_of_unreadable wrong limit session
    | result read done shown =>
      refine (line_eq_some_iff read).mpr ⟨_, _, done, ?_, rfl⟩
      rw [if_pos (by simpa [showsResult] using shown)]
    | bound read done binds going =>
      refine (line_eq_some_iff read).mpr ⟨_, _, done, ?_, rfl⟩
      rw [if_neg (by simp [showsResult, binds, going])]

namespace Console

/-! ## Lines -/

/-- An input and its lines.  A line ends with each line feed, and what is left behind the last one
is a line, if anything is. -/
inductive IsSplit : List UInt8 → List (List UInt8) → Prop where
  | nil : IsSplit [] []
  | last {line : List UInt8} (some : line ≠ []) (plain : 10 ∉ line) : IsSplit line [line]
  | feed {line rest : List UInt8} {later : List (List UInt8)} (plain : 10 ∉ line)
      (split : IsSplit rest later) : IsSplit (line ++ 10 :: rest) ((line ++ [10]) :: later)

theorem lines_cons_feed (rest : List UInt8) : lines (10 :: rest) = [10] :: lines rest := by
  rw [lines, if_pos rfl]

theorem lines_cons_of_cons {byte : UInt8} {rest line : List UInt8} {later : List (List UInt8)}
    (plain : byte ≠ 10) (first : lines rest = line :: later) :
    lines (byte :: rest) = (byte :: line) :: later := by
  rw [lines, if_neg plain, first]

theorem lines_of_plain {line : List UInt8} (some : line ≠ []) (plain : 10 ∉ line) :
    lines line = [line] := by
  induction line with
  | nil => exact absurd rfl some
  | cons byte rest ih =>
    obtain ⟨here, behind⟩ := not_or.mp fun feed => plain (List.mem_cons.mpr feed)
    rcases eq_or_ne rest [] with rfl | more
    · rw [lines, if_neg (Ne.symm here), lines]
    · exact lines_cons_of_cons (Ne.symm here) (ih more behind)

theorem lines_plain_feed {line : List UInt8} (plain : 10 ∉ line) (rest : List UInt8) :
    lines (line ++ 10 :: rest) = (line ++ [10]) :: lines rest := by
  induction line with
  | nil => exact lines_cons_feed rest
  | cons byte line ih =>
    obtain ⟨here, behind⟩ := not_or.mp fun feed => plain (List.mem_cons.mpr feed)
    exact lines_cons_of_cons (Ne.symm here) (ih behind)

theorem isSplit_lines (input : List UInt8) : IsSplit input (lines input) := by
  induction input with
  | nil => exact .nil
  | cons byte rest ih =>
    by_cases feed : byte = 10
    · subst feed
      rw [lines_cons_feed]
      exact .feed List.not_mem_nil ih
    · -- The byte goes in front of the first line behind it, if there is one.
      generalize split : lines rest = later at ih
      cases ih with
      | nil =>
        rw [lines, if_neg feed, split]
        exact .last (List.cons_ne_nil _ _) (by simpa using Ne.symm feed)
      | last some plain =>
        rw [lines_cons_of_cons feed split]
        exact .last (List.cons_ne_nil _ _) (by simp [plain, Ne.symm feed])
      | feed plain later =>
        rw [lines_cons_of_cons feed split]
        rw [← List.cons_append, ← List.cons_append]
        exact .feed (by simp [plain, Ne.symm feed]) later

/-- An input has exactly its lines. -/
theorem isSplit_iff {input : List UInt8} {pieces : List (List UInt8)} :
    IsSplit input pieces ↔ lines input = pieces := by
  constructor
  · intro split
    induction split with
    | nil => rfl
    | last some plain => exact lines_of_plain some plain
    | feed plain _ ih => rw [lines_plain_feed plain, ih]
  · rintro rfl
    exact isSplit_lines input

/-- The lines behind a line feed do not depend on what is in front of it. -/
theorem lines_append_feed (front later : List UInt8) :
    lines (front ++ 10 :: later) = lines (front ++ [10]) ++ lines later := by
  induction front with
  | nil => exact lines_cons_feed later
  | cons byte front ih =>
    by_cases feed : byte = 10
    · subst feed
      rw [List.cons_append, List.cons_append, lines_cons_feed, lines_cons_feed, ih, List.cons_append]
    · cases first : lines (front ++ [10]) with
      | nil =>
        have none := isSplit_iff.mpr first
        generalize same : front ++ [10] = input at none
        cases none
        simp at same
      | cons line more =>
        rw [first, List.cons_append] at ih
        rw [List.cons_append, List.cons_append, lines_cons_of_cons feed ih,
          lines_cons_of_cons feed first, List.cons_append]

/-! ## Texts of lines -/

/-- The line is a text in UTF-8, and this is the text without blanks at its ends. -/
def HasText (line : List UInt8) (source : String) : Prop :=
  ∃ text : String, text.toUTF8.data.toList = line ∧ source = .ofList (Text.trim text.toList)

/-- The text asks the console to end. -/
def IsExit (source : String) : Prop := source = "exit" ∨ source = "exit()"

/-- The line says something that is to be answered. -/
def Asks (line : List UInt8) (source : String) : Prop := HasText line source ∧ ¬ IsExit source

theorem eq_toList_iff {source : List Char} {text : String} :
    source = text.toList ↔ .ofList source = text := by
  rw [String.ext_iff, String.toList_ofList]

theorem isExit_iff {source : List Char} : isExit source = true ↔ IsExit (.ofList source) := by
  rw [isExit, IsExit, Bool.or_eq_true, decide_eq_true_iff, decide_eq_true_iff, eq_toList_iff,
    eq_toList_iff]

/-! ## Answers -/

/-- One more answer: that of the session that the ones before have left, or the tokens of the text,
which leave the session as it is. -/
def reply (limit : Nat) (mode : Mode) (done : List Response × Session) (source : String) :
    Option (List Response × Session) :=
  match mode with
  | .evaluate => (done.2.line limit source).map fun next => (done.1 ++ [next.1], next.2)
  | .tokens => some (done.1 ++ [⟨"", dump source⟩], done.2)

/-- The answers to texts one after the other, and the session that they leave.  There are none if
one of the texts is a program that reaches the limit of nested calls. -/
def replies (limit : Nat) (mode : Mode) (session : Session) (sources : List String) :
    Option (List Response × Session) :=
  sources.foldlM (reply limit mode) ([], session)

/-- What is written for an answer. -/
def exchange (prompt : String) (response : Response) : List Chunk :=
  [.shown prompt, .printed response.printed, .shown response.shown]

/-- What ends a console that still has these lines to read. -/
inductive Ends (limit : Nat) (mode : Mode) (session : Session) :
    List (List UInt8) → Ending → Prop where
  /-- There are no more. -/
  | input : Ends limit mode session [] .finished
  /-- The first of them is no valid UTF-8. -/
  | invalid {line : List UInt8} {later : List (List UInt8)}
      (invalid : ∀ source, ¬ HasText line source) :
      Ends limit mode session (line :: later) .invalidText
  /-- The first of them asks for it. -/
  | exit {line : List UInt8} {later : List (List UInt8)} {source : String}
      (text : HasText line source) (exit : IsExit source) :
      Ends limit mode session (line :: later) .finished
  /-- The program of the first of them reaches the limit of nested calls. -/
  | limit {line : List UInt8} {later : List (List UInt8)} {source : String}
      (asks : Asks line source) (evaluates : mode = .evaluate)
      (exhausted : session.line limit source = none) :
      Ends limit mode session (line :: later) .exhausted

/-- The transcript of answers to lines.  The lines in front are answered one after the other in the
session, the ones behind end the console, and there is a prompt before each line and before the
end. -/
def Recounts (limit : Nat) (settings : Settings) (session : Session)
    (pieces : List (List UInt8)) (t : Transcript) : Prop :=
  ∃ front behind sources responses session',
    pieces = front ++ behind ∧ List.Forall₂ Asks front sources ∧
    replies limit settings.mode session sources = some (responses, session') ∧
    Ends limit settings.mode session' behind t.ending ∧
    t.chunks = responses.flatMap (exchange settings.prompt) ++ [.shown settings.prompt]

section

variable (limit : Nat) (mode : Mode) (session : Session)

theorem reply_eq (done : List Response × Session) (source : String) :
    reply limit mode done source =
      (answer limit mode done.2 source).map fun next => (done.1 ++ [next.1], next.2) := by
  cases mode with
  | evaluate => rfl
  | tokens => rfl

theorem answer_eq_none_iff {source : String} :
    answer limit mode session source = none ↔
      mode = .evaluate ∧ session.line limit source = none := by
  cases mode with
  | evaluate => simp [answer]
  | tokens => simp [answer]

theorem reply_append (first : List Response) (done : List Response × Session) (source : String) :
    reply limit mode (first ++ done.1, done.2) source =
      (reply limit mode done source).map fun all => (first ++ all.1, all.2) := by
  simp [reply_eq, Function.comp_def]

theorem foldlM_reply (first : List Response) (done : List Response × Session)
    (sources : List String) :
    sources.foldlM (reply limit mode) (first ++ done.1, done.2) =
      (sources.foldlM (reply limit mode) done).map fun all => (first ++ all.1, all.2) := by
  induction sources generalizing done with
  | nil => rfl
  | cons source sources ih =>
    rw [List.foldlM_cons, List.foldlM_cons, reply_append]
    cases reply limit mode done source with
    | none => rfl
    | some next => exact ih next

variable {limit mode session} in
/-- The first text is answered, the others in the session behind it. -/
theorem replies_cons {source : String} {response : Response} {session' last : Session}
    {responses : List Response} {sources : List String}
    (answered : answer limit mode session source = some (response, session'))
    (others : replies limit mode session' sources = some (responses, last)) :
    replies limit mode session (source :: sources) = some (response :: responses, last) := by
  have first : reply limit mode ([], session) source = some ([response], session') := by
    rw [reply_eq, answered]
    rfl
  unfold replies at others ⊢
  rw [List.foldlM_cons, first]
  have all := foldlM_reply limit mode [response] ([], session') sources
  rw [others] at all
  exact all

/-! ## One line -/

variable {line : List UInt8} {source : String}

theorem step_of_invalid (invalid : ∀ source, ¬ HasText line source) :
    step limit mode session line = .stop .invalidText := by
  have undecoded : decode? line = none :=
    decode?_eq_none_iff.mpr fun text bytes => invalid _ ⟨text, bytes, rfl⟩
  rw [step, undecoded]

theorem step_of_exit (text : HasText line source) (exit : IsExit source) :
    step limit mode session line = .stop .finished := by
  obtain ⟨text, rfl, rfl⟩ := text
  rw [step, decode?_toUTF8]
  exact if_pos (isExit_iff.mpr exit)

theorem step_of_asks (asks : Asks line source) :
    step limit mode session line = (answer limit mode session source).elim (.stop .exhausted)
      fun next => .next next.1 next.2 := by
  obtain ⟨⟨text, rfl, rfl⟩, going⟩ := asks
  rw [step, decode?_toUTF8]
  dsimp only
  rw [if_neg (mt isExit_iff.mp going)]
  cases answer limit mode session (.ofList (Text.trim text.toList)) with
  | none => rfl
  | some next => rfl

/-- A line ends the console or is answered. -/
theorem step_cases (line : List UInt8) :
    (∃ ending, step limit mode session line = .stop ending ∧
      ∀ later, Ends limit mode session (line :: later) ending) ∨
    ∃ source response session', Asks line source ∧
      answer limit mode session source = some (response, session') ∧
      step limit mode session line = .next response session' := by
  by_cases valid : ∃ source, HasText line source
  · obtain ⟨source, text⟩ := valid
    by_cases exit : IsExit source
    · exact .inl ⟨.finished, step_of_exit limit mode session text exit, fun _ => .exit text exit⟩
    · have asks : Asks line source := ⟨text, exit⟩
      have next := step_of_asks limit mode session asks
      cases answered : answer limit mode session source with
      | none =>
        rw [answered] at next
        obtain ⟨evaluates, exhausted⟩ := (answer_eq_none_iff limit mode session).mp answered
        exact .inl ⟨.exhausted, next, fun _ => .limit asks evaluates exhausted⟩
      | some reply =>
        rw [answered] at next
        exact .inr ⟨source, reply.1, reply.2, asks, answered, next⟩
  · rw [not_exists] at valid
    exact .inl ⟨.invalidText, step_of_invalid limit mode session valid, fun _ => .invalid valid⟩

end

/-! ## All lines -/

theorem Transcript.after_after (t : Transcript) (chunks more : List Chunk) :
    (t.after more).after chunks = t.after (chunks ++ more) := by
  simp [Transcript.after]

section

variable {limit : Nat} {settings : Settings} {session session' : Session} {line : List UInt8}
  {later : List (List UInt8)}

theorem runLines_of_stop {ending : Ending}
    (stop : step limit settings.mode session line = .stop ending) :
    runLines limit settings session (line :: later) = ⟨[.shown settings.prompt], ending⟩ := by
  rw [runLines, stop]

theorem runLines_of_next {response : Response}
    (next : step limit settings.mode session line = .next response session') :
    runLines limit settings session (line :: later) =
      (runLines limit settings session' later).after (exchange settings.prompt response) := by
  rw [runLines, next]
  rfl

/-- A console writes its answers to the lines before its end. -/
theorem recounts_runLines (limit : Nat) (settings : Settings) (session : Session)
    (pieces : List (List UInt8)) :
    Recounts limit settings session pieces (runLines limit settings session pieces) := by
  induction pieces generalizing session with
  | nil => exact ⟨[], [], [], [], session, rfl, .nil, rfl, .input, rfl⟩
  | cons line later ih =>
    rcases step_cases limit settings.mode session line with
      ⟨ending, stop, ends⟩ | ⟨source, response, session', asks, answered, next⟩
    · rw [runLines_of_stop stop]
      exact ⟨[], line :: later, [], [], session, rfl, .nil, rfl, ends later, rfl⟩
    · obtain ⟨front, behind, sources, responses, last, rfl, all, others, ends, chunks⟩ := ih session'
      rw [runLines_of_next next]
      refine ⟨line :: front, behind, source :: sources, response :: responses, last, rfl,
        .cons asks all, replies_cons answered others, ends, ?_⟩
      rw [Transcript.after, chunks, List.flatMap_cons, List.append_assoc]

/-- The console ends at one of these lines, and the lines behind them do not matter. -/
def EndsWithin (limit : Nat) (settings : Settings) (session : Session)
    (pieces : List (List UInt8)) : Prop :=
  ∀ later, runLines limit settings session (pieces ++ later) = runLines limit settings session pieces

theorem endsWithin_of_stop {ending : Ending}
    (stop : step limit settings.mode session line = .stop ending) :
    EndsWithin limit settings session (line :: later) := by
  intro more
  rw [List.cons_append, runLines_of_stop stop, runLines_of_stop stop]

theorem EndsWithin.cons {response : Response} (ends : EndsWithin limit settings session' later)
    (next : step limit settings.mode session line = .next response session') :
    EndsWithin limit settings session (line :: later) := by
  intro more
  rw [List.cons_append, runLines_of_next next, runLines_of_next next, ends more]

/-- The line ends every console: it is no valid UTF-8, or asks for the end. -/
def IsLast (line : List UInt8) : Prop := ∀ source, HasText line source → IsExit source

/-- What comes behind a line that ends every console does not matter. -/
theorem endsWithin_of_last {pieces : List (List UInt8)} (last : ∃ line ∈ pieces, IsLast line)
    (session : Session) : EndsWithin limit settings session pieces := by
  induction pieces generalizing session with
  | nil => simp at last
  | cons line pieces ih =>
    rcases step_cases limit settings.mode session line with
      ⟨ending, stop, -⟩ | ⟨source, response, session', asks, -, next⟩
    · exact endsWithin_of_stop stop
    · obtain ⟨other, among, last⟩ := last
      rcases List.mem_cons.mp among with rfl | among
      · exact absurd (last source asks.1) asks.2
      · exact (ih ⟨other, among, last⟩ session').cons next

/-- The second transcript has one answer more, behind that many answers. -/
def Adds (prompt : String) (place : Nat) (response : Response) (t t' : Transcript) : Prop :=
  ∃ (responses : List Response) (rest : Transcript), responses.length = place ∧
    t = rest.after (responses.flatMap (exchange prompt)) ∧
    t' = rest.after ((responses ++ [response]).flatMap (exchange prompt))

theorem Adds.after {prompt : String} {place : Nat} {response : Response} {t t' : Transcript}
    (adds : Adds prompt place response t t') (first : Response) :
    Adds prompt (place + 1) response (t.after (exchange prompt first))
      (t'.after (exchange prompt first)) := by
  obtain ⟨responses, rest, rfl, rfl, rfl⟩ := adds
  refine ⟨first :: responses, rest, rfl, ?_, ?_⟩
  · rw [Transcript.after_after, List.flatMap_cons]
  · rw [Transcript.after_after, List.cons_append, List.flatMap_cons]

/-- A line that leaves every session as it is adds its own answer only, unless the console ends
before it. -/
theorem endsWithin_or_adds {extra : List UInt8} {response : Response}
    (same : ∀ session, step limit settings.mode session extra = .next response session)
    (session : Session) (front behind : List (List UInt8)) :
    EndsWithin limit settings session front ∨
      Adds settings.prompt front.length response
        (runLines limit settings session (front ++ behind))
        (runLines limit settings session (front ++ extra :: behind)) := by
  induction front generalizing session with
  | nil =>
    refine .inr ⟨[], runLines limit settings session behind, rfl, rfl, ?_⟩
    rw [List.nil_append, runLines_of_next (same session), List.nil_append, List.flatMap_singleton]
  | cons line front ih =>
    rcases step_cases limit settings.mode session line with
      ⟨ending, stop, -⟩ | ⟨source, first, session', -, -, next⟩
    · exact .inl (endsWithin_of_stop stop)
    · rcases ih session' with ends | adds
      · exact .inl (ends.cons next)
      · rw [List.cons_append, List.cons_append, runLines_of_next next, runLines_of_next next]
        exact .inr (adds.after first)

end

theorem step_of_unreadable (limit : Nat) {line : List UInt8} {source : String}
    (asks : Asks line source) (unreadable : (parse source).diagnostics ≠ []) (session : Session) :
    step limit .evaluate session line =
      .next ⟨"", report (parse source).diagnostics⟩ session := by
  rw [step_of_asks limit .evaluate session asks, answer, Session.line_of_unreadable unreadable]
  rfl

/-- A console is the fold of its answers over the lines of its input, which are the pieces up to and
including each line feed.  It writes what they are answered, by one session or by the listings of
their tokens, up to the first line that ends it.  A session answers a line by its diagnostics or by
the result of its program.  The bytes behind a line that ends every console do not matter, and a
line that cannot be read adds its diagnostics and changes nothing else. -/
theorem run_recounts_lines (limit : Nat) (settings : Settings) :
    (∀ session source response session',
      Session.line limit session source = some (response, session') ↔
        session.Answers limit source response session') ∧
    (∀ input, ∃ pieces, IsSplit input pieces ∧
      Recounts limit settings .start pieces (run limit settings input)) ∧
    (∀ front later, (∃ line ∈ lines (front ++ [10]), IsLast line) →
      run limit settings (front ++ 10 :: later) = run limit settings (front ++ [10])) ∧
    ∀ input input' front behind line source,
      IsSplit input (front ++ behind) → IsSplit input' (front ++ line :: behind) →
      settings.mode = .evaluate → Asks line source → (parse source).diagnostics ≠ [] →
      EndsWithin limit settings .start front ∧
          run limit settings input' = run limit settings input ∨
        Adds settings.prompt front.length ⟨"", report (parse source).diagnostics⟩
          (run limit settings input) (run limit settings input') := by
  refine ⟨fun _ _ _ _ => Session.line_iff_answers, ?_, ?_, ?_⟩
  · intro input
    exact ⟨lines input, isSplit_lines input, recounts_runLines limit settings .start _⟩
  · intro front later last
    rw [run, run, lines_append_feed]
    exact endsWithin_of_last last .start (lines later)
  · intro input input' front behind line source split split' mode asks unreadable
    rw [run, run, isSplit_iff.mp split, isSplit_iff.mp split']
    have same := step_of_unreadable limit asks unreadable
    rw [← mode] at same
    rcases endsWithin_or_adds same .start front behind with ends | adds
    · exact .inl ⟨ends, (ends _).trans (ends _).symm⟩
    · exact .inr adds

/-- The line that cannot be read stands between one that binds a name and one that asks for it.
Both consoles answer the last line with the value of the name. -/
theorem run_recounts_lines_around_unreadable :
    let short := run 8 ⟨">> ", .evaluate⟩ "let a = 5;\na\n".toUTF8.data.toList
    let long := run 8 ⟨">> ", .evaluate⟩ "let a = 5;\nlet = 7;\na\n".toUTF8.data.toList
    Adds ">> " 1 ⟨"", report (parse "let = 7;").diagnostics⟩ short long ∧
      short.text = ">> >> 5\n>> " ∧
      long.text = ">> >> " ++ report (parse "let = 7;").diagnostics ++ ">> 5\n>> " ∧
      (run 8 ⟨"", .tokens⟩ "a\nexit\nb".toUTF8.data.toList).text =
        "\x7b\"Type\":\"IDENT\",\"Literal\":\"a\"\x7d\n" := by
  intro short long
  have split : IsSplit "let a = 5;\na\n".toUTF8.data.toList
      (["let a = 5;\n".toUTF8.data.toList] ++ ["a\n".toUTF8.data.toList]) :=
    isSplit_iff.mpr (by decide +kernel)
  have split' : IsSplit "let a = 5;\nlet = 7;\na\n".toUTF8.data.toList
      (["let a = 5;\n".toUTF8.data.toList] ++
        "let = 7;\n".toUTF8.data.toList :: ["a\n".toUTF8.data.toList]) :=
    isSplit_iff.mpr (by decide +kernel)
  have asks : Asks "let = 7;\n".toUTF8.data.toList "let = 7;" :=
    ⟨⟨"let = 7;\n", rfl, by decide +kernel⟩, by unfold IsExit; decide +kernel⟩
  have unreadable : (parse "let = 7;").diagnostics ≠ [] := by decide +kernel
  refine ⟨?_, by decide +kernel, by decide +kernel, by decide +kernel⟩
  have unread := (run_recounts_lines 8 ⟨">> ", .evaluate⟩).2.2.2
  rcases unread _ _ _ _ _ _ split split' rfl asks unreadable with ⟨ends, -⟩ | adds
  · have length := congrArg (fun t => t.chunks.length) (ends ["a\n".toUTF8.data.toList])
    exact absurd length (by decide +kernel)
  · exact adds

end Console

end MonkeyLang
