import MonkeyLang.Proofs.Reader

/-!
# What readings keep

A reading goes on from state to state until it succeeds or fails.  If it fails, all readers around
it fail as well, up to the statement it belongs to; that statement is left out, and reading goes on
behind the token where it failed.  So an invariant of readings has two sides: what holds while a
reading goes on, and what holds when it has failed, until a token is passed over.

The invariant can depend on the levels that are left for nesting.  Every expression that is read
inside another one has one level less, and it starts behind a token of the other; so does every
operator, call or subscript that is joined.  This is where tokens and levels are compared.

## Main definitions

* `Parse.Ends`: a property of the state in which a reading succeeds, and one for failure
* `ReadingInvariant`: an invariant with its two sides

## Main results

* `Parse.Ends.bind`, `Parse.Ends.many`: readings one behind the other
* `ReadingInvariant.operand_ends`, `ReadingInvariant.joined_ends`: one level of the grammar
* `ReadingInvariant.expression_ends`, `ReadingInvariant.program_ends`: whole readings keep the
  invariant
-/

namespace MonkeyLang

/-! ## Success and failure -/

namespace Parse

variable {α β : Type} {good good' bad bad' mid : ParseState → Prop}

/-- The reading succeeds in a state with the property `good`, or fails in one with the property
`bad`. -/
def Ends (good bad : ParseState → Prop) : Option α × ParseState → Prop
  | (some _, s) => good s
  | (none, s) => bad s

namespace Ends

theorem mono {result : Option α × ParseState} (h : Ends good bad result)
    (succeeds : ∀ s, good s → good' s) (fails : ∀ s, bad s → bad' s) :
    Ends good' bad' result := by
  obtain ⟨_ | a, s⟩ := result
  · exact fails s h
  · exact succeeds s h

/-- Whether it succeeds or fails, the reading has left a state. -/
theorem state {result : Option α × ParseState} (h : Ends good bad result) :
    good result.2 ∨ bad result.2 := by
  obtain ⟨_ | a, s⟩ := result
  · exact .inr h
  · exact .inl h

/-- One reading behind another; a failure of the first is a failure of both. -/
theorem bind {p : Parse α} {f : α → Parse β} {s : ParseState} (hp : Ends mid bad (p s))
    (hf : ∀ a s', mid s' → Ends good bad (f a s')) : Ends good bad ((p >>= f) s) := by
  rcases run : p s with ⟨_ | a, s'⟩ <;> rw [run] at hp
  · rw [bind_of_none f run]
    exact hp
  · rw [bind_of_some f run]
    exact hf a s' hp

/-- The token that is due leads on, and any other token is a failure. -/
theorem expect {due : Token.Kind} {s : ParseState} (succeeds : s.peek.kind = due → good s.next)
    (fails : bad (s.note s.peek.position (.unexpected due s.peek))) :
    Ends good bad (expect due s) := by
  unfold Parse.expect Reading.expect
  rw [bind_peek]
  split
  · next due => exact succeeds due
  · exact fails

/-- A statement that fails is left out. -/
theorem attempt {p : Parse α} {s : ParseState} (h : Ends good bad (p s))
    (succeeds : ∀ s, good s → mid s) (fails : ∀ s, bad s → mid s) :
    Ends mid bad' (attempt p s) := by
  rw [attempt_run]
  rcases run : p s with ⟨_ | a, s'⟩ <;> rw [run] at h
  · exact fails s' h
  · exact succeeds s' h

/-- What every round keeps, a repetition keeps. -/
theorem many {more : ParseState → Bool} {p : Parse α}
    (round : ∀ s, good s → Ends good bad (p s)) (s : ParseState) (start : good s) :
    Ends good bad (many more p s) := by
  induction s using many_induct more p with
  | stop s stop =>
    rw [many_of_stop stop]
    exact start
  | failed s s' go failed =>
    have first := round s start
    rw [failed] at first
    rw [many_of_failed go failed]
    exact first
  | stuck s s' a go read stuck =>
    have first := round s start
    rw [read] at first
    rw [many_of_stuck go read stuck]
    exact first
  | round s s' a go read less ih =>
    have first := round s start
    rw [read] at first
    have others := ih first
    rw [many_of_round go read less]
    rcases rest : Parse.many more p s' with ⟨_ | as, s''⟩
    all_goals
      rw [rest] at others
      exact others

end Ends

end Parse

/-! ## Invariants -/

/-- What readings keep, with a number of levels left. -/
structure ReadingInvariant where
  /-- Holds while a reading goes on. -/
  Going (room : Nat) : ParseState → Prop
  /-- Holds when a reading has failed. -/
  Failed (room : Nat) : ParseState → Prop
  /-- With more levels less is asked for. -/
  going_succ {room : Nat} {s : ParseState} : Going room s → Going (room + 1) s
  failed_succ {room : Nat} {s : ParseState} : Failed room s → Failed (room + 1) s
  /-- Tokens can be passed over. -/
  next {room : Nat} {s : ParseState} : Going room s → Going room s.next
  /-- Behind a token, one level less is enough. -/
  inside {room : Nat} {s : ParseState} : Going (room + 1) s → s.ahead ≠ [] → Going room s.next
  /-- The tokens in view can be complained about. -/
  noteCurrent {room : Nat} {s : ParseState} {c : Complaint} :
    Going room s → c ≠ .nestedTooDeeply → Failed room (s.note s.current.position c)
  notePeek {room : Nat} {s : ParseState} {c : Complaint} :
    Going room s → c ≠ .nestedTooDeeply → Failed room (s.note s.peek.position c)
  /-- Reading goes on behind the token where it failed. -/
  resume {room : Nat} {s : ParseState} : Failed room s → Going room s.next
  /-- Without a level there is no expression. -/
  tooDeep {s : ParseState} : Going 0 s → Failed 0 (s.note s.current.position .nestedTooDeeply)
  /-- Without another level nothing is joined. -/
  tooDeepToJoin {s : ParseState} : Going 1 s → s.peek.kind ≠ .eof →
    Failed 1 (s.note s.current.position .nestedTooDeeply)

namespace ReadingInvariant

open Parse Grammar

variable {α β : Type} (I : ReadingInvariant) {room : Nat} {s : ParseState}

/-- The reading keeps the invariant. -/
def Ends (room : Nat) (result : Option α × ParseState) : Prop :=
  Parse.Ends (I.Going room) (I.Failed room) result

/-- Behind a token of a kind that is not the end, one level less is enough. -/
theorem inside_of_kind (going : I.Going (room + 1) s) {kind : Token.Kind}
    (here : s.current.kind = kind) (real : kind ≠ .eof) : I.Going room s.next := by
  refine I.inside going ?_
  rw [ParseState.ahead_eq_of_kind here real]
  exact List.cons_ne_nil _ _

variable {I}

theorem Ends.succ {result : Option α × ParseState} (h : I.Ends room result) :
    I.Ends (room + 1) result :=
  h.mono (fun _ => I.going_succ) fun _ => I.failed_succ

theorem Ends.bind {p : Parse α} {f : α → Parse β} (hp : I.Ends room (p s))
    (hf : ∀ a s', I.Going room s' → I.Ends room (f a s')) : I.Ends room ((p >>= f) s) :=
  Parse.Ends.bind hp hf

theorem pure_ends (a : α) (going : I.Going room s) : I.Ends room ((pure a : Parse α) s) := going

theorem advance_ends (going : I.Going room s) : I.Ends room (advance s) := I.next going

theorem expect_ends (due : Token.Kind) (going : I.Going room s) : I.Ends room (expect due s) :=
  .expect (fun _ => I.next going) (I.notePeek going nofun)

theorem skip_ends (kind : Token.Kind) (going : I.Going room s) : I.Ends room (skip kind s) := by
  rw [skip_run]
  split
  · exact I.next going
  · exact going

/-- The end of many readers: a token that is due, and the result. -/
theorem close_ends (due : Token.Kind) (a : α) (going : I.Going room s) :
    I.Ends room ((expect due >>= fun _ => pure a) s) :=
  .bind (expect_ends due going) fun _ _ => pure_ends a

/-! ## The readers of the grammar

The readers that start with a token of the outer expression, such as an opening bracket, are read
behind that token with a level less.  Where they can fail at that token itself, the failure is one
of the outer expression. -/

theorem parameters_ends (going : I.Going room s) :
    I.Ends room ((parameters : Parse (List String)) s) := by
  unfold parameters
  rw [bind_peek]
  split
  · exact I.next going
  · refine .bind (expect_ends _ going) fun _ s going => ?_
    rw [bind_current]
    refine .bind (Parse.Ends.many (fun s going => ?_) s going) fun _ s going => close_ends _ _ going
    refine .bind (advance_ends going) fun _ s going => .bind (expect_ends _ going) fun _ s going => ?_
    exact going

section Parts

variable {expr : Precedence → Parse Expr}
  (h : ∀ p s, I.Going room s → I.Ends room (expr p s))
include h

theorem expressions_ends (close : Token.Kind) (inside : I.Going room s.next) :
    I.Ends room (expressions expr close s) := by
  unfold expressions
  rw [bind_peek]
  split
  · exact inside
  · rw [bind_advance]
    refine .bind (h _ _ inside) fun first s going => ?_
    refine .bind (Parse.Ends.many (fun s going => ?_) s going) fun _ s going => close_ends _ _ going
    rw [bind_advance, bind_advance]
    exact h _ _ (I.next (I.next going))

theorem pair_ends (inside : I.Going room s.next) : I.Ends room (pair expr s) := by
  unfold pair
  rw [bind_advance]
  refine .bind (h _ _ inside) fun key s going => .bind (expect_ends _ going) fun _ s going => ?_
  rw [bind_advance]
  refine .bind (h _ _ (I.next going)) fun value s going => ?_
  rw [bind_peek]
  split
  · exact going
  · exact close_ends _ _ going

theorem pairs_ends (going : I.Going (room + 1) s) (inside : I.Going room s.next) :
    I.Ends (room + 1) (pairs expr s) := by
  have entries : Parse.Ends (fun s => I.Going (room + 1) s ∧ I.Going room s.next)
      (I.Failed (room + 1)) (many (fun s => s.peek.kind ≠ .rightBrace) (pair expr) s) := by
    refine .many (fun s outer => ?_) s ⟨going, inside⟩
    exact (pair_ends h outer.2).mono (fun _ going => ⟨I.going_succ going, I.next going⟩)
      fun _ => I.failed_succ
  exact Parse.Ends.bind entries fun _ s outer => close_ends _ _ outer.1

theorem segment_ends (closing : List Token.Kind) (going : I.Going room s) :
    I.Ends room (Grammar.segment expr closing s) := by
  unfold Grammar.segment
  rw [bind_peek]
  split
  · exact going
  · rw [bind_advance]
    exact .bind (h _ _ (I.next going)) fun _ _ => pure_ends _

theorem sliceFrom_ends (start : Option Expr) (inside : I.Going room s.next) :
    I.Ends room (sliceFrom expr start s) := by
  unfold sliceFrom
  rw [bind_advance]
  refine .bind (segment_ends h _ inside) fun stop s going => ?_
  rw [bind_peek]
  split
  · rw [bind_advance]
    exact .bind (segment_ends h _ (I.next going)) fun _ s going => close_ends _ _ going
  · exact close_ends _ _ going

theorem subscript_ends (inside : I.Going room s.next) : I.Ends room (subscript expr s) := by
  unfold subscript
  rw [bind_peek]
  split
  · exact inside
  · split
    · exact sliceFrom_ends h _ inside
    · rw [bind_advance]
      refine .bind (h _ _ inside) fun index s going => ?_
      rw [bind_peek]
      split
      · exact sliceFrom_ends h _ (I.next going)
      · exact close_ends _ _ going

theorem statement_ends (going : I.Going room s) : I.Ends room (statement expr s) := by
  have finish (build : Expr → Stmt) {s : ParseState} (going : I.Going room s) :
      I.Ends room ((expr .lowest >>= fun value => skip .semicolon >>= fun _ =>
        pure (build value)) s) :=
    .bind (h _ _ going) fun _ s going => .bind (skip_ends _ going) fun _ _ => pure_ends _
  refine statement_cases expr s (fun _ => ?_) (fun _ => ?_) (fun _ _ => ?_)
  · refine .bind (expect_ends _ going) fun _ s going => ?_
    rw [bind_current]
    refine .bind (expect_ends _ going) fun _ s going => ?_
    rw [bind_advance]
    exact finish _ (I.next going)
  · exact finish _ (I.next going)
  · exact finish _ going

/-- Whether a statement is read or left out, reading goes on behind it. -/
theorem statementRound_ends (going : I.Going room s) : I.Ends room (statementRound expr s) := by
  have read : Parse.Ends (fun s => I.Going room s.next) (I.Failed room)
      (attempt (statement expr) s) :=
    .attempt (statement_ends h going) (fun _ => I.next) fun _ => I.resume
  exact Parse.Ends.bind read fun _ s going => going

theorem statements_ends (more : ParseState → Bool) (going : I.Going room s) :
    I.Ends room (statements expr more s) :=
  .bind (Parse.Ends.many (fun _ => statementRound_ends h) s going) fun _ _ => pure_ends _

theorem block_ends (going : I.Going room s) : I.Ends room (block expr s) := by
  unfold block
  rw [bind_advance]
  exact statements_ends h _ (I.next going)

theorem group_ends (inside : I.Going room s.next) : I.Ends room (group expr s) := by
  unfold group
  rw [bind_advance]
  exact .bind (h _ _ inside) fun _ s going => close_ends _ _ going

theorem conditional_ends (going : I.Going (room + 1) s) (inside : I.Going room s.next) :
    I.Ends (room + 1) (conditional expr s) := by
  have opening : Parse.Ends (I.Going room) (I.Failed (room + 1)) (expect .leftParen s) :=
    .expect (fun _ => inside) (I.notePeek going nofun)
  refine Parse.Ends.bind opening fun _ s going => Ends.succ ?_
  rw [bind_advance]
  refine .bind (h _ _ (I.next going)) fun test s going => .bind (expect_ends _ going) fun _ s going => ?_
  refine .bind (expect_ends _ going) fun _ s going => .bind (block_ends h going) fun yes s going => ?_
  rw [bind_peek]
  split
  · rw [bind_advance]
    refine .bind (expect_ends _ (I.next going)) fun _ s going => ?_
    exact .bind (block_ends h going) fun _ _ => pure_ends _
  · exact going

theorem function_ends (going : I.Going (room + 1) s) (inside : I.Going room s.next) :
    I.Ends (room + 1) (function expr s) := by
  have opening : Parse.Ends (I.Going room) (I.Failed (room + 1)) (expect .leftParen s) :=
    .expect (fun _ => inside) (I.notePeek going nofun)
  refine Parse.Ends.bind opening fun _ s going => Ends.succ ?_
  refine .bind (parameters_ends going) fun _ s going => .bind (expect_ends _ going) fun _ s going => ?_
  exact .bind (block_ends h going) fun _ _ => pure_ends _

/-- If the expressions inside keep the invariant with the levels they have, an operand keeps it with
one level more. -/
theorem operand_ends (going : I.Going (room + 1) s) : I.Ends (room + 1) (operand expr s) := by
  -- an operand with expressions inside starts with a token of its own
  have inside {kind : Token.Kind} : s.current.kind = kind → kind ≠ .eof → I.Going room s.next :=
    I.inside_of_kind going
  apply operand_cases expr s
  case int =>
    intro _
    unfold integer
    split
    · exact going
    · exact I.noteCurrent going nofun
  case bool => exact fun _ _ => going
  case unary =>
    intro op here
    have real : op.kind ≠ .eof := by cases op <;> nofun
    exact .succ (.bind (h _ _ (inside here real)) fun _ _ => pure_ends _)
  case paren => exact fun here => .succ (group_ends h (inside here nofun))
  case cond => exact fun here => conditional_ends h going (inside here nofun)
  case fn => exact fun here => function_ends h going (inside here nofun)
  case array =>
    exact fun here => .succ (.bind (expressions_ends h _ (inside here nofun)) fun _ _ => pure_ends _)
  case hash =>
    exact fun here => .bind (pairs_ends h going (inside here nofun)) fun _ _ => pure_ends _
  case other => exact I.noteCurrent going nofun
  all_goals exact fun _ => going

/-- If the expressions inside keep the invariant with the levels they have, what is joined keeps it
with one level more. -/
theorem joined_ends (left : Expr) (going : I.Going (room + 1) s) :
    I.Ends (room + 1) (joined expr left s) := by
  have inside {kind : Token.Kind} : s.current.kind = kind → kind ≠ .eof → I.Going room s.next :=
    I.inside_of_kind going
  apply joined_cases expr s left
  case call =>
    exact fun here => .succ (.bind (expressions_ends h _ (inside here nofun)) fun _ _ => pure_ends _)
  case index =>
    exact fun here => .succ (.bind (subscript_ends h (inside here nofun)) fun _ _ => pure_ends _)
  case binary =>
    intro op here
    have real : op.kind ≠ .eof := by cases op <;> nofun
    exact .succ (.bind (h _ _ (inside here real)) fun _ _ => pure_ends _)
  case other => exact fun _ => going

end Parts

/-- A token that binds to the expression before it is no end token. -/
theorem peek_kind_ne_eof {p : Precedence} (binds : p.rank < s.peek.kind.precedence.rank) :
    s.peek.kind ≠ .eof := by
  intro finish
  rw [finish] at binds
  exact Nat.not_lt_zero _ binds

variable (I) in
/-- Reading an expression keeps the invariant with the levels it has, and so does joining to it what
follows, with one level more: that of the expression itself. -/
theorem expression_climb_ends (room : Nat) :
    (∀ p s, I.Going room s → I.Ends room (expression room p s)) ∧
      ∀ p left s, I.Going (room + 1) s → I.Ends (room + 1) (climb room p left s) := by
  induction room with
  | zero =>
    refine ⟨fun p s going => I.tooDeep going, fun p left s going => ?_⟩
    by_cases binds : p.rank < s.peek.kind.precedence.rank
    · rw [climb_zero binds]
      exact I.tooDeepToJoin going (peek_kind_ne_eof binds)
    · rw [climb_of_not_binds binds]
      exact going
  | succ room ih =>
    obtain ⟨expr, climbs⟩ := ih
    refine ⟨fun p s going => ?_, fun p left s going => ?_⟩
    · rw [expression]
      exact .bind (operand_ends expr going) fun left s going => climbs p left s going
    · by_cases binds : p.rank < s.peek.kind.precedence.rank
      · -- the token that binds stands behind the current one, so there is a current one
        have behind : s.ahead ≠ [] := by
          intro none
          exact peek_kind_ne_eof binds (by simp [ParseState.peek, none, Token.finish])
        rw [climb_succ binds]
        refine .succ (.bind (joined_ends expr left (I.inside going behind)) fun next s going => ?_)
        exact climbs p next s going
      · rw [climb_of_not_binds binds]
        exact going

theorem expression_ends (p : Precedence) (going : I.Going room s) :
    I.Ends room (expression room p s) := (expression_climb_ends I room).1 p s going

theorem program_ends (going : I.Going maxNesting s) : I.Ends maxNesting (program s) :=
  statements_ends (fun p _ => expression_ends p) _ going

end ReadingInvariant

end MonkeyLang
